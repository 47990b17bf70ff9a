import Privahub.Sched.Service

/-!
# Project jobs and the sync of their status

`project_job` beside the tables of the scheduler, and who writes the status of a job or of its tasks:
`SyncJob` and `MarkJobDeleted` (both under `applyMu`), which the poller and the job watch feed, the stop of
a job by a user, the job chain of a graph, and the calls of the scheduler. A transaction is one step. The
logs, the progress and the results of tasks are left out.
-/

namespace Job

open Table (updateWhere)
open Sched (Time NodeStatus ProjectJobTaskDO ProjectScheduleJobDO ProjectScheduleTaskDO JobExecutionStatus)

abbrev JobStatus := Sched.ScheduleJobStatus

abbrev JobTaskStatusDetail := Sched.TaskStatus

structure JobStatusDetailInfo where
  state : Bytes
  errMsg : Bytes
  endTime : Bytes
  tasks : List JobTaskStatusDetail

def JobStatusFromKuscia (state : Bytes) : JobStatus :=
  if state = str "Succeeded" then .succeed
  else if state = str "Failed" then .failed
  else if state = str "Stopped" ∨ state = str "Cancelled" then .stopped
  else .running

def TaskStatusFromKuscia (state : Bytes) : NodeStatus :=
  if state = str "Succeeded" then .succeed
  else if state = str "Failed" then .failed
  else if state = str "Running" then .running
  else if state = str "Stopped" ∨ state = str "Cancelled" then .stopped
  else .initialized

def IsKusciaFinishedState (state : Bytes) : Bool := decide (state = str "Failed" ∨ state = str "Succeeded")

def IsJobFinished (s : JobStatus) : Bool := Sched.isScheduleJobFinished s

def NormalizeTaskStatus : NodeStatus → NodeStatus
  | .pending => .initialized
  | s => s

def raw (t : JobTaskStatusDetail) : Bytes := if t.alias_ = [] then t.taskId else t.alias_

/-- What comes before the first `--` of a name, if there is one. -/
def beforeDashes : Bytes → Option Bytes
  | [] => none
  | b :: rest =>
    if b = 45 ∧ rest.head? = some 45 then some [] else (beforeDashes rest).map (b :: ·)

/-- The last report of an extended task of `id`. -/
def ext (tasks : List JobTaskStatusDetail) (id : Bytes) : Option JobTaskStatusDetail :=
  tasks.reverse.find? fun t => decide (beforeDashes (raw t) = some id)

/-- The last report of the task `id` itself. -/
def base (tasks : List JobTaskStatusDetail) (id : Bytes) : Option JobTaskStatusDetail :=
  tasks.reverse.find? fun t => decide (raw t = id ∧ beforeDashes (raw t) = none)

def extOnly (e : JobTaskStatusDetail) : JobTaskStatusDetail :=
  if TaskStatusFromKuscia e.state = .succeed ∨ TaskStatusFromKuscia e.state = .running then { e with state := str "Running" } else e

def withExt (b e : JobTaskStatusDetail) : JobTaskStatusDetail :=
  if TaskStatusFromKuscia e.state = .failed then { b with state := str "Failed", errMsg := e.errMsg }
  else if TaskStatusFromKuscia b.state = .initialized ∧ TaskStatusFromKuscia e.state ≠ .initialized then
    { b with state := str "Running" }
  else b

/-- The entry of `id` in the map that the reports are merged to. -/
def mergeExtendedTasks (tasks : List JobTaskStatusDetail) (id : Bytes) : Option JobTaskStatusDetail :=
  match base tasks id, ext tasks id with
  | none, none => none
  | none, some e => some (extOnly e)
  | some b, none => some b
  | some b, some e => some (withExt b e)

structure ProjectJobDO where
  id : Int
  projectId : Bytes
  jobId : Bytes
  graphId : Bytes
  status : JobStatus
  errMsg : Bytes
  finishedTime : Option Time
  gmtCreate : Time
  deriving DecidableEq

/-- The tables, the lock of the sync service and the next primary key of `project_job`. -/
structure Db where
  sched : Sched.Db
  jobs : List ProjectJobDO
  applyMu : Bool
  nextJob : Int
  job_pks : (jobs.map (·.id)).Nodup
  job_ids : (jobs.map (·.jobId)).Nodup
  job_new : ∀ j ∈ jobs, j.id < nextJob

namespace Db

variable (db : Db)

def locked (b : Bool) : Db := { db with applyMu := b }

def setSched (sched : Sched.Db) : Db := { db with sched := sched }

def setTasks (tasks : List ProjectJobTaskDO) : Db := db.setSched { db.sched with jobTasks := tasks }

/-- An update of the columns `status`, `err_msg` and `finished_time` of project jobs. -/
def updateJobs (p : ProjectJobDO → Bool) (status : Option JobStatus) (errMsg : Option Bytes) (finishedTime : Option Time) : Db :=
  { db with
    jobs := updateWhere p (fun j => { j with
      status := status.getD j.status
      errMsg := errMsg.getD j.errMsg
      finishedTime := finishedTime <|> j.finishedTime }) db.jobs
    job_pks := Table.nodup_updateWhere (fun _ => rfl) db.job_pks
    job_ids := Table.nodup_updateWhere (fun _ => rfl) db.job_ids
    job_new := by
      intro j hj
      obtain ⟨k, hk, rfl⟩ := Table.mem_updateWhere.1 hj
      split_ifs
      · exact db.job_new k hk
      · exact db.job_new k hk }

def findJob (jobId : Bytes) : Option ProjectJobDO := db.jobs.find? fun j => decide (j.jobId = jobId)

end Db

def inJob (projectId jobId : Bytes) (k : ProjectJobTaskDO) : Bool := decide (k.projectId = projectId ∧ k.jobId = jobId)

def taskKey (k : ProjectJobTaskDO) : Bytes × Bytes × Bytes := (k.projectId, k.jobId, k.taskId)

def isPending (s : NodeStatus) : Bool := decide (NormalizeTaskStatus s = .running ∨ NormalizeTaskStatus s = .initialized)

/-- `stopJobTasksTx`, which `stopProjectJob` repeats. -/
def stopJobTasks (projectId jobId : Bytes) (tasks : List ProjectJobTaskDO) : List ProjectJobTaskDO :=
  updateWhere (fun k => inJob projectId jobId k && isPending k.status) (fun k => { k with status := .stopped }) tasks

namespace Db

variable (db : Db)

def createJob (j : ProjectJobDO) (tasks : List ProjectJobTaskDO) : Option Db :=
  if h : (∀ k ∈ db.jobs, k.jobId ≠ j.jobId) ∧ (tasks.map taskKey).Nodup ∧
      ∀ t ∈ tasks, ∀ k ∈ db.sched.jobTasks, taskKey k ≠ taskKey t then
    some { db with
      sched := { db.sched with jobTasks := db.sched.jobTasks ++ tasks }
      jobs := db.jobs ++ [{ j with id := db.nextJob }]
      nextJob := db.nextJob + 1
      job_pks := Table.nodup_concat db.job_pks fun k hk => Int.ne_of_lt (db.job_new k hk)
      job_ids := Table.nodup_concat db.job_ids h.1
      job_new := by
        intro k hk
        rcases List.mem_append.1 hk with hk | hk
        · exact Int.lt_add_one_of_le (Int.le_of_lt (db.job_new k hk))
        · obtain rfl := List.mem_singleton.1 hk
          exact Int.lt_succ _ }
  else none

/-- `rollbackJob` on the jobs and their tasks. -/
def deleteJob (projectId jobId : Bytes) : Db :=
  { db with
    sched := { db.sched with jobTasks := db.sched.jobTasks.filter fun k => !inJob projectId jobId k }
    jobs := db.jobs.filter fun j => !decide (j.projectId = projectId ∧ j.jobId = jobId)
    job_pks := db.job_pks.sublist (List.filter_sublist.map _)
    job_ids := db.job_ids.sublist (List.filter_sublist.map _)
    job_new := fun j hj => db.job_new j (List.mem_of_mem_filter hj) }

end Db

/-- `hook` is the scheduler, once it is registered; `handlers` are those of other modules, whose own writes
are not modelled. -/
structure JobStatusSyncService where
  hook : Option Sched.ScheduledService
  notFoundWait : Int
  parseKusciaTime : Bytes → Option Time

structure JobHolder where
  projectID : Bytes
  jobID : Bytes
  status : JobStatus
  pk : Int
  schedule : Bool

namespace JobStatusSyncService

def report (tasks : List JobTaskStatusDetail) (k : ProjectJobTaskDO) : ProjectJobTaskDO :=
  match mergeExtendedTasks tasks k.taskId with
  | none => k
  | some kt => { k with status := TaskStatusFromKuscia kt.state, errMsg := kt.errMsg }

def writesStatus (detail : JobStatusDetailInfo) : Bool := !(IsKusciaFinishedState detail.state && decide (detail.endTime = []))

def stopsTasks (detail : JobStatusDetailInfo) : Bool :=
  writesStatus detail && decide (JobStatusFromKuscia detail.state = .failed ∨ JobStatusFromKuscia detail.state = .stopped)

/-- The tasks after the transaction of `updateJob`. -/
def syncTasks (h : JobHolder) (detail : JobStatusDetailInfo) (tasks : List ProjectJobTaskDO) : List ProjectJobTaskDO :=
  if stopsTasks detail then
    stopJobTasks h.projectID h.jobID (updateWhere (inJob h.projectID h.jobID) (report detail.tasks) tasks)
  else updateWhere (inJob h.projectID h.jobID) (report detail.tasks) tasks

def newJobStatus (h : JobHolder) (detail : JobStatusDetailInfo) : JobStatus :=
  if writesStatus detail then JobStatusFromKuscia detail.state else h.status

def writeScheduleJob (s : JobStatusSyncService) (now : Time) (h : JobHolder) (detail : JobStatusDetailInfo) (db : Sched.Db) : Sched.Db :=
  if !writesStatus detail && (s.parseKusciaTime detail.endTime).isNone then db
  else { db with
    jobs := updateWhere (fun j => decide (j.id = h.pk)) (fun j => { j with
      status := if writesStatus detail then newJobStatus h detail else j.status
      errMsg := if writesStatus detail then detail.errMsg else j.errMsg
      finishedTime := s.parseKusciaTime detail.endTime <|> j.finishedTime }) db.jobs
    tasks := updateWhere (fun t => decide (t.scheduleJobId = h.jobID)) (fun t => { t with
      status := Sched.ScheduledStatusFrom (newJobStatus h detail)
      scheduleTaskEndTime := if newJobStatus h detail = .succeed ∨ newJobStatus h detail = .failed then some now else t.scheduleTaskEndTime }) db.tasks
    task_ids := Table.nodup_updateWhere (fun _ => rfl) db.task_ids
    task_keys := Table.nodup_updateWhere (fun _ => rfl) db.task_keys
    task_jobs := Table.nodup_updateWhere (fun _ => rfl) db.task_jobs
    job_pks := Table.nodup_updateWhere (fun _ => rfl) db.job_pks
    job_ids := Table.nodup_updateWhere (fun _ => rfl) db.job_ids }

def writeJob (s : JobStatusSyncService) (now : Time) (h : JobHolder) (detail : JobStatusDetailInfo) (db : Db) : Db :=
  if h.schedule then
    if s.hook.isSome then db else db.setSched (s.writeScheduleJob now h detail db.sched)
  else
    db.updateJobs (fun j => decide (j.id = h.pk)) (if writesStatus detail then some (JobStatusFromKuscia detail.state) else none)
      (if writesStatus detail then some detail.errMsg else none) (s.parseKusciaTime detail.endTime)

/-- The transaction of `updateJob`. -/
def updateJob (s : JobStatusSyncService) (now : Time) (h : JobHolder) (detail : JobStatusDetailInfo) (db : Db) : Db :=
  s.writeJob now h detail (db.setTasks (syncTasks h detail db.sched.jobTasks))

end JobStatusSyncService

def toExecutionStatus (d : JobStatusDetailInfo) : JobExecutionStatus := ⟨d.state, d.errMsg, d.tasks⟩

/-- `lock`: `applyMu` is not held yet. -/
inductive SyncJob
  | lock (jobID : Bytes) (detail : Option JobStatusDetailInfo)
  | find (jobID : Bytes) (detail : JobStatusDetailInfo)
  | findSchedule (jobID : Bytes) (detail : JobStatusDetailInfo)
  | updateJob (h : JobHolder) (detail : JobStatusDetailInfo)
  | hook (pc : Sched.Apply)

inductive MarkJobDeleted
  | lock (jobID : Bytes) (fromPoll : Bool)
  | find (jobID : Bytes) (fromPoll : Bool) (now : Time)
  | stop (job : ProjectJobDO)
  | findSchedule (jobID : Bytes) (fromPoll : Bool) (now : Time)
  | fired (sj : ProjectScheduleJobDO) (fromPoll : Bool) (now : Time)
  | stopSchedule (sj : ProjectScheduleJobDO) (fired : List ProjectScheduleTaskDO) (now : Time)

inductive StopJob
  | find (projectID jobID : Bytes) (checkOwner : Bool)
  | owner (job : ProjectJobDO)
  | stop (job : ProjectJobDO)

/-- The chain of a job, as far as it writes the job: `submit` renders it and sends it to Kuscia. -/
inductive RunGraph
  | persist (job : ProjectJobDO) (tasks : List ProjectJobTaskDO)
  | submit (projectID jobID : Bytes)
  | padOnly (projectID jobID : Bytes)
  | rollback (projectID jobID : Bytes)

inductive Call
  | poll (jobID : Bytes)
  | syncJob (pc : SyncJob)
  | markJobDeleted (pc : MarkJobDeleted)
  | stopJob (pc : StopJob)
  | runGraph (pc : RunGraph)
  | sched (c : Sched.Call)

/-- A new job is `RUNNING`, its tasks are `INITIALIZED`, those of the platform `SUCCEED`. -/
def Call.first : Call → Bool
  | .poll _ | .syncJob (.lock ..) | .markJobDeleted (.lock ..) | .stopJob (.find ..) => true
  | .runGraph (.persist job tasks) => decide (job.status = .running) &&
      tasks.all fun k => inJob job.projectId job.jobId k && decide (k.status = .initialized ∨ k.status = .succeed)
  | .sched c => c.first
  | _ => false

inductive Submit
  | failed
  | padOnly
  | sent

/-- How a step ends: with an error or not, and when; whether a handler takes the job over, or the user is the
owner of the graph (`yes`); what Kuscia answers to a poll; how a job is submitted. -/
structure Ending where
  error : Option Bytes
  clock : Time
  yes : Bool
  answer : Option JobStatusDetailInfo
  submit : Submit

inductive Event
  | applied (projectID jobID : Bytes) (detail : JobStatusDetailInfo)

abbrev Effect := Calls.Effect Db Call Event

def go (db : Db) (next : Option Call) : Effect := ⟨db, next, []⟩

/-- The call returns and `applyMu` is free. -/
def unlock (db : Db) : Effect := ⟨db.locked false, none, []⟩

namespace SyncJob

def run (s : JobStatusSyncService) (db : Db) (x : Ending) : SyncJob → Effect
  | lock _ none => go db none
  | lock jobID (some detail) =>
    if db.applyMu then go db (some (.syncJob (.lock jobID (some detail))))
    else if x.yes then go db none
    else ⟨db.locked true, some (.syncJob (.find jobID detail)), []⟩
  | find jobID detail => match if x.error.isSome then none else db.findJob jobID with
    | some job =>
      if IsJobFinished job.status then unlock db
      else go db (some (.syncJob (.updateJob ⟨job.projectId, jobID, job.status, job.id, false⟩ detail)))
    | none => go db (some (.syncJob (.findSchedule jobID detail)))
  | findSchedule jobID detail => match if x.error.isSome then none else db.sched.firstJob jobID with
    | some sj =>
      if sj.status = .succeed then unlock db
      else go db (some (.syncJob (.updateJob ⟨sj.projectId, jobID, sj.status, sj.id, true⟩ detail)))
    | none => unlock db
  | updateJob h detail =>
    if x.error.isSome then unlock db
    else if h.schedule ∧ s.hook.isSome then
      ⟨s.updateJob x.clock h detail db, some (.syncJob (.hook (.find h.jobID (some (toExecutionStatus detail))))), [.applied h.projectID h.jobID detail]⟩
    else ⟨(s.updateJob x.clock h detail db).locked false, none, [.applied h.projectID h.jobID detail]⟩
  | hook pc => match s.hook with
    | none => unlock db
    | some service =>
      let e := (pc.instr service).exec db.sched ⟨x.error, x.clock⟩
      match e.next with
      | some (.apply pc) => ⟨db.setSched e.db, some (.syncJob (.hook pc)), []⟩
      | _ => unlock (db.setSched e.db)

end SyncJob

namespace MarkJobDeleted

def run (s : JobStatusSyncService) (db : Db) (x : Ending) : MarkJobDeleted → Effect
  | lock jobID fromPoll =>
    if db.applyMu then go db (some (.markJobDeleted (.lock jobID fromPoll)))
    else if x.yes then go db none
    else ⟨db.locked true, some (.markJobDeleted (.find jobID fromPoll x.clock)), []⟩
  | find jobID fromPoll now =>
    if x.error.isSome then unlock db
    else match db.findJob jobID with
      | some job =>
        if IsJobFinished job.status then unlock db
        else if fromPoll ∧ now - job.gmtCreate < s.notFoundWait then unlock db
        else go db (some (.markJobDeleted (.stop job)))
      | none => go db (some (.markJobDeleted (.findSchedule jobID fromPoll now)))
  | stop job =>
    if x.error.isSome then unlock db
    else unlock ((db.setTasks (stopJobTasks job.projectId job.jobId db.sched.jobTasks)).updateJobs
      (fun j => decide (j.id = job.id)) (some .stopped) none none)
  | findSchedule jobID fromPoll now => match if x.error.isSome then none else db.sched.firstJob jobID with
    | some sj => if sj.status = .succeed then unlock db else go db (some (.markJobDeleted (.fired sj fromPoll now)))
    | none => unlock db
  | fired sj fromPoll now =>
    let ts := db.sched.tasks.filter fun t => decide (t.scheduleJobId = sj.jobId ∧ (t.status = .running ∨ t.status = .stopping))
    if x.error.isSome ∨ ts = [] then unlock db
    else if fromPoll ∧ ts.any (fun t => t.scheduleTaskStartTime.any fun start => decide (now - start < s.notFoundWait)) then unlock db
    else go db (some (.markJobDeleted (.stopSchedule sj ts now)))
  | stopSchedule sj ts now =>
    if x.error.isSome then unlock db
    else
      let sched := ((db.setTasks (stopJobTasks sj.projectId sj.jobId db.sched.jobTasks)).sched.updateJobs (.id sj.id) { status := .stopped })
      unlock (db.setSched (ts.foldl (fun d t =>
        d.updateTasks (.id t.id) { status := some .stopped, endTime := some (some now) }) sched))

end MarkJobDeleted

def StopJob.run (db : Db) (x : Ending) : StopJob → Effect
  | find projectID jobID checkOwner => match if x.error.isSome then none else db.findJob jobID with
    | some job =>
      if projectID ≠ [] ∧ job.projectId ≠ projectID then go db none
      else if checkOwner ∧ job.graphId ≠ [] then go db (some (.stopJob (.owner job)))
      else go db (some (.stopJob (.stop job)))
    | none => go db none
  | owner job => go db (if x.yes then some (.stopJob (.stop job)) else none)
  | stop job =>
    if x.error.isSome then go db none
    else go ((db.setTasks (stopJobTasks job.projectId job.jobId db.sched.jobTasks)).updateJobs
      (fun j => decide (j.id = job.id)) (some .stopped) none none) none

def RunGraph.run (db : Db) (x : Ending) : RunGraph → Effect
  | persist job tasks => match if x.error.isSome then none else db.createJob job tasks with
    | some db' => go db' (some (.runGraph (.submit job.projectId job.jobId)))
    | none => go db none
  | submit projectID jobID => match x.submit with
    | .failed => go db (some (.runGraph (.rollback projectID jobID)))
    | .padOnly => go db (some (.runGraph (.padOnly projectID jobID)))
    | .sent => go db none
  | padOnly projectID jobID =>
    if x.error.isSome then go db (some (.runGraph (.rollback projectID jobID)))
    else go (db.updateJobs (fun j => decide (j.projectId = projectID ∧ j.jobId = jobID)) (some .succeed) none (some x.clock)) none
  | rollback projectID jobID => go (if x.error.isSome then db else db.deleteJob projectID jobID) none

/-- `scheduler` is the service that runs the calls of the scheduler. -/
structure Platform where
  sync : JobStatusSyncService
  scheduler : Sched.ScheduledService

def Platform.exec (s : Platform) (db : Db) (c : Call) (x : Ending) : Effect :=
  match c with
  | .poll jobID => go db (x.answer.map fun detail => .syncJob (.lock jobID (some detail)))
  | .syncJob pc => pc.run s.sync db x
  | .markJobDeleted pc => pc.run s.sync db x
  | .stopJob pc => pc.run db x
  | .runGraph pc => pc.run db x
  | .sched c =>
    let e := (c.instr s.scheduler).exec db.sched ⟨x.error, x.clock⟩
    go (db.setSched e.db) (e.next.map .sched)

abbrev World := Calls.World Db Call Event

abbrev Act := Calls.Action Call Ending

def Platform.step (s : Platform) (w : World) (a : Act) : Option World := Calls.step Call.first s.exec w a

end Job
