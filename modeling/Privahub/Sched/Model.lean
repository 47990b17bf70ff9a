import Privahub.Lib.Table
import Privahub.Lib.Unicode
import Mathlib.Data.List.Sort

/-!
# Schedule tables and their statements

The rows of `internal/dao/model/scheduled.go` that `scheduled_service.go` works on, and the SQL
statements it issues, each atomic. An update names its columns (`TaskSet`, `JobSet`), so it cannot
touch the keys of a row; `Db` carries their uniqueness. Only `project_schedule` and `project_result`
have rows that are soft-deleted. Every write of the status of a schedule task and every request to
Kuscia that creates or deletes a job leaves an event.
-/

namespace Sched

open Table (updateWhere)

abbrev Time := Int

inductive ScheduledStatus
  | toBeRun
  | running
  | stopped
  | stopping
  | succeed
  | failed
  deriving DecidableEq

inductive ScheduleStatus
  | up
  | down
  deriving DecidableEq

inductive ScheduleJobStatus
  | running
  | stopped
  | succeed
  | failed
  deriving DecidableEq

inductive NodeStatus
  | initialized
  | pending
  | staging
  | running
  | stopped
  | succeed
  | failed
  deriving DecidableEq

def ScheduledStatus.text : ScheduledStatus → Bytes
  | toBeRun => str "TO_BE_RUN"
  | running => str "RUNNING"
  | stopped => str "STOPPED"
  | stopping => str "STOPPING"
  | succeed => str "SUCCEED"
  | failed => str "FAILED"

def isScheduleJobFinished : ScheduleJobStatus → Bool
  | .succeed | .failed | .stopped => true
  | .running => false

def isScheduleTaskTerminal : ScheduledStatus → Bool
  | .succeed | .failed | .stopped => true
  | .toBeRun | .running | .stopping => false

/-- `ScheduledStatusFrom` on the status of a schedule job. -/
def ScheduledStatusFrom : ScheduleJobStatus → ScheduledStatus
  | .running => .running
  | .stopped => .stopped
  | .succeed => .succeed
  | .failed => .failed

@[simp] theorem terminal_from (s : ScheduleJobStatus) :
    isScheduleTaskTerminal (ScheduledStatusFrom s) = isScheduleJobFinished s := by cases s <;> rfl

theorem from_ne_toBeRun (s : ScheduleJobStatus) : ScheduledStatusFrom s ≠ .toBeRun := by cases s <;> simp [ScheduledStatusFrom]

structure ProjectScheduleDO where
  scheduleId : Bytes
  owner : Bytes
  status : ScheduleStatus
  isDeleted : Bool
  deriving DecidableEq

structure ProjectScheduleTaskDO where
  id : Int
  projectId : Bytes
  scheduleJobId : Bytes
  scheduleId : Bytes
  scheduleTaskId : Bytes
  scheduleTaskExpectStart : Time
  scheduleTaskStartTime : Option Time
  scheduleTaskEndTime : Option Time
  status : ScheduledStatus
  owner : Bytes
  jobRequest : Bytes
  allReRun : Bool
  deriving DecidableEq

structure ProjectScheduleJobDO where
  id : Int
  projectId : Bytes
  jobId : Bytes
  status : ScheduleJobStatus
  errMsg : Bytes
  finishedTime : Option Time
  deriving DecidableEq

structure ProjectJobTaskDO where
  projectId : Bytes
  jobId : Bytes
  taskId : Bytes
  status : NodeStatus
  errMsg : Bytes
  deriving DecidableEq

structure ProjectResultDO where
  projectId : Bytes
  jobId : Bytes
  isDeleted : Bool
  deriving DecidableEq

/-- A column an update leaves alone (`none`) or sets. -/
def column {α : Type} (set : Option α) (old : α) : α := set.getD old

structure TaskSet where
  status : Option ScheduledStatus
  startTime : Option (Option Time) := none
  endTime : Option (Option Time) := none
  allReRun : Option Bool := none

def TaskSet.apply (u : TaskSet) (t : ProjectScheduleTaskDO) : ProjectScheduleTaskDO :=
  { t with
    status := column u.status t.status
    scheduleTaskStartTime := column u.startTime t.scheduleTaskStartTime
    scheduleTaskEndTime := column u.endTime t.scheduleTaskEndTime
    allReRun := column u.allReRun t.allReRun }

inductive TaskWhere
  | id (id : Int)
  | idStatus (id : Int) (status : ScheduledStatus)
  | key (scheduleTaskId : Bytes)
  | keyStatus (scheduleTaskId : Bytes) (status : ScheduledStatus)

def TaskWhere.holds (p : TaskWhere) (t : ProjectScheduleTaskDO) : Bool :=
  match p with
  | .id i => decide (t.id = i)
  | .idStatus i s => decide (t.id = i ∧ t.status = s)
  | .key k => decide (t.scheduleTaskId = k)
  | .keyStatus k s => decide (t.scheduleTaskId = k ∧ t.status = s)

structure JobSet where
  status : ScheduleJobStatus
  errMsg : Option Bytes := none
  finishedTime : Option (Option Time) := none

def JobSet.apply (u : JobSet) (j : ProjectScheduleJobDO) : ProjectScheduleJobDO :=
  { j with
    status := u.status
    errMsg := column u.errMsg j.errMsg
    finishedTime := column u.finishedTime j.finishedTime }

inductive JobWhere
  | id (id : Int)
  | key (projectId jobId : Bytes)

def JobWhere.holds (p : JobWhere) (j : ProjectScheduleJobDO) : Bool :=
  match p with
  | .id i => decide (j.id = i)
  | .key p k => decide (j.projectId = p ∧ j.jobId = k)

structure JobTaskSet where
  status : NodeStatus
  errMsg : Option Bytes := none

def JobTaskSet.apply (u : JobTaskSet) (k : ProjectJobTaskDO) : ProjectJobTaskDO :=
  { k with status := u.status, errMsg := column u.errMsg k.errMsg }

inductive JobTaskWhere
  | taskIn (projectId jobId : Bytes) (taskIds : List Bytes)
  | statusIn (projectId jobId : Bytes) (statuses : List NodeStatus)

def JobTaskWhere.holds (p : JobTaskWhere) (k : ProjectJobTaskDO) : Bool :=
  match p with
  | .taskIn p j ids => decide (k.projectId = p ∧ k.jobId = j ∧ k.taskId ∈ ids)
  | .statusIn p j ss => decide (k.projectId = p ∧ k.jobId = j ∧ k.status ∈ ss)

structure Db where
  schedules : List ProjectScheduleDO
  tasks : List ProjectScheduleTaskDO
  jobs : List ProjectScheduleJobDO
  jobTasks : List ProjectJobTaskDO
  results : List ProjectResultDO
  task_ids : (tasks.map (·.id)).Nodup
  task_keys : (tasks.map (·.scheduleTaskId)).Nodup
  /-- The jobs of a schedule are created one for each of its tasks. -/
  task_jobs : (tasks.map fun t => (t.projectId, t.scheduleJobId)).Nodup
  job_pks : (jobs.map (·.id)).Nodup
  /-- A job id is generated, and is the name of the job in Kuscia. -/
  job_ids : (jobs.map (·.jobId)).Nodup

namespace Db

variable (db : Db)

def updateTasks (p : TaskWhere) (u : TaskSet) : Db :=
  { db with
    tasks := updateWhere p.holds u.apply db.tasks
    task_ids := Table.nodup_updateWhere (fun _ => rfl) db.task_ids
    task_keys := Table.nodup_updateWhere (fun _ => rfl) db.task_keys
    task_jobs := Table.nodup_updateWhere (fun _ => rfl) db.task_jobs }

def updateJobs (p : JobWhere) (u : JobSet) : Db :=
  { db with
    jobs := updateWhere p.holds u.apply db.jobs
    job_pks := Table.nodup_updateWhere (fun _ => rfl) db.job_pks
    job_ids := Table.nodup_updateWhere (fun _ => rfl) db.job_ids }

def updateJobTasks (p : JobTaskWhere) (u : JobTaskSet) : Db :=
  { db with jobTasks := updateWhere p.holds u.apply db.jobTasks }

def updateSchedules (scheduleId : Bytes) (s : ScheduleStatus) : Db :=
  { db with schedules := updateWhere (fun r => decide (r.scheduleId = scheduleId ∧ r.isDeleted = false)) (fun r => { r with status := s }) db.schedules }

def deleteResults (projectId jobId : Bytes) : Db :=
  { db with results := updateWhere (fun r => decide (r.projectId = projectId ∧ r.jobId = jobId)) (fun r => { r with isDeleted := true }) db.results }

/-- `First` orders by the primary key. -/
def firstTask (scheduleId scheduleTaskId : Bytes) : Option ProjectScheduleTaskDO :=
  db.tasks.find? fun t => decide (t.scheduleId = scheduleId ∧ t.scheduleTaskId = scheduleTaskId)

def firstJob (jobId : Bytes) : Option ProjectScheduleJobDO := db.jobs.find? fun j => decide (j.jobId = jobId)

def firstSchedule (scheduleId : Bytes) : Option ProjectScheduleDO :=
  db.schedules.find? fun s => decide (s.scheduleId = scheduleId ∧ s.isDeleted = false)

def dueBatchSize : Nat := 100

/-- The tasks of `UP` schedules that are due, the earliest first. -/
def due (now : Time) : List ProjectScheduleTaskDO :=
  ((db.tasks.filter fun t =>
    db.schedules.any (fun s => decide (s.scheduleId = t.scheduleId ∧ s.isDeleted = false ∧ s.status = .up)) &&
      decide (t.status = .toBeRun ∧ t.scheduleTaskExpectStart ≤ now)).mergeSort
    fun a b => decide (a.scheduleTaskExpectStart ≤ b.scheduleTaskExpectStart)).take dueBatchSize

end Db

end Sched
