import Privahub.Lib.Calls
import Privahub.Sched.Model

/-!
# The calls of `ScheduledService`

`RunDue` with `markMisfired` and `fireTask`, `TaskStop`, `Offline`, `ApplyKusciaJobStatus` and
`TaskRerun`, each as its program counters: the statement (or request to Kuscia) that comes next with
the local variables in scope, and in `instr` what the code does with the answer up to the following
statement. `ScheduledService` holds the options and what is not in the repository's hands: decoding
of base64 and JSON, formats of time, the Unicode tables.
-/

namespace Sched

structure ErrorCode where
  code : Nat
  message : Bytes
  deriving DecidableEq

namespace ErrorCode

def ScheduledScheduleNotExist : ErrorCode := ⟨202015003, str "scheduled.SCHEDULE_NOT_EXIST"⟩
def ScheduledScheduleRunningNotOffline : ErrorCode := ⟨202015005, str "scheduled.SCHEDULE_RUNNING_NOT_OFFLINE"⟩
def ScheduledScheduleTaskNotExist : ErrorCode := ⟨202015007, str "scheduled.SCHEDULE_TASK_NOT_EXIST"⟩
def ScheduledScheduleTaskStatusNotRunning : ErrorCode := ⟨202015008, str "scheduled.SCHEDULE_TASK_STATUS_NOT_RUNNING"⟩
def ScheduledProjectJobRestartError : ErrorCode := ⟨202015009, str "scheduled.PROJECT_JOB_RESTART_ERROR"⟩
def ScheduledUserNotOwner : ErrorCode := ⟨202015010, str "scheduled.USER_NOT_OWNER"⟩
def KusciaConnError : ErrorCode := ⟨202012101, str "kuscia.RPC_ERROR"⟩

end ErrorCode

inductive Err
  | db (text : Bytes)
  | scheduled (code : ErrorCode) (msg : Bytes)
  deriving DecidableEq

inductive Result
  | runDue (r : Except Err Nat)
  | done (r : Except Err Unit)
  | applied (handled : Bool) (err : Option Err)

def schedErr (code : ErrorCode) (msg : Bytes) : Result := .done (.error (.scheduled code msg))

structure CreateJobRequest where
  jobId : Bytes
  body : Bytes
  deriving DecidableEq

structure TaskStatus where
  taskId : Bytes
  alias_ : Bytes
  state : Bytes
  errMsg : Bytes

structure JobExecutionStatus where
  state : Bytes
  errMsg : Bytes
  tasks : List TaskStatus

structure ScheduledService where
  misfireGrace : Int
  hasKuscia : Bool
  unmarshalJobRequest : Bytes → Except Bytes CreateJobRequest
  format : Time → Bytes
  graceText : Bytes
  unicode : CaseTables

inductive Origin
  | fire
  | rerun
  deriving DecidableEq

inductive Event
  | setStatus (id : Int) (status : ScheduledStatus)
  | createJob (by_ : Origin) (id : Int) (ok : Bool)
  | deleteJob (id : Int) (ok : Bool)
  | returned (r : Result)

inductive Stmt : Type → Type
  | due (now : Time) : Stmt (List ProjectScheduleTaskDO)
  | findSchedule (scheduleId : Bytes) : Stmt (Option ProjectScheduleDO)
  | findTask (scheduleId scheduleTaskId : Bytes) : Stmt (Option ProjectScheduleTaskDO)
  | countActive (scheduleId : Bytes) : Stmt Nat
  | findJob (jobId : Bytes) : Stmt (Option ProjectScheduleJobDO)
  | tasksOfJob (jobId : Bytes) : Stmt (List ProjectScheduleTaskDO)
  | updateTasks (p : TaskWhere) (u : TaskSet) : Stmt Nat
  | updateJobs (p : JobWhere) (u : JobSet) : Stmt Unit
  | updateJobTasks (p : JobTaskWhere) (u : JobTaskSet) : Stmt Unit
  | updateSchedules (scheduleId : Bytes) (s : ScheduleStatus) : Stmt Unit
  | deleteResults (projectId jobId : Bytes) : Stmt Unit
  | createJob (by_ : Origin) (id : Int) (req : CreateJobRequest) : Stmt Unit
  | stopJob (jobId : Bytes) : Stmt Unit
  | deleteJob (id : Int) (jobId : Bytes) : Stmt Unit
  | restartJob (jobId : Bytes) : Stmt Unit

namespace Stmt

def answer {α : Type} (db : Db) : Stmt α → α
  | due now => db.due now
  | findSchedule s => db.firstSchedule s
  | findTask s t => db.firstTask s t
  | countActive s => db.tasks.countP fun t => decide (t.scheduleId = s ∧ (t.status = .running ∨ t.status = .stopping))
  | findJob j => db.firstJob j
  | tasksOfJob j => db.tasks.filter fun t => decide (t.scheduleJobId = j)
  | updateTasks p _ => db.tasks.countP p.holds
  | updateJobs .. | updateJobTasks .. | updateSchedules .. | deleteResults .. => ()
  | createJob .. | stopJob _ | deleteJob .. | restartJob _ => ()

def run {α : Type} (db : Db) : Stmt α → Db
  | updateTasks p u => db.updateTasks p u
  | updateJobs p u => db.updateJobs p u
  | updateJobTasks p u => db.updateJobTasks p u
  | updateSchedules s st => db.updateSchedules s st
  | deleteResults p j => db.deleteResults p j
  | _ => db

def events {α : Type} (db : Db) : Stmt α → List Event
  | updateTasks p u => match u.status with
    | some s => (db.tasks.filter p.holds).map fun t => .setStatus t.id s
    | none => []
  | createJob o i _ => [.createJob o i true]
  | deleteJob i _ => [.deleteJob i true]
  | _ => []

def attempts {α : Type} : Stmt α → List Event
  | createJob o i _ => [.createJob o i false]
  | deleteJob i _ => [.deleteJob i false]
  | _ => []

end Stmt

/-- The local variables of a `RunDue` tick: the tasks still to handle and the number fired. -/
structure Tick where
  now : Time
  rest : List ProjectScheduleTaskDO
  fired : Nat

inductive RunDue
  | query (now : Time)
  | markMisfired (t : ProjectScheduleTaskDO) (k : Tick)
  | misfiredJob (t : ProjectScheduleTaskDO) (k : Tick)
  | claim (t : ProjectScheduleTaskDO) (k : Tick)
  | createJob (t : ProjectScheduleTaskDO) (req : CreateJobRequest) (k : Tick)
  | firedJob (t : ProjectScheduleTaskDO) (k : Tick)
  | failTask (t : ProjectScheduleTaskDO) (cause : Bytes) (endTime : Time) (k : Tick)
  | failJob (t : ProjectScheduleTaskDO) (cause : Bytes) (endTime : Time) (k : Tick)

/-- `stopping`: a running task is being stopped, so that it is written `STOPPING` in the end. -/
inductive TaskStop
  | find (ownerId scheduleId scheduleTaskId : Bytes)
  | claim (t : ProjectScheduleTaskDO) (now : Time)
  | findJob (t : ProjectScheduleTaskDO) (now : Time)
  | stopJob (t : ProjectScheduleTaskDO) (jobId : Bytes) (now : Time)
  | markJob (t : ProjectScheduleTaskDO) (now : Time) (stopping : Bool)
  | markJobTasks (t : ProjectScheduleTaskDO) (stopping : Bool)
  | setStopping (t : ProjectScheduleTaskDO)

inductive Offline
  | find (ownerId scheduleId : Bytes)
  | count (scheduleId : Bytes)
  | setDown (scheduleId : Bytes)

inductive Apply
  | find (jobId : Bytes) (st : Option JobExecutionStatus)
  | jobTask (sj : ProjectScheduleJobDO) (st : JobExecutionStatus) (now : Time) (kt : TaskStatus) (rest : List TaskStatus)
  | job (sj : ProjectScheduleJobDO) (st : JobExecutionStatus) (now : Time)
  | read (jobId : Bytes) (status : ScheduleJobStatus) (now : Time)
  | write (status : ScheduleJobStatus) (now : Time) (t : ProjectScheduleTaskDO) (rest : List ProjectScheduleTaskDO)

/-- `full`: the whole job was resubmitted. -/
inductive TaskRerun
  | findSchedule (ownerId scheduleId scheduleTaskId type : Bytes)
  | find (ownerId scheduleId scheduleTaskId type : Bytes)
  | deleteJob (t : ProjectScheduleTaskDO) (req : CreateJobRequest) (now : Time)
  | createJob (t : ProjectScheduleTaskDO) (req : CreateJobRequest) (now : Time)
  | deleteResults (t : ProjectScheduleTaskDO) (now : Time)
  | restartJob (t : ProjectScheduleTaskDO) (now : Time)
  | task (t : ProjectScheduleTaskDO) (full : Bool) (now : Time)
  | job (t : ProjectScheduleTaskDO)

inductive Call
  | runDue (pc : RunDue)
  | taskStop (pc : TaskStop)
  | offline (pc : Offline)
  | apply (pc : Apply)
  | taskRerun (pc : TaskRerun)

def Call.first : Call → Bool
  | .runDue (.query _) | .taskStop (.find ..) | .offline (.find ..) | .apply (.find ..)
  | .taskRerun (.findSchedule ..) => true
  | _ => false

inductive Next
  | call (c : Call)
  | ret (r : Result)

def Next.call? : Next → Option Call
  | call c => some c
  | ret _ => none

def Next.events : Next → List Event
  | call _ => []
  | ret r => [.returned r]

structure Instr where
  α : Type
  stmt : Stmt α
  cont : Except Bytes α → Time → Next

namespace ScheduledService

variable (s : ScheduledService)

def decodeJobRequest (r : Bytes) : Except Bytes CreateJobRequest :=
  if r = [] then .error (str "empty job request") else s.unmarshalJobRequest r

end ScheduledService

namespace RunDue

/-- The head of the loop of `RunDue`. -/
def loop (s : ScheduledService) (now : Time) (fired : Nat) : List ProjectScheduleTaskDO → Next
  | [] => .ret (.runDue (.ok fired))
  | t :: rest =>
    if now - t.scheduleTaskExpectStart > s.misfireGrace then .call (.runDue (.markMisfired t ⟨now, rest, fired⟩))
    else .call (.runDue (.claim t ⟨now, rest, fired⟩))

def misfireText (s : ScheduledService) (t : ProjectScheduleTaskDO) (now : Time) : Bytes :=
  str "misfired: expected at " ++ s.format t.scheduleTaskExpectStart ++ str ", engine resumed at " ++ s.format now ++
    str " (grace " ++ s.graceText ++ str ")"

/-- `fireTask` once the task is claimed, up to the next statement. -/
def submit (s : ScheduledService) (t : ProjectScheduleTaskDO) (k : Tick) (end_ : Time) : Next :=
  match s.decodeJobRequest t.jobRequest with
  | .error e => .call (.runDue (.failTask t (str "decode job request: " ++ e) end_ k))
  | .ok req =>
    if s.hasKuscia then .call (.runDue (.createJob t req k))
    else .call (.runDue (.failTask t (str "kuscia client unavailable") end_ k))

def instr (s : ScheduledService) : RunDue → Instr
  | query now => ⟨_, .due now, fun r _ => match r with
    | .error e => .ret (.runDue (.error (.db e)))
    | .ok due => loop s now 0 due⟩
  | markMisfired t k => ⟨_, .updateTasks (.idStatus t.id .toBeRun) { status := some .failed, endTime := some (some k.now) },
    fun r _ => match r with
    | .ok (_ + 1) => .call (.runDue (.misfiredJob t k))
    | _ => loop s k.now k.fired k.rest⟩
  | misfiredJob t k => ⟨_, .updateJobs (.key t.projectId t.scheduleJobId)
      { status := .failed, errMsg := some (misfireText s t k.now), finishedTime := some (some k.now) },
    fun _ _ => loop s k.now k.fired k.rest⟩
  | claim t k => ⟨_, .updateTasks (.idStatus t.id .toBeRun)
      { status := some .running, startTime := some (some k.now), endTime := some none },
    fun r clock => match r with
    | .ok (_ + 1) => submit s t k clock
    | _ => loop s k.now k.fired k.rest⟩
  | createJob t req k => ⟨_, .createJob .fire t.id req, fun r clock => match r with
    | .error e => .call (.runDue (.failTask t (str "kuscia create job: " ++ e) clock k))
    | .ok _ => .call (.runDue (.firedJob t k))⟩
  | firedJob t k => ⟨_, .updateJobs (.key t.projectId t.scheduleJobId) { status := .running, errMsg := some [] },
    fun _ _ => loop s k.now (k.fired + 1) k.rest⟩
  | failTask t cause end_ k => ⟨_, .updateTasks (.id t.id) { status := some .failed, endTime := some (some end_) },
    fun _ _ => .call (.runDue (.failJob t cause end_ k))⟩
  | failJob t cause end_ k => ⟨_, .updateJobs (.key t.projectId t.scheduleJobId)
      { status := .failed, errMsg := some cause, finishedTime := some (some end_) },
    fun _ _ => loop s k.now k.fired k.rest⟩

end RunDue

namespace TaskStop

/-- After `markScheduleJobStopped`. -/
def finish (t : ProjectScheduleTaskDO) (stopping : Bool) : Next :=
  if stopping then .call (.taskStop (.setStopping t)) else .ret (.done (.ok ()))

def markScheduleJobStopped (t : ProjectScheduleTaskDO) (now : Time) (stopping : Bool) : Next :=
  if t.scheduleJobId = [] then finish t stopping else .call (.taskStop (.markJob t now stopping))

def instr (s : ScheduledService) : TaskStop → Instr
  | find ownerId scheduleId scheduleTaskId => ⟨_, .findTask scheduleId scheduleTaskId, fun r now => match r with
    | .error e => .ret (.done (.error (.db e)))
    | .ok none => .ret (schedErr .ScheduledScheduleTaskNotExist scheduleTaskId)
    | .ok (some t) =>
      if ownerId ≠ t.owner then .ret (schedErr .ScheduledUserNotOwner [])
      else match t.status with
        | .toBeRun => .call (.taskStop (.claim t now))
        | .running => .call (.taskStop (.findJob t now))
        | st => .ret (schedErr .ScheduledScheduleTaskStatusNotRunning st.text)⟩
  | claim t now => ⟨_, .updateTasks (.keyStatus t.scheduleTaskId .toBeRun)
      { status := some .stopped, endTime := some (some now) },
    fun r _ => match r with
    | .error e => .ret (.done (.error (.db e)))
    | .ok 0 => .ret (schedErr .ScheduledScheduleTaskStatusNotRunning (str "task status changed concurrently"))
    | .ok (_ + 1) => markScheduleJobStopped t now false⟩
  | findJob t now => ⟨_, .findJob t.scheduleJobId, fun r _ => match r with
    | .ok (some sj) =>
      if s.hasKuscia then .call (.taskStop (.stopJob t sj.jobId now))
      else .ret (schedErr .KusciaConnError (str "kuscia client unavailable"))
    | _ => .ret (schedErr .ScheduledScheduleTaskNotExist (str "schedule job not found"))⟩
  | stopJob t jobId now => ⟨_, .stopJob jobId, fun r _ => match r with
    | .error e => .ret (schedErr .KusciaConnError e)
    | .ok _ => markScheduleJobStopped t now true⟩
  | markJob t now stopping => ⟨_, .updateJobs (.key t.projectId t.scheduleJobId)
      { status := .stopped, finishedTime := some (some now) },
    fun r _ => match r with
    | .error e => .ret (.done (.error (.db e)))
    | .ok _ => .call (.taskStop (.markJobTasks t stopping))⟩
  | markJobTasks t stopping => ⟨_, .updateJobTasks
      (.statusIn t.projectId t.scheduleJobId [.running, .initialized, .pending, .staging]) { status := .stopped },
    fun r _ => match r with
    | .error e => .ret (.done (.error (.db e)))
    | .ok _ => finish t stopping⟩
  | setStopping t => ⟨_, .updateTasks (.key t.scheduleTaskId) { status := some .stopping }, fun r _ => match r with
    | .error e => .ret (.done (.error (.db e)))
    | .ok _ => .ret (.done (.ok ()))⟩

end TaskStop

def Offline.instr : Offline → Instr
  | find ownerId scheduleId => ⟨_, .findSchedule scheduleId, fun r _ => match r with
    | .error e => .ret (.done (.error (.db e)))
    | .ok none => .ret (schedErr .ScheduledScheduleNotExist scheduleId)
    | .ok (some sc) =>
      if ownerId ≠ sc.owner then .ret (schedErr .ScheduledUserNotOwner []) else .call (.offline (.count scheduleId))⟩
  | count scheduleId => ⟨_, .countActive scheduleId, fun r _ => match r with
    | .error e => .ret (.done (.error (.db e)))
    | .ok n =>
      if 0 < n then .ret (schedErr .ScheduledScheduleRunningNotOffline [])
      else .call (.offline (.setDown scheduleId))⟩
  | setDown scheduleId => ⟨_, .updateSchedules scheduleId .down, fun r _ => match r with
    | .error e => .ret (.done (.error (.db e)))
    | .ok _ => .ret (.done (.ok ()))⟩

/-- `strings.ToLower`. -/
def ToLower (u : CaseTables) (s : Bytes) : Bytes := (Utf8.runes s).flatMap fun r => Utf8.encodeRune (u.toLower r.1)

def mapKusciaJobStateToScheduleJob (u : CaseTables) (state : Bytes) : ScheduleJobStatus :=
  let l := ToLower u state
  if l = str "succeeded" then .succeed
  else if l ∈ [str "failed", str "approvalreject", str "cancelled", str "canceled"] then .failed
  else if l = str "stopped" then .stopped
  else .running

def mapKusciaTaskStateToNodeStatus (u : CaseTables) (state : Bytes) : NodeStatus :=
  let l := ToLower u state
  if l = str "succeeded" then .succeed
  else if l = str "failed" then .failed
  else if l = str "running" then .running
  else if l = str "stopped" then .stopped
  else .initialized

namespace Apply

def nextJobTask (sj : ProjectScheduleJobDO) (st : JobExecutionStatus) (now : Time) : List TaskStatus → Next
  | [] => .call (.apply (.job sj st now))
  | kt :: rest => .call (.apply (.jobTask sj st now kt rest))

/-- The tasks that have not fired, a `STOPPING` task before a final state and those that need no
change are skipped. -/
def skips (status : ScheduledStatus) (t : ProjectScheduleTaskDO) : Bool :=
  decide (t.status = .toBeRun) || (decide (t.status = .stopping) && !isScheduleTaskTerminal status) ||
    decide (t.status = status)

def nextTask (status : ScheduleJobStatus) (now : Time) : List ProjectScheduleTaskDO → Next
  | [] => .ret (.applied true none)
  | t :: rest =>
    if skips (ScheduledStatusFrom status) t then nextTask status now rest else .call (.apply (.write status now t rest))

def instr (s : ScheduledService) : Apply → Instr
  | find jobId st => ⟨_, .findJob jobId, fun r now => match r, st with
    | .error e, _ => .ret (.applied false (some (.db e)))
    | .ok none, _ => .ret (.applied false none)
    | .ok (some _), none => .ret (.applied true none)
    | .ok (some sj), some st =>
      if sj.status = .succeed then .ret (.applied true none) else nextJobTask sj st now st.tasks⟩
  | jobTask sj st now kt rest => ⟨_, .updateJobTasks
      (.taskIn sj.projectId sj.jobId (if kt.alias_ ≠ [] ∧ kt.alias_ ≠ kt.taskId then [kt.taskId, kt.alias_] else [kt.taskId]))
      { status := mapKusciaTaskStateToNodeStatus s.unicode kt.state,
        errMsg := if kt.errMsg = [] then none else some kt.errMsg },
    fun r _ => match r with
    | .error e => .ret (.applied true (some (.db e)))
    | .ok _ => nextJobTask sj st now rest⟩
  | job sj st now =>
    let status := mapKusciaJobStateToScheduleJob s.unicode st.state
    ⟨_, .updateJobs (.id sj.id)
      { status := status,
        errMsg := if st.errMsg = [] then none else some st.errMsg,
        finishedTime := if isScheduleJobFinished status then some (some now) else none },
    fun r _ => match r with
    | .error e => .ret (.applied true (some (.db e)))
    | .ok _ => .call (.apply (.read sj.jobId status now))⟩
  | read jobId status now => ⟨_, .tasksOfJob jobId, fun r _ => match r with
    | .error e => .ret (.applied true (some (.db e)))
    | .ok tasks => nextTask status now tasks⟩
  | write status now t rest => ⟨_, .updateTasks (.id t.id)
      { status := some (ScheduledStatusFrom status),
        endTime := if isScheduleTaskTerminal (ScheduledStatusFrom status) then some (some now) else none },
    fun r _ => match r with
    | .error e => .ret (.applied true (some (.db e)))
    | .ok _ => nextTask status now rest⟩

end Apply

namespace TaskRerun

def ScheduledRestartTypeAll : Bytes := str "0"

def ScheduledRestartTypeFailed : Bytes := str "1"

def scheduleRestartMaxAge : Int := 30 * 24 * 3600 * 1000000000

def refuse (msg : Bytes) : Next := .ret (schedErr .ScheduledProjectJobRestartError msg)

/-- `TaskRerun` once the task is read, up to the first request. -/
def begin (s : ScheduledService) (t : ProjectScheduleTaskDO) (typ : Bytes) (now : Time) : Next :=
  if t.status = .toBeRun ∨ t.status = .running ∨ t.status = .stopping then
    refuse (str "schedule task status is not finish, now is " ++ t.status.text)
  else if !s.hasKuscia then refuse (str "kuscia client unavailable")
  else if typ = [] ∨ typ = ScheduledRestartTypeAll then
    if t.allReRun then refuse (str "schedule task already performed a rerun of all")
    else match s.decodeJobRequest t.jobRequest with
      | .error e => refuse e
      | .ok req =>
        if t.scheduleTaskStartTime.isSome then .call (.taskRerun (.deleteJob t req now))
        else .call (.taskRerun (.createJob t req now))
  else if typ = ScheduledRestartTypeFailed then
    if t.scheduleTaskStartTime.any fun start => decide (start + scheduleRestartMaxAge < now) then
      refuse (str "scheduleTaskStartTime is more than 30 days")
    else .call (.taskRerun (.restartJob t now))
  else refuse (str "type is not support")

def instr (s : ScheduledService) : TaskRerun → Instr
  | findSchedule ownerId scheduleId scheduleTaskId typ => ⟨_, .findSchedule scheduleId, fun r _ => match r with
    | .error e => .ret (.done (.error (.db e)))
    | .ok none => .ret (schedErr .ScheduledScheduleNotExist scheduleId)
    | .ok (some sc) =>
      if sc.status = .down then refuse (str "schedule is down")
      else .call (.taskRerun (.find ownerId scheduleId scheduleTaskId typ))⟩
  | find ownerId scheduleId scheduleTaskId typ => ⟨_, .findTask scheduleId scheduleTaskId, fun r now => match r with
    | .error e => .ret (.done (.error (.db e)))
    | .ok none => .ret (schedErr .ScheduledScheduleTaskNotExist scheduleTaskId)
    | .ok (some t) =>
      if ownerId ≠ t.owner then .ret (schedErr .ScheduledUserNotOwner []) else begin s t typ now⟩
  | deleteJob t req now => ⟨_, .deleteJob t.id t.scheduleJobId, fun r _ => match r with
    | .error e => refuse e
    | .ok _ => .call (.taskRerun (.createJob t req now))⟩
  | createJob t req now => ⟨_, .createJob .rerun t.id req, fun r _ => match r with
    | .error e => refuse e
    | .ok _ => .call (.taskRerun (.deleteResults t now))⟩
  -- from here on the copy of the task says that it was rerun
  | deleteResults t now => ⟨_, .deleteResults t.projectId t.scheduleJobId, fun r _ => match r with
    | .error e => .ret (.done (.error (.db e)))
    | .ok _ => .call (.taskRerun (.task { t with allReRun := true } true now))⟩
  | restartJob t now => ⟨_, .restartJob t.scheduleJobId, fun r _ => match r with
    | .error e => refuse e
    | .ok _ => .call (.taskRerun (.task t false now))⟩
  | task t _ now => ⟨_, .updateTasks (.key t.scheduleTaskId)
      { status := some .running, startTime := some (some now), endTime := some none, allReRun := some t.allReRun },
    fun r _ => match r with
    | .error e => .ret (.done (.error (.db e)))
    | .ok _ => .call (.taskRerun (.job t))⟩
  | job t => ⟨_, .updateJobs (.key t.projectId t.scheduleJobId)
      { status := .running, finishedTime := some none, errMsg := some [] },
    fun r _ => match r with
    | .error e => .ret (.done (.error (.db e)))
    | .ok _ => .ret (.done (.ok ()))⟩

end TaskRerun

def Call.instr (s : ScheduledService) : Call → Instr
  | runDue pc => pc.instr s
  | taskStop pc => pc.instr s
  | offline pc => pc.instr
  | apply pc => pc.instr s
  | taskRerun pc => pc.instr s

/-- How the statement of a call ends: with the text of an error or not, and at what time. -/
structure Ending where
  error : Option Bytes
  clock : Time

def Instr.exec (p : Instr) (db : Db) (x : Ending) : Calls.Effect Db Call Event :=
  match x.error with
  | some e => ⟨db, (p.cont (.error e) x.clock).call?, p.stmt.attempts ++ (p.cont (.error e) x.clock).events⟩
  | none =>
    ⟨p.stmt.run db, (p.cont (.ok (p.stmt.answer db)) x.clock).call?,
      p.stmt.events db ++ (p.cont (.ok (p.stmt.answer db)) x.clock).events⟩

abbrev World := Calls.World Db Call Event

abbrev Action := Calls.Action Call Ending

namespace ScheduledService

variable (s : ScheduledService)

def exec (db : Db) (c : Call) (x : Ending) : Calls.Effect Db Call Event := (c.instr s).exec db x

def step (w : World) (a : Action) : Option World := Calls.step Call.first s.exec w a

end ScheduledService

end Sched
