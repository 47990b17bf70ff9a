import Privahub.Job.Stale
import Mathlib.Data.List.Induction

/-!
# The two ways to apply a report to a schedule job

`updateJob` merges the reports of extended tasks, stops the tasks of a job that has failed or was stopped, and
then runs the scheduler's hook, which is `ApplyKusciaJobStatus`; the scheduler's own poll runs `ApplyKusciaJobStatus`
alone. The status of the job comes out the same, and so does that of a task that the report names; `apply_agrees`
says when the other tasks agree.
-/

namespace Job

open Table (updateWhere)
open Sched (NodeStatus ProjectJobTaskDO ProjectScheduleJobDO ProjectScheduleTaskDO JobExecutionStatus)

def applyReports (service : Sched.ScheduledService) (sj : ProjectScheduleJobDO) (ts : List Sched.TaskStatus) (sdb : Sched.Db) : Sched.Db :=
  ts.foldl (fun d kt => d.updateJobTasks (.taskIn sj.projectId sj.jobId (names kt))
    { status := Sched.mapKusciaTaskStateToNodeStatus service.unicode kt.state,
      errMsg := if kt.errMsg = [] then none else some kt.errMsg }) sdb

def applyJob (service : Sched.ScheduledService) (now : Sched.Time) (sj : ProjectScheduleJobDO) (st : JobExecutionStatus) (sdb : Sched.Db) : Sched.Db :=
  sdb.updateJobs (.id sj.id)
    { status := Sched.mapKusciaJobStateToScheduleJob service.unicode st.state,
      errMsg := if st.errMsg = [] then none else some st.errMsg,
      finishedTime := if Sched.isScheduleJobFinished (Sched.mapKusciaJobStateToScheduleJob service.unicode st.state) then some (some now) else none }

def applyTask (now : Sched.Time) (status : JobStatus) (sdb : Sched.Db) (t : ProjectScheduleTaskDO) : Sched.Db :=
  if Sched.Apply.skips (Sched.ScheduledStatusFrom status) t then sdb
  else sdb.updateTasks (.id t.id)
    { status := some (Sched.ScheduledStatusFrom status),
      endTime := if Sched.isScheduleTaskTerminal (Sched.ScheduledStatusFrom status) then some (some now) else none }

def applyTasks (now : Sched.Time) (status : JobStatus) (ts : List ProjectScheduleTaskDO) (sdb : Sched.Db) : Sched.Db :=
  ts.foldl (applyTask now status) sdb

/-- The tables after `ApplyKusciaJobStatus` on the schedule job `sj`. -/
def applied (service : Sched.ScheduledService) (now : Sched.Time) (sj : ProjectScheduleJobDO) (st : JobExecutionStatus) (sdb : Sched.Db) : Sched.Db :=
  applyTasks now (Sched.mapKusciaJobStateToScheduleJob service.unicode st.state)
    ((applyJob service now sj st (applyReports service sj st.tasks sdb)).tasks.filter fun t => decide (t.scheduleJobId = sj.jobId))
    (applyJob service now sj st (applyReports service sj st.tasks sdb))

/-- `ApplyKusciaJobStatus` leads from one state of the tables to another, all its statements going through. -/
inductive Runs (service : Sched.ScheduledService) (now : Sched.Time) : Sched.Apply → Sched.Db → Sched.Db → Prop
  | ret {pc : Sched.Apply} {sdb : Sched.Db} (hn : ((pc.instr service).exec sdb ⟨none, now⟩).next = none) :
    Runs service now pc sdb ((pc.instr service).exec sdb ⟨none, now⟩).db
  | step {pc pc' : Sched.Apply} {sdb sdb' : Sched.Db} (hn : ((pc.instr service).exec sdb ⟨none, now⟩).next = some (.apply pc'))
    (h : Runs service now pc' ((pc.instr service).exec sdb ⟨none, now⟩).db sdb') : Runs service now pc sdb sdb'

variable {s : Platform} {db db' : Db} {w : World} {service : Sched.ScheduledService} {now : Sched.Time} {sdb sdb' : Sched.Db}
  {sj : ProjectScheduleJobDO} {st : JobExecutionStatus} {pc : Sched.Apply} {i : Nat}

theorem runs_nextTask {status : JobStatus} {ts : List ProjectScheduleTaskDO} {p : Sched.Apply} {sdb₀ : Sched.Db}
    (hdb : ((p.instr service).exec sdb₀ ⟨none, now⟩).db = sdb)
    (hn : ((p.instr service).exec sdb₀ ⟨none, now⟩).next = (Sched.Apply.nextTask status now ts).call?) :
    Runs service now p sdb₀ (applyTasks now status ts sdb) := by
  induction ts generalizing p sdb₀ sdb with
  | nil => exact hdb ▸ .ret hn
  | cons t ts ih =>
    rw [Sched.Apply.nextTask] at hn
    show Runs service now p sdb₀ (applyTasks now status ts (applyTask now status sdb t))
    by_cases hskip : Sched.Apply.skips (Sched.ScheduledStatusFrom status) t
    · rw [if_pos hskip] at hn
      rw [applyTask, if_pos hskip]
      exact ih hdb hn
    · rw [if_neg hskip] at hn
      rw [applyTask, if_neg hskip]
      refine .step hn (ih ?_ rfl)
      rw [hdb]
      rfl

theorem runs_job : Runs service now (.job sj st now) sdb (applyTasks now (Sched.mapKusciaJobStateToScheduleJob service.unicode st.state)
    ((applyJob service now sj st sdb).tasks.filter fun t => decide (t.scheduleJobId = sj.jobId)) (applyJob service now sj st sdb)) :=
  .step rfl (runs_nextTask rfl rfl)

theorem runs_nextJobTask {ts : List Sched.TaskStatus} {p : Sched.Apply} {sdb₀ : Sched.Db}
    (hdb : ((p.instr service).exec sdb₀ ⟨none, now⟩).db = sdb)
    (hn : ((p.instr service).exec sdb₀ ⟨none, now⟩).next = (Sched.Apply.nextJobTask sj st now ts).call?) :
    Runs service now p sdb₀ (applyTasks now (Sched.mapKusciaJobStateToScheduleJob service.unicode st.state)
      ((applyJob service now sj st (applyReports service sj ts sdb)).tasks.filter fun t => decide (t.scheduleJobId = sj.jobId))
      (applyJob service now sj st (applyReports service sj ts sdb))) := by
  induction ts generalizing p sdb₀ sdb with
  | nil =>
    refine .step hn ?_
    rw [hdb]
    exact runs_job
  | cons t ts ih =>
    refine .step hn (ih ?_ rfl)
    rw [hdb]
    rfl

theorem runs_find {jobID : Bytes} (hj : sdb.firstJob jobID = some sj) (hs : sj.status ≠ .succeed) :
    Runs service now (.find jobID (some st)) sdb (applied service now sj st sdb) := by
  refine runs_nextJobTask rfl ?_
  show (Sched.Instr.exec _ _ _).next = _
  simp only [Sched.Apply.instr, Sched.Instr.exec, Sched.Stmt.answer, hj, if_neg hs]

theorem alone_sched {x : Ending} (hx : x.error = none) (h : Runs s.scheduler x.clock pc sdb sdb') (hc : w.calls i = some (.sched (.apply pc)))
    (hdb : w.db.sched = sdb) : ∃ w', Calls.Alone Call.first s.exec i x w w' ∧ w'.calls i = none ∧ w'.db.sched = sdb' := by
  induction h generalizing w with
  | @ret pc sdb hn =>
    refine ⟨_, .head hc .refl, ?_, ?_⟩
    · simp only [Calls.World.after, Platform.exec, go, hx, hdb, Function.update_self]
      exact congrArg (Option.map Call.sched) hn
    · simp only [Calls.World.after, Platform.exec, go, hx, hdb]
      rfl
  | @step pc pc' sdb sdb' hn _ ih =>
    obtain ⟨w', halone, hw'⟩ := ih (w := w.after s.exec i (.sched (.apply pc)) x)
      (by
        simp only [Calls.World.after, Platform.exec, go, hx, hdb, Function.update_self]
        exact congrArg (Option.map Call.sched) hn)
      (by
        simp only [Calls.World.after, Platform.exec, go, hx, hdb]
        rfl)
    exact ⟨w', .head hc halone, hw'⟩

theorem alone_hook {x : Ending} (hx : x.error = none) (hh : s.sync.hook = some service) (h : Runs service x.clock pc sdb sdb')
    (hc : w.calls i = some (.syncJob (.hook pc))) (hdb : w.db.sched = sdb) :
    ∃ w', Calls.Alone Call.first s.exec i x w w' ∧ w'.calls i = none ∧ w'.db.sched = sdb' := by
  induction h generalizing w with
  | @ret pc sdb hn =>
    refine ⟨_, .head hc .refl, ?_, ?_⟩
    · simp only [Calls.World.after, Platform.exec, SyncJob.run, hh, hx, hdb, hn, Function.update_self]
      rfl
    · simp only [Calls.World.after, Platform.exec, SyncJob.run, hh, hx, hdb, hn]
      rfl
  | @step pc pc' sdb sdb' hn _ ih =>
    obtain ⟨w', halone, hw'⟩ := ih (w := w.after s.exec i (.syncJob (.hook pc)) x)
      (by simp only [Calls.World.after, Platform.exec, SyncJob.run, hh, hx, hdb, hn, Function.update_self])
      (by
        simp only [Calls.World.after, Platform.exec, SyncJob.run, hh, hx, hdb, hn]
        rfl)
    exact ⟨w', .head hc halone, hw'⟩

def applyRow (service : Sched.ScheduledService) (sj : ProjectScheduleJobDO) (ts : List Sched.TaskStatus) (k : ProjectJobTaskDO) : ProjectJobTaskDO :=
  ts.foldl (fun k kt => if (Sched.JobTaskWhere.taskIn sj.projectId sj.jobId (names kt)).holds k then
    (Sched.JobTaskSet.mk (Sched.mapKusciaTaskStateToNodeStatus service.unicode kt.state) (if kt.errMsg = [] then none else some kt.errMsg)).apply k
    else k) k

theorem applyReports_eq {ts : List Sched.TaskStatus} : (applyReports service sj ts sdb).jobTasks = sdb.jobTasks.map (applyRow service sj ts) ∧
    (applyReports service sj ts sdb).jobs = sdb.jobs ∧ (applyReports service sj ts sdb).tasks = sdb.tasks := by
  induction ts generalizing sdb with
  | nil => exact ⟨(List.map_id' _).symm, rfl, rfl⟩
  | cons t ts ih =>
    obtain ⟨h₁, h₂, h₃⟩ := ih
    refine ⟨h₁.trans ?_, h₂, h₃⟩
    show (updateWhere _ _ sdb.jobTasks).map _ = _
    unfold updateWhere
    rw [List.map_map]
    rfl

def named (ts : List Sched.TaskStatus) (id : Bytes) : Option Sched.TaskStatus := ts.reverse.find? fun t => decide (id ∈ names t)

theorem named_concat {ts : List Sched.TaskStatus} {t : Sched.TaskStatus} {id : Bytes} :
    named (ts ++ [t]) id = if id ∈ names t then some t else named ts id := by
  unfold named
  rw [List.reverse_concat, List.find?_cons]
  by_cases h : id ∈ names t
  · simp only [h, decide_true, if_true]
  · simp only [h, decide_false, if_false]

theorem applyRow_concat {ts : List Sched.TaskStatus} {t : Sched.TaskStatus} {k : ProjectJobTaskDO} :
    applyRow service sj (ts ++ [t]) k = if (Sched.JobTaskWhere.taskIn sj.projectId sj.jobId (names t)).holds (applyRow service sj ts k) then
      (Sched.JobTaskSet.mk (Sched.mapKusciaTaskStateToNodeStatus service.unicode t.state)
        (if t.errMsg = [] then none else some t.errMsg)).apply (applyRow service sj ts k)
      else applyRow service sj ts k := by
  unfold applyRow
  rw [List.foldl_append]
  rfl

theorem applyRow_eq {ts : List Sched.TaskStatus} {k : ProjectJobTaskDO} : taskKey (applyRow service sj ts k) = taskKey k ∧
    (applyRow service sj ts k).status = if inJob sj.projectId sj.jobId k then
      ((named ts k.taskId).map fun t => Sched.mapKusciaTaskStateToNodeStatus service.unicode t.state).getD k.status else k.status := by
  induction ts using List.reverseRecOn with
  | nil => exact ⟨rfl, (ite_self _).symm⟩
  | append_singleton ts t ih =>
    obtain ⟨hkey, hst⟩ := ih
    simp only [taskKey, Prod.mk.injEq] at hkey
    rw [applyRow_concat, named_concat]
    simp only [Sched.JobTaskWhere.holds, hkey, decide_eq_true_eq, inJob] at hst ⊢
    by_cases hin : k.projectId = sj.projectId ∧ k.jobId = sj.jobId
    · by_cases hid : k.taskId ∈ names t
      · rw [if_pos ⟨hin.1, hin.2, hid⟩, if_pos hin, if_pos hid]
        exact ⟨by simp only [taskKey, Sched.JobTaskSet.apply, hkey], rfl⟩
      · rw [if_neg fun h => hid h.2.2, if_neg hid, hst]
        exact ⟨by simp only [taskKey, hkey], rfl⟩
    · rw [if_neg fun h => hin ⟨h.1, h.2.1⟩, hst, if_neg hin, if_neg hin]
      exact ⟨by simp only [taskKey, hkey], rfl⟩

theorem applyTasks_eq {status : JobStatus} {ts : List ProjectScheduleTaskDO} {d d' : Sched.Db} (h : d.tasks = d'.tasks) :
    (applyTasks now status ts d).jobTasks = d.jobTasks ∧ (applyTasks now status ts d).jobs = d.jobs ∧
    (applyTasks now status ts d).tasks = (applyTasks now status ts d').tasks := by
  induction ts generalizing d d' with
  | nil => exact ⟨rfl, rfl, h⟩
  | cons t ts ih =>
    have hstep : (applyTask now status d t).jobTasks = d.jobTasks ∧ (applyTask now status d t).jobs = d.jobs ∧
        (applyTask now status d t).tasks = (applyTask now status d' t).tasks := by
      unfold applyTask
      by_cases hs : Sched.Apply.skips (Sched.ScheduledStatusFrom status) t
      · rw [if_pos hs, if_pos hs]
        exact ⟨rfl, rfl, h⟩
      · rw [if_neg hs, if_neg hs]
        exact ⟨rfl, rfl, congrArg (updateWhere _ _) h⟩
    obtain ⟨h₁, h₂, h₃⟩ := ih hstep.2.2
    exact ⟨h₁.trans hstep.1, h₂.trans hstep.2.1, h₃⟩

theorem applied_eq {d d' : Sched.Db} (hj : d.jobs = d'.jobs) (ht : d.tasks = d'.tasks) :
    (applied service now sj st d).jobTasks = d.jobTasks.map (applyRow service sj st.tasks) ∧
    (applied service now sj st d).jobs = (applied service now sj st d').jobs ∧
    (applied service now sj st d).tasks = (applied service now sj st d').tasks := by
  obtain ⟨h₁, h₂, h₃⟩ := applyReports_eq
  obtain ⟨_, h₂', h₃'⟩ := applyReports_eq
  have htasks : (applyJob service now sj st (applyReports service sj st.tasks d)).tasks =
      (applyJob service now sj st (applyReports service sj st.tasks d')).tasks := h₃.trans (ht.trans h₃'.symm)
  have hjobs : (applyJob service now sj st (applyReports service sj st.tasks d)).jobs =
      (applyJob service now sj st (applyReports service sj st.tasks d')).jobs := congrArg (updateWhere _ _) (h₂.trans (hj.trans h₂'.symm))
  unfold applied
  rw [htasks]
  obtain ⟨e₁, e₂, e₃⟩ := applyTasks_eq
    htasks
  exact ⟨e₁.trans h₁, (e₂.trans hjobs).trans (applyTasks_eq rfl).2.1.symm, e₃⟩

/-- The status that `updateJob` gives a task of which only extended tasks are reported. -/
def extStatus (t : JobTaskStatusDetail) : NodeStatus := TaskStatusFromKuscia (extOnly t).state

/-- `updateJob` leaves the status of a task that the report does not name. -/
def Settled (e : JobStatusDetailInfo) (k : ProjectJobTaskDO) : Prop :=
  match ext e.tasks k.taskId with
  | none => JobStatusSyncService.stopsTasks e = true → isPending k.status = false
  | some t => k.status = if JobStatusSyncService.stopsTasks e && isPending (extStatus t) then .stopped else extStatus t

theorem base_of_unnamed {ts : List JobTaskStatusDetail} {id : Bytes} (h : named ts id = none) : base ts id = none := by
  refine List.find?_eq_none.2 fun t ht => ?_
  have hn := List.find?_eq_none.1 h t ht
  simp only [decide_eq_true_eq] at hn ⊢
  exact fun hr => hn (hr.1 ▸ raw_mem_names)

theorem settled_iff {h : JobHolder} {e : JobStatusDetailInfo} {k : ProjectJobTaskDO} (hin : inJob h.projectID h.jobID k = true)
    (hn : named e.tasks k.taskId = none) : (syncRow h e k).status = k.status ↔ Settled e k := by
  unfold syncRow JobStatusSyncService.report mergeExtendedTasks Settled
  rw [if_pos hin, base_of_unnamed hn]
  cases he : ext e.tasks k.taskId with
  | none =>
    simp only [Bool.and_eq_true]
    split_ifs with hs
    · constructor
      · intro hk
        obtain ⟨_, hp⟩ := hs
        rw [← hk] at hp
        cases hp
      · intro hk
        rw [hk hs.1] at hs
        cases hs.2
    · simp only [true_iff]
      intro hst
      cases hp : isPending k.status with
      | false => rfl
      | true => exact absurd ⟨hst, hp⟩ hs
  | some t =>
    show (if _ then _ else _ : ProjectJobTaskDO).status = k.status ↔ k.status = _
    unfold extStatus
    split_ifs
    · exact eq_comm
    · exact eq_comm

/-- The statuses of the schedule jobs, of the schedule tasks and of the job tasks are the same. -/
def Agree (d d' : Sched.Db) : Prop :=
  d.jobs.map (·.status) = d'.jobs.map (·.status) ∧ d.tasks.map (·.status) = d'.tasks.map (·.status) ∧
  d.jobTasks.map (·.status) = d'.jobTasks.map (·.status)

theorem agrees_iff {h : JobHolder} {e : JobStatusDetailInfo} {d : Sched.Db} (hp : h.projectID = sj.projectId) (hj : h.jobID = sj.jobId)
    (hst : st = toExecutionStatus e) (hjobs : d.jobs = sdb.jobs) (htasks : d.tasks = sdb.tasks)
    (hrows : d.jobTasks = JobStatusSyncService.syncTasks h e sdb.jobTasks) :
    Agree (applied service now sj st d) (applied service now sj st sdb) ↔
    ∀ k ∈ sdb.jobTasks, inJob sj.projectId sj.jobId k = true → named e.tasks k.taskId = none → Settled e k := by
  subst hst
  obtain ⟨h₁, h₂, h₃⟩ := applied_eq hjobs htasks
  have hrow (k : ProjectJobTaskDO) : (applyRow service sj e.tasks (syncRow h e k)).status = (applyRow service sj e.tasks k).status ↔
      (inJob sj.projectId sj.jobId k = true → named e.tasks k.taskId = none → Settled e k) := by
    have hid : (syncRow h e k).taskId = k.taskId := congrArg (·.2.2) (taskKey_syncRow (h := h) (e := e) (k := k))
    rw [applyRow_eq.2, applyRow_eq.2, inJob_of_key taskKey_syncRow, hid]
    by_cases hin : inJob sj.projectId sj.jobId k
    · simp only [hin, if_true, forall_const]
      cases hn : named e.tasks k.taskId with
      | none =>
        simp only [forall_const]
        exact settled_iff (by rw [hp, hj, hin]) hn
      | some t => simp
    · simp only [hin, if_false, Bool.false_eq_true, false_implies, iff_true]
      unfold syncRow
      rw [hp, hj, if_neg hin]
  unfold Agree
  rw [h₁, h₂, h₃, (applied_eq rfl rfl).1, hrows, syncTasks_eq]
  simp only [List.map_map, true_and]
  rw [List.map_inj_left]
  exact forall₂_congr fun k _ => hrow k

theorem Agree.refl {d : Sched.Db} : Agree d d := ⟨rfl, rfl, rfl⟩

theorem alone_syncJob {x : Ending} {jobID : Bytes} {e : JobStatusDetailInfo} (hh : s.sync.hook = some service) (hx : x.error = none)
    (hp : db.findJob jobID = none) (hj : db.sched.firstJob jobID = some sj) (hs : sj.status ≠ .succeed)
    (hc : w.calls i = some (.syncJob (.find jobID e))) (hdb : w.db = db) :
    ∃ w' d, Calls.Alone Call.first s.exec i x w w' ∧ w'.calls i = none ∧
      w'.db.sched = applied service x.clock sj (toExecutionStatus e) d ∧ d.jobs = db.sched.jobs ∧ d.tasks = db.sched.tasks ∧
      d.jobTasks = JobStatusSyncService.syncTasks ⟨sj.projectId, jobID, sj.status, sj.id, true⟩ e db.sched.jobTasks := by
  subst hdb
  let h : JobHolder := ⟨sj.projectId, jobID, sj.status, sj.id, true⟩
  have h₁ : s.exec w.db (.syncJob (.find jobID e)) x = go w.db (some (.syncJob (.findSchedule jobID e))) := by
    simp only [Platform.exec, SyncJob.run, hx, hp, Option.isSome_none, Bool.false_eq_true, if_false]
  have h₂ : s.exec w.db (.syncJob (.findSchedule jobID e)) x = go w.db (some (.syncJob (.updateJob h e))) := by
    simp only [Platform.exec, SyncJob.run, hx, hj, hs, Option.isSome_none, Bool.false_eq_true, if_false]
    rfl
  have h₃ : s.exec w.db (.syncJob (.updateJob h e)) x = ⟨w.db.setTasks (JobStatusSyncService.syncTasks h e w.db.sched.jobTasks),
      some (.syncJob (.hook (.find jobID (some (toExecutionStatus e))))), [.applied sj.projectId jobID e]⟩ := by
    simp only [Platform.exec, SyncJob.run, hx, hh, JobStatusSyncService.updateJob, JobStatusSyncService.writeJob, Option.isSome_none,
      Option.isSome_some, Bool.false_eq_true, if_false, if_true, and_self, h]
  obtain ⟨w', halone, hend, hdb⟩ := alone_hook (s := s) (i := i) hx hh
    (w := ((w.after s.exec i (.syncJob (.find jobID e)) x).after s.exec i (.syncJob (.findSchedule jobID e)) x).after s.exec i
      (.syncJob (.updateJob h e)) x)
    (runs_find hj hs : Runs service x.clock (.find jobID (some (toExecutionStatus e)))
      (w.db.setTasks (JobStatusSyncService.syncTasks h e w.db.sched.jobTasks)).sched _)
    (by simp only [Calls.World.after, h₁, h₂, h₃, go, Function.update_self])
    (by simp only [Calls.World.after, h₁, h₂, h₃, go])
  refine ⟨w', _, .head hc (.head ?_ (.head ?_ halone)), hend, hdb, rfl, rfl, rfl⟩
  · simp only [Calls.World.after, h₁, go, Function.update_self]
  · simp only [Calls.World.after, h₁, h₂, go, Function.update_self]

theorem alone_succeed {x : Ending} {jobID : Bytes} {e : JobStatusDetailInfo} (st : JobExecutionStatus) (hx : x.error = none) (hp : db.findJob jobID = none)
    (hj : db.sched.firstJob jobID = some sj) (hs : sj.status = .succeed) (hdb : w.db = db) :
    (w.calls i = some (.syncJob (.find jobID e)) → ∃ w', Calls.Alone Call.first s.exec i x w w' ∧ w'.calls i = none ∧ w'.db.sched = db.sched) ∧
    (w.calls i = some (.sched (.apply (.find jobID (some st)))) →
      ∃ w', Calls.Alone Call.first s.exec i x w w' ∧ w'.calls i = none ∧ w'.db.sched = db.sched) := by
  subst hdb
  constructor
  · intro hc
    have h₁ : s.exec w.db (.syncJob (.find jobID e)) x = go w.db (some (.syncJob (.findSchedule jobID e))) := by
      simp only [Platform.exec, SyncJob.run, hx, hp, Option.isSome_none, Bool.false_eq_true, if_false]
    have h₂ : s.exec w.db (.syncJob (.findSchedule jobID e)) x = unlock w.db := by
      simp only [Platform.exec, SyncJob.run, hx, hj, hs, Option.isSome_none, Bool.false_eq_true, if_false, if_true]
    refine ⟨_, .head hc (.head (c := .syncJob (.findSchedule jobID e)) ?_ .refl), ?_, ?_⟩
    · simp only [Calls.World.after, h₁, go, Function.update_self]
    · simp only [Calls.World.after, h₁, h₂, go, unlock, Function.update_self]
    · simp only [Calls.World.after, h₁, h₂, go, unlock, Db.locked]
  · intro hc
    have hnext : (s.exec w.db (.sched (.apply (.find jobID (some st)))) x).next = none := by
      simp only [Platform.exec, go, Sched.Call.instr, Sched.Apply.instr, Sched.Instr.exec, Sched.Stmt.answer, hx, hj, if_pos hs]
      rfl
    refine ⟨_, .head hc .refl, (Function.update_self ..).trans hnext, ?_⟩
    show (s.exec w.db _ x).db.sched = w.db.sched
    simp only [Platform.exec, go, Sched.Call.instr, Sched.Apply.instr, Sched.Instr.exec, hx]
    rfl

/-- A report handed to `SyncJob`, and the same report handed to `ApplyKusciaJobStatus` alone: both return, and the
statuses that they leave are the same just when each task that the report does not name keeps its status. -/
theorem apply_agrees {x : Ending} {jobID : Bytes} {e : JobStatusDetailInfo} (hh : s.sync.hook = some s.scheduler) (hx : x.error = none)
    (hp : db.findJob jobID = none) (hj : db.sched.firstJob jobID = some sj) :
    ∃ w w', Calls.Alone Call.first s.exec 0 x (Calls.World.begin (.idle db) 0 (.syncJob (.find jobID e))) w ∧ w.calls 0 = none ∧
      Calls.Alone Call.first s.exec 0 x (Calls.World.begin (.idle db) 0 (.sched (.apply (.find jobID (some (toExecutionStatus e)))))) w' ∧
      w'.calls 0 = none ∧
      (Agree w.db.sched w'.db.sched ↔ sj.status = .succeed ∨
        ∀ k ∈ db.sched.jobTasks, inJob sj.projectId jobID k = true → (∀ t ∈ e.tasks, k.taskId ∉ names t) → Settled e k) := by
  have hc (c : Call) : (Calls.World.begin (.idle db) 0 c : World).calls 0 = some c := by
    simp [Calls.World.begin]
  by_cases hs : sj.status = .succeed
  · obtain ⟨w, hw, hend, hdb⟩ := (alone_succeed (s := s) (e := e) (toExecutionStatus e) hx hp hj hs rfl).1 (hc _)
    obtain ⟨w', hw', hend', hdb'⟩ := (alone_succeed (s := s) (e := e) (toExecutionStatus e) hx hp hj hs rfl).2 (hc _)
    refine ⟨w, w', hw, hend, hw', hend', ?_⟩
    rw [hdb, hdb']
    exact iff_of_true .refl (.inl hs)
  · have hjob : sj.jobId = jobID := by
      have hj' := List.find?_some hj
      exact of_decide_eq_true hj'
    obtain ⟨w, d, hw, hend, hdb, h₁, h₂, h₃⟩ := alone_syncJob (s := s) hh hx hp hj hs (hc _) rfl
    obtain ⟨w', hw', hend', hdb'⟩ := alone_sched (s := s) hx (runs_find hj hs) (hc _) rfl
    refine ⟨w, w', hw, hend, hw', hend', ?_⟩
    rw [hdb, hdb', agrees_iff (h := ⟨sj.projectId, jobID, sj.status, sj.id, true⟩) rfl hjob.symm rfl h₁ h₂ h₃, hjob]
    simp only [hs, false_or]
    refine forall₃_congr fun k _ _ => imp_congr_left ?_
    unfold named
    rw [List.find?_eq_none]
    simp only [List.mem_reverse, decide_eq_true_eq]

def hooked : Platform := ⟨⟨some scheduler, 60, fun _ => none⟩, scheduler⟩

def oneSchedule (tasks : List ProjectJobTaskDO) : Db where
  sched := { noSchedules tasks with
    jobs := [⟨1, [2], [3], .running, [], none⟩]
    job_pks := List.nodup_singleton _
    job_ids := List.nodup_singleton _ }
  jobs := []
  applyMu := false
  nextJob := 1
  job_pks := by simp
  job_ids := by simp
  job_new _ hj := nomatch hj

theorem apply_agrees_running : ∃ w w',
    Calls.Alone Call.first hooked.exec 0 fine (Calls.World.begin (.idle (oneSchedule (oneTask .initialized))) 0
      (.syncJob (.find [3] (running (str "Running"))))) w ∧ w.calls 0 = none ∧
    Calls.Alone Call.first hooked.exec 0 fine (Calls.World.begin (.idle (oneSchedule (oneTask .initialized))) 0
      (.sched (.apply (.find [3] (some (toExecutionStatus (running (str "Running")))))))) w' ∧ w'.calls 0 = none ∧
    Agree w.db.sched w'.db.sched := by
  obtain ⟨w, w', hw, hend, hw', hend', h⟩ := apply_agrees (s := hooked) (x := fine) (e := running (str "Running")) rfl rfl
    (show (oneSchedule (oneTask .initialized)).findJob [3] = none from rfl)
    (show (oneSchedule (oneTask .initialized)).sched.firstJob [3] = some ⟨1, [2], [3], .running, [], none⟩ from rfl)
  refine ⟨w, w', hw, hend, hw', hend', h.2 (.inr ?_)⟩
  intro k hk _ hn
  -- the one task is named by its alias
  obtain rfl := List.mem_singleton.1 hk
  exact absurd (by decide) (hn ⟨[9], [7], str "Running", []⟩ (List.mem_singleton.2 rfl))

/-- A task that the report does not name: `updateJob` stops it with a failed job, and it runs when an extended task of it
runs; `ApplyKusciaJobStatus` leaves it alone. -/
theorem apply_differs :
    (∃ w w', Lts.run hooked.step (.idle (oneSchedule (oneTask .running)))
        (event 0 ⟨str "Failed", [], str "t", []⟩ :: List.replicate 7 (exec 0)) = some w ∧
      Lts.run hooked.step (.idle (oneSchedule (oneTask .running)))
        (.start 0 (.sched (.apply (.find [3] (some (toExecutionStatus ⟨str "Failed", [], str "t", []⟩))))) :: List.replicate 3 (exec 0)) = some w' ∧
      (w.calls 0).isNone ∧ (w'.calls 0).isNone ∧
      w.db.sched.jobTasks.map (·.status) = [.stopped] ∧ w'.db.sched.jobTasks.map (·.status) = [.running]) ∧
    ∃ w w', Lts.run hooked.step (.idle (oneSchedule (oneTask .initialized)))
        (event 0 ⟨str "Running", [], [], [⟨[7, 45, 45, 49], [], str "Running", []⟩]⟩ :: List.replicate 8 (exec 0)) = some w ∧
      Lts.run hooked.step (.idle (oneSchedule (oneTask .initialized)))
        (.start 0 (.sched (.apply (.find [3] (some (toExecutionStatus ⟨str "Running", [], [], [⟨[7, 45, 45, 49], [], str "Running", []⟩]⟩))))) ::
          List.replicate 4 (exec 0)) = some w' ∧
      (w.calls 0).isNone ∧ (w'.calls 0).isNone ∧
      w.db.sched.jobTasks.map (·.status) = [.running] ∧ w'.db.sched.jobTasks.map (·.status) = [.initialized] := by
  constructor
  · have hrun : ((Lts.run hooked.step (.idle (oneSchedule (oneTask .running)))
        (event 0 ⟨str "Failed", [], str "t", []⟩ :: List.replicate 7 (exec 0))).bind fun w =>
        (Lts.run hooked.step (.idle (oneSchedule (oneTask .running)))
          (.start 0 (.sched (.apply (.find [3] (some (toExecutionStatus ⟨str "Failed", [], str "t", []⟩))))) :: List.replicate 3 (exec 0))).map
          fun w' => decide ((w.calls 0).isNone ∧ (w'.calls 0).isNone ∧
            w.db.sched.jobTasks.map (·.status) = [.stopped] ∧ w'.db.sched.jobTasks.map (·.status) = [.running])) = some true := by decide +kernel
    obtain ⟨w, hw, h⟩ := Option.bind_eq_some_iff.1 hrun
    obtain ⟨w', hw', h⟩ := Option.map_eq_some_iff.1 h
    exact ⟨w, w', hw, hw', of_decide_eq_true h⟩
  · have hrun : ((Lts.run hooked.step (.idle (oneSchedule (oneTask .initialized)))
        (event 0 ⟨str "Running", [], [], [⟨[7, 45, 45, 49], [], str "Running", []⟩]⟩ :: List.replicate 8 (exec 0))).bind fun w =>
        (Lts.run hooked.step (.idle (oneSchedule (oneTask .initialized)))
          (.start 0 (.sched (.apply (.find [3] (some (toExecutionStatus ⟨str "Running", [], [], [⟨[7, 45, 45, 49], [], str "Running", []⟩]⟩))))) ::
            List.replicate 4 (exec 0))).map
          fun w' => decide ((w.calls 0).isNone ∧ (w'.calls 0).isNone ∧
            w.db.sched.jobTasks.map (·.status) = [.running] ∧ w'.db.sched.jobTasks.map (·.status) = [.initialized])) = some true := by
      decide +kernel
    obtain ⟨w, hw, h⟩ := Option.bind_eq_some_iff.1 hrun
    obtain ⟨w', hw', h⟩ := Option.map_eq_some_iff.1 h
    exact ⟨w, w', hw, hw', of_decide_eq_true h⟩

end Job
