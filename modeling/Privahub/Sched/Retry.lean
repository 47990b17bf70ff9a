import Privahub.Sched.Service

/-!
# A full rerun that is tried again

`TaskRerun` over the database and the jobs of Kuscia, which refuses to create a job that exists and to delete one that does not. Every step may
fail, before it is carried out or after. What a call that fails leaves is served by the same request with all services working exactly when the
failure comes before the first request to Kuscia is carried out, or when the job of a task that has been started is there again and the task
not written yet (`retry_iff`).
-/

namespace Sched

/-- A step is answered, or it fails before it is carried out or after. -/
inductive Fault
  | answered
  | lost (text : Bytes)
  | unanswered (text : Bytes)
  deriving DecidableEq

def Fault.carriedOut : Fault → Bool
  | .lost _ => false
  | _ => true

inductive Point
  | findSchedule
  | findTask
  | deleteJob
  | createJob
  | deleteResults
  | restartJob
  | updateTask
  | updateJob
  deriving DecidableEq

structure Site where
  db : Db
  jobs : List Bytes

/-- How the steps of a call end, what Kuscia says when it refuses a request, and the time. -/
structure Course where
  fault : Point → Fault
  refusal : Bytes
  now : Time

namespace Stmt

def refused {α : Type} (jobs : List Bytes) : Stmt α → Bool
  | createJob _ _ req => decide (req.jobId ∈ jobs)
  | deleteJob _ jobId => decide (jobId ∉ jobs)
  | _ => false

def jobsAfter {α : Type} (jobs : List Bytes) : Stmt α → List Bytes
  | createJob _ _ req => req.jobId :: jobs
  | deleteJob _ jobId => jobs.filter fun j => decide (j ≠ jobId)
  | _ => jobs

end Stmt

def Instr.attempt (p : Instr) (w : Site) (refusal : Bytes) (now : Time) : Fault → Next × Site
  | .lost e => (p.cont (.error e) now, w)
  | .answered =>
    if p.stmt.refused w.jobs then (p.cont (.error refusal) now, w)
    else (p.cont (.ok (p.stmt.answer w.db)) now, ⟨p.stmt.run w.db, p.stmt.jobsAfter w.jobs⟩)
  | .unanswered e =>
    if p.stmt.refused w.jobs then (p.cont (.error e) now, w) else (p.cont (.error e) now, ⟨p.stmt.run w.db, p.stmt.jobsAfter w.jobs⟩)

namespace TaskRerun

def point : TaskRerun → Point
  | findSchedule .. => .findSchedule
  | find .. => .findTask
  | deleteJob .. => .deleteJob
  | createJob .. => .createJob
  | deleteResults .. => .deleteResults
  | restartJob .. => .restartJob
  | task .. => .updateTask
  | job .. => .updateJob

def run (s : ScheduledService) (x : Course) : Nat → TaskRerun → Site → Option (Result × Site)
  | 0, _, _ => none
  | n + 1, pc, w =>
    match (pc.instr s).attempt w x.refusal x.now (x.fault pc.point) with
    | (.ret r, w') => some (r, w')
    | (.call (.taskRerun pc'), w') => run s x n pc' w'
    | (.call _, _) => none

end TaskRerun

/-- A request for a rerun of the whole job, by its caller. -/
structure Rerun where
  caller : Bytes
  scheduleId : Bytes
  scheduleTaskId : Bytes
  type : Bytes
  full : type = [] ∨ type = TaskRerun.ScheduledRestartTypeAll

def Rerun.first (r : Rerun) : TaskRerun := .findSchedule r.caller r.scheduleId r.scheduleTaskId r.type

def ScheduledService.TaskRerun (s : ScheduledService) (x : Course) (r : Rerun) (w : Site) : Option (Result × Site) :=
  TaskRerun.run s x 7 r.first w

/-- The task that a request is about and its stored request, if the checks let them through. -/
def ScheduledService.target (s : ScheduledService) (db : Db) (r : Rerun) : Option (ProjectScheduleTaskDO × CreateJobRequest) :=
  match db.firstSchedule r.scheduleId, db.firstTask r.scheduleId r.scheduleTaskId with
  | some sc, some t =>
    if sc.status = .down ∨ r.caller ≠ t.owner ∨ t.status = .toBeRun ∨ t.status = .running ∨ t.status = .stopping ∨ s.hasKuscia = false ∨
        t.allReRun = true then none
    else match s.decodeJobRequest t.jobRequest with
      | .error _ => none
      | .ok q => some (t, q)
  | _, _ => none

def Result.succeeded : Result → Bool
  | .done (.ok ()) => true
  | _ => false

variable {s : ScheduledService} {x : Course} {r : Rerun} {w w' : Site} {t : ProjectScheduleTaskDO} {q : CreateJobRequest} {now : Time} {n : Nat} {b : Bool}

structure Kept (w w' : Site) : Prop where
  jobs : w'.jobs = w.jobs
  schedules : w'.db.schedules = w.db.schedules
  tasks : w'.db.tasks = w.db.tasks

theorem Kept.refl (w : Site) : Kept w w := ⟨rfl, rfl, rfl⟩

theorem Kept.target (h : Kept w w') : s.target w'.db r = s.target w.db r := by
  simp only [ScheduledService.target, Db.firstSchedule, Db.firstTask, h.schedules, h.tasks]

theorem firstTask_of_target (h : s.target w.db r = some (t, q)) : w.db.firstTask r.scheduleId r.scheduleTaskId = some t := by
  unfold ScheduledService.target at h
  split at h
  · next sc t' _ ht =>
    split_ifs at h
    split at h
    · cases h
    · obtain ⟨rfl, -⟩ := Prod.mk.inj (Option.some.inj h)
      exact ht
  · cases h

structure Written (t : ProjectScheduleTaskDO) (w w' : Site) : Prop where
  schedules : w'.db.schedules = w.db.schedules
  tasks : ∃ v : TaskSet, v.status = some .running ∧ w'.db.tasks = (w.db.updateTasks (.key t.scheduleTaskId) v).tasks

theorem Written.trans_kept {w'' : Site} (h : Written t w w') (hk : Kept w' w'') : Written t w w'' := by
  obtain ⟨v, hv, htasks⟩ := h.tasks
  exact ⟨hk.schedules.trans h.schedules, v, hv, hk.tasks.trans htasks⟩

theorem Written.target (h : Written t w w') (ht : s.target w.db r = some (t, q)) : s.target w'.db r = none := by
  obtain ⟨v, hv, htasks⟩ := h.tasks
  have hfirst : w'.db.firstTask r.scheduleId r.scheduleTaskId = some (v.apply t) := by
    have hfind : (w.db.updateTasks (.key t.scheduleTaskId) v).firstTask r.scheduleId r.scheduleTaskId =
        (w.db.firstTask r.scheduleId r.scheduleTaskId).map fun u => if (TaskWhere.key t.scheduleTaskId).holds u then v.apply u else u :=
      Table.find?_updateWhere fun _ _ _ => rfl
    have hkey : (TaskWhere.key t.scheduleTaskId).holds t = true := decide_eq_true rfl
    rw [firstTask_of_target ht, Option.map_some, if_pos hkey] at hfind
    rw [Db.firstTask, htasks]
    exact hfind
  have hstatus : (v.apply t).status = .running := by simp [TaskSet.apply, column, hv]
  rw [ScheduledService.target, hfirst]
  cases w'.db.firstSchedule r.scheduleId with
  | none => rfl
  | some sc => exact if_pos (by simp [hstatus])

def Instr.after (p : Instr) (w : Site) : Site := ⟨p.stmt.run w.db, p.stmt.jobsAfter w.jobs⟩

theorem Instr.attempt_cases (p : Instr) (w : Site) (refusal : Bytes) (now : Time) (f : Fault) :
    ((f.carriedOut = true → p.stmt.refused w.jobs = true) ∧ ∃ e, p.attempt w refusal now f = (p.cont (.error e) now, w)) ∨
    p.stmt.refused w.jobs = false ∧ f.carriedOut = true ∧
      (f = .answered ∧ p.attempt w refusal now f = (p.cont (.ok (p.stmt.answer w.db)) now, p.after w) ∨
        f ≠ .answered ∧ ∃ e, p.attempt w refusal now f = (p.cont (.error e) now, p.after w)) := by
  cases hr : p.stmt.refused w.jobs with
  | true =>
    refine .inl ⟨fun _ => rfl, ?_⟩
    cases f with
    | lost e => exact ⟨e, rfl⟩
    | answered => exact ⟨refusal, if_pos hr⟩
    | unanswered e => exact ⟨e, if_pos hr⟩
  | false =>
    have hno : ¬p.stmt.refused w.jobs = true := Bool.eq_false_iff.1 hr
    cases f with
    | lost e => exact .inl ⟨nofun, e, rfl⟩
    | answered => exact .inr ⟨rfl, rfl, .inl ⟨rfl, if_neg hno⟩⟩
    | unanswered e => exact .inr ⟨rfl, rfl, .inr ⟨nofun, e, if_neg hno⟩⟩

theorem run_succ (pc : TaskRerun) : TaskRerun.run s x (n + 1) pc w =
    match (pc.instr s).attempt w x.refusal x.now (x.fault pc.point) with
    | (.ret r, w') => some (r, w')
    | (.call (.taskRerun pc'), w') => TaskRerun.run s x n pc' w'
    | (.call _, _) => none := rfl

theorem run_job (s : ScheduledService) (x : Course) (t : ProjectScheduleTaskDO) (w : Site) :
    ∃ res w', TaskRerun.run s x 1 (.job t) w = some (res, w') ∧ Kept w w' ∧ res.succeeded = decide (x.fault .updateJob = .answered) := by
  rw [run_succ, TaskRerun.point]
  cases x.fault .updateJob with
  | answered => exact ⟨_, _, rfl, ⟨rfl, rfl, rfl⟩, rfl⟩
  | lost e => exact ⟨_, _, rfl, .refl w, rfl⟩
  | unanswered e => exact ⟨_, _, rfl, ⟨rfl, rfl, rfl⟩, rfl⟩

theorem run_task (s : ScheduledService) (x : Course) (t : ProjectScheduleTaskDO) (b : Bool) (now : Time) (w : Site) :
    ∃ res w', TaskRerun.run s x 2 (.task t b now) w = some (res, w') ∧
      (if (x.fault .updateTask).carriedOut then Written t w w' else Kept w w') ∧
      res.succeeded = decide (x.fault .updateTask = .answered ∧ x.fault .updateJob = .answered) := by
  have hset (v : TaskSet) (h : v.status = some .running) : Written t w ⟨w.db.updateTasks (.key t.scheduleTaskId) v, w.jobs⟩ := ⟨rfl, v, h, rfl⟩
  rw [run_succ, TaskRerun.point]
  cases x.fault .updateTask with
  | answered =>
    obtain ⟨res, w', hrun, hkept, hres⟩ := run_job s x t ⟨w.db.updateTasks _ _, w.jobs⟩
    exact ⟨res, w', hrun, (hset _ rfl).trans_kept hkept, by rw [hres]; simp⟩
  | lost e => exact ⟨_, _, rfl, .refl w, rfl⟩
  | unanswered e => exact ⟨_, _, rfl, hset _ rfl, rfl⟩

theorem run_results (s : ScheduledService) (x : Course) (t : ProjectScheduleTaskDO) (now : Time) (w : Site) :
    ∃ res w', TaskRerun.run s x 3 (.deleteResults t now) w = some (res, w') ∧
      (if x.fault .deleteResults = .answered ∧ (x.fault .updateTask).carriedOut then Written t w w' else Kept w w') ∧
      res.succeeded = decide (x.fault .deleteResults = .answered ∧ x.fault .updateTask = .answered ∧ x.fault .updateJob = .answered) := by
  rw [run_succ, TaskRerun.point]
  cases x.fault .deleteResults with
  | answered =>
    obtain ⟨res, w', hrun, hw, hres⟩ := run_task s x { t with allReRun := true } true now ⟨w.db.deleteResults t.projectId t.scheduleJobId, w.jobs⟩
    refine ⟨res, w', hrun, ?_, by rw [hres]; simp⟩
    simp only [true_and]
    split_ifs at hw ⊢
    · exact ⟨hw.schedules, hw.tasks⟩
    · exact ⟨hw.jobs, hw.schedules, hw.tasks⟩
  | lost e => exact ⟨_, _, rfl, .refl w, rfl⟩
  | unanswered e => exact ⟨_, _, rfl, ⟨rfl, rfl, rfl⟩, rfl⟩

/-- After the request to create the job is carried out, the update of the task is. -/
def Recorded (x : Course) : Prop :=
  x.fault .createJob = .answered ∧ x.fault .deleteResults = .answered ∧ (x.fault .updateTask).carriedOut

inductive Created (x : Course) (t : ProjectScheduleTaskDO) (q : CreateJobRequest) (w : Site) (w' : Site) : Bool → Prop
  | void (hr : (x.fault .createJob).carriedOut = true → q.jobId ∈ w.jobs) (h : Kept w w') : Created x t q w w' false
  | created (hc : (x.fault .createJob).carriedOut = true) (hk : q.jobId ∉ w.jobs) (hr : ¬Recorded x) (h : Kept ⟨w.db, q.jobId :: w.jobs⟩ w') :
      Created x t q w w' false
  | recorded (hk : q.jobId ∉ w.jobs) (hr : Recorded x) (h : Written t w w') :
      Created x t q w w' (decide (x.fault .updateTask = .answered ∧ x.fault .updateJob = .answered))

theorem run_create (s : ScheduledService) (x : Course) (t : ProjectScheduleTaskDO) (q : CreateJobRequest) (now : Time) (w : Site) :
    ∃ res w', TaskRerun.run s x 4 (.createJob t q now) w = some (res, w') ∧ Created x t q w w' res.succeeded := by
  rw [run_succ]
  obtain ⟨hr, e, he⟩ | ⟨hr, hc, ⟨hf, he⟩ | ⟨hf, e, he⟩⟩ := Instr.attempt_cases ((TaskRerun.createJob t q now).instr s) w x.refusal x.now
    (x.fault (TaskRerun.point (.createJob t q now))) <;> rw [he]
  · exact ⟨_, _, rfl, .void (fun hc => of_decide_eq_true (hr hc)) (.refl w)⟩
  · have hk : q.jobId ∉ w.jobs := of_decide_eq_false hr
    obtain ⟨res, w', hrun, hw, hres⟩ := run_results s x t now ⟨w.db, q.jobId :: w.jobs⟩
    refine ⟨res, w', hrun, ?_⟩
    split_ifs at hw with hrec
    · have hdone : res.succeeded = decide (x.fault .updateTask = .answered ∧ x.fault .updateJob = .answered) := by
        rw [hres, decide_eq_decide]
        exact and_iff_right hrec.1
      exact hdone ▸ .recorded hk ⟨hf, hrec⟩ ⟨hw.schedules, hw.tasks⟩
    · have hfail : res.succeeded = false := by
        rw [hres, decide_eq_false_iff_not]
        exact fun h => hrec ⟨h.1, by rw [h.2.1]; rfl⟩
      exact hfail ▸ .created hc hk (fun h => hrec h.2) hw
  · exact ⟨_, _, rfl, .created hc (of_decide_eq_false hr) (fun h => hf h.1) ⟨rfl, rfl, rfl⟩⟩

def Site.deleted (w : Site) (jobId : Bytes) : Site := ⟨w.db, w.jobs.filter fun j => decide (j ≠ jobId)⟩

inductive Replaced (x : Course) (t : ProjectScheduleTaskDO) (q : CreateJobRequest) (w : Site) (w' : Site) : Bool → Prop
  | void (hr : (x.fault .deleteJob).carriedOut = true → t.scheduleJobId ∉ w.jobs) (h : Kept w w') : Replaced x t q w w' false
  | deleted (hj : t.scheduleJobId ∈ w.jobs) (hc : (x.fault .deleteJob).carriedOut = true) (hf : x.fault .deleteJob ≠ .answered)
      (h : Kept (w.deleted t.scheduleJobId) w') : Replaced x t q w w' false
  | goes {b : Bool} (hj : t.scheduleJobId ∈ w.jobs) (hf : x.fault .deleteJob = .answered) (h : Created x t q (w.deleted t.scheduleJobId) w' b) :
      Replaced x t q w w' b

theorem run_delete (s : ScheduledService) (x : Course) (t : ProjectScheduleTaskDO) (q : CreateJobRequest) (now : Time) (w : Site) :
    ∃ res w', TaskRerun.run s x 5 (.deleteJob t q now) w = some (res, w') ∧ Replaced x t q w w' res.succeeded := by
  rw [run_succ]
  obtain ⟨hr, e, he⟩ | ⟨hr, hc, ⟨hf, he⟩ | ⟨hf, e, he⟩⟩ := Instr.attempt_cases ((TaskRerun.deleteJob t q now).instr s) w x.refusal x.now
    (x.fault (TaskRerun.point (.deleteJob t q now))) <;> rw [he]
  · exact ⟨_, _, rfl, .void (fun hc => of_decide_eq_true (hr hc)) (.refl w)⟩
  · obtain ⟨res, w', hrun, hcreated⟩ := run_create s x t q now (w.deleted t.scheduleJobId)
    exact ⟨res, w', hrun, .goes (not_not.1 (of_decide_eq_false hr)) hf hcreated⟩
  · exact ⟨_, _, rfl, .deleted (not_not.1 (of_decide_eq_false hr)) hc hf ⟨rfl, rfl, rfl⟩⟩

theorem run_mono {o : Result × Site} {pc : TaskRerun} (h : TaskRerun.run s x n pc w = some o) : TaskRerun.run s x (n + 1) pc w = some o := by
  induction n generalizing pc w with
  | zero => cases h
  | succ n ih =>
    rw [run_succ] at h ⊢
    split at h
    · exact h
    · exact ih h
    · cases h

inductive Reran (s : ScheduledService) (x : Course) (r : Rerun) (w w' : Site) : Bool → Prop
  | refused (ht : s.target w.db r = none) (h : Kept w w') : Reran s x r w w' false
  | unread (hf : x.fault .findSchedule ≠ .answered ∨ x.fault .findTask ≠ .answered) (h : Kept w w') : Reran s x r w w' false
  | replaced {t : ProjectScheduleTaskDO} {q : CreateJobRequest} {b : Bool} (ht : s.target w.db r = some (t, q))
      (hf : x.fault .findSchedule = .answered ∧ x.fault .findTask = .answered) (hs : t.scheduleTaskStartTime.isSome = true)
      (h : Replaced x t q w w' b) : Reran s x r w w' b
  | created {t : ProjectScheduleTaskDO} {q : CreateJobRequest} {b : Bool} (ht : s.target w.db r = some (t, q))
      (hf : x.fault .findSchedule = .answered ∧ x.fault .findTask = .answered) (hs : t.scheduleTaskStartTime.isSome = false)
      (h : Created x t q w w' b) : Reran s x r w w' b

theorem begin_target {sc : ProjectScheduleDO} (hsc : w.db.firstSchedule r.scheduleId = some sc) (hup : sc.status ≠ .down)
    (ht : w.db.firstTask r.scheduleId r.scheduleTaskId = some t) (howner : r.caller = t.owner) (now : Time) :
    (s.target w.db r = none ∧ ∃ res, TaskRerun.begin s t r.type now = .ret res ∧ res.succeeded = false) ∨
    ∃ q, s.target w.db r = some (t, q) ∧ TaskRerun.begin s t r.type now =
      .call (.taskRerun (if t.scheduleTaskStartTime.isSome then .deleteJob t q now else .createJob t q now)) := by
  have htarget : s.target w.db r =
      if t.status = .toBeRun ∨ t.status = .running ∨ t.status = .stopping ∨ s.hasKuscia = false ∨ t.allReRun = true then none
      else match s.decodeJobRequest t.jobRequest with
        | .error _ => none
        | .ok q => some (t, q) := by
    simp only [ScheduledService.target, hsc, ht, hup, howner, ne_eq, not_true, false_or]
  rw [TaskRerun.begin]
  by_cases hst : t.status = .toBeRun ∨ t.status = .running ∨ t.status = .stopping
  · rw [if_pos hst]
    exact .inl ⟨htarget.trans (if_pos (by tauto)), _, rfl, rfl⟩
  rw [if_neg hst]
  cases hk : s.hasKuscia with
  | false => exact .inl ⟨htarget.trans (if_pos (by simp [hk])), _, rfl, rfl⟩
  | true =>
    rw [if_neg (by decide), if_pos r.full]
    cases hall : t.allReRun with
    | true => exact .inl ⟨htarget.trans (if_pos (by simp [hall])), _, rfl, rfl⟩
    | false =>
      have hchecked := htarget.trans (if_neg (by simpa [hk, hall] using hst))
      rw [if_neg (by decide)]
      cases hq : s.decodeJobRequest t.jobRequest with
      | error e => exact .inl ⟨hchecked.trans (by rw [hq]), _, rfl, rfl⟩
      | ok q =>
        refine .inr ⟨q, hchecked.trans (by rw [hq]), ?_⟩
        dsimp only
        split_ifs <;> rfl

theorem run_find {sc : ProjectScheduleDO} (hsc : w.db.firstSchedule r.scheduleId = some sc) (hup : sc.status ≠ .down)
    (hfs : x.fault .findSchedule = .answered) : ∃ res w',
      TaskRerun.run s x 6 (.find r.caller r.scheduleId r.scheduleTaskId r.type) w = some (res, w') ∧ Reran s x r w w' res.succeeded := by
  have hpoint : TaskRerun.point (.find r.caller r.scheduleId r.scheduleTaskId r.type) = .findTask := rfl
  rw [run_succ, hpoint]
  cases hf : x.fault .findTask with
  | lost e => exact ⟨_, _, rfl, .unread (.inr (by rw [hf]; exact nofun)) (.refl w)⟩
  | unanswered e => exact ⟨_, _, rfl, .unread (.inr (by rw [hf]; exact nofun)) (.refl w)⟩
  | answered =>
    have he : ((TaskRerun.find r.caller r.scheduleId r.scheduleTaskId r.type).instr s).attempt w x.refusal x.now .answered =
        (((TaskRerun.find r.caller r.scheduleId r.scheduleTaskId r.type).instr s).cont (.ok (w.db.firstTask r.scheduleId r.scheduleTaskId)) x.now,
          w) := rfl
    rw [he]
    cases ht : w.db.firstTask r.scheduleId r.scheduleTaskId with
    | none => exact ⟨_, _, rfl, .refused (by simp [ScheduledService.target, ht]) (.refl w)⟩
    | some t =>
      have hcont : ((TaskRerun.find r.caller r.scheduleId r.scheduleTaskId r.type).instr s).cont (.ok (some t)) x.now =
        if r.caller ≠ t.owner then .ret (schedErr .ScheduledUserNotOwner []) else TaskRerun.begin s t r.type x.now := rfl
      rw [hcont]
      by_cases howner : r.caller = t.owner
      · rw [if_neg (not_not.2 howner)]
        obtain ⟨htarget, res, hbegin, hres⟩ | ⟨q, htarget, hbegin⟩ := begin_target (s := s) hsc hup ht howner x.now
        · rw [hbegin]
          exact ⟨_, _, rfl, hres ▸ .refused htarget (.refl w)⟩
        · rw [hbegin]
          cases hs : t.scheduleTaskStartTime.isSome with
          | true =>
            obtain ⟨res, w', hrun, h⟩ := run_delete s x t q x.now w
            exact ⟨res, w', hrun, .replaced htarget ⟨hfs, hf⟩ hs h⟩
          | false =>
            obtain ⟨res, w', hrun, h⟩ := run_create s x t q x.now w
            exact ⟨res, w', run_mono hrun, .created htarget ⟨hfs, hf⟩ hs h⟩
      · rw [if_pos howner]
        exact ⟨_, _, rfl, .refused (by simp [ScheduledService.target, ht, hsc, howner]) (.refl w)⟩

theorem TaskRerun_left (s : ScheduledService) (x : Course) (r : Rerun) (w : Site) :
    ∃ res w', s.TaskRerun x r w = some (res, w') ∧ Reran s x r w w' res.succeeded := by
  have hpoint : r.first.point = .findSchedule := rfl
  rw [ScheduledService.TaskRerun, run_succ, hpoint]
  cases hf : x.fault .findSchedule with
  | lost e => exact ⟨_, _, rfl, .unread (.inl (by rw [hf]; exact nofun)) (.refl w)⟩
  | unanswered e => exact ⟨_, _, rfl, .unread (.inl (by rw [hf]; exact nofun)) (.refl w)⟩
  | answered =>
    have he : (r.first.instr s).attempt w x.refusal x.now .answered = ((r.first.instr s).cont (.ok (w.db.firstSchedule r.scheduleId)) x.now, w) := rfl
    rw [he]
    cases hsc : w.db.firstSchedule r.scheduleId with
    | none => exact ⟨_, _, rfl, .refused (by simp [ScheduledService.target, hsc]) (.refl w)⟩
    | some sc =>
      have hcont : (r.first.instr s).cont (.ok (some sc)) x.now = if sc.status = .down then TaskRerun.refuse (str "schedule is down")
        else .call (.taskRerun (.find r.caller r.scheduleId r.scheduleTaskId r.type)) := rfl
      rw [hcont]
      by_cases hup : sc.status = .down
      · rw [if_pos hup]
        refine ⟨_, _, rfl, .refused ?_ (.refl w)⟩
        cases ht : w.db.firstTask r.scheduleId r.scheduleTaskId <;> simp [ScheduledService.target, hsc, hup, ht]
      · rw [if_neg hup]
        exact run_find hsc hup hf

/-- Kuscia has the job of a task that was started, and none that stands in the way of the new one. -/
def Servable (w : Site) (t : ProjectScheduleTaskDO) (q : CreateJobRequest) : Prop :=
  (t.scheduleTaskStartTime.isSome = true → t.scheduleJobId ∈ w.jobs) ∧
    (q.jobId ∈ w.jobs → t.scheduleTaskStartTime.isSome = true ∧ q.jobId = t.scheduleJobId)

/-- A read fails, or the first request to Kuscia is not carried out; or the job of a task that was started is deleted and created again and the
update of the task is not carried out. -/
def Repeatable (x : Course) (t : ProjectScheduleTaskDO) (q : CreateJobRequest) : Prop :=
  (x.fault .findSchedule ≠ .answered ∨ x.fault .findTask ≠ .answered) ∨
    if t.scheduleTaskStartTime.isSome = true then (x.fault .deleteJob).carriedOut = false ∨
      x.fault .deleteJob = .answered ∧ q.jobId = t.scheduleJobId ∧ (x.fault .createJob).carriedOut = true ∧ ¬Recorded x
    else (x.fault .createJob).carriedOut = false

theorem Kept.servable (h : Kept w w') : Servable w' t q ↔ Servable w t q := by rw [Servable, Servable, h.jobs]

theorem mem_deleted {j jobId : Bytes} : j ∈ (w.deleted jobId).jobs ↔ j ∈ w.jobs ∧ j ≠ jobId := by simp [Site.deleted]

theorem exists_target {p : ProjectScheduleTaskDO → CreateJobRequest → Prop} (ht : s.target w.db r = some (t, q)) :
    (∃ t' q', s.target w.db r = some (t', q') ∧ p t' q') ↔ p t q := by
  constructor
  · rintro ⟨t', q', ht', h⟩
    obtain ⟨rfl, rfl⟩ := Prod.mk.inj (Option.some.inj (ht'.symm.trans ht))
    exact h
  · exact fun h => ⟨t, q, ht, h⟩

theorem Created.clean (hx : ∀ p, x.fault p = .answered) (h : Created x t q w w' b) : b = true ↔ q.jobId ∉ w.jobs := by
  have hdone (p : Point) : (x.fault p).carriedOut = true := by rw [hx p]; rfl
  cases h with
  | void hr _ => exact iff_of_false nofun fun h => h (hr (hdone _))
  | created _ _ hr _ => exact absurd ⟨hx _, hx _, hdone _⟩ hr
  | recorded hk _ _ => exact iff_of_true (decide_eq_true ⟨hx _, hx _⟩) hk

theorem Reran.clean (hx : ∀ p, x.fault p = .answered) (h : Reran s x r w w' b) :
    b = true ↔ ∃ t q, s.target w.db r = some (t, q) ∧ Servable w t q := by
  cases h with
  | refused ht _ => simp [ht]
  | unread hf _ => exact (hf.elim (fun h => h (hx _)) fun h => h (hx _)).elim
  | replaced ht _ hs h =>
    rw [exists_target ht, Servable]
    cases h with
    | void hr _ => exact iff_of_false nofun fun h => hr (by rw [hx]; rfl) (h.1 hs)
    | deleted _ _ hf _ => exact absurd (hx _) hf
    | goes hj _ h =>
      rw [h.clean hx, mem_deleted]
      exact ⟨fun h => ⟨fun _ => hj, fun hk => ⟨hs, by_contra fun hne => h ⟨hk, hne⟩⟩⟩, fun h hk => hk.2 (h.2 hk.1).2⟩
  | created ht _ hs h =>
    rw [exists_target ht, Servable, h.clean hx, hs]
    exact ⟨fun hk => ⟨nofun, fun h => absurd h hk⟩, fun h hk => absurd (h.2 hk).1 Bool.false_ne_true⟩

theorem exists_written {p : ProjectScheduleTaskDO → CreateJobRequest → Prop} (ht : s.target w.db r = some (t, q)) (h : Written t w w') :
    ¬∃ t' q', s.target w'.db r = some (t', q') ∧ p t' q' := by
  rintro ⟨t', q', ht', -⟩
  exact nomatch (h.target ht).symm.trans ht'

theorem Created.again (ht : s.target w.db r = some (t, q)) (hs : t.scheduleTaskStartTime.isSome = false) (h : Created x t q w w' b)
    (hf : x.fault .findSchedule = .answered ∧ x.fault .findTask = .answered) :
    (∃ t' q', s.target w'.db r = some (t', q') ∧ Servable w' t' q') ↔ Servable w t q ∧ Repeatable x t q := by
  have hrep : Repeatable x t q ↔ (x.fault .createJob).carriedOut = false := by
    rw [Repeatable, if_neg (by rw [hs]; exact Bool.false_ne_true)]
    exact or_iff_right (not_or.2 ⟨not_not.2 hf.1, not_not.2 hf.2⟩)
  rw [hrep]
  cases h with
  | void hr hkept =>
    rw [exists_target (hkept.target.trans ht), hkept.servable]
    refine ⟨fun h => ⟨h, ?_⟩, fun h => h.1⟩
    by_contra hc
    have := (h.2 (hr (Bool.of_not_eq_false hc))).1
    rw [hs] at this
    cases this
  | created hc _ _ hkept =>
    rw [exists_target (hkept.target.trans ht), hkept.servable]
    refine iff_of_false (fun h => ?_) fun h => nomatch hc.symm.trans h.2
    have := (h.2 List.mem_cons_self).1
    rw [hs] at this
    cases this
  | recorded _ hr hw =>
    refine iff_of_false (exists_written ht hw) fun h => ?_
    rw [hr.1] at h
    cases h.2

theorem Replaced.again (ht : s.target w.db r = some (t, q)) (hs : t.scheduleTaskStartTime.isSome = true) (h : Replaced x t q w w' b)
    (hf : x.fault .findSchedule = .answered ∧ x.fault .findTask = .answered) :
    (∃ t' q', s.target w'.db r = some (t', q') ∧ Servable w' t' q') ↔ Servable w t q ∧ Repeatable x t q := by
  have hrep : Repeatable x t q ↔ (x.fault .deleteJob).carriedOut = false ∨
      x.fault .deleteJob = .answered ∧ q.jobId = t.scheduleJobId ∧ (x.fault .createJob).carriedOut = true ∧ ¬Recorded x := by
    rw [Repeatable, if_pos hs]
    exact or_iff_right (not_or.2 ⟨not_not.2 hf.1, not_not.2 hf.2⟩)
  rw [hrep]
  have hgone {w₀ : Site} (hk : Kept (w.deleted t.scheduleJobId) w₀) : ¬∃ t' q', s.target w₀.db r = some (t', q') ∧ Servable w₀ t' q' := by
    rw [exists_target (hk.target.trans ht), hk.servable]
    exact fun h => (mem_deleted.1 (h.1 hs)).2 rfl
  cases h with
  | void hr hkept =>
    rw [exists_target (hkept.target.trans ht), hkept.servable]
    refine ⟨fun h => ⟨h, .inl ?_⟩, fun h => h.1⟩
    by_contra hc
    exact hr (Bool.of_not_eq_false hc) (h.1 hs)
  | deleted _ hc hfail hkept =>
    refine iff_of_false (hgone hkept) fun h => ?_
    exact h.2.elim (fun h => nomatch hc.symm.trans h) fun h => hfail h.1
  | goes hj hdel hcreated =>
    have hdone : (x.fault .deleteJob).carriedOut ≠ false := by
      rw [hdel]
      exact nofun
    rw [or_iff_right hdone]
    cases hcreated with
    | void hr hkept =>
      refine iff_of_false (hgone hkept) fun ⟨_, _, heq, hc, _⟩ => ?_
      exact (mem_deleted.1 (hr hc)).2 heq
    | created hc _ hrec hkept =>
      have ht' : s.target (⟨(w.deleted t.scheduleJobId).db, q.jobId :: (w.deleted t.scheduleJobId).jobs⟩ : Site).db r = some (t, q) := ht
      rw [exists_target (hkept.target.trans ht'), hkept.servable]
      constructor
      · intro h
        have heq : q.jobId = t.scheduleJobId := (h.2 List.mem_cons_self).2
        exact ⟨⟨fun _ => hj, fun _ => ⟨hs, heq⟩⟩, hdel, heq, hc, hrec⟩
      · rintro ⟨-, -, heq, -⟩
        exact ⟨fun _ => heq ▸ List.mem_cons_self, fun _ => ⟨hs, heq⟩⟩
    | recorded _ hr hw =>
      exact iff_of_false (exists_written (w := w.deleted t.scheduleJobId) ht hw) fun h => h.2.2.2.2 hr

/-- After a call, and above all one that fails, the same request is served, with all services working, exactly when it could be served before and
the failure is where it can be repeated. -/
theorem retry_iff (s : ScheduledService) (x y : Course) (r : Rerun) {w w' : Site} {res : Result} (hy : ∀ p, y.fault p = .answered)
    (hrun : s.TaskRerun x r w = some (res, w')) :
    (∃ res' w'', s.TaskRerun y r w' = some (res', w'') ∧ res'.succeeded = true) ↔
      ∃ t q, s.target w.db r = some (t, q) ∧ Servable w t q ∧ Repeatable x t q := by
  have hagain : (∃ res' w'', s.TaskRerun y r w' = some (res', w'') ∧ res'.succeeded = true) ↔
      ∃ t q, s.target w'.db r = some (t, q) ∧ Servable w' t q := by
    obtain ⟨res', w'', hrun', h⟩ := TaskRerun_left s y r w'
    rw [← h.clean hy]
    constructor
    · rintro ⟨_, _, heq, hok⟩
      obtain ⟨rfl, rfl⟩ := Prod.mk.inj (Option.some.inj (heq.symm.trans hrun'))
      exact hok
    · exact fun hok => ⟨_, _, hrun', hok⟩
  obtain ⟨res₁, w₁, hrun₁, h⟩ := TaskRerun_left s x r w
  obtain ⟨rfl, rfl⟩ := Prod.mk.inj (Option.some.inj (hrun.symm.trans hrun₁))
  rw [hagain]
  generalize res.succeeded = b at h
  cases h with
  | refused ht hkept => simp [hkept.target, ht]
  | unread hf hkept =>
    simp only [hkept.target, hkept.servable]
    exact exists₂_congr fun t q => and_congr_right fun _ => (and_iff_left (.inl hf)).symm
  | replaced ht hf hs h =>
    rw [exists_target ht]
    exact h.again ht hs hf
  | created ht hf hs h =>
    rw [exists_target ht]
    exact h.again ht hs hf

private def services : ScheduledService where
  misfireGrace := 600
  hasKuscia := true
  unmarshalJobRequest r := .ok ⟨r, r⟩
  format := Bytes.itoa
  graceText := str "10m0s"
  unicode := .asciiCase

/-- A failed task that was started at some time or not, with its job in Kuscia if it was. -/
private def failed (start : Option Time) : Site where
  db :=
    { schedules := [⟨[1], [9], .up, false⟩]
      tasks := [⟨1, [2], [3], [1], [4], 0, start, none, .failed, [9], [3], false⟩]
      jobs := [⟨1, [2], [3], .failed, [], none⟩]
      jobTasks := []
      results := []
      task_ids := List.nodup_singleton _
      task_keys := List.nodup_singleton _
      task_jobs := List.nodup_singleton _
      job_pks := List.nodup_singleton _
      job_ids := List.nodup_singleton _ }
  jobs := if start.isSome then [[3]] else []

private def whole : Rerun := ⟨[9], [1], [4], [], .inl rfl⟩

private def without (p : Point) : Course := ⟨fun q => if q = p then .lost [] else .answered, [], 10⟩

private def working : Course := ⟨fun _ => .answered, [], 20⟩

/-- Whether a call succeeds, and whether the same request does after it. -/
private def twice (start : Option Time) (x : Course) : Option (Bool × Option Bool) :=
  (services.TaskRerun x whole (failed start)).map fun o => (o.1.succeeded, (services.TaskRerun working whole o.2).map fun o => o.1.succeeded)

/-- A job that is deleted and not created, one that is created for a task that is then not written, and a task that is written before its job is
not: after each the request is refused. -/
theorem not_retry : twice (some 5) (without .createJob) = some (false, some false) ∧ twice none (without .updateTask) = some (false, some false) ∧
    twice (some 5) (without .updateJob) = some (false, some false) := by
  decide +kernel

/-- When the job is there again and the task has not been written, the request is served. -/
theorem retry_iff_started : ∃ res w', services.TaskRerun (without .updateTask) whole (failed (some 5)) = some (res, w') ∧ res.succeeded = false ∧
    ((∃ res' w'', services.TaskRerun working whole w' = some (res', w'') ∧ res'.succeeded = true) ↔
      ∃ t q, services.target (failed (some 5)).db whole = some (t, q) ∧ Servable (failed (some 5)) t q ∧ Repeatable (without .updateTask) t q) := by
  have hrun : (services.TaskRerun (without .updateTask) whole (failed (some 5))).map (fun o => o.1.succeeded) = some false := by decide +kernel
  obtain ⟨⟨res, w'⟩, heq, hfail⟩ := Option.map_eq_some_iff.1 hrun
  exact ⟨res, w', heq, hfail, retry_iff services _ working whole (fun _ => rfl) heq⟩

end Sched
