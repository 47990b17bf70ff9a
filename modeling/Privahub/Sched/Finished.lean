import Privahub.Sched.FireOnce

/-!
# A finished job finishes its task

A schedule task and its job are written by separate statements, and `ApplyKusciaJobStatus` looks at a
`SUCCEED` job no more. `Settling` says who still owes a task of a succeeded job its final status: the
`Apply` that is at it, the rerun or the `fireTask` that is about to write the job. `Orderly` is the
condition on the steps: nothing writes a task of a succeeded job back to `RUNNING` or `STOPPING`, a
call that owes is not cut off, and Kuscia does not report a job finished before its task has fired.
-/

namespace Sched

def JobOf (t : ProjectScheduleTaskDO) (j : ProjectScheduleJobDO) : Prop :=
  j.projectId = t.projectId ∧ j.jobId = t.scheduleJobId

instance (t : ProjectScheduleTaskDO) (j : ProjectScheduleJobDO) : Decidable (JobOf t j) :=
  inferInstanceAs (Decidable (_ ∧ _))

/-- A fired task that has no final status although its job has succeeded. -/
def Pending (db : Db) (t : ProjectScheduleTaskDO) (j : ProjectScheduleJobDO) : Prop :=
  t ∈ db.tasks ∧ j ∈ db.jobs ∧ JobOf t j ∧ j.status = .succeed ∧ (t.status = .running ∨ t.status = .stopping)

/-- The call is about to write the task a final status, or its job another one. -/
def settles (c : Call) (t : ProjectScheduleTaskDO) : Prop :=
  match c with
  | .runDue (.createJob u _ _) | .runDue (.firedJob u _) | .runDue (.failTask u _ _ _) | .runDue (.failJob u _ _ _)
  | .taskRerun (.job u) => u.id = t.id
  | .apply (.read k st _) => k = t.scheduleJobId ∧ isScheduleJobFinished st
  | .apply (.write st _ u rest) =>
    isScheduleJobFinished st ∧ ∃ v ∈ u :: rest, v.id = t.id ∧ Apply.skips (ScheduledStatusFrom st) v = false
  | _ => False

/-- Where a statement that fails leaves the call to its error path. -/
def retries : Call → Bool
  | .runDue (.createJob ..) | .runDue (.failTask ..) => true
  | _ => false

def NotSucceeded (db : Db) (t : ProjectScheduleTaskDO) : Prop := ∀ j ∈ db.jobs, JobOf t j → j.status ≠ .succeed

/-- What the next statement of the call must not overwrite. -/
def Timely (s : ScheduledService) (db : Db) : Call → Prop
  | .taskStop (.setStopping u) => NotSucceeded db u
  | .apply (.write st _ u _) => isScheduleJobFinished st = false → NotSucceeded db u
  | .apply (.job sj st _) => isScheduleJobFinished (mapKusciaJobStateToScheduleJob s.unicode st.state) →
      ∀ t ∈ db.tasks, t.scheduleJobId = sj.jobId → t.status ≠ .toBeRun
  | _ => True

def Clear (db : Db) (c : Call) : Prop := ∀ t j, Pending db t j → ¬ settles c t

def Orderly (s : ScheduledService) (w : World) : Action → Prop
  | .start .. => True
  | .abandon i => ∀ c, w.calls i = some c → Clear w.db c
  | .exec i x => ∀ c, w.calls i = some c →
      (x.error ≠ none → retries c ∨ Clear w.db c) ∧ (x.error = none → Timely s w.db c)

/-- The task of a call whose row is no longer `TO_BE_RUN`. -/
def spent : Call → Option ProjectScheduleTaskDO
  | .runDue (.misfiredJob u _) | .runDue (.createJob u _ _) | .runDue (.firedJob u _) | .runDue (.failTask u _ _ _)
  | .runDue (.failJob u _ _ _) | .taskStop (.findJob u _) | .taskStop (.stopJob u _ _) | .taskStop (.markJob u _ _) =>
    some u
  | _ => none

/-- The copy of the job an `Apply` holds. -/
def Call.job : Call → Option ProjectScheduleJobDO
  | .apply (.jobTask sj _ _ _ _) | .apply (.job sj _ _) => some sj
  | _ => none

structure Settling (w : World) : Prop where
  known : Known w
  jobs : w.All fun c => ∀ sj, c.job = some sj → ∃ j ∈ w.db.jobs, SameJob j sj
  spent : w.All fun c => ∀ u, spent c = some u → ¬ free u.id w.db
  unfired : ∀ t ∈ w.db.tasks, ∀ j ∈ w.db.jobs, JobOf t j → t.status = .toBeRun → isScheduleJobFinished j.status = false
  pending : ∀ t j, Pending w.db t j → ∃ i c, w.calls i = some c ∧ settles c t

variable {s : ScheduledService} {w w' : World} {db : Db} {c d : Call} {x : Ending} {i : Nat}

theorem not_free {t : ProjectScheduleTaskDO} (ht : t ∈ db.tasks) (hs : t.status ≠ .toBeRun) : ¬ free t.id db := by
  rintro ⟨r, hr, hid, hr'⟩
  exact hs (Table.eq_of_col_eq db.task_ids hr ht hid ▸ hr')

theorem spent_next (h : (s.exec db c x).next = some d) {u : ProjectScheduleTaskDO} (hu : spent d = some u)
    (hk : ∀ v ∈ c.tasks, ∃ t ∈ db.tasks, SameTask t v) (hc : ∀ v, spent c = some v → ¬ free v.id db) :
    ¬ free u.id (s.exec db c x).db := by
  obtain pc | pc | pc | pc | pc := c
  · rcases RunDue.next_cases h with ⟨t', k, hl, rfl | rfl⟩ | ⟨t', k, rfl, hx, hn, rfl⟩ | ⟨t', k, rfl, hx, hn, hd⟩ |
      ⟨t', req, k, rfl, hd⟩ | ⟨t', z, y, k, rfl, rfl⟩
    · simp [Sched.spent] at hu
    · simp [Sched.spent] at hu
    · obtain rfl : t' = u := Option.some.inj hu
      obtain ⟨r, hr, hp⟩ := exists_of_count hn
      obtain ⟨hid, hs⟩ := of_decide_eq_true hp
      rw [← hid]
      exact (free_of_taken hx rfl hr hp hs).2
    · obtain rfl : t' = u := by
        rcases hd with ⟨_, rfl⟩ | ⟨_, _, rfl⟩ <;> exact Option.some.inj hu
      obtain ⟨r, hr, hp⟩ := exists_of_count hn
      obtain ⟨hid, hs⟩ := of_decide_eq_true hp
      rw [← hid]
      exact (free_of_taken hx rfl hr hp hs).2
    · obtain rfl : t' = u := by
        rcases hd with rfl | ⟨_, _, rfl⟩ <;> exact Option.some.inj hu
      exact fun hf => hc t' rfl (free_anti hf)
    · obtain rfl : t' = u := Option.some.inj hu
      exact fun hf => hc t' rfl (free_anti hf)
  · rcases TaskStop.next_cases h with ⟨_, _, _, t, rfl, _, ht, ⟨_, rfl⟩ | ⟨hs, rfl⟩⟩ | ⟨t, _, rfl, hx, hn, rfl⟩ |
      ⟨t, _, _, rfl, rfl⟩ | ⟨t, _, _, rfl, rfl | rfl⟩ | ⟨_, _, _, rfl, rfl⟩ | ⟨_, rfl, rfl⟩
    · simp [Sched.spent] at hu
    · obtain rfl : t = u := Option.some.inj hu
      refine fun hf => not_free (firstTask_mem ht).1 ?_ (free_anti hf)
      simp [hs]
    · obtain rfl : t = u := Option.some.inj hu
      obtain ⟨r, hr, hp⟩ := exists_of_count hn
      obtain ⟨hkey, hs⟩ := of_decide_eq_true hp
      obtain ⟨q, hq, hqt⟩ := hk t (List.mem_singleton_self _)
      obtain rfl : q = r := Table.eq_of_col_eq db.task_keys hq hr (hqt.scheduleTaskId.trans hkey.symm)
      rw [← hqt.id]
      exact (free_of_taken hx rfl hr hp hs).2
    · obtain rfl : t = u := Option.some.inj hu
      exact fun hf => hc t rfl (free_anti hf)
    · obtain rfl : t = u := Option.some.inj hu
      exact fun hf => hc t rfl (free_anti hf)
    all_goals simp [Sched.spent] at hu
  · obtain ⟨pc', rfl⟩ := Offline.next_cases h
    simp [Sched.spent] at hu
  · rcases Apply.next_cases h with ⟨_, _, _, rfl, _, rfl | ⟨_, _, rfl⟩⟩ | ⟨_, _, _, _, _, rfl, rfl | ⟨_, _, rfl⟩⟩ |
      ⟨_, _, _, rfl, rfl⟩ | ⟨_, _, _, _, _, rfl, rfl, hl⟩ | ⟨_, _, _, _, _, _, rfl, rfl, hl⟩ <;> simp [Sched.spent] at hu
  · rcases TaskRerun.next_cases h with ⟨_, _, _, _, rfl, rfl⟩ | ⟨_, _, _, _, t, rfl, ht, ⟨_, _, _, rfl | rfl⟩ | rfl⟩ |
      ⟨_, _, _, rfl, rfl⟩ | ⟨_, _, _, rfl, _, rfl⟩ | ⟨t, now, rfl, rfl⟩ | ⟨_, _, rfl, rfl⟩ | ⟨_, _, _, rfl, _, rfl⟩ <;>
      simp [Sched.spent] at hu

theorem succeed_written {p : JobWhere} {v : JobSet} (hx : x.error = none) (hw : (c.instr s).stmt.jobWrite = some (p, v))
    (hv : v.status = .succeed) :
    ∃ sj st now, c = .apply (.job sj st now) ∧ p = .id sj.id ∧
      (s.exec db c x).next = some (.apply (.read sj.jobId .succeed now)) := by
  obtain pc | pc | pc | pc | pc := c <;> cases pc <;>
    simp only [Call.instr, RunDue.instr, TaskStop.instr, Offline.instr, Apply.instr, TaskRerun.instr, Stmt.jobWrite,
      Option.some.injEq, Prod.mk.injEq, reduceCtorEq] at hw
  case apply.job sj st now =>
    obtain ⟨rfl, rfl⟩ := hw
    refine ⟨sj, st, now, rfl, rfl, ?_⟩
    have hv : mapKusciaJobStateToScheduleJob s.unicode st.state = .succeed := hv
    rw [ScheduledService.exec_ok hx]
    simp only [Call.instr, Apply.instr, Next.call?]
    rw [hv]
  all_goals
    obtain ⟨_, rfl⟩ := hw
    simp at hv

theorem finished_written {p : JobWhere} {v : JobSet} (hw : (c.instr s).stmt.jobWrite = some (p, v))
    (hv : isScheduleJobFinished v.status) :
    (∃ u, spent c = some u ∧ u ∈ c.tasks ∧ p = .key u.projectId u.scheduleJobId) ∨
      ∃ sj st now, c = .apply (.job sj st now) ∧ p = .id sj.id ∧ v.status = mapKusciaJobStateToScheduleJob s.unicode st.state := by
  obtain pc | pc | pc | pc | pc := c <;> cases pc <;>
    simp only [Call.instr, RunDue.instr, TaskStop.instr, Offline.instr, Apply.instr, TaskRerun.instr, Stmt.jobWrite,
      Option.some.injEq, Prod.mk.injEq, reduceCtorEq] at hw
  all_goals obtain ⟨rfl, rfl⟩ := hw
  case runDue.misfiredJob u k => exact .inl ⟨u, rfl, List.mem_cons_self .., rfl⟩
  case runDue.failJob u z y k => exact .inl ⟨u, rfl, List.mem_cons_self .., rfl⟩
  case taskStop.markJob u now b => exact .inl ⟨u, rfl, List.mem_cons_self .., rfl⟩
  case apply.job sj st now => exact .inr ⟨sj, st, now, rfl, rfl, rfl⟩
  all_goals simp [isScheduleJobFinished] at hv

theorem job_next (h : (s.exec db c x).next = some d) {sj : ProjectScheduleJobDO} (hd : d.job = some sj) :
    c.job = some sj ∨ sj ∈ db.jobs := by
  obtain pc | pc | pc | pc | pc := c
  · rcases RunDue.next_cases h with ⟨_, _, _, rfl | rfl⟩ | ⟨_, _, rfl, _, _, rfl⟩ | ⟨_, _, rfl, _, _, ⟨_, rfl⟩ | ⟨_, _, rfl⟩⟩ |
      ⟨_, _, _, rfl, rfl | ⟨_, _, rfl⟩⟩ | ⟨_, _, _, _, rfl, rfl⟩ <;> simp [Call.job] at hd
  · rcases TaskStop.next_cases h with ⟨_, _, _, _, rfl, _, _, ⟨_, rfl⟩ | ⟨_, rfl⟩⟩ | ⟨_, _, rfl, _, _, rfl⟩ |
      ⟨_, _, _, rfl, rfl⟩ | ⟨_, _, _, rfl, rfl | rfl⟩ | ⟨_, _, _, rfl, rfl⟩ | ⟨_, rfl, rfl⟩ <;> simp [Call.job] at hd
  · obtain ⟨pc', rfl⟩ := Offline.next_cases h
    simp [Call.job] at hd
  · rcases Apply.next_cases h with ⟨_, _, sj', rfl, hj, rfl | ⟨_, _, rfl⟩⟩ | ⟨_, _, _, _, _, rfl, rfl | ⟨_, _, rfl⟩⟩ |
      ⟨_, _, _, rfl, rfl⟩ | ⟨_, _, _, _, _, rfl, rfl, hl⟩ | ⟨_, _, _, _, _, _, rfl, rfl, hl⟩
    · exact .inr (Option.some.inj hd ▸ List.mem_of_find?_eq_some hj)
    · exact .inr (Option.some.inj hd ▸ List.mem_of_find?_eq_some hj)
    · exact .inl hd
    · exact .inl hd
    all_goals simp [Call.job] at hd
  · rcases TaskRerun.next_cases h with ⟨_, _, _, _, rfl, rfl⟩ | ⟨_, _, _, _, t, rfl, ht, ⟨_, _, _, rfl | rfl⟩ | rfl⟩ |
      ⟨_, _, _, rfl, rfl⟩ | ⟨_, _, _, rfl, _, rfl⟩ | ⟨t, now, rfl, rfl⟩ | ⟨_, _, rfl, rfl⟩ | ⟨_, _, _, rfl, _, rfl⟩ <;>
      simp [Call.job] at hd

theorem terminal_not_active {t : ProjectScheduleTaskDO} (h : t.status = .running ∨ t.status = .stopping) :
    isScheduleTaskTerminal t.status = false := by
  rcases h with h | h <;> rw [h] <;> rfl

theorem not_skipped {t : ProjectScheduleTaskDO} {st : ScheduleJobStatus} (ht : t.status = .running ∨ t.status = .stopping)
    (hst : isScheduleJobFinished st) : Apply.skips (ScheduledStatusFrom st) t = false := by
  have hne : t.status ≠ ScheduledStatusFrom st := by
    intro he
    have := terminal_not_active ht
    rw [he, terminal_from] at this
    simp [this] at hst
  rcases ht with ht | ht <;> simp [Apply.skips, hst, ht] at hne ⊢ <;> exact hne

theorem row_of_known {u t : ProjectScheduleTaskDO} (hk : ∃ r ∈ db.tasks, SameTask r u) (ht : t ∈ db.tasks)
    (hid : u.id = t.id) : SameTask t u := by
  obtain ⟨r, hr, hru⟩ := hk
  obtain rfl : r = t := Table.eq_of_col_eq db.task_ids hr ht (hru.id.trans hid)
  exact hru

section Settles

variable {t' : ProjectScheduleTaskDO} {j' : ProjectScheduleJobDO}

theorem not_written {p : JobWhere} {v : JobSet} (hp : Pending (s.exec db c x).db t' j') (hx : x.error = none)
    (hw : (c.instr s).stmt.jobWrite = some (p, v)) (hv : v.status ≠ .succeed) :
    ∃ j ∈ db.jobs, SameJob j j' ∧ p.holds j = false := by
  obtain ⟨_, hj', _, hsucc, _⟩ := hp
  obtain ⟨j, hj, hjj, ⟨_, p', v', hw', _, hst⟩ | ⟨_, hno⟩⟩ := job_before hj'
  · rw [hw] at hw'
    obtain ⟨rfl, rfl⟩ := Prod.mk.inj (Option.some.inj hw')
    exact absurd (hst.trans hsucc) hv
  · exact ⟨j, hj, hjj, by simpa using hno p v hx hw⟩

theorem settled_by_job {u : ProjectScheduleTaskDO} {v : JobSet} (hp : Pending (s.exec db c x).db t' j') (hx : x.error = none)
    (hw : (c.instr s).stmt.jobWrite = some (.key u.projectId u.scheduleJobId, v)) (hv : v.status ≠ .succeed)
    (hu : SameTask t' u) : False := by
  obtain ⟨j, _, hjj, hno⟩ := not_written hp hx hw hv
  obtain ⟨hproj, hjob⟩ := hp.2.2.1
  have : (JobWhere.key u.projectId u.scheduleJobId).holds j = true := by
    simp only [JobWhere.holds, decide_eq_true_eq]
    exact ⟨hjj.projectId.trans (hproj.trans hu.projectId), hjj.jobId.trans (hjob.trans hu.scheduleJobId)⟩
  rw [hno] at this
  simp at this

theorem settles_next (hk : ∀ v ∈ c.tasks, ∃ t ∈ db.tasks, SameTask t v) (hp : Pending (s.exec db c x).db t' j')
    (hx : x.error = none ∨ retries c) {t : ProjectScheduleTaskDO} (ht : t ∈ db.tasks) (htt : SameTask t t')
    (hset : settles c t) : ∃ d, (s.exec db c x).next = some d ∧ settles d t' := by
  obtain pc | pc | pc | pc | pc := c
  · cases pc with
    | query now => exact hset.elim
    | markMisfired u k => exact hset.elim
    | misfiredJob u k => exact hset.elim
    | claim u k => exact hset.elim
    | createJob u req k =>
      cases he : x.error with
      | none => rw [ScheduledService.exec_ok he]; exact ⟨_, rfl, hset.trans htt.id⟩
      | some e => rw [ScheduledService.exec_error he]; exact ⟨_, rfl, hset.trans htt.id⟩
    | firedJob u k =>
      have hu := row_of_known (hk u (List.mem_cons_self ..)) ht hset
      exact (settled_by_job hp (hx.resolve_right fun h => by cases h) rfl (by simp) (htt.symm.trans hu)).elim
    | failTask u z y k =>
      cases he : x.error with
      | none =>
        obtain ⟨ht', _, _, _, hact⟩ := hp
        obtain ⟨r, hr, hrr, ⟨_, p, v, hw, _, hst⟩ | ⟨_, hno⟩⟩ := task_before ht'
        · obtain ⟨rfl, rfl⟩ := Prod.mk.inj (Option.some.inj hw)
          rcases hact with hact | hact <;> rw [hact] at hst <;> simp at hst
        · refine absurd ?_ (hno _ _ he rfl)
          simpa [TaskWhere.holds] using (hrr.id.trans htt.id.symm).trans hset.symm
      | some e => rw [ScheduledService.exec_error he]; exact ⟨_, rfl, hset.trans htt.id⟩
    | failJob u z y k =>
      have hu := row_of_known (hk u (List.mem_cons_self ..)) ht hset
      exact (settled_by_job hp (hx.resolve_right fun h => by cases h) rfl (by simp) (htt.symm.trans hu)).elim
  · exact hset.elim
  · exact hset.elim
  · cases pc with
    | find k st => exact hset.elim
    | jobTask sj st now kt rest => exact hset.elim
    | job sj st now => exact hset.elim
    | read k st now =>
      have he := hx.resolve_right fun h => by cases h
      obtain ⟨ht', _, _, _, hact⟩ := hp
      obtain ⟨r, hr, hrr, ⟨_, p, v, hw, _⟩ | ⟨hst, _⟩⟩ := task_before ht'
      · simp [Call.instr, Apply.instr, Stmt.taskWrite] at hw
      · obtain rfl : r = t := Table.eq_of_col_eq db.task_ids hr ht (hrr.id.trans htt.id.symm)
        rw [hst] at hact
        have hmem : r ∈ db.tasks.filter fun v => decide (v.scheduleJobId = k) :=
          List.mem_filter.2 ⟨hr, decide_eq_true hset.1.symm⟩
        obtain ⟨v, rest, hn, hv⟩ := Apply.nextTask_mem _ hmem (not_skipped hact hset.2)
        refine ⟨.apply (.write st now v rest), ?_, hset.2, r, hv, hrr.id, not_skipped hact hset.2⟩
        rw [ScheduledService.exec_ok he]
        exact congrArg Next.call? hn
    | write st now u rest =>
      have he := hx.resolve_right fun h => by cases h
      obtain ⟨hfin, v, hv, hvid, hskip⟩ := hset
      rcases List.mem_cons.1 hv with rfl | hv
      · obtain ⟨ht', _, _, _, hact⟩ := hp
        obtain ⟨r, hr, hrr, ⟨_, p, w, hw, _, hst⟩ | ⟨_, hno⟩⟩ := task_before ht'
        · obtain ⟨rfl, rfl⟩ := Prod.mk.inj (Option.some.inj hw)
          have := terminal_not_active hact
          rw [← Option.some.inj hst, terminal_from, hfin] at this
          simp at this
        · refine absurd ?_ (hno _ _ he rfl)
          simpa [TaskWhere.holds] using (hrr.id.trans htt.id.symm).trans hvid.symm
      · obtain ⟨v', rest', hn, hv'⟩ := Apply.nextTask_mem now hv hskip
        refine ⟨.apply (.write st now v' rest'), ?_, hfin, v, hv', hvid.trans htt.id, hskip⟩
        rw [ScheduledService.exec_ok he]
        exact congrArg Next.call? hn
  · cases pc with
    | job u =>
      have hu := row_of_known (hk u (List.mem_singleton_self _)) ht hset
      exact (settled_by_job hp (hx.resolve_right fun h => by cases h) rfl (by simp) (htt.symm.trans hu)).elim
    | _ => exact hset.elim

theorem pending_before (hk : ∀ v ∈ c.tasks, ∃ t ∈ db.tasks, SameTask t v)
    (hjobs : ∀ sj, c.job = some sj → ∃ j ∈ db.jobs, SameJob j sj) (htimely : x.error = none → Timely s db c)
    (hp : Pending (s.exec db c x).db t' j') :
    (∃ t j, Pending db t j ∧ SameTask t t') ∨ ∃ d, (s.exec db c x).next = some d ∧ settles d t' := by
  obtain ⟨ht', hj', ⟨hproj, hjob⟩, hsucc, hact⟩ := hp
  obtain ⟨j, hj, hjj, ⟨hx, p, v, hw, hpj, hst⟩ | ⟨hjst, -⟩⟩ := job_before hj'
  · have hread := @succeed_written s db c x p v hx hw (hst.trans hsucc)
    obtain ⟨sj, st, now, rfl, rfl, hn⟩ := hread
    obtain ⟨q, hq, hqs⟩ := hjobs sj rfl
    obtain rfl : q = j := Table.eq_of_col_eq db.job_pks hq hj (hqs.id.trans (of_decide_eq_true hpj).symm)
    exact .inr ⟨_, hn, (hqs.jobId.symm.trans hjj.jobId).trans hjob, rfl⟩
  · obtain ⟨t, ht, htt, ⟨hx, p, v, hw, hpt, hst⟩ | ⟨htst, -⟩⟩ := task_before ht'
    · -- the job of a row that stands for the task `u`
      have hjobOf : ∀ {u}, SameTask t u → JobOf u j := fun hu =>
        ⟨hjj.projectId.trans (hproj.trans (htt.projectId.symm.trans hu.projectId)),
          hjj.jobId.trans (hjob.trans (htt.scheduleJobId.symm.trans hu.scheduleJobId))⟩
      have hstatus : v.status = some .running ∨ v.status = some .stopping := by
        rcases hact with h | h <;> rw [hst, h] <;> simp
      obtain pc | pc | pc | pc | pc := c <;> cases pc <;>
        simp only [Call.instr, RunDue.instr, TaskStop.instr, Offline.instr, Apply.instr, TaskRerun.instr, Stmt.taskWrite,
          Option.some.injEq, Prod.mk.injEq, reduceCtorEq] at hw
      all_goals obtain ⟨rfl, rfl⟩ := hw
      case runDue.claim u k =>
        have hid : t.id = u.id := (of_decide_eq_true hpt).1
        have hpos : 0 < db.tasks.countP (TaskWhere.idStatus u.id .toBeRun).holds := List.countP_pos_iff.2 ⟨t, ht, hpt⟩
        obtain ⟨n, hn⟩ : ∃ n, db.tasks.countP (TaskWhere.idStatus u.id .toBeRun).holds = n + 1 := ⟨_, (Nat.sub_add_cancel hpos).symm⟩
        have hnext : (s.exec db (.runDue (.claim u k)) x).next = (RunDue.submit s u k x.clock).call? := by
          rw [ScheduledService.exec_ok hx]
          simp only [Call.instr, RunDue.instr, Stmt.answer, hn]
        obtain ⟨d, hd⟩ : ∃ d, (RunDue.submit s u k x.clock).call? = some d := by
          unfold RunDue.submit
          split
          · exact ⟨_, rfl⟩
          · split_ifs <;> exact ⟨_, rfl⟩
        refine .inr ⟨d, hnext.trans hd, ?_⟩
        rcases RunDue.submit_next hd with ⟨req, rfl⟩ | ⟨e, rfl⟩
        · exact hid.symm.trans htt.id
        · exact hid.symm.trans htt.id
      case taskStop.setStopping u =>
        obtain ⟨q, hq, hqu⟩ := hk u (List.mem_singleton_self _)
        obtain rfl : q = t := Table.eq_of_col_eq db.task_keys hq ht (hqu.scheduleTaskId.trans (of_decide_eq_true hpt).symm)
        exact absurd (hjst.symm.trans hsucc) (htimely hx j hj (hjobOf hqu))
      case apply.write st now u rest =>
        have hu := row_of_known (hk u (List.mem_cons_self ..)) ht (of_decide_eq_true hpt).symm
        cases hfin : isScheduleJobFinished st with
        | false => exact absurd (hjst.symm.trans hsucc) (htimely hx hfin j hj (hjobOf hu))
        | true =>
          rw [← terminal_from] at hfin
          rcases hstatus with h | h <;> rw [Option.some.inj h] at hfin <;> simp [isScheduleTaskTerminal] at hfin
      case taskRerun.task u b now =>
        obtain ⟨q, hq, hqu⟩ := hk u (List.mem_singleton_self _)
        obtain rfl : q = t := Table.eq_of_col_eq db.task_keys hq ht (hqu.scheduleTaskId.trans (of_decide_eq_true hpt).symm)
        refine .inr ⟨.taskRerun (.job u), ?_, hqu.id.symm.trans htt.id⟩
        rw [ScheduledService.exec_ok hx]
        rfl
      all_goals simp at hstatus
    · refine .inl ⟨t, j, ⟨ht, hj, ⟨?_, ?_⟩, hjst.symm.trans hsucc, htst ▸ hact⟩, htt⟩
      · exact hjj.projectId.trans (hproj.trans htt.projectId.symm)
      · exact hjj.jobId.trans (hjob.trans htt.scheduleJobId.symm)

end Settles

def AllFinished (db : Db) : Prop :=
  ∀ t ∈ db.tasks, ∀ j ∈ db.jobs, JobOf t j → isScheduleJobFinished j.status → isScheduleTaskTerminal t.status

theorem Settling.idle (h : AllFinished db) : Settling (.idle db) where
  known := Calls.World.idle_all _ _
  jobs := Calls.World.idle_all _ _
  spent := Calls.World.idle_all _ _
  unfired := by
    intro t ht j hj hof hs
    by_contra hfin
    have := h t ht j hj hof (by simpa using hfin)
    simp [hs, isScheduleTaskTerminal] at this
  pending := by
    rintro t j ⟨ht, hj, hof, hs, hact⟩
    have := h t ht j hj hof (by simp [hs, isScheduleJobFinished])
    rw [terminal_not_active hact] at this
    simp at this

theorem settles_same {t t' : ProjectScheduleTaskDO} (h : settles c t) (ht : SameTask t t') : settles c t' := by
  obtain pc | pc | pc | pc | pc := c
  · cases pc <;> first | exact h.elim | exact Eq.trans h ht.id
  · exact h.elim
  · exact h.elim
  · cases pc with
    | read k st now => exact ⟨h.1.trans ht.scheduleJobId, h.2⟩
    | write st now u rest =>
      obtain ⟨hfin, v, hv, hid, hskip⟩ := h
      exact ⟨hfin, v, hv, hid.trans ht.id, hskip⟩
    | _ => exact h.elim
  · cases pc <;> first | exact h.elim | exact Eq.trans h ht.id

theorem unfired_exec (h : Settling w) (hc : w.calls i = some c) (htimely : x.error = none → Timely s w.db c)
    {t' : ProjectScheduleTaskDO} {j' : ProjectScheduleJobDO} (ht' : t' ∈ (s.exec w.db c x).db.tasks)
    (hj' : j' ∈ (s.exec w.db c x).db.jobs) (hof : JobOf t' j') (hs : t'.status = .toBeRun) :
    isScheduleJobFinished j'.status = false := by
  obtain ⟨t, ht, htt, ⟨_, p, v, hw, _, hst⟩ | ⟨htst, _⟩⟩ := task_before ht'
  · obtain ⟨st, hv, hne⟩ := status_of_taskWrite hw
    rw [hv, hs] at hst
    exact absurd (Option.some.inj hst) hne
  · have hst : t.status = .toBeRun := htst.symm.trans hs
    obtain ⟨j, hj, hjj, ⟨hx, p, v, hw, hpj, hvst⟩ | ⟨hjst, _⟩⟩ := job_before hj'
    · by_contra hfin
      have hfin : isScheduleJobFinished v.status := by rw [hvst]; simpa using hfin
      rcases finished_written hw hfin with ⟨u, hu, hmem, rfl⟩ | ⟨sj, st, now, rfl, rfl, hv⟩
      · -- the written job is that of the fired task `u`, so `u` is `t`
        obtain ⟨r, hr, hru⟩ := h.known i c hc u hmem
        obtain ⟨hp1, hp2⟩ := of_decide_eq_true hpj
        have hproj : r.projectId = t.projectId :=
          hru.projectId.trans (hp1.symm.trans (hjj.projectId.trans (hof.1.trans htt.projectId.symm)))
        have hjob : r.scheduleJobId = t.scheduleJobId :=
          hru.scheduleJobId.trans (hp2.symm.trans (hjj.jobId.trans (hof.2.trans htt.scheduleJobId.symm)))
        obtain rfl : r = t := Table.eq_of_col_eq w.db.task_jobs hr ht (Prod.ext hproj hjob)
        exact h.spent i c hc u hu ⟨r, hr, hru.id, hst⟩
      · obtain ⟨q, hq, hqs⟩ := h.jobs i _ hc sj rfl
        obtain rfl : q = j := Table.eq_of_col_eq w.db.job_pks hq hj (hqs.id.trans (of_decide_eq_true hpj).symm)
        refine htimely hx (hv ▸ hfin) t ht ?_ hst
        exact htt.scheduleJobId.trans (hof.2.symm.trans (hjj.jobId.symm.trans hqs.jobId))
    · rw [hjst]
      exact h.unfired t ht j hj ⟨hjj.projectId.trans (hof.1.trans htt.projectId.symm),
        hjj.jobId.trans (hof.2.trans htt.scheduleJobId.symm)⟩ hst

theorem settling_start (h : Settling w) (hf : c.first) (hi : w.calls i = none) : Settling (w.begin i c) := by
  refine ⟨h.known.begin ?_, h.jobs.begin ?_, h.spent.begin ?_, h.unfired, ?_⟩
  · intro u hu
    obtain pc | pc | pc | pc | pc := c <;> cases pc <;> simp [Call.first, Call.tasks, RunDue.inHand] at hf hu
  · intro sj hsj
    obtain pc | pc | pc | pc | pc := c <;> cases pc <;> simp [Call.first, Call.job] at hf hsj
  · intro u hu
    obtain pc | pc | pc | pc | pc := c <;> cases pc <;> simp [Call.first, Sched.spent] at hf hu
  · intro t j hp
    obtain ⟨k, d, hd, hset⟩ := h.pending t j hp
    refine ⟨k, d, ?_, hset⟩
    have hk : k ≠ i := by
      rintro rfl
      simp [hi] at hd
    simpa [Calls.World.begin, hk] using hd

theorem settling_drop (h : Settling w) (hc : w.calls i = some c) (hclear : Clear w.db c) : Settling (w.drop i) := by
  refine ⟨h.known.drop, h.jobs.drop, h.spent.drop, h.unfired, ?_⟩
  intro t j hp
  obtain ⟨k, d, hd, hset⟩ := h.pending t j hp
  refine ⟨k, d, ?_, hset⟩
  have hk : k ≠ i := by
    rintro rfl
    obtain rfl : c = d := Option.some.inj (hc.symm.trans hd)
    exact hclear t j hp hset
  simpa [Calls.World.drop, hk] using hd

theorem settling_exec (h : Settling w) (hc : w.calls i = some c) (hfail : x.error ≠ none → retries c ∨ Clear w.db c)
    (htimely : x.error = none → Timely s w.db c) : Settling (w.after s.exec i c x) := by
  have hstep : s.step w (.exec i x) = some (w.after s.exec i c x) := by simp [ScheduledService.step, Calls.step, hc]
  refine ⟨known_step h.known hstep, ?_, ?_, ?_, ?_⟩
  · intro k d hd sj hsj
    have hrow : ∃ j ∈ w.db.jobs, SameJob j sj := by
      obtain ⟨hd, _⟩ | ⟨_, heq⟩ | ⟨e, y, heq, he, hn⟩ := Calls.calls_step hstep hd
      · exact h.jobs k d hd sj hsj
      · simp at heq
      · obtain ⟨rfl, rfl⟩ := Calls.Action.exec.inj heq
        rcases job_next hn hsj with hcj | hmem
        · exact h.jobs i e he sj hcj
        · exact ⟨sj, hmem, rfl, rfl, rfl⟩
    obtain ⟨j, hj, hjs⟩ := hrow
    obtain ⟨j', hj', hjj⟩ := job_after (s := s) (c := c) (x := x) hj
    exact ⟨j', hj', hjj.id.symm.trans hjs.id, hjj.projectId.symm.trans hjs.projectId, hjj.jobId.symm.trans hjs.jobId⟩
  · intro k d hd u hu
    obtain ⟨hd, _⟩ | ⟨_, heq⟩ | ⟨e, y, heq, he, hn⟩ := Calls.calls_step hstep hd
    · exact fun hf => h.spent k d hd u hu (free_anti hf)
    · simp at heq
    · obtain ⟨rfl, rfl⟩ := Calls.Action.exec.inj heq
      obtain rfl : c = e := Option.some.inj (hc.symm.trans he)
      exact spent_next hn hu (h.known i c hc) (h.spent i c hc)
  · intro t' ht' j' hj' hof hs
    exact unfired_exec h hc htimely ht' hj' hof hs
  · intro t' j' hp
    rcases pending_before (h.known i c hc) (h.jobs i c hc) htimely hp with ⟨t, j, hp0, htt⟩ | ⟨d, hd, hset⟩
    · obtain ⟨k, d, hd, hset⟩ := h.pending t j hp0
      by_cases hk : k = i
      · subst hk
        obtain rfl : c = d := Option.some.inj (hc.symm.trans hd)
        have hx : x.error = none ∨ retries c := by
          by_cases hx : x.error = none
          · exact .inl hx
          · exact .inr ((hfail hx).resolve_right fun hclear => hclear t j hp0 hset)
        obtain ⟨d', hd', hset'⟩ := settles_next (h.known k c hc) hp hx hp0.1 htt hset
        exact ⟨k, d', by simpa [Calls.World.after] using hd', hset'⟩
      · exact ⟨k, d, by simpa [Calls.World.after, hk] using hd, settles_same hset htt⟩
    · exact ⟨i, d, by simpa [Calls.World.after] using hd, hset⟩

theorem settling_step {a : Action} (h : Settling w) (ho : Orderly s w a) (hs : s.step w a = some w') : Settling w' := by
  obtain ⟨i, c, rfl, hf, hi, rfl⟩ | ⟨i, c, x, rfl, hc, rfl⟩ | ⟨i, c, rfl, hc, rfl⟩ := Calls.step_cases hs
  · exact settling_start h hf hi
  · exact settling_exec h hc (ho c hc).1 (ho c hc).2
  · exact settling_drop h hc (ho c hc)

/-- The world in which nothing but the call in slot `i` has moved since `w`. -/
abbrev ScheduledService.Alone (s : ScheduledService) (i : Nat) (z : Time) (w w' : World) : Prop :=
  Calls.Alone Call.first s.exec i ⟨none, z⟩ w w'

theorem row_written (st : ScheduleJobStatus) (now : Time) {z : Time} {u : ProjectScheduleTaskDO}
    (rest : List ProjectScheduleTaskDO) {t : ProjectScheduleTaskDO} (ht : t ∈ db.tasks) :
    ∃ t' ∈ (s.exec db (.apply (.write st now u rest)) ⟨none, z⟩).db.tasks, SameTask t t' ∧
      t'.status = if u.id = t.id then ScheduledStatusFrom st else t.status := by
  obtain ⟨t', ht', htt⟩ := task_after (s := s) (c := .apply (.write st now u rest)) (x := ⟨none, z⟩) ht
  obtain ⟨r, hr, hrr, h⟩ := task_before ht'
  obtain rfl : r = t := Table.eq_of_col_eq db.task_ids hr ht (hrr.id.trans htt.id.symm)
  refine ⟨t', ht', htt, ?_⟩
  rcases h with ⟨_, p, v, hw, hp, hst⟩ | ⟨hst, hno⟩
  · obtain ⟨rfl, rfl⟩ := Prod.mk.inj (Option.some.inj hw)
    rw [if_pos (of_decide_eq_true hp).symm]
    exact (Option.some.inj hst).symm
  · rw [if_neg, hst]
    intro hid
    exact hno _ _ rfl rfl (decide_eq_true hid.symm)

theorem write_loop {st : ScheduleJobStatus} {now z : Time} (l : List ProjectScheduleTaskDO) (w : World)
    (hc : w.calls i = (Apply.nextTask st now l).call?) :
    ∃ w', s.Alone i z w w' ∧ w'.calls i = none ∧ w'.db.jobs = w.db.jobs ∧
      ∀ t ∈ w.db.tasks, ∃ t' ∈ w'.db.tasks, SameTask t t' ∧ (t'.status = t.status ∨ t'.status = ScheduledStatusFrom st) ∧
        ∀ u ∈ l, u.id = t.id → Apply.skips (ScheduledStatusFrom st) u = false → t'.status = ScheduledStatusFrom st := by
  induction l generalizing w with
  | nil => exact ⟨w, Calls.Alone.refl, hc, rfl, fun t ht => ⟨t, ht, .refl _, .inl rfl, fun _ hu => nomatch hu⟩⟩
  | cons u l ih =>
    rw [Apply.nextTask] at hc
    split_ifs at hc with hskip
    · obtain ⟨w', hal, hnone, hjobs, htasks⟩ := ih w hc
      refine ⟨w', hal, hnone, hjobs, ?_⟩
      intro t ht
      obtain ⟨t', ht', htt, hor, hall⟩ := htasks t ht
      refine ⟨t', ht', htt, hor, ?_⟩
      intro v hv hid hno
      rcases List.mem_cons.1 hv with rfl | hv
      · simp [hskip] at hno
      · exact hall v hv hid hno
    · -- one write, then the rest of the loop
      let w₁ : World := w.after s.exec i (.apply (.write st now u l)) ⟨none, z⟩
      have hc₁ : w₁.calls i = (Apply.nextTask st now l).call? := by simp [w₁, Calls.World.after]; rfl
      obtain ⟨w', hal, hnone, hjobs, htasks⟩ := ih w₁ hc₁
      refine ⟨w', Calls.Alone.head hc hal, hnone, hjobs.trans rfl, ?_⟩
      intro t ht
      obtain ⟨t₁, ht₁, htt₁, hst₁⟩ := row_written (s := s) (z := z) (u := u) st now l ht
      obtain ⟨t', ht', htt, hor, hall⟩ := htasks t₁ ht₁
      have hor' : t'.status = t.status ∨ t'.status = ScheduledStatusFrom st := by
        rcases hor with hor | hor
        · split_ifs at hst₁
          · exact .inr (hor.trans hst₁)
          · exact .inl (hor.trans hst₁)
        · exact .inr hor
      refine ⟨t', ht', htt₁.trans htt, hor', ?_⟩
      intro v hv hid hno
      rcases List.mem_cons.1 hv with rfl | hv
      · rw [if_pos hid] at hst₁
        rcases hor with hor | hor
        · exact hor.trans hst₁
        · exact hor
      · exact hall v hv (hid.trans htt₁.id) hno

theorem jobTask_loop {sj : ProjectScheduleJobDO} {st : JobExecutionStatus} {now z : Time} (l : List TaskStatus) (w : World)
    (hc : w.calls i = (Apply.nextJobTask sj st now l).call?) :
    ∃ w', s.Alone i z w w' ∧ w'.calls i = some (.apply (.job sj st now)) ∧ w'.db.jobs = w.db.jobs ∧
      w'.db.tasks = w.db.tasks := by
  induction l generalizing w with
  | nil => exact ⟨w, Calls.Alone.refl, hc, rfl, rfl⟩
  | cons kt l ih =>
    let w₁ : World := w.after s.exec i (.apply (.jobTask sj st now kt l)) ⟨none, z⟩
    have hc₁ : w₁.calls i = (Apply.nextJobTask sj st now l).call? := by simp [w₁, Calls.World.after]; rfl
    obtain ⟨w', hal, hjob, hjobs, htasks⟩ := ih w₁ hc₁
    exact ⟨w', Calls.Alone.head hc hal, hjob, hjobs, htasks⟩

theorem firstJob_eq {j : ProjectScheduleJobDO} (hj : j ∈ db.jobs) : db.firstJob j.jobId = some j := by
  have hsome : (db.firstJob j.jobId).isSome := List.find?_isSome.2 ⟨j, hj, decide_eq_true rfl⟩
  obtain ⟨k, hk⟩ := Option.isSome_iff_exists.1 hsome
  have hp := List.find?_some hk
  rw [hk, Table.eq_of_col_eq db.job_ids (List.mem_of_find?_eq_some hk) hj (of_decide_eq_true hp)]

/-- The `Apply` of a report on a job that has not succeeded, run by itself: a final report finishes the
task, any other takes the job back to `RUNNING`. -/
def NextApply (s : ScheduledService) (w : World) (t : ProjectScheduleTaskDO) : Prop :=
  ∀ i st z, w.calls i = none → ∃ w₀ w', s.step w (.start i (.apply (.find t.scheduleJobId (some st)))) = some w₀ ∧
    s.Alone i z w₀ w' ∧ w'.calls i = none ∧
    if isScheduleJobFinished (mapKusciaJobStateToScheduleJob s.unicode st.state) then
      ∃ t' ∈ w'.db.tasks, SameTask t t' ∧ isScheduleTaskTerminal t'.status
    else ∃ j' ∈ w'.db.jobs, JobOf t j' ∧ j'.status = .running

theorem next_apply {t : ProjectScheduleTaskDO} {j : ProjectScheduleJobDO} (ht : t ∈ w.db.tasks) (hj : j ∈ w.db.jobs)
    (hof : JobOf t j) (hns : j.status ≠ .succeed) (hact : t.status = .running ∨ t.status = .stopping) :
    NextApply s w t := by
  intro i st z hi
  let w₀ : World := w.begin i (.apply (.find t.scheduleJobId (some st)))
  have hstart : s.step w (.start i (.apply (.find t.scheduleJobId (some st)))) = some w₀ := by
    simp [ScheduledService.step, Calls.step, Call.first, hi, w₀]
  have hc₀ : w₀.calls i = some (.apply (.find t.scheduleJobId (some st))) := by simp [w₀, Calls.World.begin]
  -- the job is found and has not succeeded
  let w₁ : World := w₀.after s.exec i (.apply (.find t.scheduleJobId (some st))) ⟨none, z⟩
  have hfirst : w₀.db.firstJob t.scheduleJobId = some j := by
    rw [← hof.2]
    exact firstJob_eq hj
  have hc₁ : w₁.calls i = (Apply.nextJobTask j st z st.tasks).call? := by
    have hn : (s.exec w₀.db (.apply (.find t.scheduleJobId (some st))) ⟨none, z⟩).next =
        (Apply.nextJobTask j st z st.tasks).call? := by
      rw [ScheduledService.exec_ok rfl]
      simp only [Call.instr, Apply.instr, Stmt.answer, hfirst, if_neg hns]
    simp only [w₁, Calls.World.after, Function.update_self]
    exact hn
  obtain ⟨w₂, hal₂, hc₂, hjobs₂, htasks₂⟩ := jobTask_loop (s := s) (z := z) st.tasks w₁ hc₁
  -- the job is written, and its tasks are read
  let status := mapKusciaJobStateToScheduleJob s.unicode st.state
  let w₃ : World := w₂.after s.exec i (.apply (.job j st z)) ⟨none, z⟩
  have hc₃ : w₃.calls i = some (.apply (.read j.jobId status z)) := by simp [w₃, Calls.World.after]; rfl
  let w₄ : World := w₃.after s.exec i (.apply (.read j.jobId status z)) ⟨none, z⟩
  have hc₄ : w₄.calls i = (Apply.nextTask status z (w₃.db.tasks.filter fun v => decide (v.scheduleJobId = j.jobId))).call? := by
    simp [w₄, Calls.World.after]; rfl
  obtain ⟨w₅, hal₅, hc₅, hjobs₅, htasks₅⟩ := write_loop (s := s) (z := z) _ w₄ hc₄
  have hal : s.Alone i z w₀ w₅ :=
    Calls.Alone.head hc₀ (Calls.Alone.trans hal₂ (Calls.Alone.head hc₂ (Calls.Alone.head hc₃ hal₅)))
  refine ⟨w₀, w₅, hstart, hal, hc₅, ?_⟩
  have ht₄ : t ∈ w₄.db.tasks := by
    show t ∈ w₂.db.tasks
    rw [htasks₂]
    exact ht
  split_ifs with hfin
  · obtain ⟨t', ht', htt, _, hall⟩ := htasks₅ t ht₄
    have hmem : t ∈ w₃.db.tasks.filter fun v => decide (v.scheduleJobId = j.jobId) :=
      List.mem_filter.2 ⟨ht₄, decide_eq_true hof.2.symm⟩
    refine ⟨t', ht', htt, ?_⟩
    rw [hall t hmem rfl (not_skipped hact hfin), terminal_from]
    exact hfin
  · have hj₂ : j ∈ w₂.db.jobs := by rw [hjobs₂]; exact hj
    obtain ⟨j', hj', hjj⟩ := job_after (s := s) (c := .apply (.job j st z)) (x := ⟨none, z⟩) hj₂
    obtain ⟨r, hr, hrr, h⟩ := job_before hj'
    obtain rfl : r = j := Table.eq_of_col_eq w₂.db.job_pks hr hj₂ (hrr.id.trans hjj.id.symm)
    refine ⟨j', hjobs₅ ▸ hj', ⟨hjj.projectId.symm.trans hof.1, hjj.jobId.symm.trans hof.2⟩, ?_⟩
    rcases h with ⟨_, p, v, hw, hp, hst⟩ | ⟨_, hno⟩
    · obtain ⟨rfl, rfl⟩ := Prod.mk.inj (Option.some.inj hw)
      rw [← hst]
      cases hm : mapKusciaJobStateToScheduleJob s.unicode st.state <;> simp [hm, isScheduleJobFinished] at hfin ⊢
    · exact absurd (decide_eq_true rfl) (hno _ _ rfl rfl)

/-- In every run whose steps are orderly, a task whose job is finished is finished itself, or a call in
flight is about to finish it, or the next `Apply` does. -/
theorem task_finishes {as : List Action} (h₀ : AllFinished db) (ho : Lts.RunAll s.step (Orderly s) (.idle db) as)
    (hr : Lts.run s.step (.idle db) as = some w) {t : ProjectScheduleTaskDO} {j : ProjectScheduleJobDO}
    (ht : t ∈ w.db.tasks) (hj : j ∈ w.db.jobs) (hof : JobOf t j) (hfin : isScheduleJobFinished j.status) :
    isScheduleTaskTerminal t.status ∨ (∃ i c, w.calls i = some c ∧ settles c t) ∨ NextApply s w t := by
  have h : Settling w := Lts.run_invariant (fun _ _ _ hi hp hs => settling_step hi hp hs) (Settling.idle h₀) ho hr
  cases hterm : isScheduleTaskTerminal t.status with
  | true => exact .inl rfl
  | false =>
    have hact : t.status = .running ∨ t.status = .stopping := by
      cases hs : t.status with
      | toBeRun => simp [h.unfired t ht j hj hof hs] at hfin
      | running => exact .inl rfl
      | stopping => exact .inr rfl
      | succeed => simp [hs, isScheduleTaskTerminal] at hterm
      | failed => simp [hs, isScheduleTaskTerminal] at hterm
      | stopped => simp [hs, isScheduleTaskTerminal] at hterm
    by_cases hsucc : j.status = .succeed
    · exact .inr (.inl (h.pending t j ⟨ht, hj, hof, hsucc, hact⟩))
    · exact .inr (.inr (next_apply ht hj hof hsucc hact))

def succeeded : JobExecutionStatus := ⟨str "Succeeded", [], []⟩

def applyOnce : List Action := [.start 0 (.apply (.find [3] (some succeeded))), go 0, go 0, go 0, go 0]

/-- The report of the success of a running job. -/
theorem task_finishes_once : ∃ w, Lts.run plainService.step (.idle (oneTask .running .running)) applyOnce = some w ∧
    ∃ t ∈ w.db.tasks, ∃ j ∈ w.db.jobs, isScheduleJobFinished j.status ∧
      (isScheduleTaskTerminal t.status ∨ (∃ i c, w.calls i = some c ∧ settles c t) ∨ NextApply plainService w t) := by
  obtain ⟨w, hw⟩ : ∃ w, Lts.run plainService.step (.idle (oneTask .running .running)) applyOnce = some w :=
    Option.isSome_iff_exists.1 (by decide +kernel)
  have hend : (Lts.run plainService.step (.idle (oneTask .running .running)) applyOnce).map (fun w => decide
      (∃ t ∈ w.db.tasks, ∃ j ∈ w.db.jobs, JobOf t j ∧ isScheduleJobFinished j.status)) = some true := by decide +kernel
  rw [hw] at hend
  obtain ⟨t, ht, j, hj, hof, hfin⟩ := of_decide_eq_true (Option.some.inj hend)
  refine ⟨w, hw, t, ht, j, hj, hfin, task_finishes ?_ ?_ hw ht hj hof hfin⟩
  · intro t ht j hj _ hfin
    obtain rfl := List.mem_singleton.1 hj
    simp [isScheduleJobFinished] at hfin
  · have hok : ∀ {w : World} {c : Call}, w.calls 0 = some c → Timely plainService w.db c → Orderly plainService w (go 0) := by
      intro w c hc ht d hd
      obtain rfl : c = d := Option.some.inj (hc.symm.trans hd)
      exact ⟨fun hx => absurd rfl hx, fun _ => ht⟩
    let job : ProjectScheduleJobDO := ⟨1, [2], [3], .running, [], none⟩
    let task : ProjectScheduleTaskDO := ⟨1, [2], [3], [1], [4], 0, none, none, .running, [9], [5], false⟩
    refine ⟨trivial, fun w₁ h₁ => ?_⟩
    obtain rfl := Option.some.inj h₁
    refine ⟨hok (c := .apply (.find [3] (some succeeded))) rfl trivial, fun w₂ h₂ => ?_⟩
    obtain rfl := Option.some.inj h₂
    have hfired : ∀ t ∈ [task], t.scheduleJobId = job.jobId → t.status ≠ .toBeRun := by simp [task]
    refine ⟨hok (c := .apply (.job job succeeded 10)) rfl fun _ => hfired, fun w₃ h₃ => ?_⟩
    obtain rfl := Option.some.inj h₃
    refine ⟨hok (c := .apply (.read [3] .succeed 10)) rfl trivial, fun w₄ h₄ => ?_⟩
    obtain rfl := Option.some.inj h₄
    exact ⟨hok (c := .apply (.write .succeed 10 task [])) rfl nofun, fun _ _ => trivial⟩

theorem not_next_apply {t : ProjectScheduleTaskDO} {j : ProjectScheduleJobDO} (hi : w.calls i = none) (ht : t ∈ w.db.tasks)
    (hj : j ∈ w.db.jobs) (hof : JobOf t j) (hs : j.status = .succeed) (hact : isScheduleTaskTerminal t.status = false)
    (st : JobExecutionStatus) (hst : isScheduleJobFinished (mapKusciaJobStateToScheduleJob s.unicode st.state)) :
    ¬ NextApply s w t := by
  intro h
  obtain ⟨w₀, w', hstart, ⟨n, hn⟩, hnone, hres⟩ := h i st 0 hi
  have hw₀ : w₀ = w.begin i (.apply (.find t.scheduleJobId (some st))) := by
    simpa [ScheduledService.step, Calls.step, Call.first, hi] using hstart.symm
  subst hw₀
  have hfirst : w.db.firstJob t.scheduleJobId = some j := by
    rw [← hof.2]
    exact firstJob_eq hj
  -- the first statement is the last
  have hret : s.exec w.db (.apply (.find t.scheduleJobId (some st))) ⟨none, 0⟩ = ⟨w.db, none, [.returned (.applied true none)]⟩ := by
    rw [ScheduledService.exec_ok rfl]
    simp only [Call.instr, Apply.instr, Stmt.answer, hfirst, hs, if_true, Stmt.run, Stmt.events, Next.call?, Next.events,
      List.nil_append]
  have hdb : w'.db = w.db := by
    cases n with
    | zero =>
      obtain rfl := Option.some.inj hn
      simp [Calls.World.begin] at hnone
    | succ n =>
      obtain ⟨w₁, hw₁, hrest⟩ := Lts.run_cons.1 hn
      have hw₁ : w₁ = (w.begin i (.apply (.find t.scheduleJobId (some st)))).after s.exec i
          (.apply (.find t.scheduleJobId (some st))) ⟨none, 0⟩ := by
        simpa [Calls.step, Calls.World.begin] using hw₁.symm
      cases n with
      | zero =>
        obtain rfl := Option.some.inj hrest
        rw [hw₁]
        exact congrArg Calls.Effect.db hret
      | succ n =>
        obtain ⟨w₂, hw₂, _⟩ := Lts.run_cons.1 hrest
        have hnext : w₁.calls i = none := by
          rw [hw₁]
          simp only [Calls.World.after, Function.update_self]
          exact congrArg Calls.Effect.next hret
        simp [Calls.step, hnext] at hw₂
  rw [if_pos hst, hdb] at hres
  obtain ⟨t', ht', htt, hterm⟩ := hres
  obtain rfl : t = t' := Table.eq_of_col_eq w.db.task_ids ht ht' htt.id
  simp [hact] at hterm

def stopRace : List Action :=
  [.start 0 (.taskStop (.find [9] [1] [4])), go 0, go 0, go 0, go 0, .start 1 (.apply (.find [3] (some succeeded))),
    go 1, go 1, go 1, go 1, go 0, go 0]

theorem stop_overwrites_success : ∃ w, Lts.run plainService.step (.idle (oneTask .running .running)) stopRace = some w ∧
    AllFinished (oneTask .running .running) ∧ (∀ i, w.calls i = none) ∧
    ∃ t ∈ w.db.tasks, ∃ j ∈ w.db.jobs, JobOf t j ∧ j.status = .succeed ∧ t.status = .stopping ∧
      ¬ NextApply plainService w t := by
  obtain ⟨w, hw⟩ : ∃ w, Lts.run plainService.step (.idle (oneTask .running .running)) stopRace = some w :=
    Option.isSome_iff_exists.1 (by decide +kernel)
  have hend : (Lts.run plainService.step (.idle (oneTask .running .running)) stopRace).map (fun w => decide
      ((w.calls 0).isNone ∧ (w.calls 1).isNone ∧ ∃ t ∈ w.db.tasks, ∃ j ∈ w.db.jobs,
        JobOf t j ∧ j.status = .succeed ∧ t.status = .stopping)) = some true := by decide +kernel
  rw [hw] at hend
  obtain ⟨h0, h1, t, ht, j, hj, hof, hs, hst⟩ := of_decide_eq_true (Option.some.inj hend)
  have hidle : ∀ i, w.calls i = none := by
    intro i
    by_cases hi0 : i = 0
    · rw [hi0]; simpa using h0
    by_cases hi1 : i = 1
    · rw [hi1]; simpa using h1
    refine Calls.idle_slot ?_ hw
    intro a ha c hac
    subst hac
    simp [stopRace, go, hi0, hi1] at ha
  refine ⟨w, hw, ?_, hidle, t, ht, j, hj, hof, hs, hst, ?_⟩
  · intro t ht j hj _ hfin
    obtain rfl := List.mem_singleton.1 hj
    simp [isScheduleJobFinished] at hfin
  · exact not_next_apply (hidle 0) ht hj hof hs (by simp [hst, isScheduleTaskTerminal]) succeeded (by decide +kernel)

end Sched
