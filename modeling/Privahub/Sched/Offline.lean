import Privahub.Sched.Rerun

/-!
# A schedule that is DOWN

`Offline` counts the active tasks of a schedule and sets it `DOWN` in two statements. `starts` says
which calls in flight go on to set a task of the schedule `RUNNING`: a tick that has it in hand, a rerun
past its check of the schedule. `Drained` is the condition on the step that sets `DOWN`: no task is active
and no such call is in flight. Then the schedule stays at rest, since a tick finds no task of it due and
a rerun refuses it.
-/

namespace Sched

variable {s : ScheduledService} {db : Db} {c d : Call} {x : Ending} {i : Bytes} {e : Event} {w w' : World}

def Active (t : ProjectScheduleTaskDO) : Prop := t.status = .running ∨ t.status = .stopping

instance (t : ProjectScheduleTaskDO) : Decidable (Active t) := inferInstanceAs (Decidable (_ ∨ _))

/-- The schedule exists and has the status `DOWN`. -/
structure Down (db : Db) (i : Bytes) : Prop where
  exists_row : ∃ r ∈ db.schedules, r.scheduleId = i ∧ r.isDeleted = false
  rows : ∀ r ∈ db.schedules, r.scheduleId = i → r.isDeleted = false → r.status = .down

instance (db : Db) (i : Bytes) : Decidable (Down db i) :=
  decidable_of_iff _ ⟨fun h => ⟨h.1, h.2⟩, fun h => And.intro h.1 h.2⟩

def AtRest (db : Db) (i : Bytes) : Prop := ∀ t ∈ db.tasks, t.scheduleId = i → ¬ Active t

instance (db : Db) (i : Bytes) : Decidable (AtRest db i) :=
  inferInstanceAs (Decidable (∀ t ∈ db.tasks, t.scheduleId = i → ¬ Active t))

/-- `RunDue`, `Offline` and `TaskRerun`. -/
def Call.scheduling : Call → Prop
  | .runDue _ | .offline _ | .taskRerun _ => True
  | .taskStop _ | .apply _ => False

def RunDue.ahead : RunDue → List ProjectScheduleTaskDO
  | query _ => []
  | claim t k | createJob t _ k => t :: k.rest
  | markMisfired _ k | misfiredJob _ k | firedJob _ k | failTask _ _ _ k | failJob _ _ _ k => k.rest

def Call.ahead : Call → List ProjectScheduleTaskDO
  | .runDue pc => pc.ahead
  | .taskRerun (.deleteJob t _ _) | .taskRerun (.createJob t _ _) | .taskRerun (.deleteResults t _)
  | .taskRerun (.restartJob t _) | .taskRerun (.task t _ _) => [t]
  | _ => []

/-- The copy `t` is of a task of the schedule: a `RunDue` writes by the primary key, a rerun by the task id. -/
def CopyOf (db : Db) (i : Bytes) (t : ProjectScheduleTaskDO) : Prop :=
  ∃ r ∈ db.tasks, (r.id = t.id ∨ r.scheduleTaskId = t.scheduleTaskId) ∧ r.scheduleId = i

/-- The call goes on to start a task of the schedule, or to read one that it may start. -/
def starts (db : Db) (i : Bytes) (c : Call) : Prop :=
  (∃ t ∈ c.ahead, CopyOf db i t) ∨ ∃ o k y, c = .taskRerun (.find o i k y)

/-- A task of the schedule is set `RUNNING` or a job is requested for it. -/
def Started (db : Db) (i : Bytes) (e : Event) : Prop :=
  ∃ r ∈ db.tasks, r.scheduleId = i ∧ (e = .setStatus r.id .running ∨ ∃ o ok, e = .createJob o r.id ok)

/-- `RunDue`, `Offline` and `TaskRerun` run, and when `DOWN` is written no task of the schedule is active
and no call is about to start one. -/
def Drained (w : World) : Action → Prop
  | .start _ c => c.scheduling
  | .exec k x => ∀ i, w.calls k = some (.offline (.setDown i)) → x.error = none →
      AtRest w.db i ∧ w.All fun c => ¬ starts w.db i c
  | .abandon _ => True

theorem exists_task_iff (p : Int → Bytes → Bytes → Prop) :
    (∃ r ∈ (s.exec db c x).db.tasks, p r.id r.scheduleTaskId r.scheduleId) ↔
      ∃ r ∈ db.tasks, p r.id r.scheduleTaskId r.scheduleId := by
  let key : ProjectScheduleTaskDO → Int × Bytes × Bytes := fun r => (r.id, r.scheduleTaskId, r.scheduleId)
  have hmap : (s.exec db c x).db.tasks.map key = db.tasks.map key := by
    cases hx : x.error with
    | some r => rw [db_of_error hx]
    | none =>
      rw [tasks_after hx]
      cases (c.instr s).stmt.taskWrite with
      | none => rfl
      | some pu => exact Table.map_updateWhere key fun _ => rfl
  have hex : ∀ l : List ProjectScheduleTaskDO, (∃ r ∈ l, p r.id r.scheduleTaskId r.scheduleId) ↔
      ∃ q ∈ l.map key, p q.1 q.2.1 q.2.2 := by
    intro l
    simp [key]
  rw [hex, hex, hmap]

theorem copyOf_exec {t : ProjectScheduleTaskDO} : CopyOf (s.exec db c x).db i t ↔ CopyOf db i t :=
  exists_task_iff fun id k j => (id = t.id ∨ k = t.scheduleTaskId) ∧ j = i

theorem starts_exec : starts (s.exec db c x).db i d ↔ starts db i d := by
  simp only [starts, copyOf_exec]

theorem started_exec : Started (s.exec db c x).db i e ↔ Started db i e :=
  exists_task_iff fun id _ j => j = i ∧ (e = .setStatus id .running ∨ ∃ o ok, e = .createJob o id ok)

theorem schedules_exec : (s.exec db c x).db.schedules = db.schedules ∨
    x.error = none ∧ ∃ j, c = .offline (.setDown j) ∧ (s.exec db c x).db = db.updateSchedules j .down := by
  cases hx : x.error with
  | some r => exact .inl (by rw [db_of_error hx])
  | none =>
    rw [ScheduledService.exec_ok hx]
    obtain pc | pc | pc | pc | pc := c <;> cases pc
    case offline.setDown j => exact .inr ⟨rfl, j, rfl, rfl⟩
    all_goals exact .inl rfl

theorem Down.exec (h : Down db i) : Down (s.exec db c x).db i := by
  rcases (schedules_exec : (s.exec db c x).db.schedules = db.schedules ∨ _) with hs | ⟨_, j, _, hs⟩
  · exact ⟨by rw [hs]; exact h.exists_row, by rw [hs]; exact h.rows⟩
  · rw [hs]
    constructor
    · obtain ⟨r, hr, hri, hrd⟩ := h.exists_row
      refine ⟨_, Table.mem_updateWhere.2 ⟨r, hr, rfl⟩, ?_⟩
      split_ifs
      · exact ⟨hri, hrd⟩
      · exact ⟨hri, hrd⟩
    · intro r' hr'
      obtain ⟨r, hr, rfl⟩ := Table.mem_updateWhere.1 hr'
      split_ifs
      · exact fun _ _ => rfl
      · exact h.rows r hr

theorem down_cases (h : Down (s.exec db c x).db i) : Down db i ∨ c = .offline (.setDown i) ∧ x.error = none := by
  rcases (schedules_exec : (s.exec db c x).db.schedules = db.schedules ∨ _) with hs | ⟨hx, j, rfl, hs⟩
  · exact .inl ⟨hs ▸ h.exists_row, hs ▸ h.rows⟩
  · by_cases hj : j = i
    · exact .inr ⟨hj ▸ rfl, hx⟩
    · rw [hs] at h
      have hrow : ∀ r : ProjectScheduleDO, r.scheduleId = i → ¬ (r.scheduleId = j ∧ r.isDeleted = false) :=
        fun r hr hp => hj (hp.1.symm.trans hr)
      refine .inl ⟨?_, fun r hr hri hrd => ?_⟩
      · obtain ⟨r', hr', hri, hrd⟩ := h.exists_row
        obtain ⟨r, hr, rfl⟩ := Table.mem_updateWhere.1 hr'
        refine ⟨r, hr, ?_⟩
        split_ifs at hri hrd
        · exact ⟨hri, hrd⟩
        · exact ⟨hri, hrd⟩
      · refine h.rows r (Table.mem_updateWhere.2 ⟨r, hr, ?_⟩) hri hrd
        rw [if_neg]
        simpa using hrow r hri

theorem RunDue.ahead_next {pc : RunDue} (h : (s.exec db (.runDue pc) x).next = some d) {t : ProjectScheduleTaskDO}
    (ht : t ∈ d.ahead) : t ∈ pc.ahead ∨ ∃ now, t ∈ db.due now := by
  -- the loop goes on with a task that was ahead
  have hloop : ∀ {n : Nat} {now : Time} {l : List ProjectScheduleTaskDO}, (RunDue.loop s now n l).call? = some d → t ∈ l := by
    intro n now l hl
    obtain ⟨u, rest, rfl, rfl | rfl⟩ := loop_next hl
    · exact .tail _ ht
    · exact ht
  cases hx : x.error with
  | none =>
    rw [ScheduledService.exec_ok hx] at h
    cases pc with
    | query now => exact .inr ⟨now, hloop h⟩
    | markMisfired u k =>
      simp only [Call.instr, instr, Stmt.answer] at h
      split at h
      · obtain rfl := Option.some.inj h
        exact .inl ht
      · exact .inl (hloop h)
    | claim u k =>
      simp only [Call.instr, instr, Stmt.answer] at h
      split at h
      · rcases submit_next h with ⟨req, rfl⟩ | ⟨z, rfl⟩
        · exact .inl ht
        · exact .inl (.tail _ ht)
      · exact .inl (.tail _ (hloop h))
    | misfiredJob u k => exact .inl (hloop h)
    | createJob u req k =>
      obtain rfl := Option.some.inj h
      exact .inl (.tail _ ht)
    | firedJob u k => exact .inl (hloop h)
    | failTask u z w k =>
      obtain rfl := Option.some.inj h
      exact .inl ht
    | failJob u z w k => exact .inl (hloop h)
  | some r =>
    rw [ScheduledService.exec_error hx] at h
    cases pc with
    | query now => simp [Call.instr, instr, Next.call?] at h
    | createJob u req k =>
      obtain rfl := Option.some.inj h
      exact .inl (.tail _ ht)
    | failTask u z w k =>
      obtain rfl := Option.some.inj h
      exact .inl ht
    | markMisfired u k => exact .inl (hloop h)
    | claim u k => exact .inl (.tail _ (hloop h))
    | misfiredJob u k => exact .inl (hloop h)
    | firedJob u k => exact .inl (hloop h)
    | failJob u z w k => exact .inl (hloop h)

theorem firstSchedule_mem {r : ProjectScheduleDO} (h : db.firstSchedule i = some r) :
    r ∈ db.schedules ∧ r.scheduleId = i ∧ r.isDeleted = false := by
  have hp := List.find?_some h
  exact ⟨List.mem_of_find?_eq_some h, of_decide_eq_true hp⟩

theorem TaskRerun.findSchedule_next {o j k y : Bytes} (h : (s.exec db (.taskRerun (.findSchedule o j k y)) x).next = some d) :
    ¬ Down db j := by
  cases hx : x.error with
  | some r =>
    rw [ScheduledService.exec_error hx] at h
    simp [Call.instr, instr, Next.call?] at h
  | none =>
    rw [ScheduledService.exec_ok hx] at h
    simp only [Call.instr, instr, Stmt.answer, refuse] at h
    split at h
    · simp [Next.call?] at h
    · simp [Next.call?] at h
    · rename_i sc hsc
      split_ifs at h with hd
      · simp [Next.call?] at h
      · intro hdown
        obtain ⟨hmem, hj, hdel⟩ := firstSchedule_mem (Except.ok.inj hsc)
        exact hd (hdown.rows sc hmem hj hdel)

theorem due_up {t : ProjectScheduleTaskDO} {now : Time} (h : t ∈ db.due now) : t ∈ db.tasks ∧ ¬ Down db t.scheduleId := by
  have hm := List.mem_mergeSort.1 (List.mem_of_mem_take h)
  obtain ⟨ht, hp⟩ := List.mem_filter.1 hm
  refine ⟨ht, fun hdown => ?_⟩
  simp only [Bool.and_eq_true, List.any_eq_true, decide_eq_true_eq] at hp
  obtain ⟨⟨r, hr, hri, hrd, hup⟩, _⟩ := hp
  have := hdown.rows r hr hri hrd
  rw [hup] at this
  cases this

theorem CopyOf.scheduleId {t : ProjectScheduleTaskDO} (h : CopyOf db i t) (ht : t ∈ db.tasks) : t.scheduleId = i := by
  obtain ⟨r, hr, hid | hkey, hri⟩ := h
  · exact Table.eq_of_col_eq db.task_ids hr ht hid ▸ hri
  · exact Table.eq_of_col_eq db.task_keys hr ht hkey ▸ hri

theorem starts_next (hc : c.scheduling) (h : (s.exec db c x).next = some d) (hd : starts db i d) :
    starts db i c ∨ ¬ Down db i := by
  obtain pc | pc | pc | pc | pc := c
  · obtain ⟨t, ht, hcopy⟩ | ⟨o, k, y, rfl⟩ := hd
    · rcases RunDue.ahead_next h ht with ht | ⟨now, ht⟩
      · exact .inl (.inl ⟨t, ht, hcopy⟩)
      · obtain ⟨hmem, hup⟩ := due_up ht
        exact .inr (hcopy.scheduleId hmem ▸ hup)
    · rcases RunDue.next_cases h with ⟨_, _, _, h | h⟩ | ⟨_, _, _, _, _, h⟩ | ⟨_, _, _, _, _, ⟨_, h⟩ | ⟨_, _, h⟩⟩ |
        ⟨_, _, _, _, h | ⟨_, _, h⟩⟩ | ⟨_, _, _, _, _, h⟩ <;> simp at h
  · exact hc.elim
  · obtain ⟨pc', rfl⟩ := Offline.next_cases h
    rcases hd with ⟨t, ht, _⟩ | ⟨o, k, y, h⟩
    · simp [Call.ahead] at ht
    · simp at h
  · exact hc.elim
  · have hone : ∀ u, d.ahead = [u] → (∀ o k y, d ≠ .taskRerun (.find o i k y)) → CopyOf db i u := by
      intro u hu hne
      obtain ⟨t, ht, hcopy⟩ | ⟨o, k, y, hfind⟩ := hd
      · rw [hu] at ht
        exact List.mem_singleton.1 ht ▸ hcopy
      · exact absurd hfind (hne o k y)
    rcases TaskRerun.next_cases h with ⟨o, j, k, y, rfl, rfl⟩ | ⟨o, j, k, y, t, rfl, ht, hd'⟩ | ⟨t, req, now, rfl, rfl⟩ |
      ⟨t, req, now, rfl, _, rfl⟩ | ⟨t, now, rfl, rfl⟩ | ⟨t, now, rfl, rfl⟩ | ⟨t, b, now, rfl, _, rfl⟩
    · obtain ⟨t, ht, _⟩ | ⟨_, _, _, heq⟩ := hd
      · simp [Call.ahead] at ht
      · obtain ⟨_, rfl, _⟩ := TaskRerun.find.inj (Call.taskRerun.inj heq)
        exact .inr (TaskRerun.findSchedule_next h)
    · obtain ⟨hmem, hj, _⟩ := firstTask_mem ht
      have hcopy : CopyOf db i t := by
        rcases hd' with ⟨_, _, req, rfl | rfl⟩ | rfl <;> exact hone t rfl (by simp)
      exact .inl (.inr ⟨o, k, y, by rw [← hj, hcopy.scheduleId hmem]⟩)
    · exact .inl (.inl ⟨t, List.mem_singleton_self t, hone t rfl (by simp)⟩)
    · exact .inl (.inl ⟨t, List.mem_singleton_self t, hone t rfl (by simp)⟩)
    · exact .inl (.inl ⟨t, List.mem_singleton_self t, hone { t with allReRun := true } rfl (by simp)⟩)
    · exact .inl (.inl ⟨t, List.mem_singleton_self t, hone t rfl (by simp)⟩)
    · obtain ⟨u, hu, _⟩ | ⟨_, _, _, heq⟩ := hd
      · simp [Call.ahead] at hu
      · simp at heq

theorem active_write {p : TaskWhere} {u : TaskSet} {r : ProjectScheduleTaskDO} (hc : c.scheduling)
    (hw : (c.instr s).stmt.taskWrite = some (p, u)) (hu : u.status = some .running ∨ u.status = some .stopping)
    (hr : r ∈ db.tasks) (hp : p.holds r) : starts db r.scheduleId c := by
  obtain pc | pc | pc | pc | pc := c
  · cases pc <;> simp only [Call.instr, RunDue.instr, Stmt.taskWrite, reduceCtorEq, Option.some.injEq, Prod.mk.injEq] at hw
    case claim t k =>
      rw [← hw.1] at hp
      exact .inl ⟨t, List.mem_cons_self .., r, hr, .inl (of_decide_eq_true hp).1, rfl⟩
    all_goals
      rw [← hw.2] at hu
      rcases hu with hu | hu <;> simp at hu
  · exact hc.elim
  · cases pc <;> simp [Call.instr, Offline.instr, Stmt.taskWrite] at hw
  · exact hc.elim
  · cases pc <;> simp only [Call.instr, TaskRerun.instr, Stmt.taskWrite, reduceCtorEq, Option.some.injEq, Prod.mk.injEq] at hw
    case task t b now =>
      rw [← hw.1] at hp
      exact .inl ⟨t, List.mem_singleton_self t, r, hr, .inr (of_decide_eq_true hp), rfl⟩

theorem started_cases (hc : c.scheduling) (h : e ∈ (s.exec db c x).events) (he : Started db i e) : starts db i c := by
  obtain ⟨r, hr, rfl, rfl | ⟨o, ok, rfl⟩⟩ := he
  · rcases event_cases h with ⟨_, h⟩ | ⟨_, h⟩ | h
    · cases h
    · obtain ⟨p, u, hw, hu, t, ht, hp, hid⟩ := setStatus_mem h
      obtain rfl : t = r := Table.eq_of_col_eq db.task_ids ht hr hid
      exact active_write hc hw (.inl hu) hr hp
    · exact absurd h (setStatus_not_mem _)
  · have hcreate : ∃ t ∈ c.ahead, t.id = r.id := by
      obtain ⟨-, ⟨-, t, _, _, rfl, hid⟩ | ⟨-, u, _, _, rfl, hid⟩⟩ := createJob_cases h
      · exact ⟨t, .head _, hid⟩
      · exact ⟨u, .head _, hid⟩
    obtain ⟨t, ht, hid⟩ := hcreate
    exact .inl ⟨t, ht, r, hr, .inl hid.symm, rfl⟩

/-- A schedule that is `DOWN` has no active task and no call that goes on to start one. -/
structure Resting (i : Bytes) (w : World) : Prop where
  calls : w.All Call.scheduling
  rest : Down w.db i → AtRest w.db i
  quiet : Down w.db i → w.All fun c => ¬ starts w.db i c

theorem scheduling_next (hc : c.scheduling) (h : (s.exec db c x).next = some d) : d.scheduling := by
  obtain pc | pc | pc | pc | pc := c
  · rcases RunDue.next_cases h with ⟨_, _, _, rfl | rfl⟩ | ⟨_, _, _, _, _, rfl⟩ | ⟨_, _, _, _, _, ⟨_, rfl⟩ | ⟨_, _, rfl⟩⟩ |
      ⟨_, _, _, _, rfl | ⟨_, _, rfl⟩⟩ | ⟨_, _, _, _, _, rfl⟩ <;> trivial
  · exact hc.elim
  · obtain ⟨pc', rfl⟩ := Offline.next_cases h
    trivial
  · exact hc.elim
  · rcases TaskRerun.next_cases h with ⟨_, _, _, _, _, rfl⟩ | ⟨_, _, _, _, _, _, _, ⟨_, _, _, rfl | rfl⟩ | rfl⟩ |
      ⟨_, _, _, _, rfl⟩ | ⟨_, _, _, _, _, rfl⟩ | ⟨_, _, _, rfl⟩ | ⟨_, _, _, rfl⟩ | ⟨_, _, _, _, _, rfl⟩ <;> trivial

theorem atRest_exec (hc : c.scheduling) (h : AtRest db i) (hq : ¬ starts db i c) : AtRest (s.exec db c x).db i := by
  intro t' ht' hti hact
  obtain ⟨t, ht, htt, ⟨_, p, u, hw, hp, hu⟩ | ⟨hst, _⟩⟩ := task_before ht'
  all_goals
    -- no statement moves a task to another schedule
    have hsched : t.scheduleId = i := by
      obtain ⟨r, hr, hrid, hrs⟩ := (exists_task_iff (s := s) (c := c) (x := x) fun id _ j => id = t'.id ∧ j = i).1 ⟨t', ht', rfl, hti⟩
      exact Table.eq_of_col_eq db.task_ids hr ht (hrid.trans htt.id.symm) ▸ hrs
  · refine hq (hsched ▸ active_write hc hw ?_ ht hp)
    rw [hu]
    exact hact.imp (congrArg some) (congrArg some)
  · exact h t ht hsched (by rwa [Active, ← hst])

theorem resting_step {a : Action} (h : Resting i w) (hclear : Drained w a) (hs : s.step w a = some w') : Resting i w' := by
  obtain ⟨k, c, rfl, hf, _, rfl⟩ | ⟨k, c, x, rfl, hc, rfl⟩ | ⟨k, c, rfl, _, rfl⟩ := Calls.step_cases hs
  · refine ⟨h.calls.begin hclear, h.rest, fun hd => (h.quiet hd).begin ?_⟩
    rintro (⟨t, ht, _⟩ | ⟨o, j, y, rfl⟩)
    · obtain pc | pc | pc | pc | pc := c <;> cases pc <;> simp [Call.first, Call.ahead, RunDue.ahead] at hf ht
    · simp [Call.first] at hf
  · have hall : Down (w.after s.exec k c x).db i → AtRest w.db i ∧ w.All fun d => ¬ starts w.db i d := by
      intro hd
      rcases down_cases hd with hd | ⟨rfl, hx⟩
      · exact ⟨h.rest hd, h.quiet hd⟩
      · exact hclear i hc hx
    refine ⟨?_, fun hd => atRest_exec (h.calls k c hc) (hall hd).1 ((hall hd).2 k c hc), fun hd j d hj => ?_⟩
    · intro j d hj
      rcases Calls.calls_step hs hj with ⟨hj, _⟩ | ⟨_, heq⟩ | ⟨e, y, heq, he, hn⟩
      · exact h.calls j d hj
      · cases heq
      · exact scheduling_next (h.calls j e he) hn
    · refine starts_exec.not.2 ?_
      rcases Calls.calls_step hs hj with ⟨hj, _⟩ | ⟨_, heq⟩ | ⟨e, y, heq, he, hn⟩
      · exact (hall hd).2 j d hj
      · cases heq
      · intro hst
        rcases starts_next (h.calls j e he) hn hst with hst | hnd
        · exact (hall hd).2 j e he hst
        · -- the write of `DOWN` is the last step of its call
          rcases down_cases hd with hd | ⟨rfl, hx⟩
          · exact hnd hd
          · obtain ⟨rfl, rfl⟩ := Calls.Action.exec.inj heq
            obtain rfl := Option.some.inj (hc.symm.trans he)
            rw [ScheduledService.exec_ok hx] at hn
            simp [Call.instr, Offline.instr, Next.call?] at hn
  · exact ⟨h.calls.drop, h.rest, fun hd => (h.quiet hd).drop⟩

theorem down_step {a : Action} (h : Resting i w) (hd : Down w.db i) (hs : s.step w a = some w') :
    Down w'.db i ∧ (∀ e, Started w'.db i e ↔ Started w.db i e) ∧
      ∃ l, w'.log = w.log ++ l ∧ ∀ e ∈ l, ¬ Started w.db i e := by
  obtain ⟨k, c, _, _, _, rfl⟩ | ⟨k, c, x, _, hc, rfl⟩ | ⟨k, c, _, _, rfl⟩ := Calls.step_cases hs
  · exact ⟨hd, fun _ => .rfl, [], (List.append_nil _).symm, fun _ he => nomatch he⟩
  · exact ⟨hd.exec, fun _ => started_exec, _, rfl, fun e he hst => h.quiet hd k c hc (started_cases (h.calls k c hc) he hst)⟩
  · exact ⟨hd, fun _ => .rfl, [], (List.append_nil _).symm, fun _ he => nomatch he⟩

/-- In every run of `RunDue`, `Offline` and `TaskRerun` calls in which `DOWN` is written only while the
schedule is at rest, a schedule that is `DOWN` has no active task, and none of its tasks is started later. -/
theorem down_rests {as bs : List Action} (hclear : Lts.RunAll s.step Drained (.idle db) (as ++ bs))
    (hdb : Down db i → AtRest db i) (hr : Lts.run s.step (.idle db) as = some w) (hdown : Down w.db i)
    (hr' : Lts.run s.step w bs = some w') : AtRest w'.db i ∧ ∃ l, w'.log = w.log ++ l ∧ ∀ e ∈ l, ¬ Started w.db i e := by
  obtain ⟨hcl, hcl'⟩ := hclear.append hr
  have hw : Resting i w :=
    Lts.run_invariant (fun _ _ _ hi hp hs => resting_step hi hp hs)
      ⟨Calls.World.idle_all _ _, hdb, fun _ => Calls.World.idle_all _ _⟩ hcl hr
  let Later (v : World) : Prop := Resting i v ∧ Down v.db i ∧ (∀ e, Started v.db i e ↔ Started w.db i e) ∧
    ∃ l, v.log = w.log ++ l ∧ ∀ e ∈ l, ¬ Started w.db i e
  have hlater : Later w' := by
    refine Lts.run_invariant (fun v a v' hv hp hs => ?_)
      (show Later w from ⟨hw, hdown, fun _ => .rfl, [], (List.append_nil _).symm, fun _ he => nomatch he⟩) hcl' hr'
    obtain ⟨hi, hd, hst, l, hl, hno⟩ := hv
    obtain ⟨hd', hst', m, hm, hno'⟩ := down_step hi hd hs
    refine ⟨resting_step hi hp hs, hd', fun e => (hst' e).trans (hst e), l ++ m, by rw [hm, hl, List.append_assoc], ?_⟩
    intro e he
    rcases List.mem_append.1 he with he | he
    · exact hno e he
    · exact (hst e).not.1 (hno' e he)
  exact ⟨hlater.1.rest hlater.2.1, hlater.2.2.2⟩

def startOffline (k : Nat) : Action := .start k (.offline (.find [9] [1]))

def offlineAlone : List Action := [startOffline 0, go 0, go 0, go 0]

def tickAlone : List Action := [.start 1 (.runDue (.query 10)), go 1]

/-- The schedule is set `DOWN`; the tick after that finds nothing to fire. -/
theorem down_rests_tick : ∃ w w', Lts.run plainService.step (.idle (oneTask .running .toBeRun)) offlineAlone = some w ∧
    Lts.run plainService.step w tickAlone = some w' ∧ Down w.db [1] ∧
    AtRest w'.db [1] ∧ ∃ l, w'.log = w.log ++ l ∧ ∀ e ∈ l, ¬ Started w.db [1] e := by
  obtain ⟨w', hrun⟩ : ∃ w, Lts.run plainService.step (.idle (oneTask .running .toBeRun)) (offlineAlone ++ tickAlone) = some w :=
    Option.isSome_iff_exists.1 (by decide +kernel)
  obtain ⟨w, hw, hw'⟩ := Lts.run_append.1 hrun
  have hdown : (Lts.run plainService.step (.idle (oneTask .running .toBeRun)) offlineAlone).map (fun w =>
      decide (Down w.db [1])) = some true := by decide +kernel
  have hd : Down w.db [1] := by
    rw [hw] at hdown
    exact of_decide_eq_true (Option.some.inj hdown)
  refine ⟨w, w', hw, hw', hd, down_rests ?_ (by decide) hw hd hw'⟩
  -- only the last step of `Offline` has a condition
  have hother : ∀ {v : World} {k : Nat} {c : Call}, v.calls k = some c → (∀ i, c ≠ .offline (.setDown i)) → Drained v (go k) := by
    intro v k c hc hne i hi
    exact absurd (Option.some.inj (hc.symm.trans hi)) (hne i)
  refine ⟨trivial, fun w₁ h₁ => ?_⟩
  obtain rfl := Option.some.inj h₁
  refine ⟨hother (c := .offline (.find [9] [1])) rfl (by simp), fun w₂ h₂ => ?_⟩
  obtain rfl := Option.some.inj h₂
  refine ⟨hother (c := .offline (.count [1])) rfl (by simp), fun w₃ h₃ => ?_⟩
  obtain rfl := Option.some.inj h₃
  refine ⟨fun i hi _ => ?_, fun w₄ h₄ => ?_⟩
  · obtain rfl : [1] = i := Offline.setDown.inj (Call.offline.inj (Option.some.inj hi))
    refine ⟨by decide +kernel, fun j c hj => ?_⟩
    by_cases h0 : j = 0
    · subst h0
      obtain rfl : Call.offline (.setDown [1]) = c := Option.some.inj hj
      simp [starts, Call.ahead]
    · simp [Calls.World.after, Calls.World.begin, Calls.World.idle, h0] at hj
  obtain rfl := Option.some.inj h₄
  refine ⟨trivial, fun w₅ h₅ => ?_⟩
  obtain rfl := Option.some.inj h₅
  exact ⟨hother (c := .runDue (.query 10)) rfl (by simp), fun _ _ => trivial⟩

def offlineRace : List Action :=
  [startOffline 0, go 0, go 0, .start 1 (.runDue (.query 10)), go 1, go 1, go 0]

theorem down_active : ∃ w, Lts.run plainService.step (.idle (oneTask .running .toBeRun)) offlineRace = some w ∧
    Down w.db [1] ∧ ¬ AtRest w.db [1] := by
  have hrun : (Lts.run plainService.step (.idle (oneTask .running .toBeRun)) offlineRace).map (fun w =>
      decide (Down w.db [1] ∧ ¬ AtRest w.db [1])) = some true := by decide +kernel
  obtain ⟨w, hw, h⟩ := Option.map_eq_some_iff.1 hrun
  exact ⟨w, hw, of_decide_eq_true h⟩

end Sched
