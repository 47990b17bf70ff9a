import Privahub.Sched.FireOnce

/-!
# A task is fully rerun once

`TaskRerun` reads `all_re_run`, deletes and creates the job, and sets `all_re_run` with its last update
but one. `Apart` is the condition on the steps: a full rerun does not read a task while another one is
between its reading and that update, a rerun of the failed part does not write its stale copy of the flag
over it, and no full rerun is cut off between `CreateJob` and the update. In such runs the flag, or the
call about to set it, remembers every full rerun (`Remembered`).
-/

namespace Sched

/-- A full rerun of the task creates its job, and Kuscia accepts it. -/
def Recreated (id : Int) (e : Event) : Prop := e = .createJob .rerun id true

def Deleted (id : Int) (e : Event) : Prop := ∃ ok, e = .deleteJob id ok

instance (id : Int) (e : Event) : Decidable (Recreated id e) :=
  match e with
  | .createJob .rerun i true => decidable_of_iff (i = id) ⟨fun h => h ▸ rfl, fun h => (Event.createJob.inj h).2.1⟩
  | .createJob .rerun _ false => .isFalse fun h => nomatch h
  | .createJob .fire _ _ => .isFalse fun h => nomatch h
  | .setStatus .. => .isFalse fun h => nomatch h
  | .deleteJob .. => .isFalse fun h => nomatch h
  | .returned _ => .isFalse fun h => nomatch h

def fullBefore : Call → Option ProjectScheduleTaskDO
  | .taskRerun (.deleteJob u _ _) | .taskRerun (.createJob u _ _) => some u
  | _ => none

/-- The task of a full rerun that has created the job and not recorded it. -/
def fullAfter : Call → Option ProjectScheduleTaskDO
  | .taskRerun (.deleteResults u _) => some u
  | .taskRerun (.task u true _) => some u
  | _ => none

def fullRerun (c : Call) : Option ProjectScheduleTaskDO := (fullBefore c).or (fullAfter c)

def isFull (typ : Bytes) : Prop := typ = [] ∨ typ = TaskRerun.ScheduledRestartTypeAll

def Apart (w : World) : Action → Prop
  | .start .. => True
  | .abandon i => ∀ c, w.calls i = some c → fullAfter c = none
  | .exec i x => ∀ c, w.calls i = some c →
      (x.error ≠ none → fullAfter c = none) ∧
      match c with
      | .taskRerun (.find _ scheduleId scheduleTaskId typ) => isFull typ → ∀ t, w.db.firstTask scheduleId scheduleTaskId = some t →
          w.All fun d => ∀ u, fullRerun d = some u → u.id ≠ t.id
      | .taskRerun (.task u _ _) => u.allReRun = false →
          ∀ t ∈ w.db.tasks, t.scheduleTaskId = u.scheduleTaskId → t.allReRun = false
      | _ => True

structure Remembered (id : Int) (w : World) : Prop where
  known : Known w
  flag : w.All fun c => ∀ u now, c = .taskRerun (.task u true now) → u.allReRun = true
  single : ∀ i j c d u v, w.calls i = some c → w.calls j = some d → fullRerun c = some u → fullRerun d = some v →
    u.id = id → v.id = id → i = j
  before : (∃ e ∈ w.log, Recreated id e) → w.All fun c => ∀ u, fullBefore c = some u → u.id ≠ id
  after : (∃ e ∈ w.log, Recreated id e) → (∀ t ∈ w.db.tasks, t.id = id → t.allReRun = true) ∨
    ∃ i c u, w.calls i = some c ∧ fullAfter c = some u ∧ u.id = id
  order : w.log.Pairwise fun d e => Recreated id d → ¬ Recreated id e ∧ ¬ Deleted id e

variable {s : ScheduledService} {w w' : World} {db : Db} {c d : Call} {x : Ending} {i : Nat} {id : Int} {e : Event}
  {u : ProjectScheduleTaskDO}

theorem fullBefore_next (h : (s.exec db c x).next = some d) (hd : fullBefore d = some u) :
    (∃ o j k y, c = .taskRerun (.find o j k y) ∧ isFull y ∧ db.firstTask j k = some u ∧ u.allReRun = false) ∨
      fullBefore c = some u := by
  obtain pc | pc | pc | pc | pc := c
  · rcases RunDue.next_cases h with ⟨_, _, _, rfl | rfl⟩ | ⟨_, _, rfl, _, _, rfl⟩ | ⟨_, _, rfl, _, _, ⟨_, rfl⟩ | ⟨_, _, rfl⟩⟩ |
      ⟨_, _, _, rfl, rfl | ⟨_, _, rfl⟩⟩ | ⟨_, _, _, _, rfl, rfl⟩ <;> simp [fullBefore] at hd
  · rcases TaskStop.next_cases h with ⟨_, _, _, _, rfl, _, _, ⟨_, rfl⟩ | ⟨_, rfl⟩⟩ | ⟨_, _, rfl, _, _, rfl⟩ |
      ⟨_, _, _, rfl, rfl⟩ | ⟨_, _, _, rfl, rfl | rfl⟩ | ⟨_, _, _, rfl, rfl⟩ | ⟨_, rfl, rfl⟩ <;> simp [fullBefore] at hd
  · obtain ⟨pc', rfl⟩ := Offline.next_cases h
    simp [fullBefore] at hd
  · rcases Apply.next_cases h with ⟨_, _, _, rfl, _, rfl | ⟨_, _, rfl⟩⟩ | ⟨_, _, _, _, _, rfl, rfl | ⟨_, _, rfl⟩⟩ |
      ⟨_, _, _, rfl, rfl⟩ | ⟨_, _, _, _, _, rfl, rfl, _⟩ | ⟨_, _, _, _, _, _, rfl, rfl, _⟩ <;> simp [fullBefore] at hd
  · rcases TaskRerun.next_cases h with ⟨_, _, _, _, rfl, rfl⟩ | ⟨o, j, k, y, t, rfl, ht, ⟨hy, hall, _, hd'⟩ | rfl⟩ |
      ⟨_, _, _, rfl, rfl⟩ | ⟨_, _, _, rfl, _, rfl⟩ | ⟨t, now, rfl, rfl⟩ | ⟨_, _, rfl, rfl⟩ | ⟨_, _, _, rfl, _, rfl⟩
    · simp [fullBefore] at hd
    · obtain rfl : t = u := by rcases hd' with rfl | rfl <;> exact Option.some.inj hd
      exact .inl ⟨o, j, k, y, rfl, hy, ht, hall⟩
    · simp [fullBefore] at hd
    · exact .inr hd
    all_goals simp [fullBefore] at hd

theorem fullAfter_next (h : (s.exec db c x).next = some d) (hd : fullAfter d = some u) :
    (fullBefore c = some u ∧ x.error = none ∧ ∃ req now, c = .taskRerun (.createJob u req now)) ∨
      ∃ v now, c = .taskRerun (.deleteResults v now) ∧ u = { v with allReRun := true } ∧
        d = .taskRerun (.task { v with allReRun := true } true now) := by
  obtain pc | pc | pc | pc | pc := c
  · rcases RunDue.next_cases h with ⟨_, _, _, rfl | rfl⟩ | ⟨_, _, rfl, _, _, rfl⟩ | ⟨_, _, rfl, _, _, ⟨_, rfl⟩ | ⟨_, _, rfl⟩⟩ |
      ⟨_, _, _, rfl, rfl | ⟨_, _, rfl⟩⟩ | ⟨_, _, _, _, rfl, rfl⟩ <;> simp [fullAfter] at hd
  · rcases TaskStop.next_cases h with ⟨_, _, _, _, rfl, _, _, ⟨_, rfl⟩ | ⟨_, rfl⟩⟩ | ⟨_, _, rfl, _, _, rfl⟩ |
      ⟨_, _, _, rfl, rfl⟩ | ⟨_, _, _, rfl, rfl | rfl⟩ | ⟨_, _, _, rfl, rfl⟩ | ⟨_, rfl, rfl⟩ <;> simp [fullAfter] at hd
  · obtain ⟨pc', rfl⟩ := Offline.next_cases h
    simp [fullAfter] at hd
  · rcases Apply.next_cases h with ⟨_, _, _, rfl, _, rfl | ⟨_, _, rfl⟩⟩ | ⟨_, _, _, _, _, rfl, rfl | ⟨_, _, rfl⟩⟩ |
      ⟨_, _, _, rfl, rfl⟩ | ⟨_, _, _, _, _, rfl, rfl, _⟩ | ⟨_, _, _, _, _, _, rfl, rfl, _⟩ <;> simp [fullAfter] at hd
  · rcases TaskRerun.next_cases h with ⟨_, _, _, _, rfl, rfl⟩ | ⟨o, j, k, y, t, rfl, ht, ⟨_, _, _, rfl | rfl⟩ | rfl⟩ |
      ⟨_, _, _, rfl, rfl⟩ | ⟨_, req, now, rfl, hx, rfl⟩ | ⟨t, now, rfl, rfl⟩ | ⟨_, _, rfl, rfl⟩ | ⟨_, _, _, rfl, _, rfl⟩
    · simp [fullAfter] at hd
    · simp [fullAfter] at hd
    · simp [fullAfter] at hd
    · simp [fullAfter] at hd
    · simp [fullAfter] at hd
    · obtain rfl := Option.some.inj hd
      exact .inl ⟨rfl, hx, req, now, rfl⟩
    · exact .inr ⟨t, now, rfl, (Option.some.inj hd).symm, rfl⟩
    · simp [fullAfter] at hd
    · simp [fullAfter] at hd

theorem recreated_cases (h : e ∈ (s.exec db c x).events) (hr : Recreated id e) :
    x.error = none ∧ ∃ u req now, c = .taskRerun (.createJob u req now) ∧ u.id = id := by
  subst hr
  obtain ⟨hok, ⟨ho, -⟩ | ⟨-, hcall⟩⟩ := createJob_cases h
  · cases ho
  · exact ⟨hok rfl, hcall⟩

theorem deleted_cases (h : e ∈ (s.exec db c x).events) (hr : Deleted id e) :
    ∃ u req now, c = .taskRerun (.deleteJob u req now) ∧ u.id = id := by
  obtain ⟨ok, rfl⟩ := hr
  rcases event_cases h with ⟨r, hr⟩ | ⟨_, h⟩ | h
  · simp at hr
  · obtain pc | pc | pc | pc | pc := c <;> cases pc <;> simp [Call.instr, RunDue.instr, TaskStop.instr, Offline.instr,
      Apply.instr, TaskRerun.instr, Stmt.events] at h ⊢
    exact h.1.symm
  · obtain pc | pc | pc | pc | pc := c <;> cases pc <;> simp [Call.instr, RunDue.instr, TaskStop.instr, Offline.instr,
      Apply.instr, TaskRerun.instr, Stmt.attempts] at h ⊢
    exact h.1.symm

theorem allReRun_before {t' : ProjectScheduleTaskDO} (h : t' ∈ (s.exec db c x).db.tasks) :
    ∃ t ∈ db.tasks, SameTask t t' ∧
      ((x.error = none ∧ ∃ u b now, c = .taskRerun (.task u b now) ∧ t.scheduleTaskId = u.scheduleTaskId ∧ t'.allReRun = u.allReRun) ∨
        t'.allReRun = t.allReRun ∧ ∀ u b now, x.error = none → c = .taskRerun (.task u b now) → t.scheduleTaskId ≠ u.scheduleTaskId) := by
  cases hx : x.error with
  | some r =>
    rw [db_of_error hx] at h
    exact ⟨t', h, .refl _, .inr ⟨rfl, fun _ _ _ he => absurd he (by simp)⟩⟩
  | none =>
    rw [tasks_after hx] at h
    cases hw : (c.instr s).stmt.taskWrite with
    | none =>
      rw [hw] at h
      refine ⟨t', h, .refl _, .inr ⟨rfl, ?_⟩⟩
      rintro u b now _ rfl
      simp [Call.instr, TaskRerun.instr, Stmt.taskWrite] at hw
    | some pv =>
      obtain ⟨p, v⟩ := pv
      rw [hw] at h
      obtain ⟨t, ht, rfl⟩ := Table.mem_updateWhere.1 h
      by_cases hp : p.holds t
      · rw [if_pos hp]
        refine ⟨t, ht, ⟨rfl, rfl, rfl, rfl⟩, ?_⟩
        by_cases hc : ∃ u b now, c = .taskRerun (.task u b now)
        · obtain ⟨u, b, now, rfl⟩ := hc
          obtain ⟨rfl, rfl⟩ := Prod.mk.inj (Option.some.inj hw)
          exact .inl ⟨rfl, u, b, now, rfl, of_decide_eq_true hp, rfl⟩
        · refine .inr ⟨?_, fun u b now _ heq => absurd ⟨u, b, now, heq⟩ hc⟩
          have hv : v.allReRun = none := by
            obtain pc | pc | pc | pc | pc := c <;> cases pc <;>
              simp only [Call.instr, RunDue.instr, TaskStop.instr, Offline.instr, Apply.instr, TaskRerun.instr,
                Stmt.taskWrite, Option.some.injEq, Prod.mk.injEq, reduceCtorEq] at hw
            case taskRerun.task u b now => exact absurd ⟨u, b, now, rfl⟩ hc
            all_goals
              rw [← hw.2]
          simp [TaskSet.apply, column, hv]
      · rw [if_neg hp]
        refine ⟨t, ht, .refl _, .inr ⟨rfl, ?_⟩⟩
        rintro u b now _ rfl hkey
        obtain ⟨rfl, rfl⟩ := Prod.mk.inj (Option.some.inj hw)
        exact hp (decide_eq_true hkey)

theorem Remembered.idle (id : Int) (db : Db) : Remembered id (.idle db) where
  known := Calls.World.idle_all _ _
  flag := Calls.World.idle_all _ _
  single := fun _ _ _ _ _ _ h => nomatch h
  before := fun _ => Calls.World.idle_all _ _
  after := fun ⟨_, h, _⟩ => nomatch h
  order := .nil

theorem fullRerun_cases (h : fullRerun c = some u) : fullBefore c = some u ∨ fullAfter c = some u := by
  unfold fullRerun at h
  cases hb : fullBefore c with
  | none => exact .inr (by simpa [hb] using h)
  | some v => exact .inl (by simpa [hb] using h)

theorem fullRerun_of_before (h : fullBefore c = some u) : fullRerun c = some u := by simp [fullRerun, h]

theorem fullRerun_of_after (h : fullAfter c = some u) : fullRerun c = some u := by
  have hb : fullBefore c = none := by
    obtain pc | pc | pc | pc | pc := c <;> cases pc <;> simp [fullBefore, fullAfter] at h ⊢
  simp [fullRerun, hb, h]

theorem not_full_of_first (h : c.first) : fullRerun c = none := by
  obtain pc | pc | pc | pc | pc := c <;> cases pc <;> simp [Call.first] at h <;> rfl

theorem remembered_start (h : Remembered id w) (hf : c.first) (hi : w.calls i = none) : Remembered id (w.begin i c) := by
  have hno := not_full_of_first hf
  refine ⟨h.known.begin ?_, h.flag.begin ?_, ?_, fun hr => (h.before hr).begin ?_, ?_, h.order⟩
  · intro u hu
    obtain pc | pc | pc | pc | pc := c <;> cases pc <;> simp [Call.first, Call.tasks, RunDue.inHand] at hf hu
  · rintro u now rfl
    simp [Call.first] at hf
  · intro j k e d u v he hd hu hv
    rcases Calls.World.calls_begin he with rfl | he
    · simp [hno] at hu
    rcases Calls.World.calls_begin hd with rfl | hd
    · simp [hno] at hv
    exact h.single j k e d u v he hd hu hv
  · intro u hu
    rw [fullRerun_of_before hu] at hno
    simp at hno
  · intro hr
    refine (h.after hr).imp_right ?_
    rintro ⟨k, d, u, hd, hu, hid⟩
    refine ⟨k, d, u, ?_, hu, hid⟩
    have hk : k ≠ i := by
      rintro rfl
      simp [hi] at hd
    simpa [Calls.World.begin, hk] using hd

theorem remembered_drop (h : Remembered id w) (hc : w.calls i = some c) (hno : fullAfter c = none) :
    Remembered id (w.drop i) := by
  refine ⟨h.known.drop, h.flag.drop, ?_, fun hr => (h.before hr).drop, ?_, h.order⟩
  · intro j k e d u v he hd
    exact h.single j k e d u v (Calls.World.calls_drop he) (Calls.World.calls_drop hd)
  · intro hr
    refine (h.after hr).imp_right ?_
    rintro ⟨k, d, u, hd, hu, hid⟩
    refine ⟨k, d, u, ?_, hu, hid⟩
    have hk : k ≠ i := by
      rintro rfl
      obtain rfl : c = d := Option.some.inj (hc.symm.trans hd)
      simp [hno] at hu
    simpa [Calls.World.drop, hk] using hd

theorem fullRerun_next (hc : w.calls i = some c) (ha : Apart w (.exec i x))
    (hn : (s.exec w.db c x).next = some d) (hu : fullRerun d = some u) (hid : u.id = id) :
    (∃ v, fullRerun c = some v ∧ v.id = id) ∨ w.All fun e => ∀ v, fullRerun e = some v → v.id ≠ id := by
  rcases fullRerun_cases hu with hu | hu
  · rcases fullBefore_next hn hu with ⟨o, j, k, y, rfl, hy, ht, _⟩ | hb
    · exact .inr (hid ▸ (ha _ hc).2 hy u ht)
    · exact .inl ⟨u, fullRerun_of_before hb, hid⟩
  · rcases fullAfter_next hn hu with ⟨hb, _⟩ | ⟨v, now, rfl, rfl, _⟩
    · exact .inl ⟨u, fullRerun_of_before hb, hid⟩
    · exact .inl ⟨v, rfl, hid⟩

theorem recorded_next (h : Remembered id w) (hc : w.calls i = some c) (ha : Apart w (.exec i x)) (hu : fullAfter c = some u)
    (hid : u.id = id) :
    (∀ t ∈ (w.after s.exec i c x).db.tasks, t.id = id → t.allReRun = true) ∨
      ∃ j d v, (w.after s.exec i c x).calls j = some d ∧ fullAfter d = some v ∧ v.id = id := by
  have hx : x.error = none := by
    by_contra hx
    have := (ha c hc).1 hx
    simp [hu] at this
  obtain pc | pc | pc | pc | pc := c <;> cases pc <;> simp only [fullAfter, reduceCtorEq, Option.some.injEq] at hu
  case taskRerun.deleteResults v now =>
    subst hu
    refine .inr ⟨i, .taskRerun (.task { v with allReRun := true } true now), _, ?_, rfl, hid⟩
    simp only [Calls.World.after, Function.update_self]
    rw [ScheduledService.exec_ok hx]
    rfl
  case taskRerun.task v b now =>
    cases b with
    | false => simp at hu
    | true =>
      obtain rfl := Option.some.inj hu
      refine .inl ?_
      intro t' ht' hid'
      obtain ⟨t, ht, htt, ⟨_, u, b, z, heq, hkey, hflag⟩ | ⟨_, hno⟩⟩ := allReRun_before ht'
      · obtain ⟨rfl, _, _⟩ := TaskRerun.task.inj (Call.taskRerun.inj heq)
        exact hflag.trans (h.flag i _ hc v now rfl)
      · obtain ⟨r, hr, hru⟩ := h.known i _ hc v (List.mem_singleton_self _)
        obtain rfl : r = t := Table.eq_of_col_eq w.db.task_ids hr ht (hru.id.trans (hid.trans (htt.id.trans hid').symm))
        exact absurd hru.scheduleTaskId (hno v true now hx rfl)

theorem remembered_exec (h : Remembered id w) (hc : w.calls i = some c) (ha : Apart w (.exec i x)) :
    Remembered id (w.after s.exec i c x) := by
  have hstep : s.step w (.exec i x) = some (w.after s.exec i c x) := by simp [ScheduledService.step, Calls.step, hc]
  -- a call of the new world: another slot, or what `c` left
  have hcalls : ∀ j d, (w.after s.exec i c x).calls j = some d →
      j ≠ i ∧ w.calls j = some d ∨ j = i ∧ (s.exec w.db c x).next = some d := by
    intro j d hd
    by_cases hj : j = i
    · subst hj; exact .inr ⟨rfl, by simpa [Calls.World.after] using hd⟩
    · exact .inl ⟨hj, by simpa [Calls.World.after, hj] using hd⟩
  have hsingle : ∀ j d u, j ≠ i → w.calls j = some d → fullRerun d = some u → u.id = id →
      ∀ d' v, (s.exec w.db c x).next = some d' → fullRerun d' = some v → v.id ≠ id := by
    intro j d u hj hd hu hid d' v hn hv hvid
    rcases fullRerun_next hc ha hn hv hvid with ⟨v', hv', hid'⟩ | hnone
    · exact hj (h.single j i d c u v' hd hc hu hv' hid hid')
    · exact hnone j d hd u hu hid
  -- the job is created by the only full rerun there is
  have hcreate : (∃ e ∈ (s.exec w.db c x).events, Recreated id e) →
      x.error = none ∧ ∃ u req now, c = .taskRerun (.createJob u req now) ∧ u.id = id ∧ ∀ e ∈ w.log, ¬ Recreated id e := by
    rintro ⟨e, he, hr⟩
    obtain ⟨hx, u, req, now, rfl, hid⟩ := recreated_cases he hr
    refine ⟨hx, u, req, now, rfl, hid, ?_⟩
    intro e' he' hr'
    exact h.before ⟨e', he', hr'⟩ i _ hc u rfl hid
  refine ⟨known_step h.known hstep, ?_, ?_, ?_, ?_, ?_⟩
  · rintro j d hd u now rfl
    rcases hcalls j _ hd with ⟨_, hd⟩ | ⟨_, hn⟩
    · exact h.flag j _ hd u now rfl
    · rcases fullAfter_next (u := u) hn rfl with ⟨_, _, req, z, rfl⟩ | ⟨v, z, _, rfl, _⟩
      · rcases TaskRerun.next_cases hn with ⟨_, _, _, _, h', _⟩ | ⟨_, _, _, _, _, h', _⟩ | ⟨_, _, _, h', _⟩ |
          ⟨_, _, _, _, _, h'⟩ | ⟨_, _, h', _⟩ | ⟨_, _, h', _⟩ | ⟨_, _, _, h', _⟩ <;> simp at h'
      · rfl
  · intro j k d e u v hd he hu hv huid hvid
    rcases hcalls j d hd with ⟨hj, hd'⟩ | ⟨rfl, hn⟩ <;> rcases hcalls k e he with ⟨hk, he'⟩ | ⟨rfl, hn'⟩
    · exact h.single j k d e u v hd' he' hu hv huid hvid
    · exact absurd hvid (hsingle j d u hj hd' hu huid e v hn' hv)
    · exact absurd huid (hsingle k e v hk he' hv hvid d u hn hu)
    · rfl
  · rintro ⟨e, he, hr⟩ j d hd u hu hid
    rcases List.mem_append.1 he with hold | hnew
    · rcases hcalls j d hd with ⟨_, hd'⟩ | ⟨_, hn⟩
      · exact h.before ⟨e, hold, hr⟩ j d hd' u hu hid
      · rcases fullBefore_next hn hu with ⟨o, k, l, y, rfl, hy, ht, hall⟩ | hb
        · -- the task would have been read with its flag set, or while its full rerun is in flight
          rcases h.after ⟨e, hold, hr⟩ with hrow | ⟨m, f, v, hf, hv, hvid⟩
          · exact absurd (hrow u (firstTask_mem ht).1 hid) (by simp [hall])
          · exact (ha _ hc).2 hy u ht m f hf v (fullRerun_of_after hv) (hvid.trans hid.symm)
        · exact h.before ⟨e, hold, hr⟩ i c hc u hb hid
    · obtain ⟨hx, v, req, now, rfl, hvid, _⟩ := hcreate ⟨e, hnew, hr⟩
      rcases hcalls j d hd with ⟨hj, hd'⟩ | ⟨_, hn⟩
      · exact hj (h.single j i d _ u v hd' hc (fullRerun_of_before hu) rfl hid hvid)
      · rw [ScheduledService.exec_ok hx] at hn
        obtain rfl := Option.some.inj hn
        simp [fullBefore] at hu
  · rintro ⟨e, he, hr⟩
    rcases List.mem_append.1 he with hold | hnew
    · rcases h.after ⟨e, hold, hr⟩ with hrow | ⟨m, f, v, hf, hv, hvid⟩
      · refine .inl ?_
        intro t' ht' hid
        obtain ⟨t, ht, htt, ⟨_, u, b, now, rfl, hkey, hflag⟩ | ⟨hflag, _⟩⟩ := allReRun_before ht'
        · cases hall : u.allReRun with
          | true => exact hflag.trans hall
          | false =>
            have := (ha _ hc).2 hall t ht hkey
            rw [hrow t ht (htt.id.trans hid)] at this
            simp at this
        · exact hflag.trans (hrow t ht (htt.id.trans hid))
      · by_cases hm : m = i
        · subst hm
          obtain rfl : c = f := Option.some.inj (hc.symm.trans hf)
          exact recorded_next h hc ha hv hvid
        · exact .inr ⟨m, f, v, by simpa [Calls.World.after, hm] using hf, hv, hvid⟩
    · obtain ⟨hx, v, req, now, rfl, hvid, _⟩ := hcreate ⟨e, hnew, hr⟩
      refine .inr ⟨i, .taskRerun (.deleteResults v now), v, ?_, rfl, hvid⟩
      simp only [Calls.World.after, Function.update_self]
      rw [ScheduledService.exec_ok hx]
      rfl
  · refine List.pairwise_append.2 ⟨h.order, ?_, ?_⟩
    · by_cases hr : ∃ e ∈ (s.exec w.db c x).events, Recreated id e
      · obtain ⟨hx, u, req, now, rfl, _⟩ := hcreate hr
        rw [ScheduledService.exec_ok hx]
        exact List.pairwise_singleton ..
      · exact List.pairwise_of_forall_mem_list fun d hd e _ hrd => absurd ⟨d, hd, hrd⟩ hr
    · intro d hd e he hrd
      have hlog := h.before ⟨d, hd, hrd⟩ i c hc
      constructor
      · intro hre
        obtain ⟨_, u, req, now, rfl, hid⟩ := recreated_cases he hre
        exact hlog u rfl hid
      · intro hde
        obtain ⟨u, req, now, rfl, hid⟩ := deleted_cases he hde
        exact hlog u rfl hid

theorem remembered_step {a : Action} (h : Remembered id w) (ha : Apart w a) (hs : s.step w a = some w') :
    Remembered id w' := by
  obtain ⟨i, c, rfl, hf, hi, rfl⟩ | ⟨i, c, x, rfl, hc, rfl⟩ | ⟨i, c, rfl, hc, rfl⟩ := Calls.step_cases hs
  · exact remembered_start h hf hi
  · exact remembered_exec h hc ha
  · exact remembered_drop h hc (ha c hc)

/-- In every run whose steps keep the full reruns of a task apart, a task is fully rerun once at most, and
its job is not deleted again after that. -/
theorem rerun_once {as : List Action} (ha : Lts.RunAll s.step Apart (.idle db) as)
    (hr : Lts.run s.step (.idle db) as = some w) (id : Int) :
    w.log.countP (fun e => decide (Recreated id e)) ≤ 1 ∧ w.log.Pairwise fun d e => Recreated id d → ¬ Deleted id e := by
  have h : Remembered id w := Lts.run_invariant (fun _ _ _ hi hp hs => remembered_step hi hp hs) (.idle id db) ha hr
  constructor
  · refine List.countP_le_one_of_pairwise (h.order.imp ?_)
    intro d e hde he hd
    exact (hde (of_decide_eq_true hd)).1 (of_decide_eq_true he)
  · exact h.order.imp fun hde hd => (hde hd).2

def startRerun (i : Nat) : Action := .start i (.taskRerun (.findSchedule [9] [1] [4] []))

theorem rerun_once_alone : ∃ w, Lts.run plainService.step (.idle (oneTask .failed .failed)) [startRerun 0, go 0, go 0, go 0] = some w ∧
    w.log.countP (fun e => decide (Recreated 1 e)) ≤ 1 ∧ w.log.Pairwise fun d e => Recreated 1 d → ¬ Deleted 1 e := by
  obtain ⟨w, hw⟩ : ∃ w, Lts.run plainService.step (.idle (oneTask .failed .failed)) [startRerun 0, go 0, go 0, go 0] = some w :=
    Option.isSome_iff_exists.1 (by decide +kernel)
  refine ⟨w, hw, rerun_once ?_ hw 1⟩
  refine ⟨trivial, fun w₁ h₁ => ?_⟩
  obtain rfl := Option.some.inj h₁
  refine ⟨fun c hc => ?_, fun w₂ h₂ => ?_⟩
  · obtain rfl : Call.taskRerun (.findSchedule [9] [1] [4] []) = c := Option.some.inj hc
    exact ⟨fun hx => absurd rfl hx, trivial⟩
  obtain rfl := Option.some.inj h₂
  refine ⟨fun c hc => ?_, fun w₃ h₃ => ?_⟩
  · obtain rfl : Call.taskRerun (.find [9] [1] [4] []) = c := Option.some.inj hc
    refine ⟨fun hx => absurd rfl hx, fun _ t _ j d hd u hu => ?_⟩
    -- the call itself is the only one in flight
    by_cases hj : j = 0
    · subst hj
      obtain rfl : Call.taskRerun (.find [9] [1] [4] []) = d := Option.some.inj hd
      simp [fullRerun, fullBefore, fullAfter] at hu
    · simp [Calls.World.after, Calls.World.begin, Calls.World.idle, hj] at hd
  obtain rfl := Option.some.inj h₃
  refine ⟨fun c hc => ?_, fun _ _ => trivial⟩
  obtain rfl : Call.taskRerun (.createJob ⟨1, [2], [3], [1], [4], 0, none, none, .failed, [9], [5], false⟩ ⟨[5], [5]⟩ 10) = c :=
    Option.some.inj hc
  exact ⟨fun hx => absurd rfl hx, trivial⟩

def rerunRace : List Action := [startRerun 0, startRerun 1, go 0, go 0, go 1, go 1, go 0, go 1]

theorem rerun_twice : ∃ w, Lts.run plainService.step (.idle (oneTask .failed .failed)) rerunRace = some w ∧
    w.log.countP (fun e => decide (Recreated 1 e)) = 2 := by
  have hrun : (Lts.run plainService.step (.idle (oneTask .failed .failed)) rerunRace).map (fun w =>
      decide (w.log.countP (fun e => decide (Recreated 1 e)) = 2)) = some true := by decide +kernel
  obtain ⟨w, hw, hcount⟩ := Option.map_eq_some_iff.1 hrun
  exact ⟨w, hw, of_decide_eq_true hcount⟩

end Sched
