import Privahub.Sched.Steps

/-!
# A schedule task is submitted once

`fireClaim id` is the claim of the task with primary key `id`: free while the row is `TO_BE_RUN`, held
by the `fireTask` that has set it `RUNNING`, used by the request to create the job, and ended by that
request or by writing the task `STOPPED` or `FAILED`. `RunDue`, `TaskStop` and `Offline` obey its laws,
so no interleaving of them submits a task twice or after it was stopped or failed.
-/

namespace Sched

open Table (updateWhere)

def free (id : Int) (db : Db) : Prop := ∃ t ∈ db.tasks, t.id = id ∧ t.status = .toBeRun

/-- The task a `fireTask` has claimed and not yet submitted or given up. -/
def claimed : Call → Option ProjectScheduleTaskDO
  | .runDue (.createJob t _ _) | .runDue (.failTask t _ _ _) => some t
  | _ => none

def submits : Call → Option ProjectScheduleTaskDO
  | .runDue (.createJob t _ _) => some t
  | _ => none

/-- The task with key `id` is submitted to Kuscia by `fire`, whatever Kuscia answers. -/
def Submitted (id : Int) (e : Event) : Prop := ∃ ok, e = .createJob .fire id ok

instance (id : Int) (e : Event) : Decidable (Submitted id e) :=
  match e with
  | .createJob .fire i ok => decidable_of_iff (i = id) ⟨fun h => ⟨ok, h ▸ rfl⟩, fun ⟨_, h⟩ => (Event.createJob.inj h).2.1⟩
  | .createJob .rerun _ _ => .isFalse fun ⟨_, h⟩ => nomatch h
  | .setStatus .. => .isFalse fun ⟨_, h⟩ => nomatch h
  | .deleteJob .. => .isFalse fun ⟨_, h⟩ => nomatch h
  | .returned _ => .isFalse fun ⟨_, h⟩ => nomatch h

/-- The task is set to `STOPPED` or `FAILED`. -/
def GivenUp (id : Int) (e : Event) : Prop := e = .setStatus id .stopped ∨ e = .setStatus id .failed

/-- `RunDue` with its misfire marking, `TaskStop` and `Offline`. -/
def Call.firing : Call → Prop
  | .runDue _ | .taskStop _ | .offline _ => True
  | .apply _ | .taskRerun _ => False

def fireClaim (id : Int) : Calls.Claim Db Call Event where
  free := free id
  owns c := ∃ t, claimed c = some t ∧ t.id = id
  armed c := ∃ t, submits c = some t ∧ t.id = id
  uses := Submitted id
  ends e := Submitted id e ∨ GivenUp id e

variable {s : ScheduledService} {db : Db} {c d : Call} {x : Ending} {id : Int} {e : Event}

theorem free_anti (h : free id (s.exec db c x).db) : free id db := by
  cases hx : x.error with
  | some r => rwa [db_of_error hx] at h
  | none =>
    obtain ⟨t, ht, rfl, hs⟩ := h
    rw [tasks_after hx] at ht
    cases hw : (c.instr s).stmt.taskWrite with
    | none => rw [hw] at ht; exact ⟨t, ht, rfl, hs⟩
    | some pu =>
      obtain ⟨p, u⟩ := pu
      rw [hw] at ht
      obtain ⟨r, hr, rfl⟩ := Table.mem_updateWhere.1 ht
      obtain ⟨st, hst, hne⟩ := status_of_taskWrite hw
      split_ifs at hs ⊢
      · refine absurd ?_ hne
        rw [← hs]
        simp [TaskSet.apply, column, hst]
      · exact ⟨r, hr, rfl, hs⟩

theorem free_of_taken {p : TaskWhere} {u : TaskSet} {t : ProjectScheduleTaskDO} (hx : x.error = none)
    (hw : (c.instr s).stmt.taskWrite = some (p, u)) (ht : t ∈ db.tasks) (hp : p.holds t) (hs : t.status = .toBeRun) :
    free t.id db ∧ ¬ free t.id (s.exec db c x).db := by
  refine ⟨⟨t, ht, rfl, hs⟩, ?_⟩
  rintro ⟨r', hr', hid, hs'⟩
  rw [tasks_after hx, hw] at hr'
  obtain ⟨r, hr, rfl⟩ := Table.mem_updateWhere.1 hr'
  obtain ⟨st, hst, hne⟩ := status_of_taskWrite hw
  have hrid : r.id = t.id := by
    split_ifs at hid
    · exact hid
    · exact hid
  obtain rfl : r = t := Table.eq_of_col_eq db.task_ids hr ht hrid
  rw [if_pos hp] at hs'
  refine hne ?_
  rw [← hs']
  simp [TaskSet.apply, column, hst]

theorem exists_of_count {p : TaskWhere} (h : 0 < db.tasks.countP p.holds) : ∃ t ∈ db.tasks, p.holds t :=
  List.countP_pos_iff.1 h

theorem submitted_cases (h : e ∈ (s.exec db c x).events) (hs : Submitted id e) :
    ∃ t req k, c = .runDue (.createJob t req k) ∧ t.id = id := by
  obtain ⟨ok, rfl⟩ := hs
  obtain ⟨-, ⟨-, hcall⟩ | ⟨ho, -⟩⟩ := createJob_cases h
  · exact hcall
  · cases ho

theorem givenUp_cases (hc : c.firing) (h : e ∈ (s.exec db c x).events) (hg : GivenUp id e) :
    (∃ t z w k, c = .runDue (.failTask t z w k) ∧ t.id = id) ∨ free id db ∧ ¬ free id (s.exec db c x).db := by
  obtain ⟨v, hv, rfl⟩ : ∃ v, (v = .stopped ∨ v = .failed) ∧ e = .setStatus id v := by
    rcases hg with rfl | rfl
    · exact ⟨_, .inl rfl, rfl⟩
    · exact ⟨_, .inr rfl, rfl⟩
  rcases event_cases h with ⟨r, hr⟩ | ⟨hx, he⟩ | he
  · simp at hr
  · obtain ⟨p, u, hw, hu, t, ht, hp, rfl⟩ := setStatus_mem he
    have hcase : (∃ t' z w k, c = .runDue (.failTask t' z w k) ∧ p = .id t'.id) ∨
        (p.holds t → t.status = .toBeRun) := by
      obtain pc | pc | pc | pc | pc := c
      · cases pc <;> simp only [Call.instr, RunDue.instr, Stmt.taskWrite, reduceCtorEq, Option.some.injEq,
          Prod.mk.injEq] at hw
        case failTask t' z w k => exact .inl ⟨t', z, w, k, rfl, hw.1.symm⟩
        case claim => rw [← hw.2] at hu; rcases hv with rfl | rfl <;> simp at hu
        all_goals
          rw [← hw.1]
          exact .inr fun hp => by simpa [TaskWhere.holds] using (of_decide_eq_true hp).2
      · cases pc <;> simp only [Call.instr, TaskStop.instr, Stmt.taskWrite, reduceCtorEq, Option.some.injEq,
          Prod.mk.injEq] at hw
        case setStopping => rw [← hw.2] at hu; rcases hv with rfl | rfl <;> simp at hu
        all_goals
          rw [← hw.1]
          exact .inr fun hp => by simpa [TaskWhere.holds] using (of_decide_eq_true hp).2
      · cases pc <;> simp [Call.instr, Offline.instr, Stmt.taskWrite] at hw
      · exact hc.elim
      · exact hc.elim
    rcases hcase with ⟨t', z, w, k, rfl, rfl⟩ | hs
    · exact .inl ⟨t', z, w, k, rfl, (of_decide_eq_true hp).symm⟩
    · exact .inr (free_of_taken hx hw ht hp (hs hp))
  · exact absurd he (setStatus_not_mem _)

theorem claimed_next {t : ProjectScheduleTaskDO} (hc : c.firing) (h : (s.exec db c x).next = some d)
    (hd : claimed d = some t) :
    (∃ k, c = .runDue (.claim t k) ∧ free t.id db ∧ ¬ free t.id (s.exec db c x).db) ∨
    (submits c = some t ∧ submits d = none) := by
  obtain pc | pc | pc | pc | pc := c
  · rcases RunDue.next_cases h with ⟨t', k, _, rfl | rfl⟩ | ⟨t', k, rfl, _, _, rfl⟩ | ⟨t', k, rfl, hx, hn, hd'⟩ |
      ⟨t', req, k, rfl, hd'⟩ | ⟨t', z, w, k, rfl, rfl⟩
    · simp [claimed] at hd
    · simp [claimed] at hd
    · simp [claimed] at hd
    · obtain rfl : t' = t := by
        rcases hd' with ⟨req, rfl⟩ | ⟨z, w, rfl⟩ <;> exact Option.some.inj hd
      obtain ⟨r, hr, hp⟩ := exists_of_count hn
      obtain ⟨hid, hs⟩ := of_decide_eq_true hp
      rw [← hid]
      exact .inl ⟨k, rfl, free_of_taken hx rfl hr hp hs⟩
    · rcases hd' with rfl | ⟨z, w, rfl⟩
      · simp [claimed] at hd
      · obtain rfl : t' = t := Option.some.inj hd
        exact .inr ⟨rfl, rfl⟩
    · simp [claimed] at hd
  · rcases TaskStop.next_cases h with ⟨_, _, _, _, _, _, _, ⟨_, rfl⟩ | ⟨_, rfl⟩⟩ | ⟨_, _, _, _, _, rfl⟩ | ⟨_, _, _, _, rfl⟩ |
      ⟨_, _, _, _, rfl | rfl⟩ | ⟨_, _, _, _, rfl⟩ | ⟨_, _, rfl⟩ <;> simp [claimed] at hd
  · obtain ⟨pc', rfl⟩ := Offline.next_cases h
    simp [claimed] at hd
  · exact hc.elim
  · exact hc.elim

theorem firing_next (hc : c.firing) (h : (s.exec db c x).next = some d) : d.firing := by
  obtain pc | pc | pc | pc | pc := c
  · rcases RunDue.next_cases h with ⟨t', k, _, rfl | rfl⟩ | ⟨t', k, rfl, _, _, rfl⟩ | ⟨t', k, rfl, hx, hn, ⟨_, rfl⟩ | ⟨_, _, rfl⟩⟩ |
      ⟨t', req, k, rfl, rfl | ⟨_, _, rfl⟩⟩ | ⟨t', z, w, k, rfl, rfl⟩ <;> trivial
  · rcases TaskStop.next_cases h with ⟨_, _, _, _, _, _, _, ⟨_, rfl⟩ | ⟨_, rfl⟩⟩ | ⟨_, _, _, _, _, rfl⟩ | ⟨_, _, _, _, rfl⟩ |
      ⟨_, _, _, _, rfl | rfl⟩ | ⟨_, _, _, _, rfl⟩ | ⟨_, _, rfl⟩ <;> trivial
  · obtain ⟨pc', rfl⟩ := Offline.next_cases h
    trivial
  · exact hc.elim
  · exact hc.elim

theorem fireClaim_lawful (id : Int) : (fireClaim id).Lawful Call.firing Call.first s.exec where
  stays := firing_next
  not_owns := by
    rintro c hc ⟨t, ht, _⟩
    obtain pc | pc | pc | pc | pc := c <;> cases pc <;> simp [Call.first, claimed] at hc ht
  armed_owns := by
    rintro c ⟨t, ht, hid⟩
    refine ⟨t, ?_, hid⟩
    obtain pc | pc | pc | pc | pc := c <;> cases pc <;> simp [submits, claimed] at ht ⊢
    exact ht
  free_anti := fun _ h => free_anti h
  owns_next := by
    rintro db c x d hc hn ⟨t, ht, rfl⟩
    rcases claimed_next hc hn ht with ⟨k, _, hf⟩ | ⟨hs, _⟩
    · exact .inr hf
    · refine .inl ⟨t, ?_, rfl⟩
      obtain pc | pc | pc | pc | pc := c <;> cases pc <;> simp [submits, claimed] at hs ⊢
      exact hs
  armed_next := by
    rintro db c x d hc hn ⟨t, ht, rfl⟩
    have hcl : claimed d = some t := by
      obtain pc | pc | pc | pc | pc := d <;> cases pc <;> simp [submits, claimed] at ht ⊢
      exact ht
    rcases claimed_next hc hn hcl with ⟨k, rfl, hf⟩ | ⟨_, hno⟩
    · refine ⟨.inr hf.1, ?_⟩
      rintro e he (hs | hg)
      · obtain ⟨t', req, k', heq, _⟩ := submitted_cases he hs
        simp at heq
      · -- the claim itself writes `RUNNING`
        rcases givenUp_cases hc he hg with ⟨_, _, _, _, heq, _⟩ | _
        · simp at heq
        · rcases event_cases he with ⟨r, rfl⟩ | ⟨_, h⟩ | h
          · rcases hg with hg | hg <;> simp at hg
          · rcases hg with rfl | rfl <;> obtain ⟨p, u, hw, hu, _⟩ := setStatus_mem h <;>
              obtain ⟨rfl, rfl⟩ := Prod.mk.inj (Option.some.inj hw) <;> simp at hu
          · simp [Call.instr, RunDue.instr, Stmt.attempts] at h
    · rw [hno] at ht
      simp at ht
  ends_of := by
    rintro db c x e hc he (hs | hg)
    · obtain ⟨t, req, k, rfl, rfl⟩ := submitted_cases he hs
      exact .inl ⟨t, rfl, rfl⟩
    · rcases givenUp_cases hc he hg with ⟨t, z, w, k, rfl, rfl⟩ | hf
      · exact .inl ⟨t, rfl, rfl⟩
      · exact .inr hf
  uses_of := by
    intro db c x e hc he hs
    obtain ⟨t, req, k, rfl, rfl⟩ := submitted_cases he hs
    exact ⟨t, rfl, rfl⟩
  events := by
    intro db c x hc
    by_cases hs : ∃ e ∈ (s.exec db c x).events, Submitted id e
    · obtain ⟨e, he, hs⟩ := hs
      obtain ⟨t, req, k, rfl, rfl⟩ := submitted_cases he hs
      cases hx : x.error with
      | none => rw [ScheduledService.exec_ok hx]; exact List.pairwise_singleton ..
      | some r => rw [ScheduledService.exec_error hx]; exact List.pairwise_singleton ..
    · refine List.pairwise_of_forall_mem_list ?_
      intro a _ e he hu
      exact absurd ⟨e, he, hu⟩ hs

/-- In every interleaving of `RunDue`, `TaskStop` and `Offline` calls a task is submitted by `fire` once
at most, and not after it has been set to `STOPPED` or `FAILED`. -/
theorem fired_once {as : List Action} {w : World} (hstart : ∀ a ∈ as, ∀ i c, a = .start i c → c.firing)
    (hr : Lts.run s.step (.idle db) as = some w) (id : Int) :
    w.log.countP (fun e => decide (Submitted id e)) ≤ 1 ∧ w.log.Pairwise fun d e => Submitted id e → ¬ GivenUp id d := by
  have h : w.log.Pairwise fun d e => Submitted id e → ¬ (Submitted id d ∨ GivenUp id d) :=
    (fireClaim_lawful id).first_of_run hstart hr
  constructor
  · refine List.countP_le_one_of_pairwise (h.imp ?_)
    intro d e hde he hd
    exact hde (of_decide_eq_true he) (.inl (of_decide_eq_true hd))
  · exact h.imp fun hde hs hg => hde hs (.inr hg)

def plainService : ScheduledService where
  misfireGrace := 600
  hasKuscia := true
  unmarshalJobRequest r := .ok ⟨r, r⟩
  format := Bytes.itoa
  graceText := str "10m0s"
  unicode := .asciiCase

def oneTask (job : ScheduleJobStatus) (task : ScheduledStatus) : Db where
  schedules := [⟨[1], [9], .up, false⟩]
  tasks := [⟨1, [2], [3], [1], [4], 0, none, none, task, [9], [5], false⟩]
  jobs := [⟨1, [2], [3], job, [], none⟩]
  jobTasks := []
  results := []
  task_ids := List.nodup_singleton _
  task_keys := List.nodup_singleton _
  task_jobs := List.nodup_singleton _
  job_pks := List.nodup_singleton _
  job_ids := List.nodup_singleton _

def go (i : Nat) : Action := .exec i ⟨none, 10⟩

def engineRace : List Action :=
  [.start 0 (.runDue (.query 10)), .start 1 (.runDue (.query 10)), .start 2 (.taskStop (.find [9] [1] [4])),
    go 0, go 1, go 2, go 1, go 0, go 2, go 1, go 1]

theorem fired_once_race : ∃ w, Lts.run plainService.step (.idle (oneTask .running .toBeRun)) engineRace = some w ∧
    w.log.countP (fun e => decide (Submitted 1 e)) ≤ 1 ∧ w.log.Pairwise fun d e => Submitted 1 e → ¬ GivenUp 1 d := by
  obtain ⟨w, hw⟩ : ∃ w, Lts.run plainService.step (.idle (oneTask .running .toBeRun)) engineRace = some w :=
    Option.isSome_iff_exists.1 (by decide +kernel)
  refine ⟨w, hw, fired_once ?_ hw 1⟩
  intro a ha i c hac
  subst hac
  simp only [engineRace, go, List.mem_cons, Calls.Action.start.injEq, List.not_mem_nil, reduceCtorEq, or_false] at ha
  rcases ha with ⟨_, rfl⟩ | ⟨_, rfl⟩ | ⟨_, rfl⟩ <;> trivial

end Sched
