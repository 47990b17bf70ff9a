import Privahub.Sched.Service

/-!
# What one step of a call can do

`Stmt.taskWrite` and `Stmt.jobWrite` are the writes of a statement to the two tables; no statement
sets a schedule task back to `TO_BE_RUN` (`status_of_taskWrite`). For each kind of call, `next_cases`
lists the program counters that can follow.
-/

namespace Sched

open Table (updateWhere)

namespace Stmt

variable {α : Type}

def taskWrite : Stmt α → Option (TaskWhere × TaskSet)
  | updateTasks p u => some (p, u)
  | _ => none

def jobWrite : Stmt α → Option (JobWhere × JobSet)
  | updateJobs p u => some (p, u)
  | _ => none

theorem run_tasks (st : Stmt α) (db : Db) :
    (st.run db).tasks = match st.taskWrite with
      | some (p, u) => updateWhere p.holds u.apply db.tasks
      | none => db.tasks := by cases st <;> rfl

theorem run_jobs (st : Stmt α) (db : Db) :
    (st.run db).jobs = match st.jobWrite with
      | some (p, u) => updateWhere p.holds u.apply db.jobs
      | none => db.jobs := by cases st <;> rfl

end Stmt

variable {s : ScheduledService} {db : Db} {c d : Call} {x : Ending} {p : TaskWhere} {u : TaskSet} {id : Int} {e : Event}

theorem ScheduledService.exec_error {e : Bytes} (hx : x.error = some e) :
    s.exec db c x = ⟨db, (((c.instr s).cont (.error e) x.clock).call?),
      (c.instr s).stmt.attempts ++ ((c.instr s).cont (.error e) x.clock).events⟩ := by
  simp only [exec, Instr.exec, hx]

theorem ScheduledService.exec_ok (hx : x.error = none) :
    s.exec db c x = ⟨(c.instr s).stmt.run db, ((c.instr s).cont (.ok ((c.instr s).stmt.answer db)) x.clock).call?,
      (c.instr s).stmt.events db ++ ((c.instr s).cont (.ok ((c.instr s).stmt.answer db)) x.clock).events⟩ := by
  simp only [exec, Instr.exec, hx]

theorem tasks_after (hx : x.error = none) : (s.exec db c x).db.tasks = match (c.instr s).stmt.taskWrite with
    | some (p, u) => updateWhere p.holds u.apply db.tasks
    | none => db.tasks := by
  rw [ScheduledService.exec_ok hx]
  exact Stmt.run_tasks ..

theorem db_of_error {r : Bytes} (hx : x.error = some r) : (s.exec db c x).db = db := by
  rw [ScheduledService.exec_error hx]

theorem status_of_taskWrite (h : (c.instr s).stmt.taskWrite = some (p, u)) : ∃ st, u.status = some st ∧ st ≠ .toBeRun := by
  obtain pc | pc | pc | pc | pc := c <;> cases pc <;>
    simp only [Call.instr, RunDue.instr, TaskStop.instr, Offline.instr, Apply.instr, TaskRerun.instr, Stmt.taskWrite,
      Option.some.injEq, Prod.mk.injEq, reduceCtorEq] at h
  all_goals
    obtain ⟨rfl, rfl⟩ := h
    exact ⟨_, rfl, by first | exact from_ne_toBeRun _ | decide⟩

structure SameTask (t u : ProjectScheduleTaskDO) : Prop where
  id : t.id = u.id
  projectId : t.projectId = u.projectId
  scheduleJobId : t.scheduleJobId = u.scheduleJobId
  scheduleTaskId : t.scheduleTaskId = u.scheduleTaskId

theorem SameTask.refl (t : ProjectScheduleTaskDO) : SameTask t t := ⟨rfl, rfl, rfl, rfl⟩

theorem SameTask.symm {t u : ProjectScheduleTaskDO} (h : SameTask t u) : SameTask u t :=
  ⟨h.1.symm, h.2.symm, h.3.symm, h.4.symm⟩

theorem SameTask.trans {t u v : ProjectScheduleTaskDO} (h : SameTask t u) (h' : SameTask u v) : SameTask t v :=
  ⟨h.1.trans h'.1, h.2.trans h'.2, h.3.trans h'.3, h.4.trans h'.4⟩

structure SameJob (i j : ProjectScheduleJobDO) : Prop where
  id : i.id = j.id
  projectId : i.projectId = j.projectId
  jobId : i.jobId = j.jobId

theorem task_before {t' : ProjectScheduleTaskDO} (h : t' ∈ (s.exec db c x).db.tasks) :
    ∃ t ∈ db.tasks, SameTask t t' ∧
      ((x.error = none ∧ ∃ p u, (c.instr s).stmt.taskWrite = some (p, u) ∧ p.holds t ∧ u.status = some t'.status) ∨
        t'.status = t.status ∧ ∀ p u, x.error = none → (c.instr s).stmt.taskWrite = some (p, u) → ¬ p.holds t) := by
  cases hx : x.error with
  | some r =>
    rw [db_of_error hx] at h
    exact ⟨t', h, .refl _, .inr ⟨rfl, fun _ _ he => absurd he (by simp)⟩⟩
  | none =>
    rw [tasks_after hx] at h
    cases hw : (c.instr s).stmt.taskWrite with
    | none => rw [hw] at h; exact ⟨t', h, .refl _, .inr ⟨rfl, fun _ _ _ he => absurd he (by simp)⟩⟩
    | some pu =>
      obtain ⟨p, u⟩ := pu
      rw [hw] at h
      obtain ⟨t, ht, rfl⟩ := Table.mem_updateWhere.1 h
      obtain ⟨st, hst, _⟩ := status_of_taskWrite hw
      by_cases hp : p.holds t
      · rw [if_pos hp]
        exact ⟨t, ht, ⟨rfl, rfl, rfl, rfl⟩, .inl ⟨rfl, p, u, rfl, hp, by simp [TaskSet.apply, column, hst]⟩⟩
      · rw [if_neg hp]
        refine ⟨t, ht, .refl _, .inr ⟨rfl, ?_⟩⟩
        rintro p' u' _ hpu
        obtain ⟨rfl, rfl⟩ := Prod.mk.inj (Option.some.inj hpu)
        exact hp

theorem task_after {t : ProjectScheduleTaskDO} (h : t ∈ db.tasks) : ∃ t' ∈ (s.exec db c x).db.tasks, SameTask t t' := by
  cases hx : x.error with
  | some r => rw [db_of_error hx]; exact ⟨t, h, .refl _⟩
  | none =>
    rw [tasks_after hx]
    cases hw : (c.instr s).stmt.taskWrite with
    | none => exact ⟨t, h, .refl _⟩
    | some pu =>
      refine ⟨_, Table.mem_updateWhere.2 ⟨t, h, rfl⟩, ?_⟩
      split_ifs
      · exact ⟨rfl, rfl, rfl, rfl⟩
      · exact .refl _

theorem jobs_after (hx : x.error = none) : (s.exec db c x).db.jobs = match (c.instr s).stmt.jobWrite with
    | some (p, u) => updateWhere p.holds u.apply db.jobs
    | none => db.jobs := by
  rw [ScheduledService.exec_ok hx]
  exact Stmt.run_jobs ..

theorem job_before {j' : ProjectScheduleJobDO} (h : j' ∈ (s.exec db c x).db.jobs) :
    ∃ j ∈ db.jobs, SameJob j j' ∧
      ((x.error = none ∧ ∃ p u, (c.instr s).stmt.jobWrite = some (p, u) ∧ p.holds j ∧ u.status = j'.status) ∨
        j'.status = j.status ∧ ∀ p u, x.error = none → (c.instr s).stmt.jobWrite = some (p, u) → ¬ p.holds j) := by
  cases hx : x.error with
  | some r =>
    rw [db_of_error hx] at h
    exact ⟨j', h, ⟨rfl, rfl, rfl⟩, .inr ⟨rfl, fun _ _ he => absurd he (by simp)⟩⟩
  | none =>
    rw [jobs_after hx] at h
    cases hw : (c.instr s).stmt.jobWrite with
    | none => rw [hw] at h; exact ⟨j', h, ⟨rfl, rfl, rfl⟩, .inr ⟨rfl, fun _ _ _ he => absurd he (by simp)⟩⟩
    | some pu =>
      obtain ⟨p, u⟩ := pu
      rw [hw] at h
      obtain ⟨j, hj, rfl⟩ := Table.mem_updateWhere.1 h
      by_cases hp : p.holds j
      · rw [if_pos hp]
        exact ⟨j, hj, ⟨rfl, rfl, rfl⟩, .inl ⟨rfl, p, u, rfl, hp, rfl⟩⟩
      · rw [if_neg hp]
        refine ⟨j, hj, ⟨rfl, rfl, rfl⟩, .inr ⟨rfl, ?_⟩⟩
        rintro p' u' _ hpu
        obtain ⟨rfl, rfl⟩ := Prod.mk.inj (Option.some.inj hpu)
        exact hp

theorem job_after {j : ProjectScheduleJobDO} (h : j ∈ db.jobs) : ∃ j' ∈ (s.exec db c x).db.jobs, SameJob j j' := by
  cases hx : x.error with
  | some r => rw [db_of_error hx]; exact ⟨j, h, rfl, rfl, rfl⟩
  | none =>
    rw [jobs_after hx]
    cases hw : (c.instr s).stmt.jobWrite with
    | none => exact ⟨j, h, rfl, rfl, rfl⟩
    | some pu =>
      refine ⟨_, Table.mem_updateWhere.2 ⟨j, h, rfl⟩, ?_⟩
      split_ifs
      · exact ⟨rfl, rfl, rfl⟩
      · exact ⟨rfl, rfl, rfl⟩

theorem event_cases (h : e ∈ (s.exec db c x).events) :
    (∃ r, e = .returned r) ∨ (x.error = none ∧ e ∈ (c.instr s).stmt.events db) ∨ e ∈ (c.instr s).stmt.attempts := by
  have hnext : ∀ n : Next, e ∈ n.events → ∃ r, e = .returned r := by
    intro n hn
    cases n with
    | call c => simp [Next.events] at hn
    | ret r => exact ⟨r, by simpa [Next.events] using hn⟩
  cases hx : x.error with
  | none =>
    rw [ScheduledService.exec_ok hx] at h
    rcases List.mem_append.1 h with h | h
    · exact .inr (.inl ⟨rfl, h⟩)
    · exact .inl (hnext _ h)
  | some r =>
    rw [ScheduledService.exec_error hx] at h
    rcases List.mem_append.1 h with h | h
    · exact .inr (.inr h)
    · exact .inl (hnext _ h)

theorem setStatus_mem {α : Type} {st : Stmt α} {v : ScheduledStatus} (h : .setStatus id v ∈ st.events db) :
    ∃ p u, st.taskWrite = some (p, u) ∧ u.status = some v ∧ ∃ t ∈ db.tasks, p.holds t ∧ t.id = id := by
  cases st <;> simp only [Stmt.events, List.mem_singleton, List.not_mem_nil, reduceCtorEq] at h
  rename_i p u
  refine ⟨p, u, rfl, ?_⟩
  cases hu : u.status with
  | none => simp [hu] at h
  | some v' =>
    rw [hu] at h
    obtain ⟨t, ht, he⟩ := List.mem_map.1 h
    obtain ⟨rfl, rfl⟩ := Event.setStatus.inj he
    exact ⟨rfl, t, (List.mem_filter.1 ht).1, (List.mem_filter.1 ht).2, rfl⟩

theorem accepted_not_mem {α : Type} (st : Stmt α) {o : Origin} : .createJob o id true ∉ st.attempts := by
  cases st <;> simp [Stmt.attempts]

theorem setStatus_not_mem {α : Type} (st : Stmt α) {v : ScheduledStatus} : .setStatus id v ∉ st.attempts := by
  cases st <;> simp [Stmt.attempts]

theorem createJob_cases {o : Origin} {ok : Bool} (h : .createJob o id ok ∈ (s.exec db c x).events) :
    (ok = true → x.error = none) ∧ ((o = .fire ∧ ∃ t req k, c = .runDue (.createJob t req k) ∧ t.id = id) ∨
      o = .rerun ∧ ∃ u req now, c = .taskRerun (.createJob u req now) ∧ u.id = id) := by
  have hcall : .createJob o id ok ∈ (c.instr s).stmt.events db ∨ .createJob o id ok ∈ (c.instr s).stmt.attempts →
      (o = .fire ∧ ∃ t req k, c = .runDue (.createJob t req k) ∧ t.id = id) ∨
        o = .rerun ∧ ∃ u req now, c = .taskRerun (.createJob u req now) ∧ u.id = id := by
    intro h
    obtain pc | pc | pc | pc | pc := c <;> cases pc <;> simp [Call.instr, RunDue.instr, TaskStop.instr, Offline.instr,
      Apply.instr, TaskRerun.instr, Stmt.events, Stmt.attempts] at h ⊢ <;> tauto
  rcases event_cases h with ⟨r, hr⟩ | ⟨hx, h⟩ | h
  · cases hr
  · exact ⟨fun _ => hx, hcall (.inl h)⟩
  · exact ⟨fun hok => absurd (hok ▸ h) (accepted_not_mem _), hcall (.inr h)⟩

theorem RunDue.loop_next {now : Time} {n : Nat} {l : List ProjectScheduleTaskDO} (h : (RunDue.loop s now n l).call? = some d) :
    ∃ t rest, l = t :: rest ∧ (d = .runDue (.markMisfired t ⟨now, rest, n⟩) ∨ d = .runDue (.claim t ⟨now, rest, n⟩)) := by
  cases l with
  | nil => simp [RunDue.loop, Next.call?] at h
  | cons t rest =>
    refine ⟨t, rest, rfl, ?_⟩
    rw [RunDue.loop] at h
    split_ifs at h
    · exact .inl (Option.some.inj h).symm
    · exact .inr (Option.some.inj h).symm

theorem RunDue.submit_next {t : ProjectScheduleTaskDO} {k : Tick} {z : Time} (h : (RunDue.submit s t k z).call? = some d) :
    (∃ req, d = .runDue (.createJob t req k)) ∨ ∃ e, d = .runDue (.failTask t e z k) := by
  unfold RunDue.submit at h
  split at h
  · exact .inr ⟨_, (Option.some.inj h).symm⟩
  · split at h
    · exact .inl ⟨_, (Option.some.inj h).symm⟩
    · exact .inr ⟨_, (Option.some.inj h).symm⟩

/-- The tasks a `RunDue` tick has in hand. -/
def RunDue.inHand : RunDue → List ProjectScheduleTaskDO
  | query _ => []
  | markMisfired t k | misfiredJob t k | claim t k | createJob t _ k | firedJob t k | failTask t _ _ k
  | failJob t _ _ k => t :: k.rest

theorem RunDue.next_cases {pc : RunDue} (h : (s.exec db (.runDue pc) x).next = some d) :
    (∃ t k, (t :: k.rest).Sublist (pc.inHand ++ db.due k.now) ∧
      (d = .runDue (.markMisfired t k) ∨ d = .runDue (.claim t k))) ∨
    (∃ t k, pc = .markMisfired t k ∧ x.error = none ∧ 0 < db.tasks.countP (TaskWhere.idStatus t.id .toBeRun).holds ∧
      d = .runDue (.misfiredJob t k)) ∨
    (∃ t k, pc = .claim t k ∧ x.error = none ∧ 0 < db.tasks.countP (TaskWhere.idStatus t.id .toBeRun).holds ∧
      ((∃ req, d = .runDue (.createJob t req k)) ∨ ∃ e z, d = .runDue (.failTask t e z k))) ∨
    (∃ t req k, pc = .createJob t req k ∧ (d = .runDue (.firedJob t k) ∨ ∃ e z, d = .runDue (.failTask t e z k))) ∨
    ∃ t e z k, pc = .failTask t e z k ∧ d = .runDue (.failJob t e z k) := by
  have hloop : ∀ {n : Nat} {k : Tick} {t : ProjectScheduleTaskDO}, (RunDue.loop s k.now n k.rest).call? = some d →
      ∃ t' k', (t' :: k'.rest).Sublist (t :: k.rest ++ db.due k'.now) ∧
        (d = .runDue (.markMisfired t' k') ∨ d = .runDue (.claim t' k')) := by
    intro n k t hl
    obtain ⟨t', rest, hk, hd⟩ := loop_next hl
    refine ⟨t', ⟨k.now, rest, n⟩, ?_, hd⟩
    rw [hk]
    exact ((List.Sublist.refl _).cons t).trans (List.sublist_append_left ..)
  cases hx : x.error with
  | none =>
    rw [ScheduledService.exec_ok hx] at h
    cases pc with
    | query now =>
      obtain ⟨t, rest, hl, hd⟩ := loop_next h
      refine .inl ⟨t, ⟨now, rest, 0⟩, ?_, hd⟩
      rw [← hl]
      exact .refl _
    | markMisfired t k =>
      simp only [Call.instr, instr, Stmt.answer] at h
      split at h
      · rename_i n hn
        have hpos : 0 < db.tasks.countP (TaskWhere.idStatus t.id .toBeRun).holds := by
          rw [Except.ok.inj hn]; omega
        exact .inr (.inl ⟨t, k, rfl, rfl, hpos, (Option.some.inj h).symm⟩)
      · exact .inl (hloop h)
    | claim t k =>
      simp only [Call.instr, instr, Stmt.answer] at h
      split at h
      · rename_i n hn
        have hpos : 0 < db.tasks.countP (TaskWhere.idStatus t.id .toBeRun).holds := by
          rw [Except.ok.inj hn]; omega
        refine .inr (.inr (.inl ⟨t, k, rfl, rfl, hpos, ?_⟩))
        exact (submit_next h).imp_right fun ⟨e, he⟩ => ⟨e, _, he⟩
      · exact .inl (hloop h)
    | misfiredJob t k => exact .inl (hloop h)
    | createJob t req k => exact .inr (.inr (.inr (.inl ⟨t, req, k, rfl, .inl (Option.some.inj h).symm⟩)))
    | firedJob t k => exact .inl (hloop h)
    | failTask t e z k => exact .inr (.inr (.inr (.inr ⟨t, e, z, k, rfl, (Option.some.inj h).symm⟩)))
    | failJob t e z k => exact .inl (hloop h)
  | some e =>
    rw [ScheduledService.exec_error hx] at h
    cases pc with
    | query now => simp [Call.instr, instr, Next.call?] at h
    | createJob t req k => exact .inr (.inr (.inr (.inl ⟨t, req, k, rfl, .inr ⟨_, _, (Option.some.inj h).symm⟩⟩)))
    | failTask t e z k => exact .inr (.inr (.inr (.inr ⟨t, e, z, k, rfl, (Option.some.inj h).symm⟩)))
    | markMisfired t k => exact .inl (hloop h)
    | claim t k => exact .inl (hloop h)
    | misfiredJob t k => exact .inl (hloop h)
    | firedJob t k => exact .inl (hloop h)
    | failJob t e z k => exact .inl (hloop h)

theorem TaskStop.next_cases {pc : TaskStop} (h : (s.exec db (.taskStop pc) x).next = some d) :
    (∃ o i k t, pc = .find o i k ∧ x.error = none ∧ db.firstTask i k = some t ∧
      (t.status = .toBeRun ∧ d = .taskStop (.claim t x.clock) ∨
        t.status = .running ∧ d = .taskStop (.findJob t x.clock))) ∨
    (∃ t now, pc = .claim t now ∧ x.error = none ∧ 0 < db.tasks.countP (TaskWhere.keyStatus t.scheduleTaskId .toBeRun).holds ∧
      d = .taskStop (.markJob t now false)) ∨
    (∃ t now j, pc = .findJob t now ∧ d = .taskStop (.stopJob t j now)) ∨
    (∃ t j now, pc = .stopJob t j now ∧ (d = .taskStop (.markJob t now true) ∨ d = .taskStop (.setStopping t))) ∨
    (∃ t now b, pc = .markJob t now b ∧ d = .taskStop (.markJobTasks t b)) ∨
    ∃ t, pc = .markJobTasks t true ∧ d = .taskStop (.setStopping t) := by
  cases hx : x.error with
  | none =>
    rw [ScheduledService.exec_ok hx] at h
    cases pc with
    | find o i k =>
      simp only [Call.instr, instr, Stmt.answer] at h
      cases ht : db.firstTask i k with
      | none => simp [ht, Next.call?] at h
      | some t =>
        simp only [ht] at h
        split_ifs at h
        · simp [Next.call?] at h
        · refine .inl ⟨o, i, k, t, rfl, rfl, ht, ?_⟩
          split at h
          · exact .inl ⟨‹_›, (Option.some.inj h).symm⟩
          · exact .inr ⟨‹_›, (Option.some.inj h).symm⟩
          · simp [Next.call?] at h
    | claim t now =>
      simp only [Call.instr, instr, Stmt.answer] at h
      split at h
      · simp [Next.call?] at h
      · simp [Next.call?] at h
      · rename_i n hn
        have hpos : 0 < db.tasks.countP (TaskWhere.keyStatus t.scheduleTaskId .toBeRun).holds := by
          rw [Except.ok.inj hn]; omega
        unfold markScheduleJobStopped at h
        split_ifs at h
        · simp [finish, Next.call?] at h
        · exact .inr (.inl ⟨t, now, rfl, rfl, hpos, (Option.some.inj h).symm⟩)
    | findJob t now =>
      simp only [Call.instr, instr, Stmt.answer] at h
      split at h
      · split_ifs at h
        · exact .inr (.inr (.inl ⟨t, now, _, rfl, (Option.some.inj h).symm⟩))
        · simp [Next.call?] at h
      · simp [Next.call?] at h
    | stopJob t j now =>
      refine .inr (.inr (.inr (.inl ⟨t, j, now, rfl, ?_⟩)))
      simp only [Call.instr, instr, markScheduleJobStopped, finish, if_true] at h
      split_ifs at h
      · exact .inr (Option.some.inj h).symm
      · exact .inl (Option.some.inj h).symm
    | markJob t now b => exact .inr (.inr (.inr (.inr (.inl ⟨t, now, b, rfl, (Option.some.inj h).symm⟩))))
    | markJobTasks t b =>
      cases b with
      | false => simp [Call.instr, instr, finish, Next.call?] at h
      | true => exact .inr (.inr (.inr (.inr (.inr ⟨t, rfl, (Option.some.inj h).symm⟩))))
    | setStopping t => simp [Call.instr, instr, Next.call?] at h
  | some e =>
    rw [ScheduledService.exec_error hx] at h
    cases pc <;> simp [Call.instr, instr, Next.call?, schedErr] at h

theorem Offline.next_cases {pc : Offline} (h : (s.exec db (.offline pc) x).next = some d) : ∃ pc', d = .offline pc' := by
  cases hx : x.error with
  | none =>
    rw [ScheduledService.exec_ok hx] at h
    cases pc with
    | find o i =>
      simp only [Call.instr, instr, Stmt.answer] at h
      split at h
      · simp [Next.call?] at h
      · simp [Next.call?] at h
      · split_ifs at h
        · simp [Next.call?] at h
        · exact ⟨_, (Option.some.inj h).symm⟩
    | count i =>
      simp only [Call.instr, instr, Stmt.answer] at h
      split_ifs at h
      · simp [Next.call?] at h
      · exact ⟨_, (Option.some.inj h).symm⟩
    | setDown i => simp [Call.instr, instr, Next.call?] at h
  | some e =>
    rw [ScheduledService.exec_error hx] at h
    cases pc <;> simp [Call.instr, instr, Next.call?] at h

theorem Apply.nextJobTask_next {sj : ProjectScheduleJobDO} {st : JobExecutionStatus} {now : Time} {l : List TaskStatus}
    (h : (Apply.nextJobTask sj st now l).call? = some d) :
    d = .apply (.job sj st now) ∨ ∃ kt rest, l = kt :: rest ∧ d = .apply (.jobTask sj st now kt rest) := by
  cases l with
  | nil => exact .inl (Option.some.inj h).symm
  | cons kt rest => exact .inr ⟨kt, rest, rfl, (Option.some.inj h).symm⟩

theorem Apply.nextTask_next {status : ScheduleJobStatus} {now : Time} {l : List ProjectScheduleTaskDO}
    (h : (Apply.nextTask status now l).call? = some d) :
    ∃ t rest, d = .apply (.write status now t rest) ∧ (t :: rest).Sublist l := by
  induction l with
  | nil => simp [Apply.nextTask, Next.call?] at h
  | cons u l ih =>
    rw [Apply.nextTask] at h
    split_ifs at h
    · obtain ⟨t, rest, hd, hl⟩ := ih h
      exact ⟨t, rest, hd, hl.cons u⟩
    · exact ⟨u, l, (Option.some.inj h).symm, .refl _⟩

theorem Apply.nextTask_mem {status : ScheduleJobStatus} (now : Time) {l : List ProjectScheduleTaskDO}
    {v : ProjectScheduleTaskDO} (hv : v ∈ l) (hs : Apply.skips (ScheduledStatusFrom status) v = false) :
    ∃ t rest, Apply.nextTask status now l = .call (.apply (.write status now t rest)) ∧ v ∈ t :: rest := by
  induction l with
  | nil => simp at hv
  | cons u l ih =>
    rw [Apply.nextTask]
    split_ifs with hu
    · rcases List.mem_cons.1 hv with rfl | hv
      · simp [hs] at hu
      · exact ih hv
    · exact ⟨u, l, rfl, hv⟩

theorem Apply.next_cases {pc : Apply} (h : (s.exec db (.apply pc) x).next = some d) :
    (∃ j st sj, pc = .find j (some st) ∧ db.firstJob j = some sj ∧
      (d = .apply (.job sj st x.clock) ∨ ∃ kt rest, d = .apply (.jobTask sj st x.clock kt rest))) ∨
    (∃ sj st now kt rest, pc = .jobTask sj st now kt rest ∧
      (d = .apply (.job sj st now) ∨ ∃ kt' rest', d = .apply (.jobTask sj st now kt' rest'))) ∨
    (∃ sj st now, pc = .job sj st now ∧
      d = .apply (.read sj.jobId (mapKusciaJobStateToScheduleJob s.unicode st.state) now)) ∨
    (∃ j st now t rest, pc = .read j st now ∧ d = .apply (.write st now t rest) ∧ (t :: rest).Sublist db.tasks) ∨
    ∃ st now t rest t' rest', pc = .write st now t rest ∧ d = .apply (.write st now t' rest') ∧
      (t' :: rest').Sublist rest := by
  cases hx : x.error with
  | none =>
    rw [ScheduledService.exec_ok hx] at h
    cases pc with
    | find j st =>
      simp only [Call.instr, instr, Stmt.answer] at h
      split at h
      · simp [Next.call?] at h
      · simp [Next.call?] at h
      · simp [Next.call?] at h
      · rename_i sj st' hsj
        split_ifs at h
        · simp [Next.call?] at h
        · exact .inl ⟨j, st', sj, rfl, Except.ok.inj hsj, (nextJobTask_next h).imp_right fun ⟨kt, rest, _, hd⟩ => ⟨kt, rest, hd⟩⟩
    | jobTask sj st now kt rest =>
      exact .inr (.inl ⟨sj, st, now, kt, rest, rfl, (nextJobTask_next h).imp_right fun ⟨kt, rest, _, hd⟩ => ⟨kt, rest, hd⟩⟩)
    | job sj st now => exact .inr (.inr (.inl ⟨sj, st, now, rfl, (Option.some.inj h).symm⟩))
    | read j st now =>
      obtain ⟨t, rest, hd, hl⟩ := nextTask_next h
      exact .inr (.inr (.inr (.inl ⟨j, st, now, t, rest, rfl, hd, hl.trans List.filter_sublist⟩)))
    | write st now t rest =>
      obtain ⟨t', rest', hd, hl⟩ := nextTask_next h
      exact .inr (.inr (.inr (.inr ⟨st, now, t, rest, t', rest', rfl, hd, hl⟩)))
  | some e =>
    rw [ScheduledService.exec_error hx] at h
    cases pc <;> simp [Call.instr, instr, Next.call?] at h

theorem TaskRerun.begin_next {t : ProjectScheduleTaskDO} {typ : Bytes} {now : Time}
    (h : (TaskRerun.begin s t typ now).call? = some d) :
    (typ = [] ∨ typ = TaskRerun.ScheduledRestartTypeAll) ∧ t.allReRun = false ∧
        (∃ req, d = .taskRerun (.deleteJob t req now) ∨ d = .taskRerun (.createJob t req now)) ∨
      d = .taskRerun (.restartJob t now) := by
  unfold TaskRerun.begin refuse at h
  split at h
  · simp [Next.call?] at h
  split at h
  · simp [Next.call?] at h
  split at h
  · rename_i htyp
    split at h
    · simp [Next.call?] at h
    · rename_i hall
      refine .inl ⟨htyp, by simpa using hall, ?_⟩
      split at h
      · simp [Next.call?] at h
      · rename_i req _
        refine ⟨req, ?_⟩
        split at h
        · exact .inl (Option.some.inj h).symm
        · exact .inr (Option.some.inj h).symm
  split at h
  · split at h
    · simp [Next.call?] at h
    · exact .inr (Option.some.inj h).symm
  · simp [Next.call?] at h

theorem TaskRerun.next_cases {pc : TaskRerun} (h : (s.exec db (.taskRerun pc) x).next = some d) :
    (∃ o i k y, pc = .findSchedule o i k y ∧ d = .taskRerun (.find o i k y)) ∨
    (∃ o i k y t, pc = .find o i k y ∧ db.firstTask i k = some t ∧
      ((y = [] ∨ y = ScheduledRestartTypeAll) ∧ t.allReRun = false ∧
          (∃ req, d = .taskRerun (.deleteJob t req x.clock) ∨ d = .taskRerun (.createJob t req x.clock)) ∨
        d = .taskRerun (.restartJob t x.clock))) ∨
    (∃ t req now, pc = .deleteJob t req now ∧ d = .taskRerun (.createJob t req now)) ∨
    (∃ t req now, pc = .createJob t req now ∧ x.error = none ∧ d = .taskRerun (.deleteResults t now)) ∨
    (∃ t now, pc = .deleteResults t now ∧ d = .taskRerun (.task { t with allReRun := true } true now)) ∨
    (∃ t now, pc = .restartJob t now ∧ d = .taskRerun (.task t false now)) ∨
    ∃ t b now, pc = .task t b now ∧ x.error = none ∧ d = .taskRerun (.job t) := by
  cases hx : x.error with
  | none =>
    rw [ScheduledService.exec_ok hx] at h
    cases pc with
    | findSchedule o i k y =>
      simp only [Call.instr, instr, Stmt.answer, refuse] at h
      split at h
      · simp [Next.call?] at h
      · simp [Next.call?] at h
      · split_ifs at h
        · simp [Next.call?] at h
        · exact .inl ⟨o, i, k, y, rfl, (Option.some.inj h).symm⟩
    | find o i k y =>
      simp only [Call.instr, instr, Stmt.answer] at h
      split at h
      · simp [Next.call?] at h
      · simp [Next.call?] at h
      · rename_i t ht
        split_ifs at h
        · simp [Next.call?] at h
        · exact .inr (.inl ⟨o, i, k, y, t, rfl, Except.ok.inj ht, begin_next h⟩)
    | deleteJob t req now => exact .inr (.inr (.inl ⟨t, req, now, rfl, (Option.some.inj h).symm⟩))
    | createJob t req now => exact .inr (.inr (.inr (.inl ⟨t, req, now, rfl, rfl, (Option.some.inj h).symm⟩)))
    | deleteResults t now => exact .inr (.inr (.inr (.inr (.inl ⟨t, now, rfl, (Option.some.inj h).symm⟩))))
    | restartJob t now => exact .inr (.inr (.inr (.inr (.inr (.inl ⟨t, now, rfl, (Option.some.inj h).symm⟩)))))
    | task t b now => exact .inr (.inr (.inr (.inr (.inr (.inr ⟨t, b, now, rfl, rfl, (Option.some.inj h).symm⟩)))))
    | job t => simp [Call.instr, instr, Next.call?] at h
  | some e =>
    rw [ScheduledService.exec_error hx] at h
    cases pc <;> simp [Call.instr, instr, Next.call?, refuse] at h

def Call.tasks : Call → List ProjectScheduleTaskDO
  | .runDue pc => pc.inHand
  | .taskStop (.claim t _) | .taskStop (.findJob t _) | .taskStop (.stopJob t _ _) | .taskStop (.markJob t _ _)
  | .taskStop (.markJobTasks t _) | .taskStop (.setStopping t) => [t]
  | .apply (.write _ _ t rest) => t :: rest
  | .taskRerun (.deleteJob t _ _) | .taskRerun (.createJob t _ _) | .taskRerun (.deleteResults t _)
  | .taskRerun (.restartJob t _) | .taskRerun (.task t _ _) | .taskRerun (.job t) => [t]
  | _ => []

theorem firstTask_mem {i k : Bytes} {t : ProjectScheduleTaskDO} (h : db.firstTask i k = some t) :
    t ∈ db.tasks ∧ t.scheduleId = i ∧ t.scheduleTaskId = k :=
  by
  have hp := List.find?_some h
  exact ⟨List.mem_of_find?_eq_some h, of_decide_eq_true hp⟩

theorem due_sublist (now : Time) : ∀ t ∈ db.due now, t ∈ db.tasks := by
  intro t ht
  exact List.mem_of_mem_filter (List.mem_mergeSort.1 (List.mem_of_mem_take ht))

theorem tasks_next (h : (s.exec db c x).next = some d) {v : ProjectScheduleTaskDO} (hv : v ∈ d.tasks) :
    ∃ t, (t ∈ c.tasks ∨ t ∈ db.tasks) ∧ SameTask t v := by
  obtain pc | pc | pc | pc | pc := c
  · rcases RunDue.next_cases h with ⟨t', k, hl, hd⟩ | ⟨t', k, rfl, _, _, rfl⟩ | ⟨t', k, rfl, hx, hn, hd⟩ |
      ⟨t', req, k, rfl, hd⟩ | ⟨t', z, w, k, rfl, rfl⟩
    · have hv' : v ∈ t' :: k.rest := by rcases hd with rfl | rfl <;> exact hv
      rcases List.mem_append.1 (hl.subset hv') with hv | hv
      · exact ⟨v, .inl hv, .refl _⟩
      · exact ⟨v, .inr (due_sublist _ _ hv), .refl _⟩
    · exact ⟨v, .inl hv, .refl _⟩
    · exact ⟨v, .inl (by rcases hd with ⟨_, rfl⟩ | ⟨_, _, rfl⟩ <;> exact hv), .refl _⟩
    · exact ⟨v, .inl (by rcases hd with rfl | ⟨_, _, rfl⟩ <;> exact hv), .refl _⟩
    · exact ⟨v, .inl hv, .refl _⟩
  · rcases TaskStop.next_cases h with ⟨_, _, _, t, rfl, _, ht, ⟨_, rfl⟩ | ⟨_, rfl⟩⟩ | ⟨_, _, rfl, _, _, rfl⟩ |
      ⟨_, _, _, rfl, rfl⟩ | ⟨_, _, _, rfl, rfl | rfl⟩ | ⟨_, _, _, rfl, rfl⟩ | ⟨_, rfl, rfl⟩
    · obtain rfl := List.mem_singleton.1 hv
      exact ⟨v, .inr (firstTask_mem ht).1, .refl _⟩
    · obtain rfl := List.mem_singleton.1 hv
      exact ⟨v, .inr (firstTask_mem ht).1, .refl _⟩
    all_goals exact ⟨v, .inl hv, .refl _⟩
  · obtain ⟨pc', rfl⟩ := Offline.next_cases h
    simp [Call.tasks] at hv
  · rcases Apply.next_cases h with ⟨_, _, _, rfl, _, rfl | ⟨_, _, rfl⟩⟩ | ⟨_, _, _, _, _, rfl, rfl | ⟨_, _, rfl⟩⟩ |
      ⟨_, _, _, rfl, rfl⟩ | ⟨_, _, _, _, _, rfl, rfl, hl⟩ | ⟨_, _, _, _, _, _, rfl, rfl, hl⟩
    · simp [Call.tasks] at hv
    · simp [Call.tasks] at hv
    · simp [Call.tasks] at hv
    · simp [Call.tasks] at hv
    · simp [Call.tasks] at hv
    · exact ⟨v, .inr (hl.subset hv), .refl _⟩
    · exact ⟨v, .inl (.tail _ (hl.subset hv)), .refl _⟩
  · rcases TaskRerun.next_cases h with ⟨_, _, _, _, rfl, rfl⟩ | ⟨_, _, _, _, t, rfl, ht, hd⟩ | ⟨_, _, _, rfl, rfl⟩ |
      ⟨_, _, _, rfl, _, rfl⟩ | ⟨t, now, rfl, rfl⟩ | ⟨_, _, rfl, rfl⟩ | ⟨_, _, _, rfl, _, rfl⟩
    · simp [Call.tasks] at hv
    · have hvt : v = t := by
        rcases hd with ⟨_, _, _, rfl | rfl⟩ | rfl <;> exact List.mem_singleton.1 hv
      exact ⟨t, .inr (firstTask_mem ht).1, hvt ▸ .refl _⟩
    · exact ⟨v, .inl hv, .refl _⟩
    · exact ⟨v, .inl hv, .refl _⟩
    · obtain rfl := List.mem_singleton.1 hv
      exact ⟨t, .inl (List.mem_singleton_self _), ⟨rfl, rfl, rfl, rfl⟩⟩
    · exact ⟨v, .inl hv, .refl _⟩
    · exact ⟨v, .inl hv, .refl _⟩

def Known (w : World) : Prop := w.All fun c => ∀ u ∈ c.tasks, ∃ t ∈ w.db.tasks, SameTask t u

theorem known_step {w w' : World} {a : Action} (h : Known w) (hs : s.step w a = some w') : Known w' := by
  intro i d hd v hv
  obtain ⟨hd0, hne⟩ | ⟨hf, rfl⟩ | ⟨c, x, rfl, hc, hn⟩ := Calls.calls_step hs hd
  · obtain ⟨t, ht, htv⟩ := h i d hd0 v hv
    obtain ⟨j, e, rfl, _, _, rfl⟩ | ⟨j, e, x, rfl, _, rfl⟩ | ⟨j, e, rfl, _, rfl⟩ := Calls.step_cases hs
    · exact ⟨t, ht, htv⟩
    · obtain ⟨t', ht', htt⟩ := task_after (s := s) (c := e) (x := x) ht
      exact ⟨t', ht', htt.symm.trans htv⟩
    · exact ⟨t, ht, htv⟩
  · obtain pc | pc | pc | pc | pc := d <;> cases pc <;> simp [Call.first, Call.tasks, RunDue.inHand] at hf hv
  · obtain ⟨t, ht, htv⟩ := tasks_next hn hv
    have hrow : ∃ r ∈ w.db.tasks, SameTask r t := by
      rcases ht with ht | ht
      · exact h i c hc t ht
      · exact ⟨t, ht, .refl _⟩
    obtain ⟨r, hr, hrt⟩ := hrow
    obtain ⟨r', hr', hrr⟩ := task_after (s := s) (c := c) (x := x) hr
    obtain ⟨j, e, heq, _⟩ | ⟨j, e, y, heq, he, rfl⟩ | ⟨j, e, heq, _⟩ := Calls.step_cases hs
    · simp at heq
    · obtain ⟨rfl, rfl⟩ := Calls.Action.exec.inj heq
      obtain rfl : c = e := Option.some.inj (hc.symm.trans he)
      exact ⟨r', hr', hrr.symm.trans (hrt.trans htv)⟩
    · simp at heq

end Sched
