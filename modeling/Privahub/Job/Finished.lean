import Privahub.Job.Steps

/-!
# A finished project job

`SyncJob` and `MarkJobDeleted` hold `applyMu` from the reading of a job to its write and skip a finished one.
The stop of a job by a user and the chain of a graph take no lock, and neither looks at the status it writes
over; `Orderly` says when that is harmless. Then a finished job keeps its status.
-/

namespace Job

def Call.writes (pk : Int) : Call → Prop
  | .syncJob (.updateJob h _) => h.schedule = false ∧ h.pk = pk
  | .markJobDeleted (.stop job) => job.id = pk
  | _ => False

/-- An update of project jobs by the call `c`. -/
inductive Writer (x : Ending) : Call → (ProjectJobDO → Bool) → Option JobStatus → Prop
  | sync {c : Call} {pk : Int} {st : Option JobStatus} (h : c.writes pk) : Writer x c (fun j => decide (j.id = pk)) st
  | stop {job : ProjectJobDO} (h : x.error = none) :
    Writer x (.stopJob (.stop job)) (fun j => decide (j.id = job.id)) (some .stopped)
  | padOnly {p k : Bytes} (h : x.error = none) :
    Writer x (.runGraph (.padOnly p k)) (fun j => decide (j.projectId = p ∧ j.jobId = k)) (some .succeed)

inductive Jobs (x : Ending) (c : Call) (db db' : Db) : Prop
  | same (hj : db'.jobs = db.jobs) (hn : db'.nextJob = db.nextJob)
  | create (j : ProjectJobDO) (hj : db'.jobs = db.jobs ++ [j]) (hid : j.id = db.nextJob) (hn : db'.nextJob = db.nextJob + 1)
  | delete (hj : db'.jobs ⊆ db.jobs) (hn : db'.nextJob = db.nextJob)
  | update (p : ProjectJobDO → Bool) (st : Option JobStatus) (e : Option Bytes) (t : Option Sched.Time) (hw : Writer x c p st)
    (hj : db'.jobs = (db.updateJobs p st e t).jobs) (hn : db'.nextJob = db.nextJob)

variable {s : Platform} {db db' : Db} {x : Ending} {c d : Call} {w w' : World} {a : Act} {pk : Int}

theorem Call.writes_locks (h : c.writes pk) : c.locks := by
  obtain _ | pc | pc | _ | _ | _ := c
  · exact h.elim
  · cases pc <;> first | exact h.elim | trivial
  · cases pc <;> first | exact h.elim | trivial
  · exact h.elim
  · exact h.elim
  · exact h.elim

theorem Call.not_locks_first (h : c.first) : ¬ c.locks := by
  obtain _ | pc | pc | _ | _ | _ := c
  · exact id
  · cases pc <;> first | exact id | cases h
  · cases pc <;> first | exact id | cases h
  · exact id
  · exact id
  · exact id

theorem createJob_jobs {j : ProjectJobDO} {tasks : List Sched.ProjectJobTaskDO} (h : db.createJob j tasks = some db') :
    db'.jobs = db.jobs ++ [{ j with id := db.nextJob }] ∧ db'.nextJob = db.nextJob + 1 ∧ db'.applyMu = db.applyMu := by
  unfold Db.createJob at h
  split_ifs at h
  obtain rfl := Option.some.inj h
  exact ⟨rfl, rfl, rfl⟩

theorem writeJob_jobs {r : JobStatusSyncService} {now : Sched.Time} {h : JobHolder} {detail : JobStatusDetailInfo} :
    (h.schedule = true ∧ (r.updateJob now h detail db).jobs = db.jobs ∨ h.schedule = false ∧ ∃ st e t,
      (r.updateJob now h detail db).jobs = (db.updateJobs (fun j => decide (j.id = h.pk)) st e t).jobs) ∧
    (r.updateJob now h detail db).nextJob = db.nextJob ∧ (r.updateJob now h detail db).applyMu = db.applyMu := by
  unfold JobStatusSyncService.updateJob JobStatusSyncService.writeJob
  cases hs : h.schedule with
  | true =>
    rw [if_pos rfl]
    split_ifs
    · exact ⟨.inl ⟨rfl, rfl⟩, rfl, rfl⟩
    · exact ⟨.inl ⟨rfl, rfl⟩, rfl, rfl⟩
  | false => exact ⟨.inr ⟨rfl, _, _, _, rfl⟩, rfl, rfl⟩

theorem jobs_exec : Jobs x c db (s.exec db c x).db := by
  have h := did_exec s db x c
  generalize s.exec db c x = e at h ⊢
  have hsync (h : JobHolder) (detail : JobStatusDetailInfo) : Jobs x (.syncJob (.updateJob h detail)) db (s.sync.updateJob x.clock h detail db) := by
    obtain ⟨hj, hn, _⟩ := writeJob_jobs (r := s.sync) (h := h)
    rcases hj with ⟨_, hj⟩ | ⟨hs, st, e, t, hj⟩
    · exact .same hj hn
    · exact .update _ st e t (.sync ⟨hs, rfl⟩) hj hn
  cases h with
  | quit | release | read | lockSync | lockDelete | hook | hookDone | deleteSchedule | sched => exact .same rfl rfl
  | syncHooked => exact hsync _ _
  | @sync h detail =>
    cases hsync h detail with
    | same hj hn => exact .same hj hn
    | create j hj hid hn => exact .create j hj hid hn
    | delete hj hn => exact .delete hj hn
    | update p st e t hw hj hn => exact .update p st e t hw hj hn
  | delete job => exact .update _ (some .stopped) none none (.sync rfl) rfl rfl
  | stop hx => exact .update _ _ none none (.stop hx) rfl rfl
  | persist hx hdb =>
    obtain ⟨hj, hn, _⟩ := createJob_jobs hdb
    exact .create _ hj rfl hn
  | padOnly hx => exact .update _ _ none _ (.padOnly hx) rfl rfl
  | rollback => exact .delete (fun j hj => List.mem_of_mem_filter hj) rfl

theorem locks_of_not (hc : ¬ c.locks) : (s.exec db c x).db.applyMu = db.applyMu ∧ (∀ d, (s.exec db c x).next = some d → ¬ d.locks) ∨
    db.applyMu = false ∧ (s.exec db c x).db.applyMu = true := by
  have h := did_exec s db x c
  generalize s.exec db c x = e at h ⊢
  cases h with
  | release hl => exact absurd hl hc
  | sync | syncHooked | hook | hookDone | delete | deleteSchedule => exact absurd trivial hc
  | lockSync hmu | lockDelete hmu => exact .inr ⟨hmu, rfl⟩
  | quit | stop | padOnly | rollback => exact .inl ⟨rfl, fun d hd => by cases hd⟩
  | read h =>
    refine .inl ⟨rfl, ?_⟩
    rintro d ⟨⟩
    exact fun hl => hc (h.locks_iff.1 hl)
  | persist hx hdb =>
    refine .inl ⟨(createJob_jobs hdb).2.2, ?_⟩
    rintro d ⟨⟩
    exact id
  | sched =>
    refine .inl ⟨rfl, fun d hd => ?_⟩
    obtain ⟨_, _, rfl⟩ := Option.map_eq_some_iff.1 hd
    exact id

theorem locks_of_holds (hc : c.locks) : (s.exec db c x).db.applyMu = db.applyMu ∧ (∀ d, (s.exec db c x).next = some d → d.locks) ∨
    (s.exec db c x).next = none := by
  have h := did_exec s db x c
  generalize s.exec db c x = e at h ⊢
  cases h with
  | quit hn => exact absurd hc hn
  | lockSync | lockDelete | stop | persist | padOnly | rollback | sched => exact hc.elim
  | release | sync | hookDone | delete | deleteSchedule => exact .inr rfl
  | read h =>
    refine .inl ⟨rfl, ?_⟩
    rintro d ⟨⟩
    exact h.locks_iff.2 hc
  | syncHooked =>
    refine .inl ⟨writeJob_jobs.2.2, ?_⟩
    rintro d ⟨⟩
    trivial
  | hook =>
    refine .inl ⟨rfl, ?_⟩
    rintro d ⟨⟩
    trivial

theorem writes_next (h : (s.exec db c x).next = some d) (hd : d.writes pk) :
    (s.exec db c x).db = db ∧ ∃ j ∈ db.jobs, j.id = pk ∧ IsJobFinished j.status = false := by
  have hdid := did_exec s db x c
  generalize s.exec db c x = e at h hdid ⊢
  cases hdid with
  | quit | release | sync | hookDone | delete | deleteSchedule | stop | padOnly | rollback => cases h
  | lockSync | lockDelete | syncHooked | hook | persist =>
    obtain rfl := Option.some.inj h
    exact hd.elim
  | sched =>
    obtain ⟨_, _, rfl⟩ := Option.map_eq_some_iff.1 h
    exact hd.elim
  | read hread =>
    obtain rfl := Option.some.inj h
    cases hread with
    | findJob hf hfin => exact ⟨rfl, _, List.mem_of_find?_eq_some hf, hd.2, hfin⟩
    | deleteJob hf hfin => exact ⟨rfl, _, List.mem_of_find?_eq_some hf, hd, hfin⟩
    | findSchedule => cases hd.1
    | _ => exact hd.elim

/-- One call at most holds `applyMu`. -/
structure Locked (w : World) : Prop where
  one : ∀ i j c d, w.calls i = some c → w.calls j = some d → c.locks → d.locks → i = j
  held : ∀ i c, w.calls i = some c → c.locks → w.db.applyMu = true

theorem calls_after {i j : Nat} (hd : (w.after s.exec i c x).calls j = some d) :
    j = i ∧ (s.exec w.db c x).next = some d ∨ j ≠ i ∧ w.calls j = some d := by
  by_cases hj : j = i
  · subst hj
    exact .inl ⟨rfl, by simpa [Calls.World.after] using hd⟩
  · exact .inr ⟨hj, by simpa [Calls.World.after, hj] using hd⟩

theorem calls_idle {i : Nat} : (Calls.World.idle db : World).calls i ≠ some c := by
  intro hc
  cases hc

theorem Locked.idle : Locked (.idle db) := ⟨fun _ _ _ _ hc => absurd hc calls_idle, fun _ _ hc => absurd hc calls_idle⟩

theorem Locked.after {i : Nat} (h : Locked w) (hc : w.calls i = some c) : Locked (w.after s.exec i c x) := by
  -- what the step leaves holds the lock only if the call held it before, or the lock was free
  have hown : ∀ d, (s.exec w.db c x).next = some d → d.locks → c.locks ∨ w.db.applyMu = false := by
    intro d hd hl
    by_cases hcl : c.locks
    · exact .inl hcl
    · rcases locks_of_not (s := s) (x := x) hcl with ⟨_, hn⟩ | ⟨hmu, _⟩
      · exact absurd hl (hn d hd)
      · exact .inr hmu
  have hself : ∀ j d, j ≠ i → w.calls j = some d → d.locks → ¬ (c.locks ∨ w.db.applyMu = false) := by
    rintro j d hj hd hl (hcl | hmu)
    · exact hj (h.one j i d c hd hc hl hcl)
    · exact absurd (h.held j d hd hl) (by simp [hmu])
  refine ⟨?_, ?_⟩
  · intro j k d e hd he hdl hel
    rcases calls_after hd with ⟨rfl, hn⟩ | ⟨hj, hd'⟩ <;> rcases calls_after he with ⟨rfl, hn'⟩ | ⟨hk, he'⟩
    · rfl
    · exact absurd (hown d hn hdl) (hself k e hk he' hel)
    · exact absurd (hown e hn' hel) (hself j d hj hd' hdl)
    · exact h.one j k d e hd' he' hdl hel
  · intro j d hd hdl
    show (s.exec w.db c x).db.applyMu = true
    rcases calls_after hd with ⟨rfl, hn⟩ | ⟨hj, hd'⟩
    · by_cases hcl : c.locks
      · rcases locks_of_holds (s := s) (x := x) hcl with ⟨hmu, _⟩ | hnone
        · rw [hmu]
          exact h.held j c hc hcl
        · rw [hnone] at hn
          cases hn
      · rcases locks_of_not (s := s) (x := x) hcl with ⟨_, hno⟩ | ⟨_, hmu⟩
        · exact absurd hdl (hno d hn)
        · exact hmu
    · have hnot := hself j d hj hd' hdl
      rcases locks_of_not (s := s) (x := x) (fun hcl => hnot (.inl hcl)) with ⟨hmu, _⟩ | ⟨hmu, _⟩
      · rw [hmu]
        exact h.held j d hd' hdl
      · exact absurd (.inr hmu) hnot

theorem Locked.step (h : Locked w) (hs : s.step w a = some w') : Locked w' := by
  obtain ⟨i, c, rfl, hf, _, rfl⟩ | ⟨i, c, x, rfl, hc, rfl⟩ | ⟨i, c, rfl, _, rfl⟩ := Calls.step_cases hs
  · have hl := Call.not_locks_first hf
    refine ⟨?_, ?_⟩
    · intro j k d e hd he hdl hel
      rcases Calls.World.calls_begin hd with rfl | hd
      · exact absurd hdl hl
      · rcases Calls.World.calls_begin he with rfl | he
        · exact absurd hel hl
        · exact h.one j k d e hd he hdl hel
    · intro j d hd hdl
      rcases Calls.World.calls_begin hd with rfl | hd
      · exact absurd hdl hl
      · exact h.held j d hd hdl
  · exact h.after hc
  · exact ⟨fun j k d e hd he => h.one j k d e (Calls.World.calls_drop hd) (Calls.World.calls_drop he),
      fun j d hd => h.held j d (Calls.World.calls_drop hd)⟩

/-- A user's stop and the write of a job without tasks do no harm: no call has read the job and is about to write it,
and the job has not come to another end. -/
def Orderly (w : World) : Act → Prop
  | .exec i x => ∀ c, w.calls i = some c → x.error = none → match c with
    | .stopJob (.stop job) => (∀ j ∈ w.db.jobs, j.id = job.id → j.status = .running ∨ j.status = .stopped) ∧
        ∀ i c, w.calls i = some c → ¬ c.writes job.id
    | .runGraph (.padOnly p k) => ∀ j ∈ w.db.jobs, j.projectId = p → j.jobId = k → (j.status = .running ∨ j.status = .succeed) ∧
        ∀ i c, w.calls i = some c → ¬ c.writes j.id
    | _ => True
  | _ => True

structure Inv (w : World) : Prop extends Locked w where
  unfinished : ∀ i c pk, w.calls i = some c → c.writes pk → pk < w.db.nextJob ∧ ∀ j ∈ w.db.jobs, j.id = pk → IsJobFinished j.status = false

theorem Inv.kept {i j : Nat} (h : Inv w) (hc : w.calls i = some c) (ho : Orderly w (.exec i x)) (hd : w.calls j = some d)
    (hj : j ≠ i) (hw : d.writes pk) : pk < (s.exec w.db c x).db.nextJob ∧
      ∀ k ∈ (s.exec w.db c x).db.jobs, k.id = pk → IsJobFinished k.status = false := by
  obtain ⟨hlt, hun⟩ := h.unfinished j d pk hd hw
  have heff : Jobs x c w.db (s.exec w.db c x).db := jobs_exec
  cases heff with
  | same hjobs hn => exact ⟨hn ▸ hlt, hjobs ▸ hun⟩
  | create k hjobs hid hn =>
    refine ⟨by omega, fun k' hk' hpk => ?_⟩
    rw [hjobs] at hk'
    rcases List.mem_append.1 hk' with hk' | hk'
    · exact hun k' hk' hpk
    · obtain rfl := List.mem_singleton.1 hk'
      omega
  | delete hsub hn => exact ⟨hn ▸ hlt, fun k hk => hun k (hsub hk)⟩
  | update p st e t hwr hjobs hn =>
    refine ⟨hn ▸ hlt, fun k hk hpk => ?_⟩
    rw [hjobs] at hk
    obtain ⟨k', hk', rfl⟩ := Table.mem_updateWhere.1 hk
    split_ifs at hpk ⊢ with hp
    · have hpk : k'.id = pk := hpk
      cases hwr with
      | sync hcw => exact absurd (h.one i j c d hc hd (Call.writes_locks hcw) (Call.writes_locks hw)).symm hj
      | stop hx =>
        have hid : k'.id = _ := of_decide_eq_true hp
        exact absurd (hid ▸ hpk ▸ hw) ((ho _ hc hx).2 j d hd)
      | padOnly hx =>
        obtain ⟨h₁, h₂⟩ := of_decide_eq_true hp
        exact absurd (hpk ▸ hw) ((ho _ hc hx k' hk' h₁ h₂).2 j d hd)
    · exact hun k' hk' hpk

theorem Inv.step (h : Inv w) (ho : Orderly w a) (hs : s.step w a = some w') : Inv w' := by
  refine ⟨h.toLocked.step hs, ?_⟩
  obtain ⟨i, c, rfl, hf, _, rfl⟩ | ⟨i, c, x, rfl, hc, rfl⟩ | ⟨i, c, rfl, _, rfl⟩ := Calls.step_cases hs
  · intro j d pk hd hw
    rcases Calls.World.calls_begin hd with rfl | hd
    · exact absurd (Call.writes_locks hw) (Call.not_locks_first hf)
    · exact h.unfinished j d pk hd hw
  · intro j d pk hd hw
    rcases calls_after hd with ⟨rfl, hn⟩ | ⟨hj, hd'⟩
    · obtain ⟨hdb, k, hk, hid, hfin⟩ := writes_next hn hw
      show pk < (s.exec w.db c x).db.nextJob ∧ ∀ k ∈ (s.exec w.db c x).db.jobs, k.id = pk → IsJobFinished k.status = false
      rw [hdb]
      refine ⟨hid ▸ w.db.job_new k hk, fun k' hk' hid' => ?_⟩
      rw [Table.eq_of_col_eq w.db.job_pks hk' hk (hid'.trans hid.symm)]
      exact hfin
    · exact h.kept hc ho hd' hj hw
  · exact fun j d pk hd => h.unfinished j d pk (Calls.World.calls_drop hd)

/-- The row with the primary key `pk` has the status, if it is there. -/
def Ended (pk : Int) (st : JobStatus) (db : Db) : Prop := pk < db.nextJob ∧ ∀ j ∈ db.jobs, j.id = pk → j.status = st

theorem ended_step {st : JobStatus} (h : Inv w) (he : Ended pk st w.db) (hfin : IsJobFinished st = true) (ho : Orderly w a)
    (hs : s.step w a = some w') : Ended pk st w'.db := by
  obtain ⟨i, c, rfl, _, _, rfl⟩ | ⟨i, c, x, rfl, hc, rfl⟩ | ⟨i, c, rfl, _, rfl⟩ := Calls.step_cases hs
  · exact he
  · obtain ⟨hlt, hst⟩ := he
    show Ended pk st (s.exec w.db c x).db
    have heff : Jobs x c w.db (s.exec w.db c x).db := jobs_exec
    cases heff with
    | same hjobs hn => exact ⟨hn ▸ hlt, hjobs ▸ hst⟩
    | create k hjobs hid hn =>
      refine ⟨by omega, fun k' hk' hpk => ?_⟩
      rw [hjobs] at hk'
      rcases List.mem_append.1 hk' with hk' | hk'
      · exact hst k' hk' hpk
      · obtain rfl := List.mem_singleton.1 hk'
        omega
    | delete hsub hn => exact ⟨hn ▸ hlt, fun k hk => hst k (hsub hk)⟩
    | update p st' e t hwr hjobs hn =>
      refine ⟨hn ▸ hlt, fun k hk hpk => ?_⟩
      rw [hjobs] at hk
      obtain ⟨k', hk', rfl⟩ := Table.mem_updateWhere.1 hk
      split_ifs at hpk ⊢ with hp
      · have hpk : k'.id = pk := hpk
        have hst' := hst k' hk' hpk
        cases hwr with
        | sync hcw =>
          have hun := (h.unfinished i c _ hc hcw).2 k' hk' (of_decide_eq_true hp)
          rw [hst', hfin] at hun
          cases hun
        | stop hx =>
          rcases (ho _ hc hx).1 k' hk' (of_decide_eq_true hp) with hr | hr
          · rw [← hst', hr] at hfin
            cases hfin
          · exact hr.symm.trans hst'
        | padOnly hx =>
          obtain ⟨h₁, h₂⟩ := of_decide_eq_true hp
          rcases (ho _ hc hx k' hk' h₁ h₂).1 with hr | hr
          · rw [← hst', hr] at hfin
            cases hfin
          · exact hr.symm.trans hst'
      · exact hst k' hk' hpk
  · exact he

/-- In every orderly run, a job that is finished in one state has the same status in every later state. -/
theorem finished_kept {as bs : List Act} (ha : Lts.RunAll s.step Orderly (.idle db) as) (hb : Lts.RunAll s.step Orderly w bs)
    (hr : Lts.run s.step (.idle db) as = some w) (hr' : Lts.run s.step w bs = some w') :
    ∀ j ∈ w.db.jobs, IsJobFinished j.status = true → ∀ k ∈ w'.db.jobs, k.id = j.id → k.status = j.status := by
  have hidle : Inv (.idle db) := ⟨.idle, fun _ _ _ hc => absurd hc calls_idle⟩
  have h : Inv w := Lts.run_invariant (fun _ _ _ hi hp hs => hi.step hp hs) hidle ha hr
  intro j hj hfin
  have he : Ended j.id j.status w.db := by
    refine ⟨w.db.job_new j hj, fun k hk hid => ?_⟩
    rw [Table.eq_of_col_eq w.db.job_pks hk hj hid]
  have hstep : ∀ v a v', Inv v ∧ Ended j.id j.status v.db → Orderly v a → s.step v a = some v' → Inv v' ∧ Ended j.id j.status v'.db :=
    fun _ _ _ hi ho hs => ⟨hi.1.step ho hs, ended_step hi.1 hi.2 hfin ho hs⟩
  exact (Lts.run_invariant hstep ⟨h, he⟩ hb hr').2.2

def scheduler : Sched.ScheduledService where
  misfireGrace := 600
  hasKuscia := true
  unmarshalJobRequest r := .ok ⟨r, r⟩
  format := Bytes.itoa
  graceText := str "10m0s"
  unicode := .asciiCase

def platform : Platform := ⟨⟨none, 60, fun _ => none⟩, scheduler⟩

def noSchedules (tasks : List Sched.ProjectJobTaskDO) : Sched.Db where
  schedules := []
  tasks := []
  jobs := []
  jobTasks := tasks
  results := []
  task_ids := by simp
  task_keys := by simp
  task_jobs := by simp
  job_pks := by simp
  job_ids := by simp

def oneJob (tasks : List Sched.ProjectJobTaskDO) : Db where
  sched := noSchedules tasks
  jobs := [⟨1, [2], [3], [], .running, [], none, 0⟩]
  applyMu := false
  nextJob := 2
  job_pks := List.nodup_singleton _
  job_ids := List.nodup_singleton _
  job_new := List.forall_mem_singleton.2 one_lt_two

def fine : Ending := ⟨none, 100, false, none, .sent⟩

def exec (i : Nat) : Act := .exec i fine

def succeeded : JobStatusDetailInfo := ⟨str "Succeeded", [], str "t", []⟩

def event (i : Nat) (detail : JobStatusDetailInfo) : Act := .start i (.syncJob (.lock [3] (some detail)))

def stop (i : Nat) : Act := .start i (.stopJob (.find [2] [3] false))

def endsThenDeleted : List Act := [.start 1 (.markJobDeleted (.lock [3] false)), exec 1, exec 1]

/-- Nobody stops a job and nothing is submitted. -/
def undisturbed (v : World) : Act → Bool
  | .exec i _ => match v.calls i with
    | some (.stopJob _) | some (.runGraph _) => false
    | _ => true
  | _ => true

theorem finished_kept_deleted : ∃ w w', Lts.run platform.step (.idle (oneJob [])) [event 0 succeeded, exec 0, exec 0, exec 0] = some w ∧
    Lts.run platform.step w endsThenDeleted = some w' ∧
    ∀ j ∈ w.db.jobs, IsJobFinished j.status = true → ∀ k ∈ w'.db.jobs, k.id = j.id → k.status = j.status := by
  obtain ⟨w, hw⟩ : ∃ w, Lts.run platform.step (.idle (oneJob [])) [event 0 succeeded, exec 0, exec 0, exec 0] = some w :=
    Option.isSome_iff_exists.1 (by decide +kernel)
  have hend : ((Lts.run platform.step (.idle (oneJob [])) [event 0 succeeded, exec 0, exec 0, exec 0]).bind fun w =>
      Lts.run platform.step w endsThenDeleted).isSome = true := by decide +kernel
  rw [hw] at hend
  obtain ⟨w', hw'⟩ := Option.isSome_iff_exists.1 hend
  have hplain : ∀ v a, undisturbed v a = true → Orderly v a := by
    intro v a ha
    cases a with
    | start i c => trivial
    | abandon i => trivial
    | exec i x =>
      intro c hc _
      simp only [undisturbed, hc] at ha
      cases c with
      | stopJob pc => cases ha
      | runGraph pc => cases ha
      | poll jobID => trivial
      | syncJob pc => trivial
      | markJobDeleted pc => trivial
      | sched c => trivial
  have hall : Lts.RunAll platform.step (fun v a => undisturbed v a = true) (.idle (oneJob []))
      ([event 0 succeeded, exec 0, exec 0, exec 0] ++ endsThenDeleted) := by decide +kernel
  have hsplit := hall.append hw
  exact ⟨w, w', hw, hw', finished_kept (hsplit.1.imp hplain) (hsplit.2.imp hplain) hw hw'⟩

/-- A user stops a job that has succeeded; a report that the job runs is written over the stop of a user. -/
theorem finished_changes :
    (∃ w w', Lts.run platform.step (.idle (oneJob [])) [event 0 succeeded, exec 0, exec 0, exec 0] = some w ∧
      Lts.run platform.step w [stop 1, exec 1, exec 1] = some w' ∧
      w.db.jobs.map (·.status) = [.succeed] ∧ w'.db.jobs.map (·.status) = [.stopped]) ∧
    ∃ w w', Lts.run platform.step (.idle (oneJob [])) [event 0 ⟨str "Running", [], [], []⟩, exec 0, exec 0, stop 1, exec 1, exec 1] = some w ∧
      Lts.run platform.step w [exec 0] = some w' ∧
      w.db.jobs.map (·.status) = [.stopped] ∧ w'.db.jobs.map (·.status) = [.running] := by
  constructor
  · have hrun : ((Lts.run platform.step (.idle (oneJob [])) [event 0 succeeded, exec 0, exec 0, exec 0]).bind fun w =>
        (Lts.run platform.step w [stop 1, exec 1, exec 1]).map fun w' =>
          decide (w.db.jobs.map (·.status) = [.succeed] ∧ w'.db.jobs.map (·.status) = [.stopped])) = some true := by decide +kernel
    obtain ⟨w, hw, h⟩ := Option.bind_eq_some_iff.1 hrun
    obtain ⟨w', hw', h⟩ := Option.map_eq_some_iff.1 h
    exact ⟨w, w', hw, hw', of_decide_eq_true h⟩
  · have hrun : ((Lts.run platform.step (.idle (oneJob [])) [event 0 ⟨str "Running", [], [], []⟩, exec 0, exec 0, stop 1, exec 1, exec 1]).bind
        fun w => (Lts.run platform.step w [exec 0]).map fun w' =>
          decide (w.db.jobs.map (·.status) = [.stopped] ∧ w'.db.jobs.map (·.status) = [.running])) = some true := by decide +kernel
    obtain ⟨w, hw, h⟩ := Option.bind_eq_some_iff.1 hrun
    obtain ⟨w', hw', h⟩ := Option.map_eq_some_iff.1 h
    exact ⟨w, w', hw, hw', of_decide_eq_true h⟩

end Job
