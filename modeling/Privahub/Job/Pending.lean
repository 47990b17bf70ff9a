import Privahub.Job.Hook
import Privahub.Sched.FireOnce

/-!
# Tasks of a finished job

A job that fails or is stopped through a report, and one that a user or a deletion in Kuscia stops, ends with all
its tasks. The other writers of a job's status look at no task: a report of success, a misfire, a failed fire,
the stop of a schedule task (whose tasks follow in a statement of their own), the scheduler's hook. `Guarded` says
when each of these is harmless; in a run of such steps a finished job has no task that waits or runs (`quiet_run`).
-/

namespace Job

open Table (updateWhere)
open Sched (NodeStatus ProjectJobTaskDO ProjectScheduleJobDO)

def JobHolder.ofJob (j : ProjectJobDO) : JobHolder := ⟨j.projectId, j.jobId, j.status, j.id, false⟩

def JobHolder.ofSchedule (j : ProjectScheduleJobDO) : JobHolder := ⟨j.projectId, j.jobId, j.status, j.id, true⟩

def Db.holders (db : Db) : List JobHolder := db.jobs.map .ofJob ++ db.sched.jobs.map .ofSchedule

def waits (s : NodeStatus) : Bool := decide (s = .initialized ∨ s = .running)

/-- A task of the job is `INITIALIZED` or `RUNNING`. -/
def Open (db : Db) (p j : Bytes) : Prop := ∃ k ∈ db.sched.jobTasks, inJob p j k = true ∧ waits k.status = true

/-- No finished job has a task left in `INITIALIZED` or `RUNNING`. -/
def Quiet (db : Db) : Prop := ∀ g ∈ db.holders, IsJobFinished g.status = true → ¬ Open db g.projectID g.jobID

instance (db : Db) (p j : Bytes) : Decidable (Open db p j) :=
  inferInstanceAs (Decidable (∃ k ∈ db.sched.jobTasks, inJob p j k = true ∧ waits k.status = true))

instance (db : Db) : Decidable (Quiet db) :=
  inferInstanceAs (Decidable (∀ g ∈ db.holders, IsJobFinished g.status = true → ¬ Open db g.projectID g.jobID))

def Call.holder : Call → Option JobHolder
  | .syncJob (.updateJob h _) => some h
  | .markJobDeleted (.stop job) | .stopJob (.owner job) | .stopJob (.stop job) => some (.ofJob job)
  | .markJobDeleted (.fired sj ..) | .markJobDeleted (.stopSchedule sj ..) => some (.ofSchedule sj)
  | _ => none

namespace JobStatusSyncService

/-- The status that `updateJob` leaves in the row of a job. -/
def written (s : JobStatusSyncService) (h : JobHolder) (e : JobStatusDetailInfo) (g : JobHolder) : JobStatus :=
  if g.schedule = h.schedule ∧ g.pk = h.pk ∧ writesStatus e = true ∧ (h.schedule && s.hook.isSome) = false then JobStatusFromKuscia e.state
  else g.status

/-- The report stops the tasks of the job, or says of each that it has ended, or leaves the job unfinished. -/
def Guarded (s : JobStatusSyncService) (db : Db) (h : JobHolder) (e : JobStatusDetailInfo) : Prop :=
  stopsTasks e = true ∨
  (∀ k ∈ db.sched.jobTasks, inJob h.projectID h.jobID k = true → waits (report e.tasks k).status = false) ∨
  ∀ g ∈ db.holders, g.projectID = h.projectID → g.jobID = h.jobID → IsJobFinished (s.written h e g) = false

end JobStatusSyncService

/-- A statement of the scheduler that ends jobs finds none of their tasks waiting or running, one that sets tasks
back finds their job unfinished. -/
def Statement {α : Type} (db : Db) : Sched.Stmt α → Prop
  | .updateJobs p u => IsJobFinished u.status = true → ∀ j ∈ db.sched.jobs, p.holds j = true → ¬ Open db j.projectId j.jobId
  | .updateJobTasks p u => waits u.status = true → ∀ k ∈ db.sched.jobTasks, p.holds k = true →
    ∀ g ∈ db.holders, inJob g.projectID g.jobID k = true → IsJobFinished g.status = false
  | _ => True

def Call.Guarded (s : Platform) (db : Db) : Call → Prop
  | .syncJob (.updateJob h e) => s.sync.Guarded db h e
  -- the id of a new job is generated
  | .runGraph (.persist job _) => ∀ j ∈ db.sched.jobs, j.jobId ≠ job.jobId
  | .runGraph (.padOnly p k) => ¬ Open db p k
  | c => ∀ service sc, c.schedCall s = some (service, sc) → Statement db (sc.instr service).stmt

def Guarded (s : Platform) (w : World) : Act → Prop
  | .exec i x => x.error = none → ∀ c, w.calls i = some c → c.Guarded s w.db
  | _ => True

def Sets (db db' : Db) (p : JobHolder → Prop) (st : JobStatus) : Prop :=
  ∀ g' ∈ db'.holders, g' ∈ db.holders ∨ ∃ g ∈ db.holders, p g ∧ g' = { g with status := st }

inductive Effects (s : Platform) (x : Ending) (c : Call) (db db' : Db) : Prop
  | less (hj : db'.holders ⊆ db.holders) (ht : db'.sched.jobTasks ⊆ db.sched.jobTasks)
  | stop (r : JobHolder) (hc : c.holder = some r) (hj : Sets db db' (fun g => g.schedule = r.schedule ∧ g.pk = r.pk) .stopped)
    (ht : db'.sched.jobTasks = stopJobTasks r.projectID r.jobID db.sched.jobTasks)
  | sync (h : JobHolder) (e : JobStatusDetailInfo) (hc : c = .syncJob (.updateJob h e)) (hx : x.error = none)
    (hj : ∀ g' ∈ db'.holders, ∃ g ∈ db.holders, g' = { g with status := s.sync.written h e g })
    (ht : db'.sched.jobTasks = JobStatusSyncService.syncTasks h e db.sched.jobTasks)
  | padOnly (p k : Bytes) (hc : c = .runGraph (.padOnly p k)) (hx : x.error = none)
    (hj : Sets db db' (fun g => g.schedule = false ∧ g.projectID = p ∧ g.jobID = k) .succeed) (ht : db'.sched.jobTasks = db.sched.jobTasks)
  | create (job : ProjectJobDO) (tasks : List ProjectJobTaskDO) (hc : c = .runGraph (.persist job tasks)) (hx : x.error = none)
    (hnew : ∀ j ∈ db.jobs, j.jobId ≠ job.jobId)
    (hj : ∀ g ∈ db'.holders, g ∈ db.holders ∨ g = .ofJob { job with id := db.nextJob }) (ht : db'.sched.jobTasks = db.sched.jobTasks ++ tasks)
  | sched (service : Sched.ScheduledService) (sc : Sched.Call) (hc : c.schedCall s = some (service, sc)) (hx : x.error = none)
    (hj : db'.jobs = db.jobs) (hs : db'.sched = (sc.instr service).stmt.run db.sched)

variable {s : Platform} {db db' : Db} {x : Ending} {c d : Call} {w w' : World} {a : Act} {g h : JobHolder}

theorem mem_holders : g ∈ db.holders ↔ (∃ j ∈ db.jobs, .ofJob j = g) ∨ ∃ j ∈ db.sched.jobs, .ofSchedule j = g := by
  unfold Db.holders
  rw [List.mem_append, List.mem_map, List.mem_map]

theorem holders_congr (hj : db'.jobs = db.jobs) (hs : db'.sched.jobs = db.sched.jobs) : db'.holders = db.holders := by
  unfold Db.holders
  rw [hj, hs]

theorem sets_jobs {p : ProjectJobDO → Bool} {st : JobStatus} {e : Option Bytes} {t : Option Sched.Time} {q : JobHolder → Prop}
    (hj : db'.jobs = (db.updateJobs p (some st) e t).jobs) (hs : db'.sched.jobs = db.sched.jobs) (hq : ∀ j, p j = true → q (.ofJob j)) :
    Sets db db' q st := by
  intro g' hg'
  rcases mem_holders.1 hg' with ⟨j', hj', rfl⟩ | ⟨j, hmem, rfl⟩
  · rw [hj] at hj'
    obtain ⟨j, hmem, rfl⟩ := Table.mem_updateWhere.1 hj'
    split_ifs with hp
    · exact .inr ⟨_, mem_holders.2 (.inl ⟨j, hmem, rfl⟩), hq j hp, rfl⟩
    · exact .inl (mem_holders.2 (.inl ⟨j, hmem, rfl⟩))
  · exact .inl (mem_holders.2 (.inr ⟨j, hs ▸ hmem, rfl⟩))

theorem sets_schedule {p : ProjectScheduleJobDO → Bool} {f : ProjectScheduleJobDO → ProjectScheduleJobDO} {st : JobStatus} {q : JobHolder → Prop}
    (hj : db'.jobs = db.jobs) (hs : db'.sched.jobs = updateWhere p f db.sched.jobs)
    (hf : ∀ j, .ofSchedule (f j) = { JobHolder.ofSchedule j with status := st }) (hq : ∀ j, p j = true → q (.ofSchedule j)) : Sets db db' q st := by
  intro g' hg'
  rcases mem_holders.1 hg' with ⟨j, hmem, rfl⟩ | ⟨j', hj', rfl⟩
  · exact .inl (mem_holders.2 (.inl ⟨j, hj ▸ hmem, rfl⟩))
  · rw [hs] at hj'
    obtain ⟨j, hmem, rfl⟩ := Table.mem_updateWhere.1 hj'
    split_ifs with hp
    · exact .inr ⟨_, mem_holders.2 (.inr ⟨j, hmem, rfl⟩), hq j hp, hf j⟩
    · exact .inl (mem_holders.2 (.inr ⟨j, hmem, rfl⟩))

theorem written_pos {r : JobStatusSyncService} {e : JobStatusDetailInfo} (hg : g.schedule = h.schedule ∧ g.pk = h.pk)
    (hw : JobStatusSyncService.writesStatus e = true) (hh : (h.schedule && r.hook.isSome) = false) :
    r.written h e g = JobStatusFromKuscia e.state := if_pos ⟨hg.1, hg.2, hw, hh⟩

theorem written_neg {r : JobStatusSyncService} {e : JobStatusDetailInfo}
    (hn : ¬ (g.schedule = h.schedule ∧ g.pk = h.pk) ∨ ¬ JobStatusSyncService.writesStatus e = true ∨ (h.schedule && r.hook.isSome) = true) :
    r.written h e g = g.status := by
  refine if_neg fun hc => ?_
  rcases hn with hn | hn | hn
  · exact hn ⟨hc.1, hc.2.1⟩
  · exact hn hc.2.2.1
  · exact absurd (hn.symm.trans hc.2.2.2) (by simp)

theorem updateJob_holders {r : JobStatusSyncService} {now : Sched.Time} {e : JobStatusDetailInfo} (hj : db'.jobs = (r.updateJob now h e db).jobs)
    (hs : db'.sched.jobs = (r.updateJob now h e db).sched.jobs) :
    ∀ g' ∈ db'.holders, ∃ g ∈ db.holders, g' = { g with status := r.written h e g } := by
  intro g' hg'
  unfold JobStatusSyncService.updateJob JobStatusSyncService.writeJob at hj hs
  cases hsch : h.schedule with
  | false =>
    rw [hsch] at hj hs
    have hnohook : (h.schedule && r.hook.isSome) = false := by
      rw [hsch]
      rfl
    rcases mem_holders.1 hg' with ⟨j', hj', rfl⟩ | ⟨j, hmem, rfl⟩
    · rw [hj] at hj'
      obtain ⟨j, hmem, rfl⟩ := Table.mem_updateWhere.1 hj'
      refine ⟨.ofJob j, mem_holders.2 (.inl ⟨j, hmem, rfl⟩), ?_⟩
      split_ifs with hp hw
      · rw [written_pos ⟨hsch.symm, of_decide_eq_true hp⟩ hw hnohook]
        rfl
      · rw [written_neg (.inr (.inl hw))]
        rfl
      · rw [written_neg (.inl fun hc => hp (decide_eq_true hc.2))]
    · refine ⟨.ofSchedule j, mem_holders.2 (.inr ⟨j, hs ▸ hmem, rfl⟩), ?_⟩
      rw [written_neg (.inl fun hc => by rw [hsch] at hc; cases hc.1)]
  | true =>
    rw [hsch, if_pos rfl] at hj hs
    have hjobs : db'.jobs = db.jobs := by
      rw [hj]
      split_ifs
      all_goals rfl
    rcases mem_holders.1 hg' with ⟨j, hmem, rfl⟩ | ⟨j', hj', rfl⟩
    · refine ⟨.ofJob j, mem_holders.2 (.inl ⟨j, hjobs ▸ hmem, rfl⟩), ?_⟩
      rw [written_neg (.inl fun hc => by rw [hsch] at hc; cases hc.1)]
    · rw [hs] at hj'
      cases hh : r.hook with
      | some service =>
        rw [hh, Option.isSome_some, if_pos rfl] at hj'
        refine ⟨.ofSchedule j', mem_holders.2 (.inr ⟨j', hj', rfl⟩), ?_⟩
        rw [written_neg (.inr (.inr (by rw [hsch, hh]; rfl)))]
      | none =>
        rw [hh, if_neg (by simp)] at hj'
        unfold JobStatusSyncService.writeScheduleJob at hj'
        by_cases hend : (!JobStatusSyncService.writesStatus e && (r.parseKusciaTime e.endTime).isNone) = true
        · rw [if_pos hend] at hj'
          refine ⟨.ofSchedule j', mem_holders.2 (.inr ⟨j', hj', rfl⟩), ?_⟩
          rw [written_neg (.inr (.inl fun hw => by simp [hw] at hend))]
        · rw [if_neg hend] at hj'
          obtain ⟨j, hmem, rfl⟩ := Table.mem_updateWhere.1 hj'
          refine ⟨.ofSchedule j, mem_holders.2 (.inr ⟨j, hmem, rfl⟩), ?_⟩
          by_cases hp : decide (j.id = h.pk) = true
          · rw [if_pos hp]
            by_cases hw : JobStatusSyncService.writesStatus e = true
            · rw [written_pos ⟨hsch.symm, of_decide_eq_true hp⟩ hw (by rw [hh]; simp)]
              simp only [JobStatusSyncService.newJobStatus, if_pos hw, JobHolder.ofSchedule]
            · rw [written_neg (.inr (.inl hw))]
              simp only [if_neg hw, JobHolder.ofSchedule]
          · rw [if_neg hp, written_neg (.inl fun hc => hp (decide_eq_true hc.2))]

theorem Effects.same (hj : db'.jobs = db.jobs) (hs : db'.sched = db.sched) : Effects s x c db db' :=
  .less (fun _ hg => holders_congr hj (by rw [hs]) ▸ hg) (fun _ hk => hs ▸ hk)

theorem Effects.of_sched {service : Sched.ScheduledService} {sc : Sched.Call} (hc : c.schedCall s = some (service, sc)) (hj : db'.jobs = db.jobs)
    (hs : db'.sched = ((sc.instr service).exec db.sched ⟨x.error, x.clock⟩).db) : Effects s x c db db' := by
  rcases sched_db (p := sc.instr service) (y := ⟨x.error, x.clock⟩) with hsame | ⟨hx, hrun⟩
  · exact .same hj (hs.trans hsame)
  · exact .sched service sc hc hx hj (hs.trans hrun)

theorem effects_exec : Effects s x c db (s.exec db c x).db := by
  have h := did_exec s db x c
  generalize s.exec db c x = e at h ⊢
  cases h with
  | quit | release | read | lockSync | lockDelete => exact .same rfl rfl
  | sync hx | syncHooked hx => exact .sync _ _ rfl hx (updateJob_holders rfl rfl) updateJob_tasks
  | hook hh | hookDone hh => exact .of_sched (congrArg (Option.map _) hh) rfl rfl
  | delete | stop => exact .stop _ rfl (sets_jobs rfl rfl fun j hp => ⟨rfl, of_decide_eq_true hp⟩) rfl
  | deleteSchedule sj ts now =>
    exact .stop _ rfl (sets_schedule rfl foldl_updateTasks.2 (fun _ => rfl) fun j hp => ⟨rfl, of_decide_eq_true hp⟩) foldl_updateTasks.1
  | @persist job tasks db' hx hdb =>
    unfold Db.createJob at hdb
    split_ifs at hdb with hnew
    obtain rfl := Option.some.inj hdb
    refine .create job tasks rfl hx hnew.1 (fun g hg => ?_) rfl
    rcases mem_holders.1 hg with ⟨j, hj, rfl⟩ | hg
    · rcases List.mem_append.1 hj with hj | hj
      · exact .inl (mem_holders.2 (.inl ⟨j, hj, rfl⟩))
      · exact .inr (by rw [List.mem_singleton.1 hj])
    · exact .inl (mem_holders.2 (.inr hg))
  | @padOnly p k hx => exact .padOnly p k rfl hx (sets_jobs rfl rfl fun j hp => ⟨rfl, of_decide_eq_true hp⟩) rfl
  | rollback p k =>
    refine .less (fun g hg => ?_) (fun k hk => List.mem_of_mem_filter hk)
    rcases mem_holders.1 hg with ⟨j, hj, rfl⟩ | hg
    · exact mem_holders.2 (.inl ⟨j, List.mem_of_mem_filter hj, rfl⟩)
    · exact mem_holders.2 (.inr hg)
  | sched sc => exact .of_sched rfl rfl rfl

/-- The job with the primary key of `r`, if it is there, has the keys of `r`. -/
def Matches (db : Db) (r : JobHolder) : Prop :=
  (r.schedule = false → r.pk < db.nextJob) ∧
  ∀ g ∈ db.holders, g.schedule = r.schedule → g.pk = r.pk → g.projectID = r.projectID ∧ g.jobID = r.jobID

def Fits (db : Db) (c : Call) : Prop :=
  (∀ r, c.holder = some r → Matches db r) ∧ ∀ job tasks, c = .runGraph (.persist job tasks) → c.first = true

theorem matches_of_mem {r : JobHolder} (hr : r ∈ db.holders) : Matches db r := by
  rcases mem_holders.1 hr with ⟨j, hj, rfl⟩ | ⟨j, hj, rfl⟩
  · refine ⟨fun _ => db.job_new j hj, fun g hg hsch hpk => ?_⟩
    rcases mem_holders.1 hg with ⟨i, hi, rfl⟩ | ⟨i, hi, rfl⟩
    · rw [Table.eq_of_col_eq db.job_pks hi hj hpk]
      exact ⟨rfl, rfl⟩
    · cases hsch
  · refine ⟨fun h => (by cases h), fun g hg hsch hpk => ?_⟩
    rcases mem_holders.1 hg with ⟨i, hi, rfl⟩ | ⟨i, hi, rfl⟩
    · cases hsch
    · rw [Table.eq_of_col_eq db.sched.job_pks hi hj hpk]
      exact ⟨rfl, rfl⟩

theorem Sets.before {p : JobHolder → Prop} {st : JobStatus} (h : Sets db db' p st) (hg : g ∈ db'.holders) :
    ∃ g₀ ∈ db.holders, g = { g₀ with status := g.status } := by
  rcases h g hg with hg | ⟨g₀, hg₀, _, rfl⟩
  · exact ⟨g, hg, rfl⟩
  · exact ⟨g₀, hg₀, rfl⟩

theorem sets_stmt {α : Type} {st : Sched.Stmt α} (hj : db'.jobs = db.jobs) (hs : db'.sched = st.run db.sched) :
    ∃ (p : JobHolder → Prop) (status : JobStatus), Sets db db' p status := by
  have hrun := Sched.Stmt.run_jobs st db.sched
  rw [← hs] at hrun
  cases hw : st.jobWrite with
  | none =>
    rw [hw] at hrun
    exact ⟨fun _ => False, .running, fun g hg => .inl (holders_congr hj hrun ▸ hg)⟩
  | some pu =>
    rw [hw] at hrun
    exact ⟨fun _ => True, pu.2.status, sets_schedule hj hrun (fun _ => rfl) fun _ _ => trivial⟩

theorem holder_before (hg : g ∈ (s.exec db c x).db.holders) :
    (∃ g₀ ∈ db.holders, g = { g₀ with status := g.status }) ∨ g.schedule = false ∧ g.pk = db.nextJob := by
  cases effects_exec (s := s) (x := x) (c := c) with
  | less hj _ => exact .inl ⟨g, hj hg, rfl⟩
  | stop r _ hj _ => exact .inl (hj.before hg)
  | sync h e _ _ hj _ =>
    obtain ⟨g₀, hg₀, rfl⟩ := hj g hg
    exact .inl ⟨g₀, hg₀, rfl⟩
  | padOnly p k _ _ hj _ => exact .inl (hj.before hg)
  | create job tasks _ _ _ hj _ =>
    rcases hj g hg with hg | rfl
    · exact .inl ⟨g, hg, rfl⟩
    · exact .inr ⟨rfl, rfl⟩
  | sched service sc _ _ hj hs =>
    obtain ⟨p, status, hsets⟩ := sets_stmt hj hs
    exact .inl (hsets.before hg)

theorem nextJob_le : db.nextJob ≤ (s.exec db c x).db.nextJob := by
  cases jobs_exec (s := s) (x := x) (c := c) with
  | same _ hn => exact hn.ge
  | create j _ _ hn => omega
  | delete _ hn => exact hn.ge
  | update _ _ _ _ _ _ hn => exact hn.ge

theorem Matches.step {r : JobHolder} (h : Matches db r) : Matches (s.exec db c x).db r := by
  refine ⟨fun hsch => lt_of_lt_of_le (h.1 hsch) nextJob_le, fun g hg hsch hpk => ?_⟩
  rcases holder_before hg with ⟨g₀, hg₀, heq⟩ | ⟨hfalse, hnew⟩
  · rw [heq] at hsch hpk ⊢
    exact h.2 g₀ hg₀ hsch hpk
  · have hlt := h.1 (hsch.symm.trans hfalse)
    omega

theorem findJob_holder {jobID : Bytes} {job : ProjectJobDO} (hf : db.findJob jobID = some job) :
    job.jobId = jobID ∧ JobHolder.ofJob job ∈ db.holders := by
  have hp := List.find?_some hf
  exact ⟨of_decide_eq_true hp, mem_holders.2 (.inl ⟨job, List.mem_of_find?_eq_some hf, rfl⟩)⟩

theorem firstJob_holder {jobID : Bytes} {sj : ProjectScheduleJobDO} (hf : db.sched.firstJob jobID = some sj) :
    sj.jobId = jobID ∧ JobHolder.ofSchedule sj ∈ db.holders := by
  have hp := List.find?_some hf
  exact ⟨of_decide_eq_true hp, mem_holders.2 (.inr ⟨sj, List.mem_of_find?_eq_some hf, rfl⟩)⟩

theorem holder_next {r : JobHolder} (hd : (s.exec db c x).next = some d) (hr : d.holder = some r) : c.holder = some r ∨ r ∈ db.holders := by
  have hdid := did_exec s db x c
  generalize s.exec db c x = e at hd hdid
  cases hdid with
  | quit | release | sync | hookDone | delete | deleteSchedule | stop | padOnly | rollback => cases hd
  | lockSync | lockDelete | syncHooked | hook | persist =>
    obtain rfl := Option.some.inj hd
    cases hr
  | sched =>
    obtain ⟨_, _, rfl⟩ := Option.map_eq_some_iff.1 hd
    cases hr
  | read h =>
    obtain rfl := Option.some.inj hd
    cases h with
    | findJob hf =>
      obtain rfl := Option.some.inj hr
      obtain ⟨rfl, hmem⟩ := findJob_holder hf
      exact .inr hmem
    | findSchedule hf =>
      obtain rfl := Option.some.inj hr
      obtain ⟨rfl, hmem⟩ := firstJob_holder hf
      exact .inr hmem
    | deleteJob hf | findOwner hf | findStop hf =>
      obtain rfl := Option.some.inj hr
      exact .inr (findJob_holder hf).2
    | deleteSchedule hf =>
      obtain rfl := Option.some.inj hr
      exact .inr (firstJob_holder hf).2
    | fired | owner => exact .inl hr
    | _ => cases hr

theorem next_ne_persist {job : ProjectJobDO} {tasks : List ProjectJobTaskDO} : (s.exec db c x).next ≠ some (.runGraph (.persist job tasks)) := by
  intro hd
  have hdid := did_exec s db x c
  generalize s.exec db c x = e at hd hdid
  cases hdid with
  | read h =>
    obtain rfl := Option.some.inj hd
    cases h
  | sched =>
    obtain ⟨_, _, h⟩ := Option.map_eq_some_iff.1 hd
    cases h
  | _ => cases hd

theorem waits_isPending {st : NodeStatus} (h : waits st = true) : isPending st = true := by
  rcases of_decide_eq_true h with rfl | rfl
  · rfl
  · rfl

theorem not_stopped {p j : Bytes} {tasks : List ProjectJobTaskDO} {k : ProjectJobTaskDO} (hk : k ∈ stopJobTasks p j tasks)
    (hw : waits k.status = true) : k ∈ tasks ∧ inJob p j k = false := by
  obtain ⟨k₀, hk₀, rfl⟩ := Table.mem_updateWhere.1 hk
  split_ifs at hw ⊢ with hp
  · cases hw
  · simp only [Bool.and_eq_true, not_and, Bool.not_eq_true] at hp
    refine ⟨hk₀, ?_⟩
    cases hin : inJob p j k₀ with
    | false => rfl
    | true => exact absurd (waits_isPending hw) (by simp [hp hin])

theorem inJob_keys {p j : Bytes} {k : ProjectJobTaskDO} (h : inJob p j k = true) : p = k.projectId ∧ j = k.jobId :=
  ⟨(of_decide_eq_true h).1.symm, (of_decide_eq_true h).2.symm⟩

theorem Quiet.less (h : Quiet db) (hj : db'.holders ⊆ db.holders) (ht : db'.sched.jobTasks ⊆ db.sched.jobTasks) : Quiet db' := by
  rintro g hg hfin ⟨k, hk, hin, hw⟩
  exact h g (hj hg) hfin ⟨k, ht hk, hin, hw⟩

theorem Quiet.sets {p : JobHolder → Prop} {t : JobStatus} (h : Quiet db) (hj : Sets db db' p t) (ht : db'.sched.jobTasks ⊆ db.sched.jobTasks)
    (hp : IsJobFinished t = true → ∀ g ∈ db.holders, p g → ¬ Open db g.projectID g.jobID) : Quiet db' := by
  rintro g' hg' hfin ⟨k, hk, hin, hw⟩
  rcases hj g' hg' with hg | ⟨g, hg, hpg, rfl⟩
  · exact h g' hg hfin ⟨k, ht hk, hin, hw⟩
  · exact hp hfin g hg hpg ⟨k, ht hk, hin, hw⟩

theorem quiet_stmt {α : Type} {st : Sched.Stmt α} (h : Quiet db) (hst : Statement db st) (hj : db'.jobs = db.jobs)
    (hs : db'.sched = st.run db.sched) : Quiet db' := by
  have hother (hjobs : db'.sched.jobs = db.sched.jobs) (htasks : db'.sched.jobTasks = db.sched.jobTasks) : Quiet db' :=
    h.less (fun _ hg => holders_congr hj hjobs ▸ hg) fun _ hk => htasks ▸ hk
  cases st with
  | updateJobs p u =>
    refine h.sets (p := fun g => ∃ j ∈ db.sched.jobs, p.holds j = true ∧ g = .ofSchedule j) (t := u.status) ?_ (fun k hk => ?_) ?_
    · intro g' hg'
      rcases mem_holders.1 hg' with ⟨j, hmem, rfl⟩ | ⟨j', hj', rfl⟩
      · exact .inl (mem_holders.2 (.inl ⟨j, hj ▸ hmem, rfl⟩))
      · rw [hs] at hj'
        obtain ⟨j, hmem, rfl⟩ := Table.mem_updateWhere.1 hj'
        split_ifs with hp
        · exact .inr ⟨_, mem_holders.2 (.inr ⟨j, hmem, rfl⟩), ⟨j, hmem, hp, rfl⟩, rfl⟩
        · exact .inl (mem_holders.2 (.inr ⟨j, hmem, rfl⟩))
    · rw [hs] at hk
      exact hk
    · rintro hfin g _ ⟨j, hmem, hp, rfl⟩
      exact hst hfin j hmem hp
  | updateJobTasks p u =>
    rintro g hg hfin ⟨k', hk', hin, hw⟩
    replace hg : g ∈ db.holders := holders_congr hj (by rw [hs]; rfl) ▸ hg
    rw [hs] at hk'
    obtain ⟨k, hk, rfl⟩ := Table.mem_updateWhere.1 hk'
    split_ifs at hin hw with hp
    · exact absurd (hst hw k hk hp g hg hin) (by simp [hfin])
    · exact h g hg hfin ⟨k, hk, hin, hw⟩
  | due now => exact hother (by rw [hs]; rfl) (by rw [hs]; rfl)
  | findSchedule => exact hother (by rw [hs]; rfl) (by rw [hs]; rfl)
  | findTask => exact hother (by rw [hs]; rfl) (by rw [hs]; rfl)
  | countActive => exact hother (by rw [hs]; rfl) (by rw [hs]; rfl)
  | findJob => exact hother (by rw [hs]; rfl) (by rw [hs]; rfl)
  | tasksOfJob => exact hother (by rw [hs]; rfl) (by rw [hs]; rfl)
  | updateTasks => exact hother (by rw [hs]; rfl) (by rw [hs]; rfl)
  | updateSchedules => exact hother (by rw [hs]; rfl) (by rw [hs]; rfl)
  | deleteResults => exact hother (by rw [hs]; rfl) (by rw [hs]; rfl)
  | createJob => exact hother (by rw [hs]; rfl) (by rw [hs]; rfl)
  | stopJob => exact hother (by rw [hs]; rfl) (by rw [hs]; rfl)
  | deleteJob => exact hother (by rw [hs]; rfl) (by rw [hs]; rfl)
  | restartJob => exact hother (by rw [hs]; rfl) (by rw [hs]; rfl)

theorem Call.Guarded.statement {service : Sched.ScheduledService} {sc : Sched.Call} (hc : c.schedCall s = some (service, sc))
    (hg : c.Guarded s db) : Statement db (sc.instr service).stmt := by
  obtain _ | pc | pc | pc | pc | _ := c
  · cases hc
  · cases pc with
    | hook pc => exact hg service sc hc
    | _ => cases hc
  · cases hc
  · cases hc
  · cases hc
  · exact hg service sc hc

theorem quiet_sync {r : JobStatusSyncService} {e : JobStatusDetailInfo} (hq : Quiet db) (hm : Matches db h) (hg : r.Guarded db h e)
    (hj : ∀ g' ∈ db'.holders, ∃ g ∈ db.holders, g' = { g with status := r.written h e g })
    (ht : db'.sched.jobTasks = JobStatusSyncService.syncTasks h e db.sched.jobTasks) : Quiet db' := by
  rintro g' hg' hfin ⟨k', hk', hin, hw⟩
  obtain ⟨g, hmem, rfl⟩ := hj g' hg'
  rw [ht, syncTasks_eq] at hk'
  obtain ⟨k, hk, rfl⟩ := List.mem_map.1 hk'
  rw [inJob_of_key taskKey_syncRow] at hin
  unfold syncRow at hw
  by_cases hown : inJob h.projectID h.jobID k = true
  · rw [if_pos hown] at hw
    split_ifs at hw with hstop
    · cases hw
    · rcases hg with hg | hg | hg
      · exact hstop (by rw [hg, waits_isPending hw]; rfl)
      · exact absurd (hg k hk hown) (by simp [hw])
      · obtain ⟨hp, hj⟩ := inJob_keys hown
        obtain ⟨hp', hj'⟩ := inJob_keys hin
        exact absurd (hg g hmem (hp'.trans hp.symm) (hj'.trans hj.symm)) (by simp [hfin])
  · rw [if_neg hown] at hw
    rw [written_neg (.inl fun hc => hown ?_)] at hfin
    · exact hq g hmem hfin ⟨k, hk, hin, hw⟩
    · obtain ⟨hp, hj⟩ := hm.2 g hmem hc.1 hc.2
      rw [← hp, ← hj]
      exact hin

theorem quiet_exec (h : Quiet db) (hf : Fits db c) (hg : x.error = none → c.Guarded s db) : Quiet (s.exec db c x).db := by
  cases effects_exec (s := s) (x := x) (c := c) with
  | less hj ht => exact h.less hj ht
  | stop r hc hj ht =>
    rintro g' hg' hfin ⟨k, hk, hin, hw⟩
    rw [ht] at hk
    obtain ⟨hk, hout⟩ := not_stopped hk hw
    rcases hj g' hg' with hg' | ⟨g, hmem, ⟨hsch, hpk⟩, rfl⟩
    · exact h g' hg' hfin ⟨k, hk, hin, hw⟩
    · obtain ⟨hp, hj⟩ := (hf.1 r hc).2 g hmem hsch hpk
      rw [← hp, ← hj] at hout
      exact absurd hin (by simp [hout])
  | sync g e hc hx hj ht =>
    subst hc
    exact quiet_sync h (hf.1 g rfl) (hg hx) hj ht
  | padOnly p k hc hx hj ht =>
    subst hc
    refine h.sets hj (fun _ hk => ht ▸ hk) ?_
    rintro _ g _ ⟨_, rfl, rfl⟩
    exact hg hx
  | create job tasks hc hx hnew hj ht =>
    subst hc
    have hfirst := hf.2 job tasks rfl
    simp only [Call.first, Bool.and_eq_true, decide_eq_true_eq, List.all_eq_true] at hfirst
    rintro g hmem hfin ⟨k, hk, hin, hw⟩
    rcases hj g hmem with hmem | rfl
    · rw [ht] at hk
      rcases List.mem_append.1 hk with hk | hk
      · exact h g hmem hfin ⟨k, hk, hin, hw⟩
      · have hid : g.jobID = job.jobId := (inJob_keys hin).2.trans (inJob_keys (hfirst.2 k hk).1).2.symm
        rcases mem_holders.1 hmem with ⟨j, hj, rfl⟩ | ⟨j, hj, rfl⟩
        · exact hnew j hj hid
        · exact hg hx j hj hid
    · rw [show (JobHolder.ofJob { job with id := db.nextJob }).status = job.status from rfl, hfirst.1] at hfin
      cases hfin
  | sched service sc hc hx hj hs => exact quiet_stmt h ((hg hx).statement hc) hj hs

theorem fits_first (h : c.first = true) : Fits db c := by
  refine ⟨fun r hr => ?_, fun job tasks _ => h⟩
  obtain _ | pc | pc | pc | pc | _ := c
  · cases hr
  · cases pc <;> first | (cases hr; done) | cases h
  · cases pc <;> first | (cases hr; done) | cases h
  · cases pc <;> first | (cases hr; done) | cases h
  · cases hr
  · cases hr

theorem Fits.step (h : Fits db d) : Fits (s.exec db c x).db d := ⟨fun r hr => (h.1 r hr).step, h.2⟩

theorem Fits.next (h : Fits db c) (hd : (s.exec db c x).next = some d) : Fits (s.exec db c x).db d := by
  refine ⟨fun r hr => ?_, fun job tasks hd' => ?_⟩
  · rcases holder_next hd hr with hc | hmem
    · exact (h.1 r hc).step
    · exact (matches_of_mem hmem).step
  · exact absurd (hd' ▸ hd) next_ne_persist

/-- In a run of guarded steps that starts with no job in flight, no finished job ever has a task left that waits or runs. -/
theorem quiet_run {as : List Act} (hq : Quiet db) (hall : Lts.RunAll s.step (Guarded s) (.idle db) as)
    (hrun : Lts.run s.step (.idle db) as = some w) : Quiet w.db := by
  have hstep : ∀ v a v', (Quiet v.db ∧ ∀ i c, v.calls i = some c → Fits v.db c) → Guarded s v a → s.step v a = some v' →
      Quiet v'.db ∧ ∀ i c, v'.calls i = some c → Fits v'.db c := by
    rintro v a v' ⟨hq, hf⟩ hg hs
    obtain ⟨i, c, rfl, hfirst, _, rfl⟩ | ⟨i, c, x, rfl, hc, rfl⟩ | ⟨i, c, rfl, _, rfl⟩ := Calls.step_cases hs
    · refine ⟨hq, fun j d hd => ?_⟩
      rcases Calls.World.calls_begin hd with rfl | hd
      · exact fits_first hfirst
      · exact hf j d hd
    · refine ⟨quiet_exec hq (hf i c hc) fun hx => hg hx c hc, fun j d hd => ?_⟩
      rcases calls_after hd with ⟨_, hn⟩ | ⟨_, hd⟩
      · exact (hf i c hc).next hn
      · exact (hf j d hd).step
    · exact ⟨hq, fun j d hd => hf j d (Calls.World.calls_drop hd)⟩
  exact (Lts.run_invariant hstep ⟨hq, fun _ _ hc => absurd hc calls_idle⟩ hall hrun).1

/-- The scheduler is idle, no job is created, and every report stops the tasks. -/
def stopping (v : World) : Act → Bool
  | .exec i _ => match v.calls i with
    | some (.syncJob (.updateJob _ e)) => JobStatusSyncService.stopsTasks e
    | some (.syncJob (.hook _)) | some (.sched _) | some (.runGraph _) => false
    | _ => true
  | _ => true

theorem quiet_run_failed : ∃ w, Lts.run platform.step (.idle (oneJob (oneTask .running)))
    [event 0 ⟨str "Failed", [], str "t", []⟩, exec 0, exec 0, exec 0] = some w ∧ Quiet w.db := by
  obtain ⟨w, hw⟩ : ∃ w, Lts.run platform.step (.idle (oneJob (oneTask .running)))
      [event 0 ⟨str "Failed", [], str "t", []⟩, exec 0, exec 0, exec 0] = some w := Option.isSome_iff_exists.1 (by decide +kernel)
  have hstops : ∀ v a, stopping v a = true → Guarded platform v a := by
    intro v a hp
    cases a with
    | start i c => trivial
    | abandon i => trivial
    | exec i x =>
      intro _ c hc
      simp only [stopping, hc] at hp
      obtain _ | pc | pc | pc | pc | _ := c
      · exact fun _ _ h => by cases h
      · cases pc with
        | updateJob h e => exact .inl hp
        | hook pc => cases hp
        | _ => exact fun _ _ h => by cases h
      · exact fun _ _ h => by cases h
      · exact fun _ _ h => by cases h
      · cases hp
      · cases hp
  have hall : Lts.RunAll platform.step (fun v a => stopping v a = true) (.idle (oneJob (oneTask .running)))
      [event 0 ⟨str "Failed", [], str "t", []⟩, exec 0, exec 0, exec 0] := by decide +kernel
  exact ⟨w, hw, quiet_run (by decide) (hall.imp hstops) hw⟩

def missed : Db :=
  { oneSchedule [] with sched := { Sched.oneTask .running .toBeRun with jobTasks := oneTask .initialized } }

/-- Kuscia reports a success with a task that it still runs; the engine comes too late for a schedule task. -/
theorem quiet_run_fails :
    (Quiet (oneJob (oneTask .running)) ∧ ∃ w, Lts.run platform.step (.idle (oneJob (oneTask .running)))
      [event 0 ⟨str "Succeeded", [], str "t", [⟨[9], [7], str "Running", []⟩]⟩, exec 0, exec 0, exec 0] = some w ∧
      w.db.jobs.map (·.status) = [.succeed] ∧ w.db.sched.jobTasks.map (·.status) = [.running] ∧ ¬ Quiet w.db) ∧
    Quiet missed ∧ ∃ w, Lts.run platform.step (.idle missed)
      [.start 0 (.sched (.runDue (.query 1000))), exec 0, exec 0, exec 0] = some w ∧
      w.db.sched.jobs.map (·.status) = [.failed] ∧ w.db.sched.jobTasks.map (·.status) = [.initialized] ∧ ¬ Quiet w.db := by
  refine ⟨⟨by decide, ?_⟩, by decide, ?_⟩
  · have hrun : ((Lts.run platform.step (.idle (oneJob (oneTask .running)))
        [event 0 ⟨str "Succeeded", [], str "t", [⟨[9], [7], str "Running", []⟩]⟩, exec 0, exec 0, exec 0]).map fun w =>
        decide (w.db.jobs.map (·.status) = [.succeed] ∧ w.db.sched.jobTasks.map (·.status) = [.running] ∧ ¬ Quiet w.db)) = some true := by
      decide +kernel
    obtain ⟨w, hw, h⟩ := Option.map_eq_some_iff.1 hrun
    exact ⟨w, hw, of_decide_eq_true h⟩
  · have hrun : ((Lts.run platform.step (.idle missed) [.start 0 (.sched (.runDue (.query 1000))), exec 0, exec 0, exec 0]).map fun w =>
        decide (w.db.sched.jobs.map (·.status) = [.failed] ∧ w.db.sched.jobTasks.map (·.status) = [.initialized] ∧ ¬ Quiet w.db)) =
        some true := by decide +kernel
    obtain ⟨w, hw, h⟩ := Option.map_eq_some_iff.1 hrun
    exact ⟨w, hw, of_decide_eq_true h⟩

end Job
