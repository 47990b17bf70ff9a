import Privahub.Job.Service

/-!
# What a step of a call does

`Did` says what `Platform.exec` can do, with the conditions it is done under: a call returns, goes on to another
without writing (`Reads`), takes or frees `applyMu`, or writes. What is known of a step is proved from it.
-/

namespace Job

open Sched (ProjectScheduleJobDO ProjectScheduleTaskDO ProjectJobTaskDO)

/-- The call holds `applyMu`. -/
def Call.locks : Call → Prop
  | .syncJob (.lock ..) | .markJobDeleted (.lock ..) => False
  | .syncJob _ | .markJobDeleted _ => True
  | _ => False

inductive Reads (db : Db) : Call → Call → Prop
  | polled (jobID : Bytes) (detail : JobStatusDetailInfo) : Reads db (.poll jobID) (.syncJob (.lock jobID (some detail)))
  | waitSync (jobID : Bytes) (detail : JobStatusDetailInfo) :
    Reads db (.syncJob (.lock jobID (some detail))) (.syncJob (.lock jobID (some detail)))
  | waitDelete (jobID : Bytes) (fromPoll : Bool) : Reads db (.markJobDeleted (.lock jobID fromPoll)) (.markJobDeleted (.lock jobID fromPoll))
  | findJob {jobID : Bytes} {detail : JobStatusDetailInfo} {job : ProjectJobDO} (hf : db.findJob jobID = some job)
    (hfin : IsJobFinished job.status = false) :
    Reads db (.syncJob (.find jobID detail)) (.syncJob (.updateJob ⟨job.projectId, jobID, job.status, job.id, false⟩ detail))
  | noJob (jobID : Bytes) (detail : JobStatusDetailInfo) : Reads db (.syncJob (.find jobID detail)) (.syncJob (.findSchedule jobID detail))
  | findSchedule {jobID : Bytes} {detail : JobStatusDetailInfo} {sj : ProjectScheduleJobDO} (hf : db.sched.firstJob jobID = some sj) :
    Reads db (.syncJob (.findSchedule jobID detail)) (.syncJob (.updateJob ⟨sj.projectId, jobID, sj.status, sj.id, true⟩ detail))
  | deleteJob {jobID : Bytes} {fromPoll : Bool} {now : Sched.Time} {job : ProjectJobDO} (hf : db.findJob jobID = some job)
    (hfin : IsJobFinished job.status = false) : Reads db (.markJobDeleted (.find jobID fromPoll now)) (.markJobDeleted (.stop job))
  | deleteNoJob (jobID : Bytes) (fromPoll : Bool) (now : Sched.Time) :
    Reads db (.markJobDeleted (.find jobID fromPoll now)) (.markJobDeleted (.findSchedule jobID fromPoll now))
  | deleteSchedule {jobID : Bytes} {fromPoll : Bool} {now : Sched.Time} {sj : ProjectScheduleJobDO} (hf : db.sched.firstJob jobID = some sj) :
    Reads db (.markJobDeleted (.findSchedule jobID fromPoll now)) (.markJobDeleted (.fired sj fromPoll now))
  | fired (sj : ProjectScheduleJobDO) (fromPoll : Bool) (now : Sched.Time) (ts : List ProjectScheduleTaskDO) :
    Reads db (.markJobDeleted (.fired sj fromPoll now)) (.markJobDeleted (.stopSchedule sj ts now))
  | findOwner {projectID jobID : Bytes} {checkOwner : Bool} {job : ProjectJobDO} (hf : db.findJob jobID = some job) :
    Reads db (.stopJob (.find projectID jobID checkOwner)) (.stopJob (.owner job))
  | findStop {projectID jobID : Bytes} {checkOwner : Bool} {job : ProjectJobDO} (hf : db.findJob jobID = some job) :
    Reads db (.stopJob (.find projectID jobID checkOwner)) (.stopJob (.stop job))
  | owner (job : ProjectJobDO) : Reads db (.stopJob (.owner job)) (.stopJob (.stop job))
  | submitFailed (p k : Bytes) : Reads db (.runGraph (.submit p k)) (.runGraph (.rollback p k))
  | submitPads (p k : Bytes) : Reads db (.runGraph (.submit p k)) (.runGraph (.padOnly p k))
  | padsFailed (p k : Bytes) : Reads db (.runGraph (.padOnly p k)) (.runGraph (.rollback p k))

inductive Did (s : Platform) (db : Db) (x : Ending) : Call → Effect → Prop
  | quit {c : Call} (hc : ¬ c.locks) : Did s db x c (go db none)
  | release {c : Call} (hc : c.locks) : Did s db x c (unlock db)
  | read {c d : Call} (h : Reads db c d) : Did s db x c (go db (some d))
  | lockSync {jobID : Bytes} {detail : JobStatusDetailInfo} (hmu : db.applyMu = false) :
    Did s db x (.syncJob (.lock jobID (some detail))) ⟨db.locked true, some (.syncJob (.find jobID detail)), []⟩
  | lockDelete {jobID : Bytes} {fromPoll : Bool} (hmu : db.applyMu = false) :
    Did s db x (.markJobDeleted (.lock jobID fromPoll)) ⟨db.locked true, some (.markJobDeleted (.find jobID fromPoll x.clock)), []⟩
  | sync {h : JobHolder} {e : JobStatusDetailInfo} (hx : x.error = none) :
    Did s db x (.syncJob (.updateJob h e)) ⟨(s.sync.updateJob x.clock h e db).locked false, none, [.applied h.projectID h.jobID e]⟩
  | syncHooked {h : JobHolder} {e : JobStatusDetailInfo} (hx : x.error = none) (hsch : h.schedule = true) (hh : s.sync.hook.isSome) :
    Did s db x (.syncJob (.updateJob h e))
      ⟨s.sync.updateJob x.clock h e db, some (.syncJob (.hook (.find h.jobID (some (toExecutionStatus e))))), [.applied h.projectID h.jobID e]⟩
  | hook {service : Sched.ScheduledService} {pc pc' : Sched.Apply} (hh : s.sync.hook = some service)
    (hn : ((pc.instr service).exec db.sched ⟨x.error, x.clock⟩).next = some (.apply pc')) :
    Did s db x (.syncJob (.hook pc)) ⟨db.setSched ((pc.instr service).exec db.sched ⟨x.error, x.clock⟩).db, some (.syncJob (.hook pc')), []⟩
  | hookDone {service : Sched.ScheduledService} {pc : Sched.Apply} (hh : s.sync.hook = some service) :
    Did s db x (.syncJob (.hook pc)) (unlock (db.setSched ((pc.instr service).exec db.sched ⟨x.error, x.clock⟩).db))
  | delete (job : ProjectJobDO) : Did s db x (.markJobDeleted (.stop job))
      (unlock ((db.setTasks (stopJobTasks job.projectId job.jobId db.sched.jobTasks)).updateJobs
        (fun j => decide (j.id = job.id)) (some .stopped) none none))
  | deleteSchedule (sj : ProjectScheduleJobDO) (ts : List ProjectScheduleTaskDO) (now : Sched.Time) :
    Did s db x (.markJobDeleted (.stopSchedule sj ts now)) (unlock (db.setSched (ts.foldl
      (fun d t => d.updateTasks (.id t.id) { status := some .stopped, endTime := some (some now) })
      ((db.setTasks (stopJobTasks sj.projectId sj.jobId db.sched.jobTasks)).sched.updateJobs (.id sj.id) { status := .stopped }))))
  | stop {job : ProjectJobDO} (hx : x.error = none) : Did s db x (.stopJob (.stop job))
      (go ((db.setTasks (stopJobTasks job.projectId job.jobId db.sched.jobTasks)).updateJobs
        (fun j => decide (j.id = job.id)) (some .stopped) none none) none)
  | persist {job : ProjectJobDO} {tasks : List ProjectJobTaskDO} {db' : Db} (hx : x.error = none) (hdb : db.createJob job tasks = some db') :
    Did s db x (.runGraph (.persist job tasks)) (go db' (some (.runGraph (.submit job.projectId job.jobId))))
  | padOnly {p k : Bytes} (hx : x.error = none) : Did s db x (.runGraph (.padOnly p k))
      (go (db.updateJobs (fun j => decide (j.projectId = p ∧ j.jobId = k)) (some .succeed) none (some x.clock)) none)
  | rollback (p k : Bytes) : Did s db x (.runGraph (.rollback p k)) (go (db.deleteJob p k) none)
  | sched (c : Sched.Call) : Did s db x (.sched c)
      (go (db.setSched ((c.instr s.scheduler).exec db.sched ⟨x.error, x.clock⟩).db)
        (((c.instr s.scheduler).exec db.sched ⟨x.error, x.clock⟩).next.map .sched))

variable {s : Platform} {db : Db} {x : Ending} {c d : Call}

theorem Reads.locks_iff (h : Reads db c d) : d.locks ↔ c.locks := by
  cases h <;> exact Iff.rfl

theorem found_of_read {α : Type} {o : Option α} {a : α} (h : (if x.error.isSome then none else o) = some a) : x.error = none ∧ o = some a := by
  split_ifs at h with hx
  exact ⟨by simpa using hx, h⟩

theorem did_syncJob (pc : SyncJob) : Did s db x (.syncJob pc) (pc.run s.sync db x) := by
  cases pc with
  | lock jobID detail =>
    cases detail with
    | none => exact .quit id
    | some detail =>
      simp only [SyncJob.run]
      split_ifs with hmu
      · exact .read (.waitSync jobID detail)
      · exact .quit id
      · exact .lockSync (by simpa using hmu)
  | find jobID detail =>
    simp only [SyncJob.run]
    split
    case _ job hjob =>
      split_ifs with hfin
      · exact .release trivial
      · exact .read (.findJob (found_of_read hjob).2 (by simpa using hfin))
    · exact .read (.noJob jobID detail)
  | findSchedule jobID detail =>
    simp only [SyncJob.run]
    split
    case _ sj hsj =>
      split_ifs
      · exact .release trivial
      · exact .read (.findSchedule (found_of_read hsj).2)
    · exact .release trivial
  | updateJob h e =>
    simp only [SyncJob.run]
    split_ifs with hx hs
    · exact .release trivial
    · exact .syncHooked (by simpa using hx) hs.1 hs.2
    · exact .sync (by simpa using hx)
  | hook pc =>
    cases hh : s.sync.hook with
    | none =>
      simp only [SyncJob.run, hh]
      exact .release trivial
    | some service =>
      simp only [SyncJob.run, hh]
      split
      case _ pc' hn => exact .hook hh hn
      · exact .hookDone hh

theorem did_markJobDeleted (pc : MarkJobDeleted) : Did s db x (.markJobDeleted pc) (pc.run s.sync db x) := by
  cases pc with
  | lock jobID fromPoll =>
    simp only [MarkJobDeleted.run]
    split_ifs with hmu
    · exact .read (.waitDelete jobID fromPoll)
    · exact .quit id
    · exact .lockDelete (by simpa using hmu)
  | find jobID fromPoll now =>
    simp only [MarkJobDeleted.run]
    split_ifs
    · exact .release trivial
    · split
      case _ job hjob =>
        split_ifs with hfin
        · exact .release trivial
        · exact .release trivial
        · exact .read (.deleteJob hjob (by simpa using hfin))
      · exact .read (.deleteNoJob jobID fromPoll now)
  | stop job =>
    simp only [MarkJobDeleted.run]
    split_ifs
    · exact .release trivial
    · exact .delete job
  | findSchedule jobID fromPoll now =>
    simp only [MarkJobDeleted.run]
    split
    case _ sj hsj =>
      split_ifs
      · exact .release trivial
      · exact .read (.deleteSchedule (found_of_read hsj).2)
    · exact .release trivial
  | fired sj fromPoll now =>
    simp only [MarkJobDeleted.run]
    split_ifs
    · exact .release trivial
    · exact .release trivial
    · exact .read (.fired sj fromPoll now _)
  | stopSchedule sj ts now =>
    simp only [MarkJobDeleted.run]
    split_ifs
    · exact .release trivial
    · exact .deleteSchedule sj ts now

theorem did_stopJob (pc : StopJob) : Did s db x (.stopJob pc) (pc.run db x) := by
  cases pc with
  | find projectID jobID checkOwner =>
    simp only [StopJob.run]
    split
    case _ job hjob =>
      split_ifs
      · exact .quit id
      · exact .read (.findOwner (found_of_read hjob).2)
      · exact .read (.findStop (found_of_read hjob).2)
    · exact .quit id
  | owner job =>
    simp only [StopJob.run]
    split_ifs
    · exact .read (.owner job)
    · exact .quit id
  | stop job =>
    simp only [StopJob.run]
    split_ifs with hx
    · exact .quit id
    · exact .stop (by simpa using hx)

theorem did_runGraph (pc : RunGraph) : Did s db x (.runGraph pc) (pc.run db x) := by
  cases pc with
  | persist job tasks =>
    simp only [RunGraph.run]
    split
    case _ db' hdb =>
      obtain ⟨hx, hdb⟩ := found_of_read hdb
      exact .persist hx hdb
    · exact .quit id
  | submit p k =>
    simp only [RunGraph.run]
    split
    · exact .read (.submitFailed p k)
    · exact .read (.submitPads p k)
    · exact .quit id
  | padOnly p k =>
    simp only [RunGraph.run]
    split_ifs with hx
    · exact .read (.padsFailed p k)
    · exact .padOnly (by simpa using hx)
  | rollback p k =>
    simp only [RunGraph.run]
    split_ifs
    · exact .quit id
    · exact .rollback p k

theorem did_exec (s : Platform) (db : Db) (x : Ending) (c : Call) : Did s db x c (s.exec db c x) := by
  cases c with
  | poll jobID =>
    simp only [Platform.exec]
    cases x.answer with
    | none => exact .quit id
    | some detail => exact .read (.polled jobID detail)
  | syncJob pc => exact did_syncJob pc
  | markJobDeleted pc => exact did_markJobDeleted pc
  | stopJob pc => exact did_stopJob pc
  | runGraph pc => exact did_runGraph pc
  | sched c => exact .sched c

end Job
