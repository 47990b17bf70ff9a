import Privahub.Job.Finished

/-!
# What the calls do to job tasks

One step writes no task, stops those of a job, takes over a report (`syncTasks`), adds or deletes the tasks
of a job, or is a statement of the scheduler (`Sched.Call` by itself, or as the hook of `SyncJob`), of which two
write tasks.
-/

namespace Job

open Table (updateWhere)
open Sched (NodeStatus ProjectJobTaskDO)

def Call.stops : Call → Option (Bytes × Bytes)
  | .markJobDeleted (.stop job) | .stopJob (.stop job) => some (job.projectId, job.jobId)
  | .markJobDeleted (.stopSchedule sj _ _) => some (sj.projectId, sj.jobId)
  | _ => none

/-- The statement of the scheduler that the call runs next, and the service that runs it. -/
def Call.schedCall (s : Platform) : Call → Option (Sched.ScheduledService × Sched.Call)
  | .sched c => some (s.scheduler, c)
  | .syncJob (.hook pc) => s.sync.hook.map fun service => (service, .apply pc)
  | _ => none

inductive Tasks (s : Platform) (x : Ending) (c : Call) (db db' : Db) : Prop
  | same (ht : db'.sched.jobTasks = db.sched.jobTasks)
  | stop (p j : Bytes) (hc : c.stops = some (p, j)) (ht : db'.sched.jobTasks = stopJobTasks p j db.sched.jobTasks)
  | sync (h : JobHolder) (e : JobStatusDetailInfo) (hc : c = .syncJob (.updateJob h e)) (hx : x.error = none)
    (ht : db'.sched.jobTasks = JobStatusSyncService.syncTasks h e db.sched.jobTasks)
  | create (job : ProjectJobDO) (tasks : List ProjectJobTaskDO) (hc : c = .runGraph (.persist job tasks))
    (ht : db'.sched.jobTasks = db.sched.jobTasks ++ tasks)
  | delete (p j : Bytes) (ht : db'.sched.jobTasks = db.sched.jobTasks.filter fun k => !inJob p j k)
  | sched (service : Sched.ScheduledService) (sc : Sched.Call) (hc : c.schedCall s = some (service, sc))
    (ht : db'.sched = ((sc.instr service).exec db.sched ⟨x.error, x.clock⟩).db)

variable {s : Platform} {db db' : Db} {x : Ending} {c d : Call} {w w' : World}

theorem updateJob_tasks {r : JobStatusSyncService} {now : Sched.Time} {h : JobHolder} {e : JobStatusDetailInfo} :
    (r.updateJob now h e db).sched.jobTasks = JobStatusSyncService.syncTasks h e db.sched.jobTasks := by
  unfold JobStatusSyncService.updateJob JobStatusSyncService.writeJob JobStatusSyncService.writeScheduleJob
  repeat' split
  all_goals rfl

/-- A row of the job tasks after the transaction of `updateJob`. -/
def syncRow (h : JobHolder) (e : JobStatusDetailInfo) (k : ProjectJobTaskDO) : ProjectJobTaskDO :=
  if inJob h.projectID h.jobID k then
    if JobStatusSyncService.stopsTasks e && isPending (JobStatusSyncService.report e.tasks k).status then
      { JobStatusSyncService.report e.tasks k with status := .stopped }
    else JobStatusSyncService.report e.tasks k
  else k

theorem taskKey_report {ts : List JobTaskStatusDetail} {k : ProjectJobTaskDO} : taskKey (JobStatusSyncService.report ts k) = taskKey k := by
  unfold JobStatusSyncService.report
  split
  · rfl
  · rfl

theorem inJob_of_key {k k' : ProjectJobTaskDO} {p j : Bytes} (h : taskKey k = taskKey k') : inJob p j k = inJob p j k' := by
  simp only [taskKey, Prod.mk.injEq] at h
  unfold inJob
  rw [h.1, h.2.1]

theorem taskKey_syncRow {h : JobHolder} {e : JobStatusDetailInfo} {k : ProjectJobTaskDO} : taskKey (syncRow h e k) = taskKey k := by
  unfold syncRow
  split_ifs
  · exact taskKey_report
  · exact taskKey_report
  · rfl

theorem syncTasks_eq {h : JobHolder} {e : JobStatusDetailInfo} {tasks : List ProjectJobTaskDO} :
    JobStatusSyncService.syncTasks h e tasks = tasks.map (syncRow h e) := by
  unfold JobStatusSyncService.syncTasks stopJobTasks updateWhere
  split_ifs with hs
  · rw [List.map_map]
    refine List.map_congr_left fun k _ => ?_
    show (if inJob h.projectID h.jobID (if inJob h.projectID h.jobID k then _ else k) && _ then _ else _) = _
    unfold syncRow
    by_cases hk : inJob h.projectID h.jobID k
    · have hr : inJob h.projectID h.jobID (JobStatusSyncService.report e.tasks k) = true := (inJob_of_key taskKey_report).trans hk
      simp only [hk, hr, hs, if_true, Bool.true_and]
    · simp only [hk, if_false, Bool.false_eq_true, Bool.false_and]
  · refine List.map_congr_left fun k _ => ?_
    simp only [syncRow, hs, Bool.false_and, Bool.false_eq_true, if_false]

theorem exec_updateJob {h : JobHolder} {e : JobStatusDetailInfo} (hx : x.error = none) :
    (s.exec db (.syncJob (.updateJob h e)) x).db.sched.jobTasks = JobStatusSyncService.syncTasks h e db.sched.jobTasks ∧
    (s.exec db (.syncJob (.updateJob h e)) x).events = [.applied h.projectID h.jobID e] := by
  simp only [Platform.exec, SyncJob.run, hx, Option.isSome_none, Bool.false_eq_true, if_false]
  split_ifs
  · exact ⟨updateJob_tasks, rfl⟩
  · exact ⟨updateJob_tasks, rfl⟩

theorem foldl_updateTasks {now : Sched.Time} {ts : List Sched.ProjectScheduleTaskDO} {d : Sched.Db} :
    (ts.foldl (fun d t => d.updateTasks (.id t.id) { status := some .stopped, endTime := some (some now) }) d).jobTasks = d.jobTasks ∧
    (ts.foldl (fun d t => d.updateTasks (.id t.id) { status := some .stopped, endTime := some (some now) }) d).jobs = d.jobs := by
  induction ts generalizing d with
  | nil => exact ⟨rfl, rfl⟩
  | cons t ts ih => exact ih

theorem tasks_exec : Tasks s x c db (s.exec db c x).db := by
  have h := did_exec s db x c
  generalize s.exec db c x = e at h ⊢
  cases h with
  | quit | release | read | lockSync | lockDelete | padOnly => exact .same rfl
  | sync hx | syncHooked hx => exact .sync _ _ rfl hx updateJob_tasks
  | hook hh | hookDone hh => exact .sched _ _ (congrArg (Option.map _) hh) rfl
  | delete job => exact .stop job.projectId job.jobId rfl rfl
  | deleteSchedule sj => exact .stop sj.projectId sj.jobId rfl foldl_updateTasks.1
  | @stop job => exact .stop job.projectId job.jobId rfl rfl
  | @persist job tasks db' hx hdb =>
    unfold Db.createJob at hdb
    split_ifs at hdb
    obtain rfl := Option.some.inj hdb
    exact .create job tasks rfl rfl
  | rollback p k => exact .delete p k rfl
  | sched sc => exact .sched s.scheduler sc rfl rfl

theorem sched_db {p : Sched.Instr} {sdb : Sched.Db} {y : Sched.Ending} :
    (p.exec sdb y).db = sdb ∨ y.error = none ∧ (p.exec sdb y).db = p.stmt.run sdb := by
  unfold Sched.Instr.exec
  cases y.error with
  | none => exact .inr ⟨rfl, rfl⟩
  | some e => exact .inl rfl

def names (t : JobTaskStatusDetail) : List Bytes := if t.alias_ ≠ [] ∧ t.alias_ ≠ t.taskId then [t.taskId, t.alias_] else [t.taskId]

inductive SchedTasks (service : Sched.ScheduledService) (y : Sched.Ending) (sc : Sched.Call) (sdb sdb' : Sched.Db) : Prop
  | same (ht : sdb'.jobTasks = sdb.jobTasks)
  | report (sj : Sched.ProjectScheduleJobDO) (st : Sched.JobExecutionStatus) (now : Sched.Time) (kt : Sched.TaskStatus)
    (rest : List Sched.TaskStatus) (hc : sc = .apply (.jobTask sj st now kt rest)) (hy : y.error = none)
    (ht : sdb'.jobTasks = updateWhere (Sched.JobTaskWhere.taskIn sj.projectId sj.jobId (names kt)).holds
      (Sched.JobTaskSet.mk (Sched.mapKusciaTaskStateToNodeStatus service.unicode kt.state)
        (if kt.errMsg = [] then none else some kt.errMsg)).apply sdb.jobTasks)
  | stop (p j : Bytes) (ss : List NodeStatus)
    (ht : sdb'.jobTasks = updateWhere (Sched.JobTaskWhere.statusIn p j ss).holds (Sched.JobTaskSet.mk .stopped none).apply sdb.jobTasks)

theorem schedTasks_exec {service : Sched.ScheduledService} {sc : Sched.Call} {sdb : Sched.Db} {y : Sched.Ending} :
    SchedTasks service y sc sdb ((sc.instr service).exec sdb y).db := by
  rcases sched_db (p := sc.instr service) (y := y) with h | ⟨hy, h⟩
  · rw [h]
    exact .same rfl
  · rw [h]
    cases sc with
    | runDue pc => cases pc <;> exact .same rfl
    | offline pc => cases pc <;> exact .same rfl
    | taskRerun pc => cases pc <;> exact .same rfl
    | taskStop pc =>
      cases pc with
      | markJobTasks t stopping => exact .stop t.projectId t.scheduleJobId _ rfl
      | find ownerId scheduleId scheduleTaskId => exact .same rfl
      | claim t now => exact .same rfl
      | findJob t now => exact .same rfl
      | stopJob t jobId now => exact .same rfl
      | markJob t now stopping => exact .same rfl
      | setStopping t => exact .same rfl
    | apply pc =>
      cases pc with
      | jobTask sj st now kt rest => exact .report sj st now kt rest rfl hy rfl
      | find jobId st => exact .same rfl
      | job sj st now => exact .same rfl
      | read jobId status now => exact .same rfl
      | write status now t rest => exact .same rfl

end Job
