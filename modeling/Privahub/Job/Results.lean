import Privahub.Graph.Chain

/-!
# The results of tasks

`SyncJob` with what follows its transaction: the hook of the scheduler, and `syncTaskResult` for the tasks that have come to SUCCEED in
it. The calls of `SyncJob` follow one another, as `applyMu` has it. `Ends` says which statements and requests of a call go through,
`Records` what is written once: the parties and the outputs of a task, and the domain data that Kuscia has.
-/

namespace Job.Results

open Table (updateWhere)
open Sched (Time NodeStatus ProjectJobTaskDO ProjectScheduleJobDO ProjectScheduleTaskDO JobExecutionStatus)
open Graph.Chain (GenTaskOutputID)

structure ProjectResultDO where
  projectId : Bytes
  kind : Bytes
  nodeId : Bytes
  refId : Bytes
  jobId : Bytes
  taskId : Bytes
  deriving DecidableEq

def ProjectResultDO.key (r : ProjectResultDO) : Bytes × Bytes × Bytes × Bytes := (r.projectId, r.kind, r.nodeId, r.refId)

abbrev TaskKey := Bytes × Bytes × Bytes

/-- By the key of a task: its parties, the outputs in its own copy of the graph node if that can be read, and those of the graph's node.
`domainData` is the type of what a party has under an id. -/
structure Records where
  parties : TaskKey → List Bytes
  graphNode : TaskKey → Option (List Bytes)
  storedNode : TaskKey → Option (List Bytes)
  domainData : Bytes → Bytes → Option Bytes
  unicode : CaseTables

structure World where
  db : Db
  results : List ProjectResultDO

/-- `reads` is the query for the row of a task, `node` that for its graph node; `query`, `upsert` and `detail` are the request and the
statements for an output and a party. The hook fails after some of its writes. -/
structure Ends where
  handled : Bool
  findJob : Bool
  findSchedule : Bool
  reads : Bytes → Bool
  txErr : Option Bytes
  hookErr : Option (Nat × Bytes)
  node : TaskKey → Bool
  query : TaskKey → Bytes → Bytes → Bool
  upsert : TaskKey → Bytes → Bytes → Bool
  detail : TaskKey → Bytes → Bytes → Bool
  clock : Time

def ResultKindFromDatatable (u : CaseTables) (t : Bytes) : Bytes :=
  let l := Sched.ToLower u t
  if l = str "table" then str "FedTable"
  else if l = str "model" then str "Model"
  else if l = str "rule" then str "Rule"
  else if l = str "report" then str "Report"
  else if l = str "read_data" then str "READ_DATA"
  else []

def upsertResult (rs : List ProjectResultDO) (r : ProjectResultDO) : List ProjectResultDO :=
  if rs.any fun q => decide (q.key = r.key) then updateWhere (fun q => decide (q.key = r.key)) (fun _ => r) rs else rs ++ [r]

variable (g : Records) (x : Ends)

/-- The loop over the outputs and the parties. A request that fails counts as an output that is not there, and a statement that fails
ends the loop. -/
def syncOutputs (k : ProjectJobTaskDO) : List (Bytes × Bytes) → List ProjectResultDO → List ProjectResultDO
  | [], rs => rs
  | (ddID, party) :: rest, rs =>
    match if x.query (taskKey k) ddID party then g.domainData party ddID else none with
    | none => syncOutputs k rest rs
    | some type =>
      if ResultKindFromDatatable g.unicode type = [] then syncOutputs k rest rs
      else if x.upsert (taskKey k) ddID party = false then rs
      else
        let rs := upsertResult rs ⟨k.projectId, ResultKindFromDatatable g.unicode type, party, ddID, k.jobId, k.taskId⟩
        if x.detail (taskKey k) ddID party then syncOutputs k rest rs else rs

/-- `loadTaskNodeInfo`, as far as it is about the outputs. -/
def loadOutputs (k : ProjectJobTaskDO) : List Bytes :=
  match g.graphNode (taskKey k) with
  | some outputs => outputs
  | none => if x.node (taskKey k) then (g.storedNode (taskKey k)).getD [] else []

def syncTaskResult (k : ProjectJobTaskDO) (rs : List ProjectResultDO) : List ProjectResultDO :=
  syncOutputs g x k ((loadOutputs g x k).flatMap fun o => (g.parties (taskKey k)).map fun p => (GenTaskOutputID k.jobId o, p)) rs

def succeeds (detail : JobStatusDetailInfo) (id : Bytes) : Bool :=
  (mergeExtendedTasks detail.tasks id).any fun kt => decide (TaskStatusFromKuscia kt.state = .succeed)

def syncTasks (h : JobHolder) (detail : JobStatusDetailInfo) (tasks : List ProjectJobTaskDO) : List ProjectJobTaskDO :=
  let tasks := updateWhere (fun k => inJob h.projectID h.jobID k && x.reads k.taskId) (JobStatusSyncService.report detail.tasks) tasks
  if JobStatusSyncService.stopsTasks detail then stopJobTasks h.projectID h.jobID tasks else tasks

def succeeded (h : JobHolder) (detail : JobStatusDetailInfo) (tasks : List ProjectJobTaskDO) : List ProjectJobTaskDO :=
  tasks.filter fun k => inJob h.projectID h.jobID k && x.reads k.taskId && succeeds detail k.taskId && decide (k.status ≠ .succeed)

/-- The ids under which the scheduler looks for the row of a task. -/
def hookIds (kt : JobTaskStatusDetail) : List Bytes := if kt.alias_ ≠ [] ∧ kt.alias_ ≠ kt.taskId then [kt.taskId, kt.alias_] else [kt.taskId]

def hookTask (s : Sched.ScheduledService) (sj : ProjectScheduleJobDO) (kt : JobTaskStatusDetail) (db : Sched.Db) : Sched.Db :=
  db.updateJobTasks (.taskIn sj.projectId sj.jobId (hookIds kt))
    { status := Sched.mapKusciaTaskStateToNodeStatus s.unicode kt.state, errMsg := if kt.errMsg = [] then none else some kt.errMsg }

def hookJob (s : Sched.ScheduledService) (now : Time) (sj : ProjectScheduleJobDO) (detail : JobStatusDetailInfo) (db : Sched.Db) : Sched.Db :=
  let status := Sched.mapKusciaJobStateToScheduleJob s.unicode detail.state
  db.updateJobs (.id sj.id)
    { status := status, errMsg := if detail.errMsg = [] then none else some detail.errMsg
      finishedTime := if Sched.isScheduleJobFinished status then some (some now) else none }

def hookScheduleTask (status : Sched.ScheduledStatus) (now : Time) (t : ProjectScheduleTaskDO) (db : Sched.Db) : Sched.Db :=
  db.updateTasks (.id t.id) { status := some status, endTime := if Sched.isScheduleTaskTerminal status then some (some now) else none }

/-- The writes of `ApplyKusciaJobStatus`, one after another. -/
def hookWrites (s : Sched.ScheduledService) (now : Time) (sj : ProjectScheduleJobDO) (detail : JobStatusDetailInfo) (db : Sched.Db) :
    List (Sched.Db → Sched.Db) :=
  let status := Sched.ScheduledStatusFrom (Sched.mapKusciaJobStateToScheduleJob s.unicode detail.state)
  detail.tasks.map (hookTask s sj) ++ hookJob s now sj detail ::
    (db.tasks.filter fun t => decide (t.scheduleJobId = sj.jobId) && !Sched.Apply.skips status t).map (hookScheduleTask status now)

def ApplyKusciaJobStatus (s : Sched.ScheduledService) (jobID : Bytes) (detail : JobStatusDetailInfo) (db : Sched.Db) : Option Bytes × Sched.Db :=
  match db.firstJob jobID with
  | none => (none, db)
  | some sj =>
    if sj.status = .succeed then (none, db)
    else match x.hookErr with
      | some (n, e) => (some e, ((hookWrites s x.clock sj detail db).take n).foldl (fun db write => write db) db)
      | none => (none, (hookWrites s x.clock sj detail db).foldl (fun db write => write db) db)

variable (s : JobStatusSyncService)

def runHook (h : JobHolder) (detail : JobStatusDetailInfo) (db : Db) : Option Bytes × Db :=
  match s.hook with
  | none => (none, db)
  | some service =>
    if h.schedule then
      let r := ApplyKusciaJobStatus x service h.jobID detail db.sched
      (r.1, db.setSched r.2)
    else (none, db)

def updateJob (w : World) (h : JobHolder) (detail : JobStatusDetailInfo) : Option Bytes × World :=
  match x.txErr with
  | some e => (some e, w)
  | none =>
    match runHook x s h detail (s.writeJob x.clock h detail (w.db.setTasks (syncTasks x h detail w.db.sched.jobTasks))) with
    | (some e, db) => (some e, ⟨db, w.results⟩)
    | (none, db) => (none, ⟨db, (succeeded x h detail w.db.sched.jobTasks).foldl (fun rs k => syncTaskResult g x k rs) w.results⟩)

def target (w : World) (jobID : Bytes) : Option JobHolder :=
  match if x.findJob then w.db.findJob jobID else none with
  | some job => if IsJobFinished job.status then none else some ⟨job.projectId, jobID, job.status, job.id, false⟩
  | none => match if x.findSchedule then w.db.sched.firstJob jobID else none with
    | some sj => if sj.status = .succeed then none else some ⟨sj.projectId, jobID, sj.status, sj.id, true⟩
    | none => none

def SyncJob (w : World) (jobID : Bytes) (detail : JobStatusDetailInfo) : Option Bytes × World :=
  if x.handled then (none, w)
  else match target x w jobID with
    | none => (none, w)
    | some h => updateJob g x s w h detail

def outputs (k : ProjectJobTaskDO) : List Bytes :=
  match g.graphNode (taskKey k) with
  | some outputs => outputs
  | none => (g.storedNode (taskKey k)).getD []

def Has (rs : List ProjectResultDO) (projectId party ddID : Bytes) : Prop := ∃ r ∈ rs, r.projectId = projectId ∧ r.nodeId = party ∧ r.refId = ddID

/-- Every output that Kuscia has for a party has its row. -/
def HasResults (rs : List ProjectResultDO) (k : ProjectJobTaskDO) : Prop :=
  ∀ o ∈ outputs g k, ∀ p ∈ g.parties (taskKey k), g.domainData p (GenTaskOutputID k.jobId o) ≠ none → Has rs k.projectId p (GenTaskOutputID k.jobId o)

def Fetched (k : ProjectJobTaskDO) (pair : Bytes × Bytes) : Prop :=
  ∀ type, g.domainData pair.2 pair.1 = some type → x.query (taskKey k) pair.1 pair.2 = true ∧ ResultKindFromDatatable g.unicode type ≠ [] ∧
    x.upsert (taskKey k) pair.1 pair.2 = true ∧ x.detail (taskKey k) pair.1 pair.2 = true

variable {g x s} {k k' : ProjectJobTaskDO} {rs : List ProjectResultDO} {r : ProjectResultDO} {p party ddID : Bytes}

theorem upsertResult_keeps (h : Has rs p party ddID) : Has (upsertResult rs r) p party ddID := by
  obtain ⟨q, hq, rfl, rfl, rfl⟩ := h
  unfold upsertResult
  split_ifs
  · by_cases hkey : q.key = r.key
    · have hr : r ∈ updateWhere (fun q => decide (q.key = r.key)) (fun _ => r) rs := Table.mem_updateWhere.2 ⟨q, hq, if_pos (decide_eq_true hkey)⟩
      simp only [ProjectResultDO.key, Prod.mk.injEq] at hkey
      exact ⟨r, hr, hkey.1.symm, hkey.2.2.1.symm, hkey.2.2.2.symm⟩
    · exact ⟨q, Table.mem_updateWhere.2 ⟨q, hq, if_neg fun h => hkey (of_decide_eq_true h)⟩, rfl, rfl, rfl⟩
  · exact ⟨q, List.mem_append_left _ hq, rfl, rfl, rfl⟩

theorem upsertResult_has : Has (upsertResult rs r) r.projectId r.nodeId r.refId := by
  refine ⟨r, ?_, rfl, rfl, rfl⟩
  unfold upsertResult
  split_ifs with hany
  · obtain ⟨q, hq, hkey⟩ := List.any_eq_true.1 hany
    exact Table.mem_updateWhere.2 ⟨q, hq, if_pos hkey⟩
  · exact List.mem_append_right _ (List.mem_singleton_self _)

theorem syncOutputs_keeps {pairs : List (Bytes × Bytes)} (h : Has rs p party ddID) : Has (syncOutputs g x k pairs rs) p party ddID := by
  induction pairs generalizing rs with
  | nil => exact h
  | cons pair rest ih =>
    unfold syncOutputs
    split
    · exact ih h
    · split_ifs
      · exact ih h
      · exact h
      · exact ih (upsertResult_keeps h)
      · exact upsertResult_keeps h

theorem syncOutputs_all {pairs : List (Bytes × Bytes)} (h : ∀ pair ∈ pairs, Fetched g x k pair) :
    ∀ pair ∈ pairs, g.domainData pair.2 pair.1 ≠ none → Has (syncOutputs g x k pairs rs) k.projectId pair.2 pair.1 := by
  induction pairs generalizing rs with
  | nil => exact fun pair hpair => absurd hpair List.not_mem_nil
  | cons first rest ih =>
    obtain ⟨hfirst, hrest⟩ := List.forall_mem_cons.1 h
    intro pair hpair hdata
    unfold syncOutputs
    cases htype : g.domainData first.2 first.1 with
    | none =>
      rw [ite_self]
      rcases List.mem_cons.1 hpair with rfl | hpair
      · exact absurd htype hdata
      · exact ih hrest pair hpair hdata
    | some type =>
      obtain ⟨hquery, hkind, hupsert, hdetail⟩ := hfirst type htype
      simp only [hquery, if_true, if_neg hkind, hupsert, hdetail, Bool.true_eq_false, if_false]
      rcases List.mem_cons.1 hpair with rfl | hpair
      · exact syncOutputs_keeps upsertResult_has
      · exact ih hrest pair hpair hdata

structure Synced (g : Records) (x : Ends) (k : ProjectJobTaskDO) : Prop where
  node : g.graphNode (taskKey k) = none → x.node (taskKey k) = true
  fetched : ∀ o ∈ outputs g k, ∀ p ∈ g.parties (taskKey k), Fetched g x k (GenTaskOutputID k.jobId o, p)

theorem syncTaskResult_keeps (h : Has rs p party ddID) : Has (syncTaskResult g x k rs) p party ddID := syncOutputs_keeps h

theorem syncTaskResult_all (h : Synced g x k) : HasResults g (syncTaskResult g x k rs) k := by
  have hload : loadOutputs g x k = outputs g k := by
    unfold loadOutputs outputs
    cases hnode : g.graphNode (taskKey k) with
    | some _ => rfl
    | none => exact if_pos (h.node hnode)
  intro o ho p hp hdata
  unfold syncTaskResult
  rw [hload]
  refine syncOutputs_all (fun pair hpair => ?_) (GenTaskOutputID k.jobId o, p) ?_ hdata
  · obtain ⟨o, ho, hpair⟩ := List.mem_flatMap.1 hpair
    obtain ⟨p, hp, rfl⟩ := List.mem_map.1 hpair
    exact h.fetched o ho p hp
  · exact List.mem_flatMap.2 ⟨o, ho, List.mem_map.2 ⟨p, hp, rfl⟩⟩

theorem syncAll_keeps {ks : List ProjectJobTaskDO} (h : Has rs p party ddID) : Has (ks.foldl (fun rs k => syncTaskResult g x k rs) rs) p party ddID := by
  induction ks generalizing rs with
  | nil => exact h
  | cons k ks ih => exact ih (syncTaskResult_keeps h)

theorem syncAll_all {ks : List ProjectJobTaskDO} (h : ∀ k ∈ ks, Synced g x k) :
    ∀ k ∈ ks, HasResults g (ks.foldl (fun rs k => syncTaskResult g x k rs) rs) k := by
  induction ks generalizing rs with
  | nil => exact fun k hk => absurd hk List.not_mem_nil
  | cons first ks ih =>
    obtain ⟨hfirst, hks⟩ := List.forall_mem_cons.1 h
    refine List.forall_mem_cons.2 ⟨fun o ho p hp hdata => ?_, ih hks⟩
    show Has (ks.foldl (fun rs k => syncTaskResult g x k rs) (syncTaskResult g x first rs)) _ _ _
    exact syncAll_keeps (syncTaskResult_all hfirst o ho p hp hdata)

variable {h : JobHolder} {detail : JobStatusDetailInfo} {w : World} {jobID : Bytes}

def readRow (x : Ends) (h : JobHolder) (detail : JobStatusDetailInfo) (k : ProjectJobTaskDO) : ProjectJobTaskDO :=
  if inJob h.projectID h.jobID k && x.reads k.taskId then JobStatusSyncService.report detail.tasks k else k

def txRow (x : Ends) (h : JobHolder) (detail : JobStatusDetailInfo) (k : ProjectJobTaskDO) : ProjectJobTaskDO :=
  if JobStatusSyncService.stopsTasks detail && (inJob h.projectID h.jobID (readRow x h detail k) && isPending (readRow x h detail k).status) then
    { readRow x h detail k with status := .stopped }
  else readRow x h detail k

theorem syncTasks_eq {tasks : List ProjectJobTaskDO} : syncTasks x h detail tasks = tasks.map (txRow x h detail) := by
  unfold syncTasks stopJobTasks
  cases hstop : JobStatusSyncService.stopsTasks detail with
  | false => exact List.map_congr_left fun k _ => by simp [txRow, readRow, hstop]
  | true =>
    simp only [if_true, updateWhere, List.map_map]
    exact List.map_congr_left fun k _ => by simp [txRow, readRow, hstop]

theorem readRow_key : taskKey (readRow x h detail k) = taskKey k := by
  unfold readRow JobStatusSyncService.report
  split_ifs
  · split <;> rfl
  · rfl

theorem txRow_key : taskKey (txRow x h detail k) = taskKey k := by
  unfold txRow
  split_ifs
  · exact readRow_key
  · exact readRow_key

theorem report_succeed : (JobStatusSyncService.report detail.tasks k).status = .succeed ↔
    succeeds detail k.taskId = true ∨ mergeExtendedTasks detail.tasks k.taskId = none ∧ k.status = .succeed := by
  unfold JobStatusSyncService.report succeeds
  cases mergeExtendedTasks detail.tasks k.taskId <;> simp

theorem txRow_succeed (hk : (txRow x h detail k).status = .succeed) :
    k.status = .succeed ∨ inJob h.projectID h.jobID k = true ∧ x.reads k.taskId = true ∧ succeeds detail k.taskId = true := by
  have hrow : (readRow x h detail k).status = .succeed := by
    unfold txRow at hk
    split_ifs at hk
    exact hk
  unfold readRow at hrow
  split_ifs at hrow with hread
  · obtain ⟨hin, hread⟩ := Bool.and_eq_true_iff.1 hread
    exact (report_succeed.1 hrow).symm.imp And.right fun h => ⟨hin, hread, h⟩
  · exact .inl hrow

theorem txRow_of_succeeds (hin : inJob h.projectID h.jobID k = true) (hread : x.reads k.taskId = true) (hs : succeeds detail k.taskId = true) :
    (txRow x h detail k).status = .succeed := by
  have hrow : (readRow x h detail k).status = .succeed := by
    unfold readRow
    rw [hin, hread]
    exact report_succeed.2 (.inl hs)
  have hpending : isPending (readRow x h detail k).status = false := by
    rw [hrow]
    rfl
  unfold txRow
  rw [hpending, Bool.and_false, Bool.and_false]
  exact hrow

structure Kept (h : JobHolder) (detail : JobStatusDetailInfo) (k k' : ProjectJobTaskDO) : Prop where
  key : taskKey k' = taskKey k
  only : k'.status = .succeed → k.status = .succeed
  still : k.status = .succeed → inJob h.projectID h.jobID k = true → succeeds detail k.taskId = true → k'.status = .succeed

/-- The state in which Kuscia reports a task says that it has succeeded just if the merged report does. -/
def Agrees (service : Sched.ScheduledService) (h : JobHolder) (detail : JobStatusDetailInfo) (tasks : List ProjectJobTaskDO) : Prop :=
  ∀ kt ∈ detail.tasks, ∀ k ∈ tasks, inJob h.projectID h.jobID k = true → k.taskId ∈ hookIds kt →
    (Sched.mapKusciaTaskStateToNodeStatus service.unicode kt.state = .succeed ↔ succeeds detail k.taskId = true)

def AllKept (h : JobHolder) (detail : JobStatusDetailInfo) (tasks : List ProjectJobTaskDO) (db : Sched.Db) : Prop :=
  ∃ f, db.jobTasks = tasks.map f ∧ ∀ k ∈ tasks, Kept h detail k (f k)

variable {service : Sched.ScheduledService} {sj : ProjectScheduleJobDO} {tasks : List ProjectJobTaskDO}

theorem hookTask_kept {kt : JobTaskStatusDetail} {db : Sched.Db} (hsj : sj.projectId = h.projectID ∧ sj.jobId = h.jobID)
    (hagrees : Agrees service h detail tasks) (hkt : kt ∈ detail.tasks)
    (hdone : ∀ k ∈ tasks, inJob h.projectID h.jobID k = true → succeeds detail k.taskId = true → k.status = .succeed)
    (hdb : AllKept h detail tasks db) : AllKept h detail tasks (hookTask service sj kt db) := by
  obtain ⟨f, hf, hkept⟩ := hdb
  refine ⟨_, (congrArg (updateWhere _ _) hf).trans List.map_map, fun k hk => ?_⟩
  have hfk := hkept k hk
  simp only [Function.comp_apply]
  by_cases hold : (Sched.JobTaskWhere.taskIn sj.projectId sj.jobId (hookIds kt)).holds (f k) = true
  · rw [if_pos hold]
    obtain ⟨hproject, hjob, hid⟩ := of_decide_eq_true hold
    obtain ⟨hp, hj, ht⟩ : (f k).projectId = k.projectId ∧ (f k).jobId = k.jobId ∧ (f k).taskId = k.taskId := by
      simpa [taskKey] using hfk.key
    have hin : inJob h.projectID h.jobID k = true := decide_eq_true ⟨hp ▸ hproject.trans hsj.1, hj ▸ hjob.trans hsj.2⟩
    have hagree := hagrees kt hkt k hk hin (ht ▸ hid)
    exact ⟨hfk.key, fun hs => hdone k hk hin (hagree.1 hs), fun _ _ hs => hagree.2 hs⟩
  · rw [if_neg hold]
    exact hfk

theorem writes_kept {writes : List (Sched.Db → Sched.Db)} {db : Sched.Db}
    (hw : ∀ write ∈ writes, ∀ db, AllKept h detail tasks db → AllKept h detail tasks (write db)) (hdb : AllKept h detail tasks db) :
    AllKept h detail tasks (writes.foldl (fun db write => write db) db) := by
  induction writes generalizing db with
  | nil => exact hdb
  | cons write writes ih =>
    obtain ⟨hfirst, hrest⟩ := List.forall_mem_cons.1 hw
    exact ih hrest (hfirst db hdb)

theorem hookWrites_kept {db : Sched.Db} {now : Time} (hsj : sj.projectId = h.projectID ∧ sj.jobId = h.jobID)
    (hagrees : Agrees service h detail tasks)
    (hdone : ∀ k ∈ tasks, inJob h.projectID h.jobID k = true → succeeds detail k.taskId = true → k.status = .succeed) :
    ∀ write ∈ hookWrites service now sj detail db, ∀ db, AllKept h detail tasks db → AllKept h detail tasks (write db) := by
  intro write hwrite db hdb
  rcases List.mem_append.1 hwrite with hwrite | hwrite
  · obtain ⟨kt, hkt, rfl⟩ := List.mem_map.1 hwrite
    exact hookTask_kept hsj hagrees hkt hdone hdb
  · rcases List.mem_cons.1 hwrite with rfl | hwrite
    · exact hdb
    · obtain ⟨t, -, rfl⟩ := List.mem_map.1 hwrite
      exact hdb

theorem allKept_refl {db : Sched.Db} : AllKept h detail db.jobTasks db :=
  ⟨id, (List.map_id _).symm, fun _ _ => ⟨rfl, fun hs => hs, fun hs _ _ => hs⟩⟩

theorem runHook_kept {db : Db} (hjob : s.hook.isSome = true → h.schedule = true → ∀ sj, db.sched.firstJob h.jobID = some sj → sj.projectId = h.projectID)
    (hagrees : ∀ service, s.hook = some service → h.schedule = true → Agrees service h detail db.sched.jobTasks)
    (hdone : ∀ k ∈ db.sched.jobTasks, inJob h.projectID h.jobID k = true → succeeds detail k.taskId = true → k.status = .succeed) :
    AllKept h detail db.sched.jobTasks (runHook x s h detail db).2.sched := by
  unfold runHook
  cases hhook : s.hook with
  | none => exact allKept_refl
  | some service =>
    dsimp only
    split_ifs with hschedule
    · show AllKept h detail db.sched.jobTasks (ApplyKusciaJobStatus x service h.jobID detail db.sched).2
      unfold ApplyKusciaJobStatus
      cases hfind : db.sched.firstJob h.jobID with
      | none => exact allKept_refl
      | some sj =>
        have hid : sj.jobId = h.jobID := by
          have := List.find?_some hfind
          exact of_decide_eq_true this
        have hwrites : ∀ write ∈ hookWrites service x.clock sj detail db.sched, ∀ db', AllKept h detail db.sched.jobTasks db' →
            AllKept h detail db.sched.jobTasks (write db') :=
          hookWrites_kept ⟨hjob (hhook ▸ rfl) hschedule sj hfind, hid⟩ (hagrees service hhook hschedule) hdone
        dsimp only
        split_ifs
        · exact allKept_refl
        · cases x.hookErr with
          | none => exact writes_kept hwrites allKept_refl
          | some e => exact writes_kept (fun write hwrite => hwrites write (List.mem_of_mem_take hwrite)) allKept_refl
    · exact allKept_refl

theorem runHook_ok {db : Db} (hok : ∀ service, s.hook = some service → h.schedule = true → x.hookErr = none) : (runHook x s h detail db).1 = none := by
  unfold runHook
  cases hhook : s.hook with
  | none => rfl
  | some service =>
    dsimp only
    split_ifs with hschedule
    · show (ApplyKusciaJobStatus x service h.jobID detail db.sched).1 = none
      unfold ApplyKusciaJobStatus
      rw [hok service hhook hschedule]
      cases db.sched.firstJob h.jobID with
      | none => rfl
      | some sj => dsimp only; split_ifs <;> rfl
    · rfl

theorem writeJob_jobTasks {db : Db} {now : Time} : (s.writeJob now h detail db).sched.jobTasks = db.sched.jobTasks := by
  unfold JobStatusSyncService.writeJob JobStatusSyncService.writeScheduleJob
  split_ifs <;> rfl

theorem writeJob_schedule {db : Db} {now : Time} (hschedule : h.schedule = true) (hhook : s.hook.isSome = true) : s.writeJob now h detail db = db := by
  unfold JobStatusSyncService.writeJob
  rw [if_pos hschedule, if_pos hhook]

theorem target_jobID (ht : target x w jobID = some h) : h.jobID = jobID := by
  unfold target at ht
  split at ht
  · split_ifs at ht
    exact (Option.some.inj ht) ▸ rfl
  · split at ht
    · split_ifs at ht
      exact (Option.some.inj ht) ▸ rfl
    · cases ht

theorem target_schedule (ht : target x w jobID = some h) (hs : h.schedule = true) : ∃ sj, w.db.sched.firstJob jobID = some sj ∧ sj.projectId = h.projectID := by
  unfold target at ht
  split at ht
  · split_ifs at ht
    obtain rfl := Option.some.inj ht
    cases hs
  · split at ht
    next sj hsj =>
      split_ifs at ht
      obtain rfl := Option.some.inj ht
      split_ifs at hsj
      exact ⟨sj, hsj, rfl⟩
    · cases ht

/-- The response is applied to the job, and the transaction goes through. -/
def Applied (x : Ends) (w : World) (jobID : Bytes) (h : JobHolder) : Prop := x.handled = false ∧ target x w jobID = some h ∧ x.txErr = none

/-- A call of `SyncJob` that loses nothing: a task reported as succeeded is known, and has succeeded already if the response is not applied; when
one comes to SUCCEED nothing fails for its outputs, and neither does the hook, which sees the same tasks succeed. -/
structure Clean (g : Records) (s : JobStatusSyncService) (x : Ends) (w : World) (jobID : Bytes) (detail : JobStatusDetailInfo) : Prop where
  idle : (x.handled = true ∨ target x w jobID = none) → ∀ id, succeeds detail id = true →
    ∃ k ∈ w.db.sched.jobTasks, k.jobId = jobID ∧ k.taskId = id ∧ k.status = .succeed
  known : ∀ h, Applied x w jobID h → ∀ id, succeeds detail id = true →
    ∃ k ∈ w.db.sched.jobTasks, inJob h.projectID h.jobID k = true ∧ k.taskId = id
  read : ∀ h, Applied x w jobID h → ∀ k ∈ w.db.sched.jobTasks, inJob h.projectID h.jobID k = true → succeeds detail k.taskId = true →
    x.reads k.taskId = true
  synced : ∀ h, Applied x w jobID h → ∀ k ∈ w.db.sched.jobTasks, inJob h.projectID h.jobID k = true → succeeds detail k.taskId = true →
    k.status ≠ .succeed → Synced g x k
  hook : ∀ h, Applied x w jobID h → ∀ service, s.hook = some service → h.schedule = true →
    x.hookErr = none ∧ Agrees service h detail w.db.sched.jobTasks

def Inv (g : Records) (w : World) : Prop := ∀ k ∈ w.db.sched.jobTasks, k.status = .succeed → HasResults g w.results k

/-- The tasks that the response reports as succeeded are SUCCEED, with their results. -/
def Told (g : Records) (w : World) (jobID : Bytes) (detail : JobStatusDetailInfo) : Prop :=
  ∀ id, succeeds detail id = true → ∃ k ∈ w.db.sched.jobTasks, k.jobId = jobID ∧ k.taskId = id ∧ k.status = .succeed ∧ HasResults g w.results k

theorem HasResults.congr (hkey : taskKey k' = taskKey k) (hk : HasResults g rs k) : HasResults g rs k' := by
  obtain ⟨hp, hj, -⟩ : k'.projectId = k.projectId ∧ k'.jobId = k.jobId ∧ k'.taskId = k.taskId := by simpa [taskKey] using hkey
  unfold HasResults outputs at *
  rw [hkey, hp, hj]
  exact hk

theorem key_iff : taskKey k' = taskKey k ↔ k'.projectId = k.projectId ∧ k'.jobId = k.jobId ∧ k'.taskId = k.taskId := by
  simp only [taskKey, Prod.mk.injEq]

theorem inJob_congr {a b : Bytes} (hkey : taskKey k' = taskKey k) : inJob a b k' = inJob a b k := by
  obtain ⟨hp, hj, -⟩ := key_iff.1 hkey
  rw [inJob, inJob, hp, hj]

theorem rows_after (hc : Clean g s x w jobID detail) (ha : Applied x w jobID h) :
    AllKept h detail (w.db.sched.jobTasks.map (txRow x h detail))
      (runHook x s h detail (s.writeJob x.clock h detail (w.db.setTasks (syncTasks x h detail w.db.sched.jobTasks)))).2.sched := by
  have ht := ha.2.1
  have htasks : (s.writeJob x.clock h detail (w.db.setTasks (syncTasks x h detail w.db.sched.jobTasks))).sched.jobTasks =
      w.db.sched.jobTasks.map (txRow x h detail) := writeJob_jobTasks.trans syncTasks_eq
  rw [← htasks]
  refine runHook_kept (fun hhook hschedule sj hsj => ?_) (fun service hservice hschedule => ?_) ?_
  · obtain ⟨sj', hsj', hproject⟩ := target_schedule ht hschedule
    rw [writeJob_schedule hschedule hhook, target_jobID ht] at hsj
    obtain rfl := Option.some.inj (hsj'.symm.trans hsj)
    exact hproject
  · rw [htasks]
    intro kt hkt k₁ hk₁ hin hid
    obtain ⟨k, hk, rfl⟩ := List.mem_map.1 hk₁
    rw [inJob_congr txRow_key] at hin
    rw [(key_iff.1 txRow_key).2.2] at hid ⊢
    exact (hc.hook h ha service hservice hschedule).2 kt hkt k hk hin hid
  · rw [htasks]
    intro k₁ hk₁ hin hs
    obtain ⟨k, hk, rfl⟩ := List.mem_map.1 hk₁
    rw [inJob_congr txRow_key] at hin
    rw [(key_iff.1 txRow_key).2.2] at hs
    exact txRow_of_succeeds hin (hc.read h ha k hk hin hs) hs

theorem updateJob_clean (hc : Clean g s x w jobID detail) (ha : Applied x w jobID h) (hinv : Inv g w) :
    Inv g (updateJob g x s w h detail).2 ∧ Told g (updateJob g x s w h detail).2 jobID detail := by
  obtain ⟨f, hf, hkept⟩ := rows_after hc ha
  have hrun : updateJob g x s w h detail =
      (none, ⟨(runHook x s h detail (s.writeJob x.clock h detail (w.db.setTasks (syncTasks x h detail w.db.sched.jobTasks)))).2,
        (succeeded x h detail w.db.sched.jobTasks).foldl (fun rs k => syncTaskResult g x k rs) w.results⟩) := by
    have hok : (runHook x s h detail (s.writeJob x.clock h detail (w.db.setTasks (syncTasks x h detail w.db.sched.jobTasks)))).1 = none :=
      runHook_ok fun service hservice hschedule => (hc.hook h ha service hservice hschedule).1
    unfold updateJob
    rw [ha.2.2]
    dsimp only
    split
    next e db hr =>
      rw [hr] at hok
      cases hok
    next db hr => rw [hr]
  rw [hrun]
  have hsynced : ∀ k ∈ w.db.sched.jobTasks, inJob h.projectID h.jobID k = true → x.reads k.taskId = true → succeeds detail k.taskId = true →
      k.status ≠ .succeed → HasResults g ((succeeded x h detail w.db.sched.jobTasks).foldl (fun rs k => syncTaskResult g x k rs) w.results) k := by
    intro k hk hin hread hs hne
    refine syncAll_all (fun k hk => ?_) k (List.mem_filter.2 ⟨hk, ?_⟩)
    · obtain ⟨hk, hk'⟩ := List.mem_filter.1 hk
      simp only [Bool.and_eq_true, decide_eq_true_eq] at hk'
      exact hc.synced h ha k hk hk'.1.1.1 hk'.1.2 hk'.2
    · simp only [Bool.and_eq_true, decide_eq_true_eq]
      exact ⟨⟨⟨hin, hread⟩, hs⟩, hne⟩
  have hinv' : Inv g ⟨(runHook x s h detail (s.writeJob x.clock h detail (w.db.setTasks (syncTasks x h detail w.db.sched.jobTasks)))).2,
      (succeeded x h detail w.db.sched.jobTasks).foldl (fun rs k => syncTaskResult g x k rs) w.results⟩ := by
    intro k₂ hk₂ hs₂
    rw [hf, List.map_map] at hk₂
    obtain ⟨k, hk, rfl⟩ := List.mem_map.1 hk₂
    have hkeep := hkept _ (List.mem_map_of_mem hk)
    refine HasResults.congr (hkeep.key.trans txRow_key) ?_
    by_cases hold : k.status = .succeed
    · exact fun o ho p hp hdata => syncAll_keeps (hinv k hk hold o ho p hp hdata)
    · obtain ⟨hin, hread, hs⟩ := (txRow_succeed (hkeep.only hs₂)).resolve_left hold
      exact hsynced k hk hin hread hs hold
  refine ⟨hinv', fun id hid => ?_⟩
  obtain ⟨k, hk, hin, rfl⟩ := hc.known h ha id hid
  have hkeep := hkept _ (List.mem_map_of_mem hk)
  have htx := txRow_of_succeeds hin (hc.read h ha k hk hin hid) hid
  have hmem : f (txRow x h detail k) ∈ (runHook x s h detail (s.writeJob x.clock h detail
      (w.db.setTasks (syncTasks x h detail w.db.sched.jobTasks)))).2.sched.jobTasks := by
    rw [hf, List.map_map]
    exact List.mem_map_of_mem hk
  have hstill := hkeep.still htx (by rwa [inJob_congr txRow_key]) (by rwa [(key_iff.1 txRow_key).2.2])
  obtain ⟨-, hj, ht⟩ := key_iff.1 (hkeep.key.trans txRow_key)
  have hjob : k.jobId = jobID := (of_decide_eq_true hin).2.trans (target_jobID ha.2.1)
  exact ⟨_, hmem, hj.trans hjob, ht, hstill, hinv' _ hmem hstill⟩

theorem syncJob_clean (hc : Clean g s x w jobID detail) (hinv : Inv g w) :
    Inv g (SyncJob g x s w jobID detail).2 ∧ ((SyncJob g x s w jobID detail).1 = none → Told g (SyncJob g x s w jobID detail).2 jobID detail) := by
  have hidle (hno : x.handled = true ∨ target x w jobID = none) : Told g w jobID detail := by
    intro id hid
    obtain ⟨k, hk, hj, ht, hs⟩ := hc.idle hno id hid
    exact ⟨k, hk, hj, ht, hs, hinv k hk hs⟩
  unfold SyncJob
  cases hhandled : x.handled with
  | true => exact ⟨hinv, fun _ => hidle (.inl hhandled)⟩
  | false =>
    rw [if_neg Bool.false_ne_true]
    cases ht : target x w jobID with
    | none => exact ⟨hinv, fun _ => hidle (.inr ht)⟩
    | some h =>
      cases htx : x.txErr with
      | some e =>
        have hrun : updateJob g x s w h detail = (some e, w) := by
          unfold updateJob
          rw [htx]
        simp only [hrun]
        exact ⟨hinv, nofun⟩
      | none =>
        obtain ⟨hinv', htold⟩ := updateJob_clean hc ⟨hhandled, ht, htx⟩ hinv
        exact ⟨hinv', fun _ => htold⟩

/-- A call of `SyncJob`, the stop of a job, or a new job. -/
inductive Act
  | sync (jobID : Bytes) (detail : JobStatusDetailInfo) (x : Ends)
  | stop (projectID jobID : Bytes)
  | create (job : ProjectJobDO) (tasks : List ProjectJobTaskDO)

def step (g : Records) (s : JobStatusSyncService) (w : World) : Act → Option World
  | .sync jobID detail x => some (SyncJob g x s w jobID detail).2
  | .stop projectID jobID => some { w with
      db := (w.db.setTasks (stopJobTasks projectID jobID w.db.sched.jobTasks)).updateJobs
        (fun j => decide (j.projectId = projectID ∧ j.jobId = jobID)) (some .stopped) none none }
  | .create job tasks => (w.db.createJob job tasks).map fun db => { w with db := db }

/-- Kuscia has nothing of a task that is SUCCEED from the start, as those of the platform are. -/
def CleanAct (g : Records) (s : JobStatusSyncService) (w : World) : Act → Prop
  | .sync jobID detail x => Clean g s x w jobID detail
  | .stop _ _ => True
  | .create _ tasks => ∀ k ∈ tasks, k.status = .succeed → HasResults g [] k

theorem inv_step (w : World) (a : Act) (w' : World) (hinv : Inv g w) (hc : CleanAct g s w a) (hstep : step g s w a = some w') : Inv g w' := by
  cases a with
  | sync jobID detail x =>
    obtain rfl := Option.some.inj hstep
    exact (syncJob_clean hc hinv).1
  | stop projectID jobID =>
    obtain rfl := Option.some.inj hstep
    intro k hk hs
    obtain ⟨k', hk', rfl⟩ := Table.mem_updateWhere.1 hk
    split_ifs at hs ⊢ with hstop
    exact hinv k' hk' hs
  | create job tasks =>
    obtain ⟨db, hdb, rfl⟩ := Option.map_eq_some_iff.1 hstep
    unfold Db.createJob at hdb
    split_ifs at hdb
    obtain rfl := Option.some.inj hdb
    intro k hk hs
    rcases List.mem_append.1 hk with hk | hk
    · exact hinv k hk hs
    · intro o ho p hp hdata
      obtain ⟨r, hr, -⟩ := hc k hk hs o ho p hp hdata
      cases hr

/-- In a run in which no call loses anything, a response that is taken without an error leaves its tasks SUCCEED, with their results. -/
theorem told_of_clean {as : List Act} {w₀ : World} (hinv : Inv g w₀) (hclean : Lts.RunAll (step g s) (CleanAct g s) w₀ as)
    (hrun : Lts.run (step g s) w₀ as = some w) (hc : Clean g s x w jobID detail) (hok : (SyncJob g x s w jobID detail).1 = none) :
    Told g (SyncJob g x s w jobID detail).2 jobID detail :=
  (syncJob_clean hc (Lts.run_invariant inv_step hinv hclean hrun)).2 hok

def oneOutput : Records := ⟨fun _ => [str "alice"], fun _ => some [str "o"], fun _ => none, fun _ _ => some (str "table"), .asciiCase⟩

def noSched : Sched.Db where
  schedules := []
  tasks := []
  jobs := []
  jobTasks := [⟨str "p", str "j", str "j-t", .running, []⟩]
  results := []
  task_ids := List.nodup_nil
  task_keys := List.nodup_nil
  task_jobs := List.nodup_nil
  job_pks := List.nodup_nil
  job_ids := List.nodup_nil

def oneTask : World where
  db := ⟨noSched, [⟨1, str "p", str "j", str "g", .running, [], none, 0⟩], false, 2, List.nodup_singleton _, List.nodup_singleton _, by decide⟩
  results := []

def response : JobStatusDetailInfo := ⟨str "Running", [], [], [⟨str "j-t", str "j-t", str "Succeeded", []⟩]⟩

def ends (query : Bool) : Ends where
  handled := false
  findJob := true
  findSchedule := true
  reads _ := true
  txErr := none
  hookErr := none
  node _ := true
  query _ _ _ := query
  upsert _ _ _ := true
  detail _ _ _ := true
  clock := 0

def noHook : JobStatusSyncService := ⟨none, 0, fun _ => none⟩

theorem told_of_clean_once : Told oneOutput (SyncJob oneOutput (ends true) noHook oneTask (str "j") response).2 (str "j") response := by
  have hinv : Inv oneOutput oneTask := by
    intro k hk hs
    obtain rfl := List.mem_singleton.1 hk
    cases hs
  have htarget : target (ends true) oneTask (str "j") = some ⟨str "p", str "j", .running, 1, false⟩ := rfl
  have hkind : ResultKindFromDatatable .asciiCase (str "table") ≠ [] := by decide +kernel
  have hclean : Lts.RunAll (step oneOutput noHook) (CleanAct oneOutput noHook) oneTask [] := trivial
  refine told_of_clean hinv hclean rfl ?_ rfl
  refine ⟨fun hno => ?_, fun h ha id hid => ?_, fun _ _ _ _ _ _ => rfl, fun _ _ k _ _ _ _ => ⟨fun _ => rfl, fun o _ p _ type htype => ?_⟩, ?_⟩
  · rcases hno with hno | hno
    · cases hno
    · rw [htarget] at hno
      cases hno
  · obtain rfl := Option.some.inj (htarget.symm.trans ha.2.1)
    refine ⟨_, List.mem_singleton_self _, rfl, ?_⟩
    by_contra hne
    have hbase : base response.tasks id = none := List.find?_eq_none.2 fun t ht hraw => by
      obtain rfl := List.mem_singleton.1 (List.mem_reverse.1 ht)
      exact hne (of_decide_eq_true hraw).1
    have hext : ext response.tasks id = none := List.find?_eq_none.2 fun t ht hraw => by
      obtain rfl := List.mem_singleton.1 (List.mem_reverse.1 ht)
      cases of_decide_eq_true hraw
    rw [succeeds, mergeExtendedTasks, hbase, hext] at hid
    cases hid
  · obtain rfl := Option.some.inj htype
    exact ⟨rfl, hkind, rfl, rfl⟩
  · intro h _ service hservice
    cases hservice

/-- The first response comes while Kuscia does not answer for the output, the second one when all works again. -/
theorem result_lost :
    (SyncJob oneOutput (ends true) noHook (SyncJob oneOutput (ends false) noHook oneTask (str "j") response).2 (str "j") response).1 = none ∧
    (SyncJob oneOutput (ends true) noHook (SyncJob oneOutput (ends false) noHook oneTask (str "j") response).2 (str "j") response).2.db.sched.jobTasks.map
      (·.status) = [.succeed] ∧
    (SyncJob oneOutput (ends true) noHook (SyncJob oneOutput (ends false) noHook oneTask (str "j") response).2 (str "j") response).2.results = [] ∧
    oneOutput.domainData (str "alice") (GenTaskOutputID (str "j") (str "o")) = some (str "table") := by
  refine ⟨rfl, ?_, ?_, rfl⟩
  · decide +kernel
  · decide +kernel

end Job.Results
