import Privahub.Job.Results

/-!
# The jobs of TEE data management

The rows of tee_node_datatable_management and `SyncTeeJobs`, which asks Kuscia for the jobs of the RUNNING ones. One pass is the look-up
of these rows and then, for each, the answer of Kuscia, the update of the row and what a finished job brings with it: a pulled result,
or the removal of the row that has been undone.
`operateInfo` is held parsed, and only the rows that are not deleted are held.
-/

namespace Tee

open Table (updateWhere)
open Job.Results (ProjectResultDO ResultKindFromDatatable upsertResult)

inductive TeeJobKind
  | pushAuth
  | push
  | auth
  | delete
  | pull
  | cancelAuth
  deriving DecidableEq

inductive TeeJobStatus
  | running
  | success
  | failed
  deriving DecidableEq

structure TeeNodeDatatableManagementDO where
  id : Nat
  nodeId : Bytes
  teeNodeId : Bytes
  datatableId : Bytes
  datasourceId : Bytes
  kind : TeeJobKind
  jobId : Bytes
  status : TeeJobStatus
  errMsg : Bytes
  operateInfo : List (Bytes × Bytes)
  gmtCreate : Int
  deriving DecidableEq

def teeOperateRelativeURI : Bytes := str "relativeUri"
def teeOperateGrantID : Bytes := str "domaindatagrant_id"
def teeOperatePushToTeeJobID : Bytes := str "pushToTeeJobId"
def teeOperateProjectID : Bytes := str "project_id"
def teeOperateVoteResult : Bytes := str "vote_result"
def teeOperateProjectJobID : Bytes := str "projectJobId"
def teeOperateProjectTaskID : Bytes := str "projectJobTaskId"
def teeOperateResultType : Bytes := str "resultType"
def teeOperateAuthProjectJob : Bytes := str "authToTeeProjectJobId"

def operateInfoString (m : TeeNodeDatatableManagementDO) (key : Bytes) : Bytes := (m.operateInfo.lookup key).getD []

structure World where
  records : List TeeNodeDatatableManagementDO
  results : List ProjectResultDO
  nextId : Nat

def World.create (w : World) (m : TeeNodeDatatableManagementDO) : World :=
  { w with records := w.records ++ [{ m with id := w.nextId }], nextId := w.nextId + 1 }

/-- `tasks` has their error messages. -/
structure KusciaJobStatus where
  state : Bytes
  errMsg : Bytes
  tasks : List Bytes
  deriving DecidableEq

structure Ends where
  status : Bool
  upsert : Bool
  delete : Bool
  deriving DecidableEq

variable (u : CaseTables)

def graphjobResultKind (resourceType : Bytes) : Bytes :=
  if ResultKindFromDatatable u resourceType ≠ [] then ResultKindFromDatatable u resourceType
  else ([str "FedTable", str "Model", str "Rule", str "Report", str "READ_DATA"].find? fun k => Graph.EqualFold u k resourceType).getD (str "FedTable")

def pulledResult (m : TeeNodeDatatableManagementDO) : ProjectResultDO where
  projectId := operateInfoString m teeOperateProjectID
  kind := graphjobResultKind u (operateInfoString m teeOperateResultType)
  nodeId := m.nodeId
  refId := m.datatableId
  jobId := operateInfoString m teeOperateProjectJobID
  taskId := operateInfoString m teeOperateProjectTaskID

def SyncTeePullResult (x : Ends) (m : TeeNodeDatatableManagementDO) (rs : List ProjectResultDO) : List ProjectResultDO :=
  if m.kind ≠ .pull then rs
  else if operateInfoString m teeOperateProjectID = [] then rs
  else if x.upsert then upsertResult rs (pulledResult u m)
  else rs

def settle (st : KusciaJobStatus) (m : TeeNodeDatatableManagementDO) : Option TeeNodeDatatableManagementDO :=
  let state := Sched.ToLower u st.state
  if state = str "succeeded" then some { m with status := .success }
  else if state = str "failed" ∨ state = str "cancelled" then
    some { m with status := .failed, errMsg := st.tasks.foldl (fun e t => if t ≠ [] then t else e) st.errMsg }
  else none

def undone (m : TeeNodeDatatableManagementDO) : Bytes :=
  match m.kind with
  | .delete => operateInfoString m teeOperatePushToTeeJobID
  | .cancelAuth => operateInfoString m teeOperateAuthProjectJob
  | _ => []

def finish (x : Ends) (m m' : TeeNodeDatatableManagementDO) (w : World) : World :=
  let records := updateWhere (fun r => decide (r.id = m.id)) (fun r => { r with status := m'.status, errMsg := m'.errMsg }) w.records
  { w with
    records := if undone m ≠ [] ∧ m'.status = .success ∧ x.delete then records.filter fun r => decide (r.jobId ≠ undone m) else records
    results := SyncTeePullResult u x m w.results }

def syncTeeJob (answer : Option KusciaJobStatus) (x : Ends) (m : TeeNodeDatatableManagementDO) (w : World) : World :=
  match answer with
  | none => w
  | some st => match settle u st m with
    | none => { w with results := SyncTeePullResult u x m w.results }
    | some m' => if x.status then finish u x m m' w else w

def running (w : World) : List TeeNodeDatatableManagementDO := w.records.filter fun m => decide (m.status = .running)

def SyncTeeJobs (find : Bool) (answer : TeeNodeDatatableManagementDO → Option KusciaJobStatus) (x : TeeNodeDatatableManagementDO → Ends)
    (w : World) : World :=
  if find then (running w).foldl (fun w m => syncTeeJob u (answer m) (x m) m w) w else w

/-- `rest` has the rows that the pass has read and not come to. -/
structure Poll where
  w : World
  rest : List TeeNodeDatatableManagementDO

/-- A new row, the beginning of a pass, its next row, or its end before all rows are done. -/
inductive Act
  | create (m : TeeNodeDatatableManagementDO)
  | find
  | sync (answer : Option KusciaJobStatus) (x : Ends)
  | stop

/-- A row begins as RUNNING, unless it is that of a grant. -/
def step (s : Poll) : Act → Option Poll
  | .create m => if m.status = .running ∨ m.kind = .pushAuth then some { s with w := s.w.create m } else none
  | .find => if s.rest = [] then some { s with rest := running s.w } else none
  | .sync answer x => match s.rest with
    | [] => none
    | m :: rest => some ⟨syncTeeJob u answer x m s.w, rest⟩
  | .stop => some { s with rest := [] }

/-- A row that has succeeded has had its effect: the result that it pulled has its row, and no older row has the job that it undoes. -/
structure Done (w : World) (r : TeeNodeDatatableManagementDO) : Prop where
  pulled : r.kind = .pull → (pulledResult u r).key ∈ w.results.map ProjectResultDO.key
  removed : undone r ≠ [] → ∀ p ∈ w.records, p.id < r.id → p.jobId ≠ undone r

def AllDone (w : World) : Prop := ∀ r ∈ w.records, r.status = .success → Done u w r

def succeeds (answer : Option KusciaJobStatus) (x : Ends) (m : TeeNodeDatatableManagementDO) : Bool :=
  x.status && ((answer.bind fun st => settle u st m).any fun m' => decide (m'.status = .success))

/-- When a row comes to SUCCESS its effect goes through too. -/
def Clean (s : Poll) : Act → Prop
  | .sync answer x => ∀ m ∈ s.rest.head?, succeeds u answer x m = true →
      (m.kind = .pull → operateInfoString m teeOperateProjectID ≠ [] ∧ x.upsert = true) ∧ (undone m ≠ [] → x.delete = true)
  | _ => True

instance (s : Poll) : ∀ a, Decidable (Clean u s a)
  | .create _ | .find | .stop => inferInstanceAs (Decidable True)
  | .sync answer x => inferInstanceAs (Decidable (∀ m ∈ s.rest.head?, succeeds u answer x m = true →
      (m.kind = .pull → operateInfoString m teeOperateProjectID ≠ [] ∧ x.upsert = true) ∧ (undone m ≠ [] → x.delete = true)))

/-- `r` is the row `m`, with another status perhaps. -/
def SameRow (r m : TeeNodeDatatableManagementDO) : Prop := ∃ status errMsg, r = { m with status := status, errMsg := errMsg }

/-- `rest` has a row as it was read, and only its status may have changed since. -/
structure Inv (s : Poll) : Prop where
  unique : (s.w.records.map fun r => r.id).Nodup
  below : ∀ r ∈ s.w.records, r.id < s.w.nextId
  rest : ∀ m ∈ s.rest, m.id < s.w.nextId ∧ ∀ r ∈ s.w.records, r.id = m.id → SameRow r m
  done : AllDone u s.w

variable {u} {answer : Option KusciaJobStatus} {x : Ends} {m r r' : TeeNodeDatatableManagementDO} {w : World} {s s' : Poll} {a : Act}

namespace SameRow

theorem refl : SameRow r r := ⟨r.status, r.errMsg, rfl⟩

theorem trans (h : SameRow r' r) (hr : SameRow r m) : SameRow r' m := by
  obtain ⟨status, errMsg, rfl⟩ := h
  obtain ⟨_, _, rfl⟩ := hr
  exact ⟨status, errMsg, rfl⟩

theorem id (h : SameRow r m) : r.id = m.id := by
  obtain ⟨_, _, rfl⟩ := h
  rfl

theorem jobId (h : SameRow r m) : r.jobId = m.jobId := by
  obtain ⟨_, _, rfl⟩ := h
  rfl

theorem kind (h : SameRow r m) : r.kind = m.kind := by
  obtain ⟨_, _, rfl⟩ := h
  rfl

theorem undone (h : SameRow r m) : undone r = undone m := by
  obtain ⟨_, _, rfl⟩ := h
  rfl

theorem pulledResult (h : SameRow r m) : pulledResult u r = pulledResult u m := by
  obtain ⟨_, _, rfl⟩ := h
  rfl

end SameRow

theorem mem_keys_upsertResult {rs : List ProjectResultDO} {q : ProjectResultDO} {k : Bytes × Bytes × Bytes × Bytes} :
    k ∈ (upsertResult rs q).map ProjectResultDO.key ↔ k = q.key ∨ k ∈ rs.map ProjectResultDO.key := by
  unfold upsertResult
  split_ifs with hany
  · have hcol : (updateWhere (fun p => decide (p.key = q.key)) (fun _ => q) rs).map ProjectResultDO.key = rs.map ProjectResultDO.key :=
      Table.map_updateWhere_of_mem _ fun p _ hp => (of_decide_eq_true hp).symm
    rw [hcol]
    refine ⟨.inr, fun hk => hk.elim (fun hk => ?_) id⟩
    obtain ⟨p, hp, hkey⟩ := List.any_eq_true.1 hany
    exact hk ▸ List.mem_map.2 ⟨p, hp, of_decide_eq_true hkey⟩
  · rw [List.map_append, List.mem_append, List.map_singleton, List.mem_singleton, or_comm]

theorem pull_keeps {rs : List ProjectResultDO} {k : Bytes × Bytes × Bytes × Bytes} (h : k ∈ rs.map ProjectResultDO.key) :
    k ∈ (SyncTeePullResult u x m rs).map ProjectResultDO.key := by
  unfold SyncTeePullResult
  split_ifs
  · exact h
  · exact h
  · exact mem_keys_upsertResult.2 (.inr h)
  · exact h

theorem pull_has {rs : List ProjectResultDO} (hk : m.kind = .pull) (hproject : operateInfoString m teeOperateProjectID ≠ []) (hx : x.upsert = true) :
    (pulledResult u m).key ∈ (SyncTeePullResult u x m rs).map ProjectResultDO.key := by
  unfold SyncTeePullResult
  rw [if_neg (not_not.2 hk), if_neg hproject, if_pos hx]
  exact mem_keys_upsertResult.2 (.inl rfl)

theorem sync_cases : (succeeds u answer x m = false ∧
      (syncTeeJob u answer x m w = w ∨ syncTeeJob u answer x m w = { w with results := SyncTeePullResult u x m w.results })) ∨
    ∃ m', succeeds u answer x m = decide (m'.status = .success) ∧ syncTeeJob u answer x m w = finish u x m m' w := by
  unfold syncTeeJob succeeds
  cases answer with
  | none => exact .inl ⟨Bool.and_false _, .inl rfl⟩
  | some st =>
    dsimp only [Option.bind_some]
    cases settle u st m with
    | none => exact .inl ⟨Bool.and_false _, .inr rfl⟩
    | some m' =>
      cases hx : x.status with
      | false => exact .inl ⟨Bool.false_and _, .inl rfl⟩
      | true => exact .inr ⟨m', Bool.true_and _, rfl⟩

theorem mem_finish {m' : TeeNodeDatatableManagementDO} (h : r' ∈ (finish u x m m' w).records) :
    ∃ r ∈ w.records, SameRow r' r ∧ (r'.status = .success → r.status = .success ∨ r.id = m.id ∧ m'.status = .success) := by
  have hupdated : r' ∈ updateWhere (fun r => decide (r.id = m.id)) (fun r => { r with status := m'.status, errMsg := m'.errMsg }) w.records := by
    unfold finish at h
    dsimp only at h
    split_ifs at h
    · exact (List.mem_filter.1 h).1
    · exact h
  obtain ⟨r, hr, rfl⟩ := Table.mem_updateWhere.1 hupdated
  refine ⟨r, hr, ?_⟩
  by_cases hid : r.id = m.id
  · rw [if_pos (decide_eq_true hid)]
    exact ⟨⟨_, _, rfl⟩, fun hsuccess => .inr ⟨hid, hsuccess⟩⟩
  · rw [if_neg fun h => hid (of_decide_eq_true h)]
    exact ⟨.refl, .inl⟩

theorem mem_sync (h : r' ∈ (syncTeeJob u answer x m w).records) :
    ∃ r ∈ w.records, SameRow r' r ∧ (r'.status = .success → r.status = .success ∨ r.id = m.id ∧ succeeds u answer x m = true) := by
  obtain ⟨-, hw | hw⟩ | ⟨m', hs, hw⟩ := @sync_cases u answer x m w
  · exact ⟨r', hw ▸ h, .refl, .inl⟩
  · rw [hw] at h
    exact ⟨r', h, .refl, .inl⟩
  · obtain ⟨r, hr, hsame, hsuccess⟩ := mem_finish (hw ▸ h)
    exact ⟨r, hr, hsame, fun h => (hsuccess h).imp_right fun h => ⟨h.1, hs.trans (decide_eq_true h.2)⟩⟩

theorem sync_ids : ((syncTeeJob u answer x m w).records.map fun r => r.id).Sublist (w.records.map fun r => r.id) := by
  obtain ⟨-, hw | hw⟩ | ⟨m', -, hw⟩ := @sync_cases u answer x m w
  · rw [hw]
  · rw [hw]
  · have hids : (updateWhere (fun r => decide (r.id = m.id)) (fun r => { r with status := m'.status, errMsg := m'.errMsg }) w.records).map
        (fun r => r.id) = w.records.map fun r => r.id := Table.map_updateWhere _ fun _ => rfl
    rw [hw, ← hids]
    unfold finish
    dsimp only
    split_ifs
    · exact List.filter_sublist.map _
    · exact .refl _

@[simp] theorem sync_nextId : (syncTeeJob u answer x m w).nextId = w.nextId := by
  obtain ⟨-, hw | hw⟩ | ⟨m', -, hw⟩ := @sync_cases u answer x m w <;> rw [hw]
  rfl

theorem sync_results {k : Bytes × Bytes × Bytes × Bytes} (h : k ∈ w.results.map ProjectResultDO.key) :
    k ∈ (syncTeeJob u answer x m w).results.map ProjectResultDO.key := by
  obtain ⟨-, hw | hw⟩ | ⟨m', -, hw⟩ := @sync_cases u answer x m w
  · rwa [hw]
  · rw [hw]
    exact pull_keeps h
  · rw [hw]
    exact pull_keeps h

theorem finish_removed {m' : TeeNodeDatatableManagementDO} (hu : undone m ≠ []) (hs : m'.status = .success) (hx : x.delete = true) :
    ∀ r ∈ (finish u x m m' w).records, r.jobId ≠ undone m := by
  intro r hr
  unfold finish at hr
  dsimp only at hr
  rw [if_pos ⟨hu, hs, hx⟩] at hr
  exact of_decide_eq_true (List.mem_filter.1 hr).2

theorem sync_effect (hs : succeeds u answer x m = true)
    (hclean : (m.kind = .pull → operateInfoString m teeOperateProjectID ≠ [] ∧ x.upsert = true) ∧ (undone m ≠ [] → x.delete = true)) :
    (m.kind = .pull → (pulledResult u m).key ∈ (syncTeeJob u answer x m w).results.map ProjectResultDO.key) ∧
    (undone m ≠ [] → ∀ r ∈ (syncTeeJob u answer x m w).records, r.jobId ≠ undone m) := by
  obtain ⟨hno, -⟩ | ⟨m', hm', hw⟩ := @sync_cases u answer x m w
  · exact absurd (hs.symm.trans hno) nofun
  · rw [hw]
    refine ⟨fun hk => ?_, fun hu => finish_removed hu (of_decide_eq_true (hm'.symm.trans hs)) (hclean.2 hu)⟩
    obtain ⟨hproject, hx⟩ := hclean.1 hk
    exact pull_has hk hproject hx

theorem inv_sync {rest : List TeeNodeDatatableManagementDO} (h : Inv u ⟨w, m :: rest⟩) (hc : Clean u ⟨w, m :: rest⟩ (.sync answer x)) :
    Inv u ⟨syncTeeJob u answer x m w, rest⟩ := by
  refine ⟨h.unique.sublist sync_ids, fun r' hr' => ?_, fun m₁ hm₁ => ⟨?_, fun r' hr' hid => ?_⟩, fun r' hr' hsuccess => ?_⟩
  · obtain ⟨r, hr, hsame, -⟩ := mem_sync hr'
    rw [hsame.id, sync_nextId]
    exact h.below r hr
  · rw [sync_nextId]
    exact (h.rest m₁ (.tail _ hm₁)).1
  · obtain ⟨r, hr, hsame, -⟩ := mem_sync hr'
    exact hsame.trans ((h.rest m₁ (.tail _ hm₁)).2 r hr (hsame.id.symm.trans hid))
  · obtain ⟨r, hr, hsame, hold⟩ := mem_sync hr'
    rcases hold hsuccess with hold | ⟨hid, hs⟩
    · obtain ⟨hpulled, hremoved⟩ := h.done r hr hold
      refine ⟨fun hk => ?_, fun hu p' hp' hlt => ?_⟩
      · rw [hsame.pulledResult]
        exact sync_results (hpulled (hsame.kind ▸ hk))
      · obtain ⟨p, hp, hsame', -⟩ := mem_sync hp'
        rw [hsame.undone] at hu ⊢
        rw [hsame'.jobId]
        exact hremoved hu p hp (hsame'.id ▸ hsame.id ▸ hlt)
    · have hrow : SameRow r' m := hsame.trans ((h.rest m (List.mem_cons_self ..)).2 r hr hid)
      obtain ⟨hpulled, hremoved⟩ := sync_effect (w := w) hs (hc m rfl hs)
      refine ⟨fun hk => ?_, fun hu p hp _ => ?_⟩
      · rw [hrow.pulledResult]
        exact hpulled (hrow.kind ▸ hk)
      · rw [hrow.undone] at hu ⊢
        exact hremoved hu p hp

theorem inv_create (h : Inv u s) (hm : m.status = .running ∨ m.kind = .pushAuth) : Inv u { s with w := s.w.create m } := by
  have hnew {r : TeeNodeDatatableManagementDO} (hr : r ∈ (s.w.create m).records) : r ∈ s.w.records ∨ r = { m with id := s.w.nextId } :=
    (List.mem_append.1 hr).imp_right List.mem_singleton.1
  refine ⟨?_, fun r hr => ?_, fun m₁ hm₁ => ⟨Nat.lt_succ_of_lt (h.rest m₁ hm₁).1, fun r hr hid => ?_⟩, fun r hr hsuccess => ?_⟩
  · exact Table.nodup_concat h.unique fun r hr => Nat.ne_of_lt (h.below r hr)
  · rcases hnew hr with hr | rfl
    · exact Nat.lt_succ_of_lt (h.below r hr)
    · exact Nat.lt_succ_self _
  · rcases hnew hr with hr | rfl
    · exact (h.rest m₁ hm₁).2 r hr hid
    · exact absurd hid (Nat.ne_of_gt (h.rest m₁ hm₁).1)
  · rcases hnew hr with hr | rfl
    · obtain ⟨hpulled, hremoved⟩ := h.done r hr hsuccess
      refine ⟨hpulled, fun hu p hp hlt => ?_⟩
      rcases hnew hp with hp | rfl
      · exact hremoved hu p hp hlt
      · exact absurd hlt (Nat.not_lt_of_lt (h.below r hr))
    · -- the row of a grant is the only one that begins as SUCCESS
      obtain hm | hm := hm
      · cases hm.symm.trans hsuccess
      · refine ⟨fun hk => ?_, fun hu => ?_⟩
        · cases hm.symm.trans hk
        · exact absurd (by simp [undone, hm]) hu

theorem inv_find (h : Inv u s) : Inv u { s with rest := running s.w } := by
  refine ⟨h.unique, h.below, fun m hm => ?_, h.done⟩
  have hm := (List.mem_filter.1 hm).1
  refine ⟨h.below m hm, fun r hr hid => ?_⟩
  obtain rfl := List.inj_on_of_nodup_map h.unique hr hm hid
  exact .refl

theorem inv_step (h : Inv u s) (hc : Clean u s a) (hs : step u s a = some s') : Inv u s' := by
  cases a with
  | create m =>
    obtain ⟨hm, hs⟩ := Option.ite_none_right_eq_some.1 hs
    obtain rfl := Option.some.inj hs
    exact inv_create h hm
  | find =>
    obtain ⟨-, hs⟩ := Option.ite_none_right_eq_some.1 hs
    obtain rfl := Option.some.inj hs
    exact inv_find h
  | sync answer x =>
    obtain ⟨w, rest⟩ := s
    cases rest with
    | nil => cases hs
    | cons m rest =>
      obtain rfl := Option.some.inj hs
      exact inv_sync h hc
  | stop =>
    obtain rfl := Option.some.inj hs
    exact ⟨h.unique, h.below, fun m hm => absurd hm List.not_mem_nil, h.done⟩

theorem SyncTeeJobs_run (find : Bool) (answer : TeeNodeDatatableManagementDO → Option KusciaJobStatus)
    (x : TeeNodeDatatableManagementDO → Ends) (w : World) : ∃ as, Lts.run (step u) ⟨w, []⟩ as = some ⟨SyncTeeJobs u find answer x w, []⟩ := by
  have hloop (ms : List TeeNodeDatatableManagementDO) : ∀ w, Lts.run (step u) ⟨w, ms⟩ (ms.map fun m => .sync (answer m) (x m)) =
      some ⟨ms.foldl (fun w m => syncTeeJob u (answer m) (x m) m w) w, []⟩ := by
    induction ms with
    | nil => exact fun w => rfl
    | cons m ms ih => exact fun w => ih _
  cases find with
  | false => exact ⟨[], rfl⟩
  | true => exact ⟨.find :: (running w).map fun m => .sync (answer m) (x m), hloop (running w) w⟩

/-- In a run in which every row that comes to SUCCESS has its effect in the same pass, every row that is SUCCESS has had it. -/
theorem allDone_of_clean {s₀ : Poll} {as : List Act} (h₀ : Inv u s₀) (hclean : Lts.RunAll (step u) (Clean u) s₀ as)
    (hr : Lts.run (step u) s₀ as = some s) : AllDone u s.w :=
  (Lts.run_invariant (fun _ _ _ h hc hs => inv_step h hc hs) h₀ hclean hr).done

private def row (kind : TeeJobKind) (jobId : Bytes) (operateInfo : List (Bytes × Bytes)) : TeeNodeDatatableManagementDO :=
  ⟨0, str "alice", str "tee", str "tee-t", str "default-data-source", kind, jobId, .running, [], operateInfo, 0⟩

/-- A table is pushed, and both its deletion and the pull of a result come to their end in a pass. -/
private def pass (x : Ends) : List Act :=
  [.create (row .push (str "aaaa") []), .find, .sync (some ⟨str "Succeeded", [], []⟩) ⟨true, true, true⟩,
    .create (row .delete (str "bbbb") [(teeOperatePushToTeeJobID, str "aaaa")]), .create (row .pull (str "cccc") [(teeOperateProjectID, str "p")]),
    .find, .sync (some ⟨str "Succeeded", [], []⟩) x, .sync (some ⟨str "Succeeded", [], []⟩) x]

private def start : Poll := ⟨⟨[], [], 1⟩, []⟩

private theorem start_inv : Inv .asciiCase start :=
  ⟨.nil, fun _ hr => absurd hr List.not_mem_nil, fun _ hm => absurd hm List.not_mem_nil, fun _ hr => absurd hr List.not_mem_nil⟩

theorem allDone_of_clean_pass : AllDone .asciiCase ((Lts.run (step .asciiCase) start (pass ⟨true, true, true⟩)).getD start).w := by
  have hrun : (Lts.run (step .asciiCase) start (pass ⟨true, true, true⟩)).isSome = true := by decide +kernel
  obtain ⟨s, hs⟩ := Option.isSome_iff_exists.1 hrun
  rw [hs]
  exact allDone_of_clean start_inv (by decide +kernel) hs

/-- The statements after the update of the status fail: the rows are SUCCESS, and no later pass comes to them. -/
theorem effect_lost : ∃ s, Lts.run (step .asciiCase) start (pass ⟨true, false, false⟩) = some s ∧ s.rest = [] ∧
    (∃ d ∈ s.w.records, d.kind = .delete ∧ d.status = .success ∧ ∃ p ∈ s.w.records, p.id < d.id ∧ p.jobId = undone d) ∧
    (∃ r ∈ s.w.records, r.kind = .pull ∧ r.status = .success ∧ (pulledResult .asciiCase r).key ∉ s.w.results.map ProjectResultDO.key) ∧
    ∀ answer x, SyncTeeJobs .asciiCase true answer x s.w = s.w := by
  have hrun : ∃ s ∈ Lts.run (step .asciiCase) start (pass ⟨true, false, false⟩), running s.w = [] ∧ s.rest = [] ∧
      (∃ d ∈ s.w.records, d.kind = .delete ∧ d.status = .success ∧ ∃ p ∈ s.w.records, p.id < d.id ∧ p.jobId = undone d) ∧
      ∃ r ∈ s.w.records, r.kind = .pull ∧ r.status = .success ∧ (pulledResult .asciiCase r).key ∉ s.w.results.map ProjectResultDO.key := by
    decide +kernel
  obtain ⟨s, hs, hnone, hrest, hdelete, hpull⟩ := hrun
  refine ⟨s, hs, hrest, hdelete, hpull, fun answer x => ?_⟩
  rw [SyncTeeJobs, if_pos rfl, hnone, List.foldl_nil]

end Tee
