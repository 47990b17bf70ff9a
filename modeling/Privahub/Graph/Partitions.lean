import Privahub.Graph.Rendered

/-!
# The partitions that a task reads

`checkReadData` keeps what a read-data node says of its table under the id of the table, and `renderTaskInputConfig` looks
it up by the names of the inputs of a rendered task. The last node that the job reads a table from speaks for all
of them (`partitions_eq`), so that an input has the spec of another node's rule: `ReadsAgree` says when none has.
-/

namespace Graph.Chain

structure PartitionInfo where
  readRule : Bytes
  tableName : Bytes
  partitionColumns : List Bytes
  deriving DecidableEq

/-- What Kuscia tells tasks of some parties of a table, its name and partition columns, and `ReadPartitionRuleAnalysis`
of an ODPS table for the start date of the run. -/
structure TableReads where
  unicode : CaseTables
  table : Bytes → List Bytes → Bytes × List Bytes
  analysis : Bytes → Bytes → List Bytes → Except Bytes Bytes

def StatsSCQLAnalysis : Bytes := str "stats/scql_analysis"

def PartitionRuleToDomainData (rule : Bytes) : Bytes := rule.map fun b => if b = 44 then 59 else b

def DatatablePartition (x : Texts) (nd : NodeDef) : Bytes :=
  match (nd.attrPaths.zip nd.attrs).find? fun pa => decide (pa.1 = str "datatable_partition") with
  | some pa => x.attrString pa.2
  | none => match nd.attrs with
    | [_, attr] => x.attrString attr
    | _ => []

def GraphNodeInfo.ReadsData (n : GraphNodeInfo) : Bool :=
  n.IsPad && decide (n.codeName = CompReadDataDatatable ∨ n.nodeDef.CompID = CompReadDataDatatable)

section

variable (q : TableReads) (x : Texts) (a : Answers) (db : Db) (job : ProjectJob)

def partitionInfo (dep : GraphNodeInfo) (parties : List Bytes) : PartitionInfo :=
  let (tableName, partitionColumns) := q.table (DatatableID x dep.nodeDef) parties
  ⟨DatatablePartition x dep.nodeDef, tableName, partitionColumns⟩

/-- `cc.partitions` after an input of a task. -/
def checkReadData (t : JobTask) (m : Bytes → Option PartitionInfo) (input : Bytes) : Bytes → Option PartitionInfo :=
  match NodeByInput job.fullNodes input with
  | some dep => if dep.ReadsData then Function.update m (DatatableID x dep.nodeDef) (some (partitionInfo q x dep t.parties)) else m
  | none => m

/-- `cc.partitions` once the inputs are rendered. -/
def partitions : Bytes → Option PartitionInfo :=
  job.tasks.foldl (fun m t => if t.node.IsPad then m else t.node.inputs.foldl (checkReadData q x job t) m) fun _ => none

def partitionSpec : Option PartitionInfo → Except Err Bytes
  | none => .ok []
  | some pi =>
    if pi.readRule = [] then .ok []
    else match q.analysis pi.tableName (PartitionRuleToDomainData pi.readRule) pi.partitionColumns with
      | .ok spec => .ok spec
      | .error e => .error (.SystemValidationError e)

/-- The `sf_input_partitions_spec` of a task. -/
def renderPartitions (p : JobTask) : Except Err (List Bytes) := p.node.inputs.mapM fun i => partitionSpec q (partitions q x job i)

def HasSpecs (p : JobTask) : Prop := a.teeNodeID = [] ∧ EqualFold q.unicode p.node.codeName StatsSCQLAnalysis = false

/-- The read-data node that an input of a task comes from, if it comes from one, and the parties that it is read for. -/
def fedBy (t : JobTask) (input : Bytes) : Option (GraphNodeInfo × List Bytes) :=
  match NodeByInput job.fullNodes input with
  | some dep => if dep.ReadsData then some (dep, t.parties) else none
  | none => none

/-- `p` has the inputs of the task that it is rendered from: `modificationsAdapter` gives its tasks another one, unless
it puts in an identity. -/
def KeepsInputs (t p : JobTask) : Prop := ¬t.Splits ∨ p.taskID ≠ t.taskID ∧ t.node.nodeDef.attrs = []

instance (t p : JobTask) : Decidable (KeepsInputs t p) := by
  unfold KeepsInputs
  infer_instance

def feeds (t p : JobTask) : List (Option (GraphNodeInfo × List Bytes)) :=
  if KeepsInputs t p then t.node.inputs.map (fedBy job t) else [none]

/-- The spec of the rule of the node itself, and none without one. -/
def ownSpec (n : Option (GraphNodeInfo × List Bytes)) : Except Err Bytes := partitionSpec q (n.map fun n => partitionInfo q x n.1 n.2)

/-- `p` is a task of the rendered job, and it is rendered from `t`. -/
def RenderedFrom (t p : JobTask) : Prop :=
  (∃ r, jobRenderHandler x a db job = .ok r) ∧ t ∈ job.executed ∧ ∃ ps, Becomes x a db job t ps ∧ p ∈ ps

/-- Each input of a task has the spec of the node that it comes from. -/
def SpecsRight : Prop := ∀ t p, RenderedFrom x a db job t p → HasSpecs q a p → ∀ specs, renderPartitions q x job p = .ok specs →
  List.Forall₂ (fun n spec => ownSpec q x n = .ok spec) (feeds job t p) specs

def reads : List (GraphNodeInfo × List Bytes) := job.executed.flatMap fun t => t.node.inputs.filterMap (fedBy job t)

/-- The last node that the job reads a table of the id from. -/
def lastRead (id : Bytes) : Option (GraphNodeInfo × List Bytes) := (reads job).reverse.find? fun n => decide (DatatableID x n.1.nodeDef = id)

def renamed (input : Bytes) : Bytes := if input ∈ job.outputs then GenTaskOutputID job.jobID input else input

/-- A rule is refused, or the last node that the job reads under the name of an input says of the table what the node
says that the input comes from. -/
def ReadsAgree : Prop := ∀ t p, RenderedFrom x a db job t p → HasSpecs q a p →
  (∃ j ∈ p.node.inputs, ∃ e, ownSpec q x (lastRead x job j) = .error e) ∨
    if KeepsInputs t p then
      ∀ i ∈ t.node.inputs, ∀ i' d, renderInput x a db job t i = .ok (i', d) → ownSpec q x (lastRead x job (renamed job i')) = ownSpec q x (fedBy job t i)
    else ∀ j ∈ p.node.inputs, ownSpec q x (lastRead x job j) = .ok []

end

variable {q : TableReads} {x : Texts} {a : Answers} {db : Db} {job r : ProjectJob} {t p : JobTask} {ps : List JobTask}

theorem checkReadData_eq (m : Bytes → Option PartitionInfo) (i : Bytes) : checkReadData q x job t m i =
    match fedBy job t i with
    | some n => Function.update m (DatatableID x n.1.nodeDef) (some (partitionInfo q x n.1 n.2))
    | none => m := by
  unfold checkReadData fedBy
  cases NodeByInput job.fullNodes i with
  | none => rfl
  | some dep =>
    dsimp only
    split_ifs
    · rfl
    · rfl

theorem partitions_eq (k : Bytes) : partitions q x job k = (lastRead x job k).map fun n => partitionInfo q x n.1 n.2 := by
  have hfold : partitions q x job = (reads job).foldl
      (fun m n => Function.update m (DatatableID x n.1.nodeDef) (some (partitionInfo q x n.1 n.2))) fun _ => none := by
    unfold partitions reads ProjectJob.executed
    rw [List.foldl_flatMap, List.foldl_filter]
    congr 1
    funext m t
    rw [List.foldl_filterMap]
    cases t.node.IsPad with
    | true => rfl
    | false =>
      show t.node.inputs.foldl (checkReadData q x job t) m = t.node.inputs.foldl _ m
      congr 1
      funext m i
      rw [checkReadData_eq]
      cases fedBy job t i with
      | none => rfl
      | some n => rfl
  rw [hfold, Table.foldl_update, Option.or_none]
  rfl

theorem partitionSpec_partitions (k : Bytes) : partitionSpec q (partitions q x job k) = ownSpec q x (lastRead x job k) := by
  rw [partitions_eq]
  rfl

theorem renderPartitions_ok {specs : List Bytes} (h : renderPartitions q x job p = .ok specs) :
    List.Forall₂ (fun j spec => ownSpec q x (lastRead x job j) = .ok spec) p.node.inputs specs := by
  refine (Except.forall₂_of_mapM h).imp fun j spec hj => ?_
  rwa [← partitionSpec_partitions]

theorem exists_renderPartitions (h : ¬∃ j ∈ p.node.inputs, ∃ e, ownSpec q x (lastRead x job j) = .error e) :
    ∃ specs, renderPartitions q x job p = .ok specs := by
  have hall : ∀ j ∈ p.node.inputs, ∃ spec, partitionSpec q (partitions q x job j) = .ok spec ∧ True := by
    intro j hj
    rw [partitionSpec_partitions]
    cases hs : ownSpec q x (lastRead x job j) with
    | error e => exact absurd ⟨j, hj, e, hs⟩ h
    | ok spec => exact ⟨spec, rfl, trivial⟩
  obtain ⟨specs, hspecs, _⟩ := Except.exists_mapM hall
  exact ⟨specs, hspecs⟩

theorem genExtendTaskID_ne (id e : Bytes) : GenExtendTaskID id e ≠ id := by
  intro h
  have hlen := congrArg List.length h
  simp [GenExtendTaskID, str] at hlen

theorem RenderedFrom.inputs (h : RenderedFrom x a db job t p) :
    KeepsInputs t p ∧ List.Forall₂ (fun i j => ∃ i' d, renderInput x a db job t i = .ok (i', d) ∧ j = renamed job i') t.node.inputs p.node.inputs ∨
    ¬KeepsInputs t p ∧ ∃ j, p.node.inputs = [j] := by
  obtain ⟨_, ht, ps, ⟨t', hin, hcustom⟩, hp⟩ := h
  unfold renderTaskInputs at hin
  rw [if_neg (by simp [(mem_executed.1 ht).2])] at hin
  obtain ⟨ins, hins, hin⟩ := Except.ok_of_bind hin
  cases hin
  have hkept : List.Forall₂ (fun i j => ∃ i' d, renderInput x a db job t i = .ok (i', d) ∧ j = renamed job i') t.node.inputs
      ((ins.map (·.1)).map (renamed job)) := by
    rw [List.map_map, List.forall₂_map_right_iff]
    exact (Except.forall₂_of_mapM hins).imp fun i r hr => ⟨r.1, r.2, hr, rfl⟩
  rcases customize_cases hcustom with ⟨hs, rfl⟩ | ⟨hs, writeType, hadapt⟩
  · obtain rfl := List.mem_singleton.1 hp
    exact .inl ⟨.inl hs, hkept⟩
  · obtain ⟨_, _, _, -, rfl⟩ := modificationsAdapter_cases hadapt
    have hs : t.Splits := hs
    rcases List.mem_cons.1 hp with rfl | hp
    · cases hattrs : t.node.nodeDef.attrs with
      | nil =>
        refine .inl ⟨.inr ⟨genExtendTaskID_ne _ _, hattrs⟩, ?_⟩
        unfold extraNode
        simp only [List.map_nil]
        exact hkept
      | cons attr attrs =>
        refine .inr ⟨not_or.2 ⟨not_not.2 hs, fun h => by simp [hattrs] at h⟩, ?_⟩
        unfold extraNode
        simp only [List.map_cons]
        exact ⟨_, rfl⟩
    · obtain rfl := List.mem_singleton.1 hp
      exact .inr ⟨not_or.2 ⟨not_not.2 hs, fun h => h.1 rfl⟩, _, rfl⟩

theorem RenderedFrom.right_iff (h : RenderedFrom x a db job t p) :
    (∀ specs, renderPartitions q x job p = .ok specs → List.Forall₂ (fun n spec => ownSpec q x n = .ok spec) (feeds job t p) specs) ↔
      (∃ j ∈ p.node.inputs, ∃ e, ownSpec q x (lastRead x job j) = .error e) ∨
        if KeepsInputs t p then
          ∀ i ∈ t.node.inputs, ∀ i' d, renderInput x a db job t i = .ok (i', d) →
            ownSpec q x (lastRead x job (renamed job i')) = ownSpec q x (fedBy job t i)
        else ∀ j ∈ p.node.inputs, ownSpec q x (lastRead x job j) = .ok [] := by
  by_cases hrefused : ∃ j ∈ p.node.inputs, ∃ e, ownSpec q x (lastRead x job j) = .error e
  · refine iff_of_true (fun specs hspecs => ?_) (.inl hrefused)
    obtain ⟨j, hj, e, he⟩ := hrefused
    obtain ⟨spec, _, hspec⟩ := (renderPartitions_ok hspecs).exists_right j hj
    cases he.symm.trans hspec
  obtain ⟨specs, hspecs⟩ := exists_renderPartitions hrefused
  have hlooked := renderPartitions_ok hspecs
  have hone : (∀ specs, renderPartitions q x job p = .ok specs → List.Forall₂ (fun n spec => ownSpec q x n = .ok spec) (feeds job t p) specs) ↔
      List.Forall₂ (fun n spec => ownSpec q x n = .ok spec) (feeds job t p) specs := by
    refine ⟨fun hall => hall specs hspecs, fun hright specs' hspecs' => ?_⟩
    cases hspecs.symm.trans hspecs'
    exact hright
  rw [hone, or_iff_right hrefused]
  unfold feeds
  rcases h.inputs with ⟨hkeeps, hinputs⟩ | ⟨hkeeps, j, hj⟩
  · rw [if_pos hkeeps, if_pos hkeeps, List.forall₂_map_left_iff]
    -- the spec of an input is that of the last read under the name that it is given
    have hspec := hinputs.comp hlooked
    constructor
    · intro hown i hi i' d hi'
      obtain ⟨spec, _, ⟨_, ⟨_, _, hr, rfl⟩, hlast⟩, ho⟩ := (hspec.mp (fun _ _ hs ho => And.intro hs ho) hown).exists_right i hi
      cases hi'.symm.trans hr
      exact hlast.trans ho.symm
    · intro hagree
      refine ((List.forall₂_and_left _ _).2 ⟨fun _ hi => hi, hspec⟩).imp fun i spec ⟨hi, _, ⟨i', d, hr, hj⟩, hlast⟩ => ?_
      rw [← hagree i hi i' d hr, ← hj]
      exact hlast
  · rw [if_neg hkeeps, if_neg hkeeps]
    rw [hj] at hlooked ⊢
    cases hlooked with
    | cons hlast hnil =>
      cases hnil
      rw [List.forall_mem_singleton, hlast, List.forall₂_cons, and_iff_left .nil]
      exact eq_comm

/-- Each input of a task has the spec of the node that it comes from if and only if a rule of the task is refused or
the last reads agree. -/
theorem specs_iff : SpecsRight q x a db job ↔ ReadsAgree q x a db job :=
  forall_congr' fun _ => forall_congr' fun _ => forall_congr' fun h => forall_congr' fun _ => h.right_iff

def partitioned (id tableID rule : String) : GraphNodeInfo :=
  { datatable id tableID with
    nodeDef := ⟨str "read_data", str "datatable", [str "datatable_selected", str "datatable_partition"], [str tableID, str rule]⟩ }

def odps : TableReads where
  unicode := .asciiCase
  table _ _ := (str "odps", [])
  analysis _ rule _ := .ok rule

def twoRules : Answers :=
  graphAnswers [partitioned "d" "table" "dt=20240101", partitioned "e" "table" "dt=20240102", component "n" "describe" ["d-output-0"] ["n-output-0"],
    component "m" "describe" ["e-output-0"] ["m-output-0"]] (by decide)

/-- The component `n` gets the partition of the other one. -/
theorem spec_of_other_node : ∃ job r, prepare twoRules request ⟨false, []⟩ = .ok job ∧ jobRenderHandler texts twoRules (earlier (str "u")) job = .ok r ∧
    (∃ p ∈ r.tasks, p.taskID = str "job-n" ∧ renderPartitions odps texts job p = .ok [str "dt=20240102"]) ∧
    ¬SpecsRight odps texts twoRules (earlier (str "u")) job := by
  have hok : okWith (prepare twoRules request ⟨false, []⟩) (fun job => okWith (jobRenderHandler texts twoRules (earlier (str "u")) job) fun r =>
      job.executed.any fun t => okWith (renderTaskInputs texts twoRules (earlier (str "u")) job t) fun t' =>
        okWith (customize texts twoRules (renderOutput job.jobID job.outputs t')) fun ps => ps.any fun p =>
          okWith (renderPartitions odps texts job p) fun specs => decide (p ∈ r.tasks ∧ p.taskID = str "job-n" ∧
            EqualFold .asciiCase p.node.codeName StatsSCQLAnalysis = false ∧ specs = [str "dt=20240102"] ∧
            ∃ n ∈ feeds job t p, okWith (ownSpec odps texts n) fun spec => decide (spec = str "dt=20240101"))) = true := by
    decide +kernel
  obtain ⟨job, hjob, hok⟩ := exists_of_okWith hok
  obtain ⟨r, hr, hok⟩ := exists_of_okWith hok
  obtain ⟨t, ht, hok⟩ := List.any_eq_true.1 hok
  obtain ⟨t', ht', hok⟩ := exists_of_okWith hok
  obtain ⟨ps, hps, hok⟩ := exists_of_okWith hok
  obtain ⟨p, hp, hok⟩ := List.any_eq_true.1 hok
  obtain ⟨specs, hspecs, hok⟩ := exists_of_okWith hok
  obtain ⟨hmem, hid, hscql, rfl, n, hn, hown⟩ := of_decide_eq_true hok
  refine ⟨job, r, hjob, hr, ⟨p, hmem, hid, hspecs⟩, fun hright => ?_⟩
  obtain ⟨spec, hspec, hn'⟩ := (hright t p ⟨⟨r, hr⟩, ht, ps, ⟨t', ht', hps⟩, hp⟩ ⟨rfl, hscql⟩ _ hspecs).exists_right n hn
  obtain ⟨spec', hspec', hown⟩ := exists_of_okWith hown
  obtain rfl := List.mem_singleton.1 hspec
  obtain rfl := of_decide_eq_true hown
  cases hn'.symm.trans hspec'

end Graph.Chain
