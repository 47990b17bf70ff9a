import Privahub.Graph.Rollback
import Privahub.Lib.Acyclic
import Privahub.Lib.Outcome

/-!
# The tasks that are rendered

`renderInputs` makes a task depend on the tasks of the selected nodes that its inputs come from, `renderCustomizeSpec`
puts a task before one of the modifications components, and `pruneJob` takes the pads away. The ids of the tasks come
from those of the nodes, and the names of their inputs and outputs from the names in the graph, so two of them can be
one: `TaskIDsApart` and `NamesApart` say when they are not.
-/

namespace Graph.Chain

open Relation (TransGen)

def DependsOn (tasks : List JobTask) (d d' : Bytes) : Prop := ∃ t ∈ tasks, t.taskID = d ∧ d' ∈ t.dependencies

/-- The data flow of a graph: an input of `n` comes from `m`. -/
def ReadsFrom (nodes : List GraphNodeInfo) (n m : GraphNodeInfo) : Prop := n ∈ nodes ∧ ∃ i ∈ n.inputs, NodeByInput nodes i = some m

/-- The component is one of those that `renderCustomizeSpec` puts a task before. -/
def JobTask.Splits (t : JobTask) : Prop :=
  t.node.nodeDef.name = str "binning_modifications" ∨ t.node.nodeDef.name = str "model_param_modifications"

instance (t : JobTask) : Decidable t.Splits := by
  unfold JobTask.Splits
  infer_instance

namespace ProjectJob

variable (job : ProjectJob)

def executed : List JobTask := job.tasks.filter fun t => !t.node.IsPad

def outputs : List Bytes := job.tasks.flatMap (·.node.outputs)

/-- No executed task has the id of one that is put before another. -/
def ExtendedApart : Prop := ∀ t ∈ job.executed, ∀ u ∈ job.executed, u.Splits → t.taskID ≠ GenExtendTaskID u.taskID (str "1")

def TaskIDsApart : Prop := (job.executed.map (·.taskID)).Nodup ∧ job.ExtendedApart

/-- No two outputs in the graph have one name; what stands for an input of a task has the name of an output of the
job, or of a rendered one, just when it is that output; and no edited report has the name of a rendered output. -/
structure NamesApart (x : Texts) (a : Answers) (db : Db) : Prop where
  outputs : (job.fullNodes.flatMap (·.outputs)).Nodup
  inputs : ∀ t ∈ job.executed, ∀ i ∈ t.node.inputs, ∀ i' d, renderInput x a db job t i = .ok (i', d) →
    (i' ∈ job.outputs → d ≠ none) ∧ (i' ∈ job.outputs.map (GenTaskOutputID job.jobID) → i' ∈ job.outputs)
  reports : ∀ hash id report, a.editedReport hash id = some report → reportOutput report ∉ job.outputs.map (GenTaskOutputID job.jobID)

/-- What `prepare` says of a job. -/
structure Prepared : Prop where
  node_ids : (job.fullNodes.map (·.graphNodeId)).Nodup
  nodes : ∀ t ∈ job.tasks, t.node ∈ job.fullNodes
  taskIDs : ∀ t ∈ job.tasks, t.taskID = GenTaskID job.jobID t.node.graphNodeId
  one : ∀ t ∈ job.tasks, ∀ u ∈ job.tasks, t.node = u.node → t = u

end ProjectJob

variable {x : Texts} {a : Answers} {req : StartGraphRequest} {opts : StartGraphOptions} {db : Db} {job r : ProjectJob}
  {t t' u p : JobTask} {ps : List JobTask} {n m : GraphNodeInfo} {nodes : List GraphNodeInfo} {i i' d : Bytes}

theorem genTaskID_inj {id id' : Bytes} (h : GenTaskID d id = GenTaskID d id') : id = id' := List.append_cancel_left h

theorem genTaskOutputID_inj {o o' : Bytes} (h : GenTaskOutputID d o = GenTaskOutputID d o') : o = o' := List.append_cancel_left h

theorem genExtendTaskID_inj {e : Bytes} (h : GenExtendTaskID d e = GenExtendTaskID i e) : d = i :=
  List.append_cancel_right (List.append_cancel_right h)

theorem nodeByInput_mem (h : NodeByInput nodes i = some m) : m ∈ nodes := List.mem_reverse.1 (List.mem_of_find?_eq_some h)

theorem node_of_id (hids : (nodes.map (·.graphNodeId)).Nodup) (hn : n ∈ nodes) (hm : m ∈ nodes) (h : n.graphNodeId = m.graphNodeId) : n = m :=
  List.inj_on_of_nodup_map hids hn hm h

theorem node_of_output (houts : (nodes.flatMap (·.outputs)).Nodup) (hn : n ∈ nodes) (hm : m ∈ nodes) (hin : i ∈ n.outputs) (him : i ∈ m.outputs) :
    n = m := by
  by_contra hne
  have : Std.Symm (Function.onFun List.Disjoint fun n : GraphNodeInfo => n.outputs) := ⟨fun _ _ h _ h₁ h₂ => h h₂ h₁⟩
  exact (List.nodup_flatMap.1 houts).2.forall hn hm hne hin him

theorem nodeByInput_output (hids : (nodes.map (·.graphNodeId)).Nodup) (houts : (nodes.flatMap (·.outputs)).Nodup) (hn : n ∈ nodes)
    (hi : i ∈ n.outputs) : NodeByInput nodes i = some n := by
  have hid : inputNodeID nodes i = n.graphNodeId := by
    unfold inputNodeID
    cases hf : nodes.reverse.find? fun n => decide (i ∈ n.outputs) with
    | none => exact absurd (List.find?_eq_none.1 hf n (List.mem_reverse.2 hn)) (by simpa using hi)
    | some m =>
      have hm := List.find?_some hf
      exact congrArg GraphNodeInfo.graphNodeId (node_of_output houts (List.mem_reverse.1 (List.mem_of_find?_eq_some hf)) hn (of_decide_eq_true hm) hi)
  unfold NodeByInput
  rw [hid]
  cases hf : nodes.reverse.find? fun m => decide (m.graphNodeId = n.graphNodeId) with
  | none => exact absurd (List.find?_eq_none.1 hf n (List.mem_reverse.2 hn)) (by simp)
  | some m =>
    have hm := List.find?_some hf
    exact congrArg some (node_of_id hids (List.mem_reverse.1 (List.mem_of_find?_eq_some hf)) hn (of_decide_eq_true hm))

theorem selectNodes_mem {ids : List Bytes} {ns : List GraphNodeInfo} (h : selectNodes nodes ids = .ok ns) : ∀ n ∈ ns, n ∈ nodes := by
  unfold selectNodes at h
  split_ifs at h
  · cases h
    exact fun n hn => hn
  · intro n hn
    obtain ⟨id, _, hid⟩ := (Except.forall₂_of_mapM h).exists_left n hn
    cases hf : nodes.reverse.find? fun n => decide (n.graphNodeId = id) with
    | none => rw [hf] at hid; cases hid
    | some m =>
      rw [hf] at hid
      cases hid
      exact List.mem_reverse.1 (List.mem_of_find?_eq_some hf)

theorem prepared_of_prepare (h : prepare a req opts = .ok job) : job.Prepared := by
  unfold prepare at h
  obtain ⟨g, _, h⟩ := Except.ok_of_bind h
  by_cases hne : g.nodes = []
  · rw [if_pos hne] at h
    cases h
  rw [if_neg hne] at h
  obtain ⟨selected, hselected, h⟩ := Except.ok_of_bind h
  cases hproject : a.project with
  | false =>
    simp only [hproject] at h
    cases h
  | true =>
    simp only [hproject, Bool.not_true, Bool.false_eq_true, if_false] at h
    obtain ⟨parties, _, h⟩ := Except.ok_of_bind h
    cases hhealth : a.health with
    | some e =>
      simp only [hhealth] at h
      cases h
    | none =>
      simp only [hhealth] at h
      cases h
      refine ⟨g.node_ids, fun t ht => ?_, fun t ht => ?_, fun t ht u hu hnode => ?_⟩
      · obtain ⟨n, hn, rfl⟩ := List.mem_map.1 ht
        exact selectNodes_mem hselected n hn
      · obtain ⟨n, hn, rfl⟩ := List.mem_map.1 ht
        rfl
      · obtain ⟨n, hn, rfl⟩ := List.mem_map.1 ht
        obtain ⟨m, hm, rfl⟩ := List.mem_map.1 hu
        obtain rfl : n = m := hnode
        rfl

theorem renderInput_some (h : renderInput x a db job t i = .ok (i', some d)) :
    i' = i ∧ ∃ m, NodeByInput job.fullNodes i = some m ∧ m.IsPad = false ∧ (∃ u ∈ job.tasks, u.node.graphNodeId = m.graphNodeId) ∧
      d = GenTaskID job.jobID m.graphNodeId := by
  unfold renderInput at h
  cases hm : NodeByInput job.fullNodes i with
  | none => simp only [hm] at h; cases h
  | some m =>
    simp only [hm] at h
    cases hpad : m.IsPad with
    | true =>
      rw [if_pos hpad] at h
      -- a pad is no task
      split_ifs at h <;> cases hl : findLatest a db job m.graphNodeId <;> cases hd : a.readData m t.parties <;>
        simp [hl, hd, bind, Except.bind, pure, Except.pure, throw, throwThe, MonadExceptOf.throw] at h
    | false =>
      simp only [hpad, Bool.false_eq_true, if_false] at h
      split_ifs at h with hsel
      · cases h
        refine ⟨rfl, m, rfl, hpad, ?_, rfl⟩
        simpa using hsel
      · obtain ⟨lt, _, h⟩ := Except.ok_of_bind h
        cases h

theorem mem_inputs {ins : List (Bytes × Option Bytes)} (h : t.node.inputs.mapM (renderInput x a db job t) = .ok ins) :
    (∀ d ∈ ins.filterMap (·.2), ∃ i ∈ t.node.inputs, ∃ i', renderInput x a db job t i = .ok (i', some d)) ∧
    ∀ i' ∈ ins.map (·.1), ∃ i ∈ t.node.inputs, ∃ d, renderInput x a db job t i = .ok (i', d) ∧ ∀ e, d = some e → e ∈ ins.filterMap (·.2) := by
  have hall := Except.forall₂_of_mapM h
  constructor
  · intro d hd
    obtain ⟨⟨i', d'⟩, hr, hd⟩ := List.mem_filterMap.1 hd
    obtain rfl : d' = some d := hd
    obtain ⟨i, hi, hrender⟩ := hall.exists_left _ hr
    exact ⟨i, hi, i', hrender⟩
  · intro i' hi'
    obtain ⟨⟨i', d⟩, hr, rfl⟩ := List.mem_map.1 hi'
    obtain ⟨i, hi, hrender⟩ := hall.exists_left _ hr
    exact ⟨i, hi, d, hrender, fun e he => List.mem_filterMap.2 ⟨_, hr, he⟩⟩

def renderOutput (jobID : Bytes) (outputs : List Bytes) (t : JobTask) : JobTask :=
  { t with node := { t.node with
    inputs := t.node.inputs.map fun i => if i ∈ outputs then GenTaskOutputID jobID i else i
    outputs := t.node.outputs.map (GenTaskOutputID jobID) } }

def Becomes (x : Texts) (a : Answers) (db : Db) (job : ProjectJob) (t : JobTask) (ps : List JobTask) : Prop :=
  ∃ t', renderTaskInputs x a db job t = .ok t' ∧ customize x a (renderOutput job.jobID job.outputs t') = .ok ps

theorem Becomes.unique {ps' : List JobTask} (h : Becomes x a db job t ps) (h' : Becomes x a db job t ps') : ps = ps' := by
  obtain ⟨t₁, h₁, hps⟩ := h
  obtain ⟨t₂, h₂, hps'⟩ := h'
  cases h₁.symm.trans h₂
  cases hps.symm.trans hps'
  rfl

theorem renderTaskInputs_outputs (h : renderTaskInputs x a db job t = .ok t') : t'.node.outputs = t.node.outputs := by
  unfold renderTaskInputs at h
  split_ifs at h
  · cases h
    rfl
  · obtain ⟨_, _, h⟩ := Except.ok_of_bind h
    cases h
    rfl

theorem outputs_rendered {ts ts' : List JobTask} (h : List.Forall₂ (fun t t' => renderTaskInputs x a db job t = .ok t') ts ts') :
    ts'.flatMap (·.node.outputs) = ts.flatMap (·.node.outputs) := by
  induction h with
  | nil => rfl
  | cons ht _ ih => rw [List.flatMap_cons, List.flatMap_cons, renderTaskInputs_outputs ht, ih]

theorem forall₂_becomes (h : jobRenderHandler x a db job = .ok r) :
    ∃ pss, List.Forall₂ (Becomes x a db job) job.tasks pss ∧ r.tasks = pruneJob pss.flatten := by
  unfold jobRenderHandler at h
  obtain ⟨tasks, hin, h⟩ := Except.ok_of_bind h
  obtain ⟨tasks', hcustom, h⟩ := Except.ok_of_bind h
  cases h
  obtain ⟨pss, hpieces, hflat⟩ := Except.ok_of_bind hcustom
  cases hflat
  have hrender := Except.forall₂_of_mapM hin
  have hmap : renderOutputs job.jobID tasks = tasks.map (renderOutput job.jobID job.outputs) := by
    unfold ProjectJob.outputs
    rw [← outputs_rendered hrender]
    rfl
  rw [hmap] at hpieces
  exact ⟨pss, hrender.comp (List.forall₂_map_left_iff.1 (Except.forall₂_of_mapM hpieces)), rfl⟩

theorem pads_not_io : ∀ c ∈ PadComponents, ¬str "io" <+: c := by decide

theorem pads_not_modifications : ∀ c ∈ PadComponents, ¬str "binning_modifications" <:+ c ∧ ¬str "model_param_modifications" <:+ c := by decide

theorem isPad_io (h : n.nodeDef.domain = str "io") : n.IsPad = false := by
  have hne : n.nodeDef.domain ≠ [] := by
    rw [h]
    decide
  have hprefix : str "io" <+: n.nodeDef.CompID := by
    unfold NodeDef.CompID
    rw [h, List.append_assoc]
    exact List.prefix_append _ _
  unfold GraphNodeInfo.IsPad
  rw [if_pos (.inl hne)]
  exact decide_eq_false fun hmem => pads_not_io _ hmem hprefix

theorem not_splits_of_isPad (h : t.node.IsPad = true) : ¬t.Splits := by
  intro hs
  have hne : t.node.nodeDef.name ≠ [] := by
    rcases hs with hs | hs
    · rw [hs]
      decide
    · rw [hs]
      decide
  have hsuffix : t.node.nodeDef.name <:+ t.node.nodeDef.CompID := List.suffix_append _ _
  unfold GraphNodeInfo.IsPad at h
  rw [if_pos (.inr hne)] at h
  obtain ⟨hbinning, hmodel⟩ := pads_not_modifications _ (of_decide_eq_true h)
  rcases hs with hs | hs
  · exact hbinning (hs ▸ hsuffix)
  · exact hmodel (hs ▸ hsuffix)

theorem customize_cases (h : customize x a t = .ok ps) : ¬t.Splits ∧ ps = [t] ∨ t.Splits ∧ ∃ writeType, modificationsAdapter x a t writeType = .ok ps := by
  unfold customize at h
  unfold JobTask.Splits
  split_ifs at h with h₁ h₂
  · exact .inr ⟨.inl h₁, _, h⟩
  · exact .inr ⟨.inr h₂, _, h⟩
  · cases h
    exact .inl ⟨not_or.2 ⟨h₁, h₂⟩, rfl⟩

theorem modificationsAdapter_cases {writeType : Bytes} (h : modificationsAdapter x a t writeType = .ok ps) :
    ∃ o o' os, t.node.outputs = o :: o' :: os ∧ ps = [
      { taskID := GenExtendTaskID t.taskID (str "1"), parties := t.parties, dependencies := t.dependencies, node := extraNode x a t.node writeType o },
      { t with
        dependencies := [GenExtendTaskID t.taskID (str "1")]
        node := { t.node with nodeDef := ⟨str "io", str "read_data", [], []⟩, inputs := [o], outputs := [o'] } }] := by
  unfold modificationsAdapter at h
  split at h
  · next o o' os houts => exact ⟨o, o', os, houts, (Except.ok.inj h).symm⟩
  · cases h

theorem Becomes.pad (ht : t.node.IsPad = true) (h : Becomes x a db job t ps) : ∀ p ∈ ps, p.node.IsPad = true := by
  obtain ⟨t', hin, hcustom⟩ := h
  unfold renderTaskInputs at hin
  rw [if_pos ht] at hin
  split_ifs at hin
  cases hin
  rcases customize_cases hcustom with ⟨_, rfl⟩ | ⟨hs, _⟩
  · intro p hp
    obtain rfl := List.mem_singleton.1 hp
    exact ht
  · exact absurd hs (not_splits_of_isPad ht)

/-- The inputs of `p` are those of `t`, or names that `modificationsAdapter` gives, and so are its dependencies. -/
structure FromInputs (x : Texts) (a : Answers) (db : Db) (job : ProjectJob) (t p : JobTask) : Prop where
  dependencies : ∀ d ∈ p.dependencies, ∃ i ∈ t.node.inputs, ∃ i', renderInput x a db job t i = .ok (i', some d)
  inputs : ∀ j ∈ p.node.inputs,
    (∃ i ∈ t.node.inputs, ∃ i' d, renderInput x a db job t i = .ok (i', d) ∧ j = (if i' ∈ job.outputs then GenTaskOutputID job.jobID i' else i') ∧
      ∀ e, d = some e → e ∈ p.dependencies) ∨
    j ∈ p.node.outputs ∨ ∃ hash id report, a.editedReport hash id = some report ∧ j = reportOutput report

inductive Made (x : Texts) (a : Answers) (db : Db) (job : ProjectJob) (t : JobTask) : List JobTask → Prop
  | whole {p : JobTask} (hs : ¬t.Splits) (hpad : p.node.IsPad = false) (hid : p.taskID = t.taskID) (hin : FromInputs x a db job t p)
      (hout : p.node.outputs = t.node.outputs.map (GenTaskOutputID job.jobID)) : Made x a db job t [p]
  | split {e p : JobTask} {o o' : Bytes} {os : List Bytes} (hs : t.Splits) (houts : t.node.outputs = o :: o' :: os)
      (hepad : e.node.IsPad = false) (heid : e.taskID = GenExtendTaskID t.taskID (str "1")) (hein : FromInputs x a db job t e)
      (heout : e.node.outputs = [GenTaskOutputID job.jobID o]) (hpad : p.node.IsPad = false) (hid : p.taskID = t.taskID)
      (hdeps : p.dependencies = [e.taskID]) (hin : p.node.inputs = [GenTaskOutputID job.jobID o])
      (hout : p.node.outputs = [GenTaskOutputID job.jobID o']) : Made x a db job t [e, p]

theorem writeInput_cases {attr o : Bytes} : writeInput x a n attr o = o ∨
    ∃ hash id report, a.editedReport hash id = some report ∧ writeInput x a n attr o = reportOutput report := by
  unfold writeInput
  obtain ⟨hash, id⟩ := splitHash (x.modelHash attr) n.graphNodeId
  dsimp only
  split_ifs with hh
  · exact .inl rfl
  · cases hr : a.editedReport hash id with
    | none => exact .inl rfl
    | some report => exact .inr ⟨hash, id, report, hr, rfl⟩

theorem Becomes.made (ht : t.node.IsPad = false) (h : Becomes x a db job t ps) : Made x a db job t ps := by
  obtain ⟨t', hin, hcustom⟩ := h
  unfold renderTaskInputs at hin
  rw [if_neg (by simp [ht])] at hin
  obtain ⟨ins, hins, hin⟩ := Except.ok_of_bind hin
  cases hin
  obtain ⟨hdeps, hinputs⟩ := mem_inputs hins
  have hrenamed : ∀ j ∈ (ins.map (·.1)).map (fun i => if i ∈ job.outputs then GenTaskOutputID job.jobID i else i), ∃ i ∈ t.node.inputs, ∃ i' d,
      renderInput x a db job t i = .ok (i', d) ∧ j = (if i' ∈ job.outputs then GenTaskOutputID job.jobID i' else i') ∧
        ∀ e, d = some e → e ∈ ins.filterMap (·.2) := by
    intro j hj
    obtain ⟨i', hi', rfl⟩ := List.mem_map.1 hj
    obtain ⟨i, hi, d, hr, hd⟩ := hinputs i' hi'
    exact ⟨i, hi, i', d, hr, rfl, hd⟩
  rcases customize_cases hcustom with ⟨hs, rfl⟩ | ⟨hs, writeType, hadapt⟩
  · exact .whole hs ht rfl ⟨hdeps, fun j hj => .inl (hrenamed j hj)⟩ rfl
  · obtain ⟨_, _, _, hmap, rfl⟩ := modificationsAdapter_cases hadapt
    obtain ⟨o, _, houts, rfl, hos⟩ := List.map_eq_cons_iff.1 hmap
    obtain ⟨o', os, rfl, rfl, -⟩ := List.map_eq_cons_iff.1 hos
    refine .split hs houts ?_ rfl ⟨hdeps, ?_⟩ ?_ (isPad_io rfl) rfl rfl rfl rfl
    · unfold extraNode
      split
      · exact isPad_io rfl
      · exact isPad_io rfl
    · unfold extraNode
      split
      · exact fun j hj => .inl (hrenamed j hj)
      · intro j hj
        obtain rfl := List.mem_singleton.1 hj
        rcases writeInput_cases with he | ⟨hash, id, report, hr, he⟩
        · exact .inr (.inl (List.mem_singleton.2 he))
        · exact .inr (.inr ⟨hash, id, report, hr, he⟩)
    · unfold extraNode
      split
      · rfl
      · rfl

namespace Made

theorem not_pad (h : Made x a db job t ps) : ∀ p ∈ ps, p.node.IsPad = false := by
  cases h with
  | whole _ hpad => simpa using hpad
  | split _ _ hepad _ _ _ hpad => simpa using ⟨hepad, hpad⟩

theorem has_main (h : Made x a db job t ps) : ∃ p ∈ ps, p.taskID = t.taskID := by
  cases h with
  | whole _ _ hid => exact ⟨_, .head _, hid⟩
  | split _ _ _ _ _ _ _ hid => exact ⟨_, .tail _ (.head _), hid⟩

end Made

def JobTask.ids (t : JobTask) : List Bytes := if t.Splits then [GenExtendTaskID t.taskID (str "1"), t.taskID] else [t.taskID]

theorem Made.ids (h : Made x a db job t ps) : ps.map (·.taskID) = t.ids := by
  unfold JobTask.ids
  cases h with
  | whole hs _ hid => rw [if_neg hs, List.map_singleton, hid]
  | split hs _ _ heid _ _ _ hid => rw [if_pos hs, List.map_cons, List.map_singleton, heid, hid]

theorem mem_executed : t ∈ job.executed ↔ t ∈ job.tasks ∧ t.node.IsPad = false := by
  unfold ProjectJob.executed
  rw [List.mem_filter, Bool.not_eq_true']

theorem mem_rendered (h : jobRenderHandler x a db job = .ok r) : p ∈ r.tasks ↔ ∃ t ∈ job.executed, ∃ ps, Becomes x a db job t ps ∧ p ∈ ps := by
  obtain ⟨pss, hall, htasks⟩ := forall₂_becomes h
  rw [htasks]
  unfold pruneJob
  rw [List.mem_filter, List.mem_flatten, Bool.not_eq_true']
  constructor
  · rintro ⟨⟨ps, hps, hp⟩, hpad⟩
    obtain ⟨t, ht, hbecomes⟩ := hall.exists_left ps hps
    refine ⟨t, mem_executed.2 ⟨ht, ?_⟩, ps, hbecomes, hp⟩
    by_contra hne
    exact absurd (hbecomes.pad (by simpa using hne) p hp) (by simp [hpad])
  · rintro ⟨t, ht, ps, hbecomes, hp⟩
    obtain ⟨ht, hpad⟩ := mem_executed.1 ht
    obtain ⟨ps', hps', hbecomes'⟩ := hall.exists_right t ht
    obtain rfl := hbecomes.unique hbecomes'
    exact ⟨⟨ps, hps', hp⟩, (hbecomes.made hpad).not_pad p hp⟩

theorem executed_becomes (h : jobRenderHandler x a db job = .ok r) (ht : t ∈ job.executed) :
    ∃ ps, Becomes x a db job t ps ∧ Made x a db job t ps ∧ ∀ p ∈ ps, p ∈ r.tasks := by
  obtain ⟨pss, hall, _⟩ := forall₂_becomes h
  obtain ⟨hmem, hpad⟩ := mem_executed.1 ht
  obtain ⟨ps, _, hbecomes⟩ := hall.exists_right t hmem
  exact ⟨ps, hbecomes, hbecomes.made hpad, fun p hp => (mem_rendered h).2 ⟨t, ht, ps, hbecomes, hp⟩⟩

theorem ids_rendered {ts : List JobTask} {pss : List (List JobTask)} (h : List.Forall₂ (Becomes x a db job) ts pss) :
    (pruneJob pss.flatten).map (·.taskID) = (ts.filter fun t => !t.node.IsPad).flatMap (·.ids) := by
  unfold pruneJob
  induction h with
  | nil => rfl
  | @cons t ps ts pss hbecomes _ ih =>
    rw [List.flatten_cons, List.filter_append, List.map_append, ih, List.filter_cons]
    cases hpad : t.node.IsPad with
    | true =>
      have hnone : (ps.filter fun p => !p.node.IsPad) = [] := List.filter_eq_nil_iff.2 fun p hp => by simp [hbecomes.pad hpad p hp]
      rw [hnone]
      rfl
    | false =>
      have hmade := hbecomes.made hpad
      have hsame : (ps.filter fun p => !p.node.IsPad) = ps := List.filter_eq_self.2 fun p hp => by simp [hmade.not_pad p hp]
      rw [hsame, hmade.ids]
      rfl

theorem ids_perm {ts : List JobTask} : (ts.flatMap (·.ids)).Perm
    (ts.map (·.taskID) ++ (ts.filter fun t => decide t.Splits).map fun t => GenExtendTaskID t.taskID (str "1")) := by
  induction ts with
  | nil => exact .refl _
  | cons t ts ih =>
    rw [List.flatMap_cons, List.map_cons, List.filter_cons, List.cons_append]
    unfold JobTask.ids
    by_cases hs : t.Splits
    · rw [if_pos hs, if_pos (decide_eq_true hs), List.map_cons]
      refine (List.Perm.swap _ _ _).trans (.cons _ ?_)
      exact (ih.cons _).trans List.perm_middle.symm
    · rw [if_neg hs, if_neg (by simpa using hs)]
      exact ih.cons _

theorem ids_nodup (h : jobRenderHandler x a db job = .ok r) : (r.tasks.map (·.taskID)).Nodup ↔ job.TaskIDsApart := by
  obtain ⟨pss, hall, htasks⟩ := forall₂_becomes h
  have hids : r.tasks.map (·.taskID) = job.executed.flatMap (·.ids) := by
    rw [htasks]
    exact ids_rendered hall
  rw [hids, ids_perm.nodup_iff, List.nodup_append]
  unfold ProjectJob.TaskIDsApart ProjectJob.ExtendedApart
  constructor
  · rintro ⟨hnodup, _, hapart⟩
    refine ⟨hnodup, fun t ht u hu hs => ?_⟩
    exact hapart _ (List.mem_map_of_mem ht) _ (List.mem_map.2 ⟨u, List.mem_filter.2 ⟨hu, decide_eq_true hs⟩, rfl⟩)
  · rintro ⟨hnodup, hapart⟩
    refine ⟨hnodup, ?_, ?_⟩
    · have hsub : ((job.executed.filter fun t => decide t.Splits).map (·.taskID)).Nodup := hnodup.sublist (List.filter_sublist.map _)
      have hext := hsub.map (f := fun d => GenExtendTaskID d (str "1")) fun _ _ he => genExtendTaskID_inj he
      rwa [List.map_map] at hext
    · intro d hd e he
      obtain ⟨t, ht, rfl⟩ := List.mem_map.1 hd
      obtain ⟨u, hu, rfl⟩ := List.mem_map.1 he
      obtain ⟨hu, hs⟩ := List.mem_filter.1 hu
      exact hapart t ht u hu (of_decide_eq_true hs)

theorem FromInputs.dependency (hjob : job.Prepared) (hin : FromInputs x a db job t p) (hd : d ∈ p.dependencies) :
    ∃ u ∈ job.executed, d = u.taskID ∧ ∃ i ∈ t.node.inputs, NodeByInput job.fullNodes i = some u.node := by
  obtain ⟨i, hi, i', hr⟩ := hin.dependencies d hd
  obtain ⟨_, m, hm, hpad, ⟨u, hu, hid⟩, rfl⟩ := renderInput_some hr
  obtain rfl := node_of_id hjob.node_ids (hjob.nodes u hu) (nodeByInput_mem hm) hid
  exact ⟨u, mem_executed.2 ⟨hu, hpad⟩, (hjob.taskIDs u hu).symm, i, hi, hm⟩

theorem dependencies_rendered (hjob : job.Prepared) (h : jobRenderHandler x a db job = .ok r) :
    ∀ p ∈ r.tasks, ∀ d ∈ p.dependencies, ∃ q ∈ r.tasks, q.taskID = d := by
  have hmain : ∀ u ∈ job.executed, ∃ q ∈ r.tasks, q.taskID = u.taskID := by
    intro u hu
    obtain ⟨ps, _, hmade, hmem⟩ := executed_becomes h hu
    obtain ⟨q, hq, hid⟩ := hmade.has_main
    exact ⟨q, hmem q hq, hid⟩
  intro p hp d hd
  obtain ⟨t, ht, ps, hbecomes, hps⟩ := (mem_rendered h).1 hp
  obtain ⟨_, _, hmade, hmem⟩ := executed_becomes h ht
  cases hbecomes.made (mem_executed.1 ht).2 with
  | whole _ _ _ hin =>
    obtain rfl := List.mem_singleton.1 hps
    obtain ⟨u, hu, rfl, _⟩ := hin.dependency hjob hd
    exact hmain u hu
  | @split e q _ _ _ _ _ _ _ hein _ _ _ hdeps =>
    rcases List.mem_cons.1 hps with rfl | hps
    · obtain ⟨u, hu, rfl, _⟩ := hein.dependency hjob hd
      exact hmain u hu
    · obtain rfl := List.mem_singleton.1 hps
      rw [hdeps] at hd
      obtain rfl := List.mem_singleton.1 hd
      exact ⟨e, (mem_rendered h).2 ⟨t, ht, _, hbecomes, .head _⟩, rfl⟩

def nodeTaskID (jobID : Bytes) (q : GraphNodeInfo × Bool) : Bytes :=
  if q.2 then GenExtendTaskID (GenTaskID jobID q.1.graphNodeId) (str "1") else GenTaskID jobID q.1.graphNodeId

theorem dependsOn_acyclic (hjob : job.Prepared) (h : jobRenderHandler x a db job = .ok r) (hapart : job.ExtendedApart)
    (hflow : Acyclic (ReadsFrom job.fullNodes)) : Acyclic (DependsOn r.tasks) := by
  refine .of_names (nodeTaskID job.jobID) (fun q => ∃ t ∈ job.executed, t.node = q.1 ∧ (q.2 = true → t.Splits)) ?_ ?_ hflow.split
  · rintro ⟨n, b⟩ ⟨m, c⟩ ⟨t, ht, rfl, hts⟩ ⟨u, hu, rfl, hus⟩ heq
    have htm := (mem_executed.1 ht).1
    have hum := (mem_executed.1 hu).1
    have hnode : GenTaskID job.jobID t.node.graphNodeId = GenTaskID job.jobID u.node.graphNodeId → t.node = u.node := fun he =>
      node_of_id hjob.node_ids (hjob.nodes t htm) (hjob.nodes u hum) (genTaskID_inj he)
    cases b with
    | false => cases c with
      | false => exact Prod.ext (hnode heq) rfl
      | true => exact absurd ((hjob.taskIDs t htm).trans (heq.trans (congrArg (GenExtendTaskID · (str "1")) (hjob.taskIDs u hum).symm))) (hapart t ht u hu (hus rfl))
    | true => cases c with
      | false => exact absurd ((hjob.taskIDs u hum).trans (heq.symm.trans (congrArg (GenExtendTaskID · (str "1")) (hjob.taskIDs t htm).symm))) (hapart u hu t ht (hts rfl))
      | true => exact Prod.ext (hnode (genExtendTaskID_inj heq)) rfl
  · rintro d d' ⟨p, hp, rfl, hd⟩
    obtain ⟨t, ht, ps, hbecomes, hps⟩ := (mem_rendered h).1 hp
    have htm := (mem_executed.1 ht).1
    have hid := hjob.taskIDs t htm
    -- a task from the inputs of `t` depends on the tasks of the nodes that they come from
    have hout : ∀ b, (b = true → t.Splits) → p.taskID = nodeTaskID job.jobID (t.node, b) → FromInputs x a db job t p →
        ∃ q q', (∃ t ∈ job.executed, t.node = q.1 ∧ (q.2 = true → t.Splits)) ∧ (∃ t ∈ job.executed, t.node = q'.1 ∧ (q'.2 = true → t.Splits)) ∧
          nodeTaskID job.jobID q = p.taskID ∧ nodeTaskID job.jobID q' = d' ∧ Acyclic.Split (ReadsFrom job.fullNodes) q q' := by
      intro b hb hpid hin
      obtain ⟨u, hu, rfl, i, hi, hm⟩ := hin.dependency hjob hd
      exact ⟨(t.node, b), (u.node, false), ⟨t, ht, rfl, hb⟩, ⟨u, hu, rfl, nofun⟩, hpid.symm, (hjob.taskIDs u (mem_executed.1 hu).1).symm,
        .out b ⟨hjob.nodes t htm, i, hi, hm⟩⟩
    cases hbecomes.made (mem_executed.1 ht).2 with
    | whole _ _ hpid hin =>
      obtain rfl := List.mem_singleton.1 hps
      exact hout false nofun (hpid.trans hid) hin
    | @split e q _ _ _ hs _ _ heid hein _ _ hpid hdeps =>
      have heid' : e.taskID = nodeTaskID job.jobID (t.node, true) := heid.trans (congrArg (GenExtendTaskID · (str "1")) hid)
      rcases List.mem_cons.1 hps with rfl | hps
      · exact hout true (fun _ => hs) heid' hein
      · obtain rfl := List.mem_singleton.1 hps
        rw [hdeps] at hd
        obtain rfl := List.mem_singleton.1 hd
        exact ⟨(t.node, false), (t.node, true), ⟨t, ht, rfl, nofun⟩, ⟨t, ht, rfl, fun _ => hs⟩, (hpid.trans hid).symm, heid'.symm, .second _⟩

theorem Made.outputs (h : Made x a db job t ps) : ∀ p ∈ ps, ∀ j ∈ p.node.outputs, ∃ o ∈ t.node.outputs, j = GenTaskOutputID job.jobID o := by
  cases h with
  | whole _ _ _ _ hout =>
    intro p hp j hj
    obtain rfl := List.mem_singleton.1 hp
    rw [hout] at hj
    obtain ⟨o, ho, rfl⟩ := List.mem_map.1 hj
    exact ⟨o, ho, rfl⟩
  | @split e q o o' os _ houts _ _ _ heout _ _ _ _ hout =>
    intro p hp j hj
    rw [houts]
    rcases List.mem_cons.1 hp with rfl | hp
    · rw [heout] at hj
      exact ⟨o, .head _, List.mem_singleton.1 hj⟩
    · obtain rfl := List.mem_singleton.1 hp
      rw [hout] at hj
      exact ⟨o', .tail _ (.head _), List.mem_singleton.1 hj⟩

theorem output_unique (hjob : job.Prepared) (h : jobRenderHandler x a db job = .ok r) (houts : (job.fullNodes.flatMap (·.outputs)).Nodup)
    (hp : p ∈ r.tasks) (hu : u ∈ r.tasks) {j : Bytes} (hjp : j ∈ p.node.outputs) (hju : j ∈ u.node.outputs) : p = u := by
  obtain ⟨t, ht, ps, hps, hp⟩ := (mem_rendered h).1 hp
  obtain ⟨t', ht', us, hus, hu⟩ := (mem_rendered h).1 hu
  obtain ⟨htm, htpad⟩ := mem_executed.1 ht
  obtain ⟨htm', htpad'⟩ := mem_executed.1 ht'
  obtain ⟨o, ho, hj⟩ := (hps.made htpad).outputs p hp j hjp
  obtain ⟨o', ho', hj'⟩ := (hus.made htpad').outputs u hu j hju
  obtain rfl := genTaskOutputID_inj (hj.symm.trans hj')
  obtain rfl := hjob.one t htm t' htm' (node_of_output houts (hjob.nodes t htm) (hjob.nodes t' htm') ho ho')
  obtain rfl := hps.unique hus
  cases hps.made htpad with
  | whole => exact (List.mem_singleton.1 hp).trans (List.mem_singleton.1 hu).symm
  | @split e q o₁ o₂ os _ ht₁ _ _ _ heout _ _ _ _ hout =>
    have hne : o₁ ≠ o₂ := by
      have hnodup := (List.nodup_flatMap.1 houts).1 _ (hjob.nodes t htm)
      rw [ht₁] at hnodup
      exact fun he => (List.nodup_cons.1 hnodup).1 (he ▸ List.mem_cons_self)
    rcases List.mem_cons.1 hp with rfl | hp
    · rcases List.mem_cons.1 hu with rfl | hu
      · rfl
      · obtain rfl := List.mem_singleton.1 hu
        rw [heout] at hjp
        rw [hout] at hju
        exact absurd (genTaskOutputID_inj ((List.mem_singleton.1 hjp).symm.trans (List.mem_singleton.1 hju))) hne
    · obtain rfl := List.mem_singleton.1 hp
      rcases List.mem_cons.1 hu with rfl | hu
      · rw [hout] at hjp
        rw [heout] at hju
        exact absurd (genTaskOutputID_inj ((List.mem_singleton.1 hju).symm.trans (List.mem_singleton.1 hjp))) hne
      · exact (List.mem_singleton.1 hu).symm

theorem dependsOn_made (h : jobRenderHandler x a db job = .ok r) (ht : t ∈ job.executed) (hps : Becomes x a db job t ps) (hu : u ∈ ps)
    (hd : DependsOn r.tasks d t.taskID) : TransGen (DependsOn r.tasks) d u.taskID := by
  cases hps.made (mem_executed.1 ht).2 with
  | whole _ _ hid =>
    obtain rfl := List.mem_singleton.1 hu
    exact .single (hid ▸ hd)
  | @split e q _ _ _ _ _ _ _ _ _ _ hid hdeps =>
    rcases List.mem_cons.1 hu with rfl | hu
    · have hq : q ∈ r.tasks := (mem_rendered h).2 ⟨t, ht, _, hps, .tail _ (.head _)⟩
      exact .tail (.single hd) ⟨q, hq, hid, hdeps ▸ List.mem_singleton_self _⟩
    · obtain rfl := List.mem_singleton.1 hu
      exact .single (hid ▸ hd)

theorem dependsOn_input (hjob : job.Prepared) (h : jobRenderHandler x a db job = .ok r) (hapart : job.NamesApart x a db) (hp : p ∈ r.tasks)
    (hu : u ∈ r.tasks) (hne : u ≠ p) {j : Bytes} (hjp : j ∈ p.node.inputs) (hju : j ∈ u.node.outputs) :
    TransGen (DependsOn r.tasks) p.taskID u.taskID := by
  obtain ⟨t, ht, ps, hps, hpmem⟩ := (mem_rendered h).1 hp
  obtain ⟨t', ht', us, hus, humem⟩ := (mem_rendered h).1 hu
  obtain ⟨htm', htpad'⟩ := mem_executed.1 ht'
  obtain ⟨o, ho, rfl⟩ := (hus.made htpad').outputs u humem j hju
  have hojob : o ∈ job.outputs := List.mem_flatMap.2 ⟨t', htm', ho⟩
  -- an input that is `o` is that of the node of `u`; the other names are not those of outputs
  have hinput : FromInputs x a db job t p → TransGen (DependsOn r.tasks) p.taskID u.taskID := by
    intro hin
    rcases hin.inputs _ hjp with ⟨i, hi, i', d, hr, hj, hd⟩ | hown | ⟨hash, id, report, hreport, hj⟩
    · obtain ⟨hsome, hraw⟩ := hapart.inputs t ht i hi i' d hr
      have hi' : i' ∈ job.outputs := by
        by_contra hout
        rw [if_neg hout] at hj
        exact hout (hraw (hj ▸ List.mem_map_of_mem hojob))
      rw [if_pos hi'] at hj
      obtain rfl := genTaskOutputID_inj hj
      cases d with
      | none => exact absurd rfl (hsome hi')
      | some d =>
        obtain ⟨rfl, m, hm, _, _, rfl⟩ := renderInput_some hr
        have hnode := nodeByInput_output hjob.node_ids hapart.outputs (hjob.nodes t' htm') ho
        obtain rfl : m = t'.node := Option.some.inj (hm.symm.trans hnode)
        refine dependsOn_made h ht' hus humem ⟨p, hp, rfl, ?_⟩
        rw [hjob.taskIDs t' htm']
        exact hd _ rfl
    · exact absurd (output_unique hjob h hapart.outputs hu hp hju hown) hne
    · exact absurd (hj ▸ List.mem_map_of_mem hojob) (hapart.reports hash id report hreport)
  cases hps.made (mem_executed.1 ht).2 with
  | whole _ _ _ hin =>
    obtain rfl := List.mem_singleton.1 hpmem
    exact hinput hin
  | @split e q o₁ _ _ _ _ _ _ hein heout _ _ hdeps hqin =>
    rcases List.mem_cons.1 hpmem with rfl | hpmem
    · exact hinput hein
    · -- the second task reads what the first one writes
      obtain rfl := List.mem_singleton.1 hpmem
      rw [hqin] at hjp
      have he : e ∈ r.tasks := (mem_rendered h).2 ⟨t, ht, _, hps, .head _⟩
      obtain rfl := output_unique hjob h hapart.outputs he hu (heout ▸ hjp) hju
      exact .single ⟨p, hp, rfl, hdeps ▸ List.mem_singleton_self _⟩

/-- A rendered job: its task ids are distinct just when those of its nodes are apart, it has no pad, its dependencies
are tasks of it without a cycle, and a task depends on those whose outputs it reads. -/
theorem render_sound (hprep : prepare a req opts = .ok job) (h : jobRenderHandler x a db job = .ok r) :
    ((r.tasks.map (·.taskID)).Nodup ↔ job.TaskIDsApart) ∧ (∀ p ∈ r.tasks, p.node.IsPad = false) ∧
    (∀ p ∈ r.tasks, ∀ d ∈ p.dependencies, ∃ q ∈ r.tasks, q.taskID = d) ∧
    (job.ExtendedApart → Acyclic (ReadsFrom job.fullNodes) → Acyclic (DependsOn r.tasks)) ∧
    (job.NamesApart x a db → ∀ p ∈ r.tasks, ∀ u ∈ r.tasks, u ≠ p → ∀ j ∈ p.node.inputs, j ∈ u.node.outputs →
      TransGen (DependsOn r.tasks) p.taskID u.taskID) := by
  have hjob := prepared_of_prepare hprep
  refine ⟨ids_nodup h, fun p hp => ?_, dependencies_rendered hjob h, dependsOn_acyclic hjob h, ?_⟩
  · obtain ⟨t, ht, ps, hps, hp⟩ := (mem_rendered h).1 hp
    exact (hps.made (mem_executed.1 ht).2).not_pad p hp
  · exact fun hapart p hp u hu hne j hjp hju => dependsOn_input hjob h hapart hp hu hne hjp hju

def component (id name : String) (inputs outputs : List String) : GraphNodeInfo where
  codeName := str "c/" ++ str name
  graphNodeId := str id
  inputs := inputs.map str
  outputs := outputs.map str
  nodeDef := ⟨str "c", str name, [], [str "attr"]⟩

def datatable (id tableID : String) : GraphNodeInfo where
  codeName := CompReadDataDatatable
  graphNodeId := str id
  inputs := []
  outputs := [str id ++ str "-output-0"]
  nodeDef := ⟨str "read_data", str "datatable", [str "datatable_selected"], [str tableID]⟩

def graphAnswers (nodes : List GraphNodeInfo) (h : (nodes.map (·.graphNodeId)).Nodup) : Answers := { answers with graph := .ok ⟨str "g", [], nodes, h⟩ }

def rendered (x : Texts) (a : Answers) (req : StartGraphRequest) (opts : StartGraphOptions) (db : Db) : Except Err ProjectJob := do
  let job ← prepare a req opts
  let db ← jobPersistentHandler x a opts db job
  jobRenderHandler x a db job

def okWith {α : Type} (r : Except Err α) (f : α → Bool) : Bool :=
  match r with
  | .ok a => f a
  | .error _ => false

theorem exists_of_okWith {α : Type} {r : Except Err α} {f : α → Bool} (h : okWith r f = true) : ∃ a, r = .ok a ∧ f a = true := by
  cases r with
  | error e => cases h
  | ok a => exact ⟨a, rfl, h⟩

instance : Decidable job.TaskIDsApart := by
  unfold ProjectJob.TaskIDsApart ProjectJob.ExtendedApart
  infer_instance

def splitNodes : List GraphNodeInfo :=
  [datatable "d" "table", component "n" "describe" ["d-output-0"] ["n-output-0"],
    component "m" "binning_modifications" ["n-output-0"] ["m-output-0", "m-output-1"]]

def splitAnswers : Answers := graphAnswers splitNodes (by decide)

theorem splitNodes_acyclic : Acyclic (ReadsFrom splitNodes) := by
  have hdown : ∀ n ∈ splitNodes, ∀ i ∈ n.inputs, ∀ m, NodeByInput splitNodes i = some m → splitNodes.idxOf m < splitNodes.idxOf n := by decide +kernel
  exact .of_rank (fun n => splitNodes.idxOf n) fun n m ⟨hn, i, hi, hm⟩ => hdown n hn i hi m hm

theorem render_sound_split : ∃ job r, prepare splitAnswers request ⟨false, []⟩ = .ok job ∧
    jobRenderHandler texts splitAnswers (earlier (str "m")) job = .ok r ∧ job.NamesApart texts splitAnswers (earlier (str "m")) ∧
    r.tasks.map (·.taskID) = [str "job-n", str "job-m--1", str "job-m"] ∧ (r.tasks.map (·.taskID)).Nodup ∧ Acyclic (DependsOn r.tasks) := by
  have hok : okWith (prepare splitAnswers request ⟨false, []⟩) (fun job => okWith (jobRenderHandler texts splitAnswers (earlier (str "m")) job) fun r =>
      decide (r.tasks.map (·.taskID) = [str "job-n", str "job-m--1", str "job-m"] ∧ job.fullNodes = splitNodes ∧ job.TaskIDsApart ∧
        (job.fullNodes.flatMap (·.outputs)).Nodup ∧ ∀ t ∈ job.executed, ∀ i ∈ t.node.inputs,
          okWith (renderInput texts splitAnswers (earlier (str "m")) job t i) fun r =>
            decide ((r.1 ∈ job.outputs → r.2 ≠ none) ∧ (r.1 ∈ job.outputs.map (GenTaskOutputID job.jobID) → r.1 ∈ job.outputs)))) = true := by
    decide +kernel
  obtain ⟨job, hjob, hok⟩ := exists_of_okWith hok
  obtain ⟨r, hr, hok⟩ := exists_of_okWith hok
  obtain ⟨hids, hnodes, hapart, houts, hinputs⟩ := of_decide_eq_true hok
  obtain ⟨hnodup, _, _, hacyclic, _⟩ := render_sound hjob hr
  refine ⟨job, r, hjob, hr, ⟨houts, fun t ht i hi i' d hrender => ?_, fun _ _ _ hreport => by cases hreport⟩, hids, hnodup.2 hapart,
    hacyclic hapart.2 (hnodes ▸ splitNodes_acyclic)⟩
  have hcheck := hinputs t ht i hi
  rw [hrender] at hcheck
  exact of_decide_eq_true hcheck

def Missed (ids : List Bytes) (tasks : List JobTask) : Prop :=
  ∃ p ∈ tasks, ∃ u ∈ tasks, u ≠ p ∧ (∃ j ∈ p.node.inputs, j ∈ u.node.outputs) ∧ u.taskID ∉ ids ∧
    ∀ t ∈ tasks, t.taskID = p.taskID ∨ t.taskID ∈ ids → ∀ d ∈ t.dependencies, d ∈ ids

instance (ids : List Bytes) (tasks : List JobTask) : Decidable (Missed ids tasks) := by
  unfold Missed
  infer_instance

theorem Missed.not_dependsOn {ids : List Bytes} {tasks : List JobTask} (h : Missed ids tasks) :
    ∃ p ∈ tasks, ∃ u ∈ tasks, u ≠ p ∧ (∃ j ∈ p.node.inputs, j ∈ u.node.outputs) ∧ ¬TransGen (DependsOn tasks) p.taskID u.taskID := by
  obtain ⟨p, hp, u, hu, hne, hreads, hout, hclosed⟩ := h
  have hpath : ∀ d, TransGen (DependsOn tasks) p.taskID d → d ∈ ids := by
    intro d hd
    induction hd with
    | single hd =>
      obtain ⟨t, ht, hid, hd⟩ := hd
      exact hclosed t ht (.inl hid) _ hd
    | tail _ hd ih =>
      obtain ⟨t, ht, hid, hd⟩ := hd
      exact hclosed t ht (.inr (hid ▸ ih)) _ hd
  exact ⟨p, hp, u, hu, hne, hreads, fun hd => hout (hpath _ hd)⟩

def twice : Except Err ProjectJob :=
  rendered texts (graphAnswers [component "n" "describe" [] ["n-output-0"]] (by decide)) ⟨str "p", str "g", [str "n", str "n"]⟩ ⟨true, str "job"⟩
    (earlier (str "n"))

def renderedAll (nodes : List GraphNodeInfo) (h : (nodes.map (·.graphNodeId)).Nodup) : Except Err ProjectJob :=
  rendered texts (graphAnswers nodes h) request ⟨false, []⟩ (earlier (str "u"))

def extended : Except Err ProjectJob :=
  renderedAll [component "n" "binning_modifications" [] ["n-output-0", "n-output-1"], component "n--1" "describe" [] []] (by decide)

def readEachOther : Except Err ProjectJob :=
  renderedAll [component "n" "describe" ["m-output-0"] ["n-output-0"], component "m" "describe" ["n-output-0"] ["m-output-0"]] (by decide)

def sameOutput : Except Err ProjectJob :=
  renderedAll [component "n" "describe" [] ["o"], component "m" "describe" [] ["o"], component "k" "describe" ["o"] []] (by decide)

def tableOutput : Except Err ProjectJob :=
  renderedAll [datatable "d" "n-output-0", component "n" "describe" [] ["n-output-0"], component "k" "describe" ["d-output-0"] []] (by decide)

def earlierOutput : Except Err ProjectJob :=
  rendered texts (graphAnswers [component "u" "describe" [] ["u-output-0"], component "n" "describe" [] ["old-u-output-0"],
    component "k" "describe" ["u-output-0"] []] (by decide)) ⟨str "p", str "g", [str "n", str "k"]⟩ ⟨false, []⟩ (earlier (str "u"))

def renderedOutput : Except Err ProjectJob :=
  renderedAll [component "n" "describe" [] ["n-output-0"], component "job-n" "describe" [] [], component "k" "describe" ["job-n-output-0"] []] (by decide)

def editedOutput : Except Err ProjectJob :=
  rendered { texts with modelHash := fun _ => str "hash" }
    { graphAnswers [component "n" "describe" [] ["n-0"], component "m" "binning_modifications" [] ["m-output-0", "m-output-1"]] (by decide) with
      editedReport := fun _ _ => some (str "job-n-1") } request ⟨false, []⟩ (earlier (str "u"))

theorem render_sound_fails :
    ([twice, extended].Forall fun r => ∃ job, r = .ok job ∧ ¬(job.tasks.map (·.taskID)).Nodup) ∧
    (∃ job, readEachOther = .ok job ∧ job.edges = [] ∧ ¬Acyclic (DependsOn job.tasks)) ∧
    [sameOutput, tableOutput, earlierOutput, renderedOutput, editedOutput].Forall fun r => ∃ job, r = .ok job ∧
      ∃ p ∈ job.tasks, ∃ u ∈ job.tasks, u ≠ p ∧ (∃ j ∈ p.node.inputs, j ∈ u.node.outputs) ∧ ¬TransGen (DependsOn job.tasks) p.taskID u.taskID := by
  refine ⟨List.forall_iff_forall_mem.2 fun r hr => ?_, ?_, List.forall_iff_forall_mem.2 fun r hr => ?_⟩
  · have hok : ∀ r ∈ [twice, extended], okWith r (fun job => decide ¬(job.tasks.map (·.taskID)).Nodup) = true := by decide +kernel
    obtain ⟨job, hjob, hd⟩ := exists_of_okWith (hok r hr)
    exact ⟨job, hjob, of_decide_eq_true hd⟩
  · have hok : okWith readEachOther (fun job => decide (job.edges = [] ∧ (∃ t ∈ job.tasks, t.taskID = str "job-n" ∧ str "job-m" ∈ t.dependencies) ∧
        ∃ t ∈ job.tasks, t.taskID = str "job-m" ∧ str "job-n" ∈ t.dependencies)) = true := by decide +kernel
    obtain ⟨job, hjob, hd⟩ := exists_of_okWith hok
    obtain ⟨hedges, hn, hm⟩ := of_decide_eq_true hd
    exact ⟨job, hjob, hedges, fun hacyclic => hacyclic (str "job-n") (.tail (.single hn) hm)⟩
  · have hok : ∀ r ∈ [sameOutput, tableOutput, earlierOutput, renderedOutput, editedOutput],
        okWith r (fun job => decide (∃ ids ∈ [[], [str "job-m"], [str "job-job-n"]], Missed ids job.tasks)) = true := by decide +kernel
    obtain ⟨job, hjob, hd⟩ := exists_of_okWith (hok r hr)
    obtain ⟨ids, _, hmissed⟩ := of_decide_eq_true hd
    exact ⟨job, hjob, hmissed.not_dependsOn⟩

end Graph.Chain
