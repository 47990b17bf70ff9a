import Privahub.Lib.Run
import Privahub.Web.GraphModel

/-!
# The canvas

What the user does to the graph on the canvas: nodes are added, pasted and deleted, connected and disconnected, and all of it is undone
and redone. `sound_run`: as long as only nodes that are on the canvas are connected, the edges stay acyclic and between nodes of the
canvas, no two end at one anchor, and every node has the inputs that its edges give it.
-/

namespace Web

/-- `nodeDef` with its values as text. -/
structure DAGNode where
  id : Bytes
  codeName : Bytes
  ports : List PortDef
  inputs : List Bytes
  outputs : List Bytes
  resultOutputs : List Bytes
  nodeDef : Option (List (Bytes × Bytes))
  deriving DecidableEq

namespace Canvas

def MODIFICATION_CODE_NAMES : List Bytes := [str "feature/binning_modifications", str "preprocessing/model_param_modifications"]

def isModificationNode (codeName : Bytes) : Bool := MODIFICATION_CODE_NAMES.contains codeName

def clearNodeDefAttrs (nodeDef : Option (List (Bytes × Bytes))) : Option (List (Bytes × Bytes)) :=
  nodeDef.map fun d => d.filter fun kv => kv.1 != str "attrs" && kv.1 != str "attrPaths"

structure Snapshot where
  nodes : List DAGNode
  edges : List DAGEdge

/-- The canvas, and what undo and redo go back to, the latest first. -/
structure State where
  now : Snapshot
  undo : List Snapshot
  redo : List Snapshot

def empty : State := ⟨⟨[], []⟩, [], []⟩

/-- An added node has no inputs yet. Pasted nodes come with the ids allocated for them, as many as there are nodes. -/
inductive Op
  | add (n : DAGNode)
  | paste (sources : List DAGNode) (ids : List Bytes)
  | connect (sourceId targetId : Bytes) (explicit : Option (Bytes × Bytes))
  | deleteEdge (edgeId : Bytes)
  | deleteNodes (ids : List Bytes)
  | undo
  | redo

/-- `pushHistory`, and the change that it is called for. -/
def State.commit (c : State) (s : Snapshot) : State := ⟨s, (c.now :: c.undo).take 50, []⟩

def handleUndo (c : State) : State := match c.undo with
  | [] => c
  | s :: rest => ⟨s, rest, c.now :: c.redo⟩

def handleRedo (c : State) : State := match c.redo with
  | [] => c
  | s :: rest => ⟨s, c.now :: c.undo, rest⟩

def addNode (s : Snapshot) (n : DAGNode) : Snapshot := { s with nodes := s.nodes ++ [{ n with inputs := [] }] }

def cloneNode (src : DAGNode) (id : Bytes) : DAGNode :=
  let rewrite (a : Bytes) : Bytes := if src.id ++ str "-" <+: a then id ++ str "-" ++ a.drop (src.id.length + 1) else a
  { src with
    id
    inputs := []
    outputs := src.outputs.map rewrite
    ports := src.ports.map fun p => { p with id := rewrite p.id }
    resultOutputs := src.resultOutputs.map rewrite
    nodeDef := if isModificationNode src.codeName then clearNodeDefAttrs src.nodeDef else src.nodeDef }

def pasteNodes (s : Snapshot) (sources : List DAGNode) (ids : List Bytes) : Snapshot :=
  { s with nodes := s.nodes ++ List.zipWith cloneNode sources ids }

def deleteNodes (s : Snapshot) (ids : List Bytes) : Snapshot :=
  let remainingEdges := s.edges.filter fun e => !ids.contains e.source && !ids.contains e.target
  ⟨(s.nodes.filter fun n => !ids.contains n.id).map fun n =>
    if s.edges.any fun e => e.target == n.id && ids.contains e.source then { n with inputs := deriveInputs n.id remainingEdges } else n,
    remainingEdges⟩

def find (s : Snapshot) (id : Bytes) : Option DAGNode := s.nodes.find? fun n => n.id == id

def portsOf (s : Snapshot) (id : Bytes) : List PortDef := ((find s id).map DAGNode.ports).getD []

def edgeOf (c : ConnectionCandidate) : DAGEdge :=
  ⟨edgeIdOf c.sourceAnchor c.targetAnchor, c.source, c.target, some c.sourceAnchor, some c.targetAnchor⟩

def freeIndex (used : List Nat) : Nat := ((List.range (used.length + 1)).find? fun i => !used.contains i).getD 0

def plainCandidate (s : Snapshot) (sourceId targetId : Bytes) (explicit : Option (Bytes × Bytes)) : ConnectionCandidate :=
  let usedInputs := (s.edges.filter fun e => e.target == targetId).filterMap fun e => (parseAnchor e.targetAnchor).map Anchor.index
  ⟨sourceId, targetId,
    (explicit.map Prod.fst).getD (((find s sourceId).bind fun n => n.outputs.head?).getD (outputAnchor sourceId 0)),
    (explicit.map Prod.snd).getD (inputAnchor targetId (freeIndex usedInputs))⟩

def handleConnect (s : Snapshot) (sourceId targetId : Bytes) (explicit : Option (Bytes × Bytes)) :
    Except ConnectionError ConnectionCandidate :=
  if sourceId = targetId then .error .self
  else if portsOf s sourceId ≠ [] ∧ portsOf s targetId ≠ [] then
    match explicit with
    | some (sourceAnchor, targetAnchor) =>
      (validateConnection s.edges (portsOf s) ⟨sourceId, targetId, sourceAnchor, targetAnchor⟩).map fun _ =>
        ⟨sourceId, targetId, sourceAnchor, targetAnchor⟩
    | none => pickConnection s.edges (portsOf s) sourceId targetId
  else
    let c := plainCandidate s sourceId targetId explicit
    (validateConnection s.edges (fun _ => []) c).map fun _ => c

def connected (edge : DAGEdge) (nextEdges : List DAGEdge) (n : DAGNode) : DAGNode :=
  if n.id = edge.target then
    { n with
      inputs := deriveInputs n.id nextEdges
      nodeDef := if isModificationNode n.codeName then clearNodeDefAttrs n.nodeDef else n.nodeDef }
  else match edge.sourceAnchor with
    | some a => if n.id = edge.source ∧ a ≠ [] ∧ a ∉ n.outputs ∧ n.ports = [] then { n with outputs := n.outputs ++ [a] } else n
    | none => n

def commitEdge (s : Snapshot) (edge : DAGEdge) : Snapshot :=
  let nextEdges := s.edges ++ [edge]
  ⟨s.nodes.map (connected edge nextEdges), nextEdges⟩

def deleteEdge (s : Snapshot) (edgeId : Bytes) (edge : DAGEdge) : Snapshot :=
  let nextEdges := s.edges.filter fun e => e.id != edgeId
  ⟨s.nodes.map fun n => if n.id = edge.target then { n with inputs := deriveInputs n.id nextEdges } else n, nextEdges⟩

def apply (c : State) : Op → State
  | .add n => c.commit (addNode c.now n)
  | .paste sources ids => if sources = [] then c else c.commit (pasteNodes c.now sources ids)
  | .connect sourceId targetId explicit => match handleConnect c.now sourceId targetId explicit with
    | .ok k => c.commit (commitEdge c.now (edgeOf k))
    | .error _ => c
  | .deleteEdge edgeId => match c.now.edges.find? fun e => e.id == edgeId with
    | some edge => c.commit (deleteEdge c.now edgeId edge)
    | none => c
  | .deleteNodes ids => if ids = [] then c else c.commit (deleteNodes c.now ids)
  | .undo => handleUndo c
  | .redo => handleRedo c

def step (c : State) (op : Op) : Option State := some (apply c op)

def Snapshot.ids (s : Snapshot) : List Bytes := s.nodes.map DAGNode.id

/-- The anchors of the edge are an output of its source and an input of its target. -/
def OwnAnchors (e : DAGEdge) : Prop :=
  (∃ i, parseAnchor e.sourceAnchor = some ⟨e.source, .output, i⟩) ∧ ∃ i, parseAnchor e.targetAnchor = some ⟨e.target, .input, i⟩

structure Sound (s : Snapshot) : Prop where
  acyclic : Acyclic (Leads s.edges)
  anchors : (s.edges.map DAGEdge.targetAnchor).Nodup
  ends : ∀ e ∈ s.edges, e.source ∈ s.ids ∧ e.target ∈ s.ids
  own : ∀ e ∈ s.edges, OwnAnchors e
  inputs : ∀ n ∈ s.nodes, n.inputs = deriveInputs n.id s.edges

/-- The ids of added and pasted nodes are not those of nodes on the canvas. -/
def Fresh (c : State) : Op → Prop
  | .add n => n.id ∉ c.now.ids
  | .paste _ ids => ∀ id ∈ ids, id ∉ c.now.ids
  | _ => True

/-- The condition: nodes that are connected are on the canvas, and an edge id that is deleted is that of edges to one node. -/
def Known (c : State) : Op → Prop
  | .connect sourceId targetId _ => sourceId ∈ c.now.ids ∧ targetId ∈ c.now.ids
  | .deleteEdge edgeId => ∀ e ∈ c.now.edges, ∀ e' ∈ c.now.edges, e.id = edgeId → e'.id = edgeId → e.target = e'.target
  | _ => True

variable {s : Snapshot} {c c' : State} {op : Op} {k : ConnectionCandidate}

theorem Sound.empty : Sound ⟨[], []⟩ where
  acyclic := Acyclic.of_rank (fun _ => 0) fun _ _ h => by
    obtain ⟨_, he, _⟩ := h
    cases he
  anchors := List.Pairwise.nil
  ends := nofun
  own := nofun
  inputs := nofun

theorem Sound.deriveInputs_of_not_mem {id : Bytes} (h : Sound s) (hid : id ∉ s.ids) : deriveInputs id s.edges = [] :=
  deriveInputs_nil fun e he ht => hid (ht ▸ (h.ends e he).2)

theorem Sound.append {new : List DAGNode} (h : Sound s) (hnew : ∀ n ∈ new, n.id ∉ s.ids ∧ n.inputs = []) :
    Sound { s with nodes := s.nodes ++ new } := by
  have hids : ∀ id ∈ s.ids, id ∈ ({ s with nodes := s.nodes ++ new } : Snapshot).ids := by
    intro id hid
    show id ∈ (s.nodes ++ new).map DAGNode.id
    rw [List.map_append]
    exact List.mem_append_left _ hid
  refine ⟨h.acyclic, h.anchors, fun e he => (h.ends e he).imp (hids _) (hids _), h.own, fun n hn => ?_⟩
  rcases List.mem_append.1 hn with hn | hn
  · exact h.inputs n hn
  · obtain ⟨hid, hin⟩ := hnew n hn
    rw [hin, h.deriveInputs_of_not_mem hid]

theorem sound_paste {sources : List DAGNode} {ids : List Bytes} (h : Sound s) (hfresh : ∀ id ∈ ids, id ∉ s.ids) :
    Sound (pasteNodes s sources ids) := by
  refine h.append fun n hn => ?_
  obtain ⟨i, hi, rfl⟩ := List.getElem_of_mem hn
  rw [List.getElem_zipWith]
  exact ⟨hfresh _ (List.getElem_mem _), rfl⟩

theorem Sound.filter {p : DAGEdge → Bool} {nodes : List DAGNode} (h : Sound s)
    (hends : ∀ e ∈ s.edges, p e = true → e.source ∈ nodes.map DAGNode.id ∧ e.target ∈ nodes.map DAGNode.id)
    (hin : ∀ n ∈ nodes, n.inputs = deriveInputs n.id (s.edges.filter p)) : Sound ⟨nodes, s.edges.filter p⟩ where
  acyclic := h.acyclic.mono fun _ _ hab => by
    obtain ⟨e, he, hab⟩ := hab
    exact ⟨e, (List.mem_filter.1 he).1, hab⟩
  anchors := h.anchors.sublist (List.filter_sublist.map _)
  ends := fun e he => hends e (List.mem_filter.1 he).1 (List.mem_filter.1 he).2
  own := fun e he => h.own e (List.mem_filter.1 he).1
  inputs := hin

theorem sound_deleteNodes {ids : List Bytes} (h : Sound s) : Sound (deleteNodes s ids) := by
  refine h.filter (fun e he hp => ?_) fun n hn => ?_
  · simp only [Bool.and_eq_true, Bool.not_eq_true', List.contains_eq_mem, decide_eq_false_iff_not] at hp
    rw [List.map_map]
    have hkept : ∀ id ∈ s.ids, id ∉ ids → id ∈ (s.nodes.filter fun n => !ids.contains n.id).map
        (DAGNode.id ∘ fun n => if s.edges.any fun e => e.target == n.id && ids.contains e.source then
          { n with inputs := deriveInputs n.id (s.edges.filter fun e => !ids.contains e.source && !ids.contains e.target) } else n) := by
      intro id hid hnot
      obtain ⟨n, hn, rfl⟩ := List.mem_map.1 hid
      refine List.mem_map.2 ⟨n, List.mem_filter.2 ⟨hn, by simpa using hnot⟩, ?_⟩
      show (if _ then _ else n).id = n.id
      split_ifs <;> rfl
    exact ⟨hkept _ (h.ends e he).1 hp.1, hkept _ (h.ends e he).2 hp.2⟩
  · obtain ⟨m, hm, rfl⟩ := List.mem_map.1 hn
    obtain ⟨hm, hkeep⟩ := List.mem_filter.1 hm
    split_ifs with hcut
    · rfl
    · rw [h.inputs m hm]
      -- no edge to the node came from a deleted one
      refine (deriveInputs_filter fun e he ht => ?_).symm
      have hsource : ids.contains e.source = false := by
        by_contra hc
        rw [Bool.not_eq_false] at hc
        refine hcut (List.any_eq_true.2 ⟨e, he, ?_⟩)
        rw [ht, beq_self_eq_true, hc]
        rfl
      rw [hsource, ht]
      exact hkeep

theorem sound_deleteEdge {edgeId : Bytes} {edge : DAGEdge} (h : Sound s)
    (hone : ∀ e ∈ s.edges, e.id = edgeId → e.target = edge.target) : Sound (deleteEdge s edgeId edge) := by
  refine h.filter (fun e he _ => ?_) fun n hn => ?_
  · rw [List.map_map]
    have hsame : (DAGNode.id ∘ fun n => if n.id = edge.target then
        { n with inputs := deriveInputs n.id (s.edges.filter fun e => e.id != edgeId) } else n) = DAGNode.id := by
      funext n
      show (if _ then _ else n).id = n.id
      split_ifs <;> rfl
    rw [hsame]
    exact h.ends e he
  · obtain ⟨m, hm, rfl⟩ := List.mem_map.1 hn
    split_ifs with ht
    · rfl
    · rw [h.inputs m hm]
      refine (deriveInputs_filter fun e he he' => ?_).symm
      exact bne_iff_ne.2 fun hid => ht ((he'.symm.trans (hone e he hid)))

theorem connected_id (edge : DAGEdge) (next : List DAGEdge) (n : DAGNode) : (connected edge next n).id = n.id := by
  unfold connected
  by_cases ht : n.id = edge.target
  · rw [if_pos ht]
  · rw [if_neg ht]
    split
    · split_ifs <;> rfl
    · rfl

theorem inputs_connected {edge : DAGEdge} {n : DAGNode} (h : n.inputs = deriveInputs n.id s.edges) :
    (connected edge (s.edges ++ [edge]) n).inputs = deriveInputs n.id (s.edges ++ [edge]) := by
  unfold connected
  by_cases ht : n.id = edge.target
  · rw [if_pos ht]
  · have hsame : deriveInputs n.id (s.edges ++ [edge]) = n.inputs := by rw [deriveInputs_append (Ne.symm ht), h]
    rw [if_neg ht, hsame]
    split
    · split_ifs <;> rfl
    · rfl

theorem sound_commitEdge (h : Sound s) (hv : Valid s.edges k) (hends : k.source ∈ s.ids ∧ k.target ∈ s.ids) :
    Sound (commitEdge s (edgeOf k)) := by
  have hids : (s.nodes.map (connected (edgeOf k) (s.edges ++ [edgeOf k]))).map DAGNode.id = s.ids := by
    rw [List.map_map]
    exact List.map_congr_left fun n _ => connected_id ..
  refine ⟨?_, ?_, fun e he => ?_, fun e he => ?_, fun n hn => ?_⟩
  · refine (h.acyclic.insert hv.no_path).mono fun a b hab => ?_
    obtain ⟨e, he, rfl, rfl⟩ := hab
    rcases List.mem_append.1 he with he | he
    · exact .inl ⟨e, he, rfl, rfl⟩
    · obtain rfl := List.mem_singleton.1 he
      exact .inr ⟨rfl, rfl⟩
  · show ((s.edges ++ [edgeOf k]).map DAGEdge.targetAnchor).Nodup
    rw [List.map_append, List.nodup_append]
    refine ⟨h.anchors, List.pairwise_singleton _ _, ?_⟩
    rintro a ha b hb rfl
    obtain ⟨e, he, rfl⟩ := List.mem_map.1 ha
    exact hv.free e he (List.mem_singleton.1 hb)
  · show e.source ∈ (s.nodes.map _).map DAGNode.id ∧ e.target ∈ (s.nodes.map _).map DAGNode.id
    rw [hids]
    rcases List.mem_append.1 he with he | he
    · exact h.ends e he
    · obtain rfl := List.mem_singleton.1 he
      exact hends
  · rcases List.mem_append.1 he with he | he
    · exact h.own e he
    · obtain rfl := List.mem_singleton.1 he
      exact ⟨hv.output, hv.input⟩
  · obtain ⟨m, hm, rfl⟩ := List.mem_map.1 hn
    rw [connected_id]
    exact inputs_connected (h.inputs m hm)

theorem handleConnect_ok {sourceId targetId : Bytes} {explicit : Option (Bytes × Bytes)}
    (h : handleConnect s sourceId targetId explicit = .ok k) : (k.source = sourceId ∧ k.target = targetId) ∧ Valid s.edges k := by
  unfold handleConnect at h
  split_ifs at h with hself hports
  · cases explicit with
    | none => exact pickConnection_ok h
    | some a =>
      simp only at h
      cases hv : validateConnection s.edges (portsOf s) ⟨sourceId, targetId, a.1, a.2⟩ with
      | error r =>
        rw [hv] at h
        cases h
      | ok u =>
        rw [hv] at h
        obtain rfl := Except.ok.inj h
        exact ⟨⟨rfl, rfl⟩, valid_of_ok hv⟩
  · simp only at h
    cases hv : validateConnection s.edges (fun _ => []) (plainCandidate s sourceId targetId explicit) with
    | error r =>
      rw [hv] at h
      cases h
    | ok u =>
      rw [hv] at h
      obtain rfl := Except.ok.inj h
      exact ⟨⟨rfl, rfl⟩, valid_of_ok hv⟩

structure AllSound (c : State) : Prop where
  now : Sound c.now
  undo : ∀ s ∈ c.undo, Sound s
  redo : ∀ s ∈ c.redo, Sound s

theorem AllSound.commit (h : AllSound c) (hs : Sound s) : AllSound (c.commit s) where
  now := hs
  undo := fun t ht => (List.mem_cons.1 (List.mem_of_mem_take ht)).elim (fun he => he ▸ h.now) (h.undo t)
  redo := nofun

theorem AllSound.handleUndo (h : AllSound c) : AllSound (handleUndo c) := by
  unfold Canvas.handleUndo
  cases hu : c.undo with
  | nil => exact h
  | cons s rest =>
    have hundo := h.undo
    rw [hu] at hundo
    exact ⟨hundo s (List.mem_cons_self ..), fun t ht => hundo t (.tail _ ht), List.forall_mem_cons.2 ⟨h.now, h.redo⟩⟩

theorem AllSound.handleRedo (h : AllSound c) : AllSound (handleRedo c) := by
  unfold Canvas.handleRedo
  cases hr : c.redo with
  | nil => exact h
  | cons s rest =>
    have hredo := h.redo
    rw [hr] at hredo
    exact ⟨hredo s (List.mem_cons_self ..), List.forall_mem_cons.2 ⟨h.now, h.undo⟩, fun t ht => hredo t (.tail _ ht)⟩

theorem AllSound.apply (h : AllSound c) (hf : Fresh c op) (hk : Known c op) : AllSound (apply c op) := by
  cases op with
  | add n => exact h.commit (h.now.append fun m hm => by
      obtain rfl := List.mem_singleton.1 hm
      exact ⟨hf, rfl⟩)
  | paste sources ids =>
    simp only [Canvas.apply]
    split_ifs
    · exact h
    · exact h.commit (sound_paste h.now hf)
  | connect sourceId targetId explicit =>
    simp only [Canvas.apply]
    cases hc : handleConnect c.now sourceId targetId explicit with
    | error r => exact h
    | ok k =>
      obtain ⟨⟨rfl, rfl⟩, hv⟩ := handleConnect_ok hc
      exact h.commit (sound_commitEdge h.now hv hk)
  | deleteEdge edgeId =>
    simp only [Canvas.apply]
    cases hfind : c.now.edges.find? fun e => e.id == edgeId with
    | none => exact h
    | some edge =>
      have hedge := List.mem_of_find?_eq_some hfind
      have hid : edge.id = edgeId := by
        have hp := List.find?_some hfind
        exact eq_of_beq hp
      exact h.commit (sound_deleteEdge h.now fun e he hei => hk e he edge hedge hei hid)
  | deleteNodes ids =>
    simp only [Canvas.apply]
    split_ifs
    · exact h
    · exact h.commit (sound_deleteNodes h.now)
  | undo => exact h.handleUndo
  | redo => exact h.handleRedo

/-- In every run from the empty canvas with fresh ids that connects only nodes on the canvas and deletes edges one at a time, the canvas
is sound. -/
theorem sound_run {ops : List Op} (hf : Lts.RunAll step Fresh empty ops) (hk : Lts.RunAll step Known empty ops)
    (hr : Lts.run step empty ops = some c) : Sound c.now := by
  have hall : AllSound c := by
    refine Lts.run_invariant (fun c op c' hi hp hs => ?_) ⟨Sound.empty, fun _ h => absurd h List.not_mem_nil, fun _ h => absurd h List.not_mem_nil⟩ (hf.and hk) hr
    obtain rfl := Option.some.inj hs
    exact hi.apply hp.1 hp.2
  exact hall.now

instance (c : State) : (op : Op) → Decidable (Fresh c op)
  | .add n => inferInstanceAs (Decidable (n.id ∉ c.now.ids))
  | .paste _ ids => inferInstanceAs (Decidable (∀ id ∈ ids, id ∉ c.now.ids))
  | .connect .. | .deleteEdge _ | .deleteNodes _ | .undo | .redo => .isTrue trivial

instance (c : State) : (op : Op) → Decidable (Known c op)
  | .connect s t _ => inferInstanceAs (Decidable (s ∈ c.now.ids ∧ t ∈ c.now.ids))
  | .deleteEdge edgeId =>
    inferInstanceAs (Decidable (∀ e ∈ c.now.edges, ∀ e' ∈ c.now.edges, e.id = edgeId → e'.id = edgeId → e.target = e'.target))
  | .add _ | .paste .. | .deleteNodes _ | .undo | .redo => .isTrue trivial

def State.kept (c : State) : Nat := c.undo.length + c.redo.length

theorem kept_apply {c : State} (h : c.kept ≤ 50) (op : Op) : (apply c op).kept ≤ 50 := by
  have hcommit (s : Snapshot) : (c.commit s).kept ≤ 50 := by simp [State.kept, State.commit]
  obtain ⟨now, undo, redo⟩ := c
  cases op with
  | add n => exact hcommit _
  | undo | redo =>
    cases undo <;> cases redo <;> simp only [State.kept, apply, handleUndo, handleRedo, List.length_cons, List.length_nil] at h ⊢ <;> omega
  | _ =>
    simp only [apply]
    split
    all_goals first | exact h | exact hcommit _

theorem iterate_back {f g : State → State} (len : State → Nat) (h : ∀ c, 0 < len c → g (f c) = c ∧ len (f c) + 1 = len c) (n : Nat) :
    ∀ c, n ≤ len c → g^[n] (f^[n] c) = c := by
  induction n with
  | zero => exact fun c _ => rfl
  | succ n ih =>
    intro c hn
    obtain ⟨hback, hlen⟩ := h c (by omega)
    rw [Function.iterate_succ_apply f, Function.iterate_succ_apply' g, ih (f c) (by omega), hback]

theorem now_of_undo (n : Nat) (c : State) {s : Snapshot} (h : (c.now :: c.undo)[n]? = some s) : (handleUndo^[n] c).now = s := by
  induction n generalizing c with
  | zero => exact Option.some.inj h
  | succ n ih =>
    obtain ⟨now, _ | ⟨u, us⟩, redo⟩ := c
    · cases h
    · exact ih _ h

theorem commits_kept (c : State) (ss : List Snapshot) (h : ss.length ≤ 50) :
    ((ss.foldl State.commit c).now :: (ss.foldl State.commit c).undo)[ss.length]? = some c.now := by
  induction ss using List.reverseRecOn with
  | nil => rfl
  | append_singleton ss s ih =>
    rw [List.length_append, List.length_singleton] at h ⊢
    rw [List.foldl_append, List.getElem?_cons_succ]
    exact (List.getElem?_take_of_lt (by omega)).trans (ih (by omega))

/-- The two stacks keep 50 canvases at most, though only `pushHistory` looks; undo and redo take each other back; and as many undos as there were
edits, up to 50, lead back to the canvas before them. -/
theorem history_run (ops : List Op) : (ops.foldl apply empty).kept ≤ 50 ∧ ∀ c,
    (∀ n ≤ c.undo.length, handleRedo^[n] (handleUndo^[n] c) = c) ∧ (∀ n ≤ c.redo.length, handleUndo^[n] (handleRedo^[n] c) = c) ∧
    ∀ ss : List Snapshot, ss.length ≤ 50 → (handleUndo^[ss.length] (ss.foldl State.commit c)).now = c.now := by
  refine ⟨List.foldlRecOn ops apply (motive := fun c => c.kept ≤ 50) (by decide) fun c h op _ => kept_apply h op, fun c => ⟨fun n hn => ?_, fun n hn => ?_,
    fun ss h => now_of_undo _ _ (commits_kept c ss h)⟩⟩
  · refine iterate_back (fun c => c.undo.length) ?_ n c hn
    rintro ⟨now, _ | ⟨u, us⟩, redo⟩ h
    · exact absurd h (lt_irrefl 0)
    · exact ⟨rfl, rfl⟩
  · refine iterate_back (fun c => c.redo.length) ?_ n c hn
    rintro ⟨now, undo, _ | ⟨r, rs⟩⟩ h
    · exact absurd h (lt_irrefl 0)
    · exact ⟨rfl, rfl⟩

def read : DAGNode :=
  ⟨str "g-node-33", str "read_data/datatable", [⟨str "g-node-33-output-0", .output, [str "sf.table.individual"]⟩], [], [], [], none⟩

def split : DAGNode :=
  ⟨str "g-node-34", str "data_prep/train_test_split", [⟨str "g-node-34-input-0", .input, [str "sf.table.individual"]⟩,
    ⟨str "g-node-34-output-0", .output, [str "sf.table.individual"]⟩], [], [], [], none⟩

def gone : List Op := [.add read, .add split, .deleteNodes [read.id], .connect read.id split.id none]

theorem dangling : ∃ c, Lts.RunAll step Fresh empty gone ∧ Lts.run step empty gone = some c ∧ ¬Sound c.now := by
  have hrun : (Lts.run step empty gone).any (fun c => decide (∃ e ∈ c.now.edges, e.source ∉ c.now.ids)) = true := by decide +kernel
  obtain ⟨c, hc, hends⟩ := (Option.any_eq_true _ _).1 hrun
  refine ⟨c, by decide +kernel, hc, fun h => ?_⟩
  obtain ⟨e, he, hnot⟩ := of_decide_eq_true hends
  exact hnot (h.ends e he).1

def edited : List Op := [.add read, .add split, .connect read.id split.id none, .paste [split] [str "g-node-35"],
  .connect split.id (str "g-node-35") (some (str "g-node-34-output-0", str "g-node-35-input-0")),
  .deleteEdge (str "g-node-33-output-0__g-node-34-input-0"), .undo, .connect (str "g-node-35") read.id none]

theorem sound_run_edited : ∃ c, Lts.run step empty edited = some c ∧ c.now.edges.length = 2 ∧ Sound c.now := by
  have hrun : (Lts.run step empty edited).any (fun c => decide (c.now.edges.length = 2)) = true := by decide +kernel
  obtain ⟨c, hc, hlen⟩ := (Option.any_eq_true _ _).1 hrun
  exact ⟨c, hc, of_decide_eq_true hlen, sound_run (by decide +kernel) (by decide +kernel) hc⟩

end Canvas

end Web
