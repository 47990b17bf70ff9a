import Privahub.Graph.Chain
import Privahub.Lib.Outcome
import Privahub.Lib.Roots

/-!
# The parties of a task

`FindTopNodes` goes up from a node of the graph, and `findParties` asks who owns the tables that the nodes at the top name. The rows of
`project_datatable` and `project_node` stand in the order of their primary keys; an attribute for the request to Kuscia is kept as what
`BuildTableAttr` makes it from, the table and the configuration of the first row.
-/

namespace Graph.Chain

open Relation (ReflTransGen)

def FindTopNodes (edges : List GraphEdge) (nodeID : Bytes) : List Bytes := Roots.roots (edges.map fun e => (e.source, e.target)) nodeID

/-- An edge leads from `a` to `b`. -/
def Leads (edges : List GraphEdge) (a b : Bytes) : Prop := ∃ e ∈ edges, e.source = a ∧ e.target = b

/-- `top` is a node at the top from which edges lead to `id`. -/
def IsTop (edges : List GraphEdge) (id top : Bytes) : Prop := ReflTransGen (Leads edges) top id ∧ ∀ e ∈ edges, e.target ≠ top

theorem edge_leads {edges : List GraphEdge} : Roots.Edge (edges.map fun e => (e.source, e.target)) = Leads edges := by
  funext a b
  refine propext ?_
  simp only [Roots.Edge, Leads, List.mem_map, Prod.mk.injEq]

theorem mem_FindTopNodes {edges : List GraphEdge} {id top : Bytes} : top ∈ FindTopNodes edges id ↔ IsTop edges id top := by
  unfold FindTopNodes IsTop
  rw [Roots.mem_roots, edge_leads]
  refine and_congr_right fun _ => ?_
  simp only [Roots.IsRoot, List.forall_mem_map]

structure ProjectDatatableDO where
  projectId : Bytes
  nodeId : Bytes
  datatableId : Bytes
  tableConfigs : Bytes
  deriving DecidableEq

structure ProjectNodeDO where
  projectId : Bytes
  nodeId : Bytes
  deriving DecidableEq

/-- `tableErr` is the error of the query for a node of the graph and one at the top; that for the first node of the project may fail too. -/
structure PartyReads where
  datatables : List ProjectDatatableDO
  nodes : List ProjectNodeDO
  tableErr : Bytes → Bytes → Option Err
  nodeErr : Bool

/-- With the strings under `ss` of an attribute. -/
structure PartyTexts extends Texts where
  unicode : CaseTables
  attrStrings : Bytes → List Bytes

def DataPrepUnbalancePSICache : Bytes := str "data_prep/unbalance_psi_cache"

def HiddenPartyID (x : PartyTexts) (nd : NodeDef) : Bytes :=
  match nd.attrs with
  | _ :: attr :: _ => (x.attrStrings attr).head?.getD []
  | _ => []

def byID (nodes : List GraphNodeInfo) (id : Bytes) : Option GraphNodeInfo := nodes.reverse.find? fun n => decide (n.graphNodeId = id)

variable (x : PartyTexts) (r : PartyReads) (projectID : Bytes) (edges : List GraphEdge) (nodes : List GraphNodeInfo)

def PartyReads.tables (dtID : Bytes) : List ProjectDatatableDO :=
  r.datatables.filter fun dt => decide (dt.projectId = projectID ∧ dt.datatableId = dtID)

def noteTable (dtID : Bytes) (dts : List ProjectDatatableDO) (tableAttrs : List (Bytes × Bytes)) : List (Bytes × Bytes) :=
  match dts with
  | [] => tableAttrs
  | dt :: _ => if dtID ∈ tableAttrs.map Prod.fst then tableAttrs else tableAttrs ++ [(dtID, dt.tableConfigs)]

def addTop (id : Bytes) (acc : List Bytes × List (Bytes × Bytes)) (topID : Bytes) : Except Err (List Bytes × List (Bytes × Bytes)) :=
  match byID nodes topID with
  | none => .ok acc
  | some top =>
    if DatatableID x.toTexts top.nodeDef = [] then .ok acc
    else match r.tableErr id topID with
      | some e => .error e
      | none =>
        let dts := r.tables projectID (DatatableID x.toTexts top.nodeDef)
        .ok (acc.1 ++ dts.map (·.nodeId), noteTable (DatatableID x.toTexts top.nodeDef) dts acc.2)

def hiddenParty (id : Bytes) : List Bytes :=
  match byID nodes id with
  | none => []
  | some cur => if EqualFold x.unicode cur.codeName DataPrepUnbalancePSICache ∧ HiddenPartyID x cur.nodeDef ≠ [] then [HiddenPartyID x cur.nodeDef] else []

def addEntry (acc : List (Bytes × List Bytes) × List (Bytes × Bytes)) (e : Bytes × List Bytes) :
    Except Err (List (Bytes × List Bytes) × List (Bytes × Bytes)) := do
  let (set, tableAttrs) ← (e.2.mergeSort fun a b => decide (a ≤ b)).foldlM (addTop x r projectID nodes e.1) ([], acc.2)
  return (acc.1 ++ [(e.1, (set ++ hiddenParty x nodes e.1).dedup.mergeSort fun a b => decide (a ≤ b))], tableAttrs)

def defaultInitiator : Bytes :=
  if r.nodeErr then []
  else match r.nodes.find? fun n => decide (n.projectId = projectID) with
    | some pn => pn.nodeId
    | none => []

/-- The parties of each selected node, with the tables. -/
def findParties (selected : List GraphNodeInfo) : Except Err (List (Bytes × List Bytes) × List (Bytes × Bytes)) := do
  let entries := (selected.map fun n => (n.graphNodeId, FindTopNodes edges n.graphNodeId)).mergeSort fun a b => decide (a.2.length ≤ b.2.length)
  let (result, tableAttrs) ← entries.foldlM (addEntry x r projectID nodes) ([], [])
  return (result.map fun e => if e.2 = [] ∧ defaultInitiator r projectID ≠ [] then (e.1, [defaultInitiator r projectID]) else e, tableAttrs)

/-- What `findParties` has for a node. -/
def partiesOf (result : List (Bytes × List Bytes)) (id : Bytes) : List Bytes := ((result.find? fun e => decide (e.1 = id)).map Prod.snd).getD []

/-- The node `top` names a table that `p` has in the project. -/
def Owner (top p : Bytes) : Prop :=
  ∃ n, byID nodes top = some n ∧ DatatableID x.toTexts n.nodeDef ≠ [] ∧ ∃ dt ∈ r.tables projectID (DatatableID x.toTexts n.nodeDef), dt.nodeId = p

/-- `p` owns a table of a node at the top, or is the hidden party of the node. -/
def IsParty (id p : Bytes) : Prop := (∃ top, IsTop edges id top ∧ Owner x r projectID nodes top p) ∨ p ∈ hiddenParty x nodes id

/-- The parties of a node: the default one is alone and only stands in for others. -/
structure PartiesOf (id : Bytes) (ps : List Bytes) : Prop where
  sorted : ps.Pairwise (· < ·)
  mem : ∀ p, p ∈ ps ↔ IsParty x r projectID edges nodes id p ∨
    (∀ q, ¬IsParty x r projectID edges nodes id q) ∧ p ≠ [] ∧ p = defaultInitiator r projectID

variable {x : PartyTexts} {r : PartyReads} {projectID : Bytes} {edges : List GraphEdge} {nodes selected : List GraphNodeInfo}

def TableErr (r : PartyReads) (edges : List GraphEdge) (id : Bytes) (e : Err) : Prop := ∃ top, IsTop edges id top ∧ r.tableErr id top = some e

theorem addTop_owners {id topID : Bytes} {done : List Bytes} {acc : List Bytes × List (Bytes × Bytes)}
    (h : ∀ p, p ∈ acc.1 ↔ ∃ top ∈ done, Owner x r projectID nodes top p) :
    Outcome (addTop x r projectID nodes id acc topID) (fun acc' => ∀ p, p ∈ acc'.1 ↔ ∃ top ∈ done ++ [topID], Owner x r projectID nodes top p)
      fun e => r.tableErr id topID = some e := by
  have hskip (hno : ∀ p, ¬Owner x r projectID nodes topID p) : ∀ p, p ∈ acc.1 ↔ ∃ top ∈ done ++ [topID], Owner x r projectID nodes top p := by
    intro p
    rw [h p]
    constructor
    · exact fun ⟨top, htop, hown⟩ => ⟨top, List.mem_append_left _ htop, hown⟩
    · rintro ⟨top, htop, hown⟩
      rcases List.mem_append.1 htop with htop | htop
      · exact ⟨top, htop, hown⟩
      · exact absurd (List.mem_singleton.1 htop ▸ hown) (hno p)
  unfold addTop
  split
  case h_1 hnone =>
    refine hskip fun p => ?_
    rintro ⟨n, hn, -⟩
    rw [hnone] at hn
    cases hn
  case h_2 n hn =>
    split_ifs with htable
    · refine hskip fun p => ?_
      rintro ⟨m, hm, hne, -⟩
      rw [hn] at hm
      obtain rfl := Option.some.inj hm
      exact hne htable
    · cases herr : r.tableErr id topID with
      | some e => rfl
      | none =>
        intro p
        rw [List.mem_append, h p, List.mem_map]
        constructor
        · rintro (⟨top, htop, hown⟩ | ⟨dt, hdt, rfl⟩)
          · exact ⟨top, List.mem_append_left _ htop, hown⟩
          · exact ⟨topID, List.mem_append_right _ (List.mem_singleton_self _), n, hn, htable, dt, hdt, rfl⟩
        · rintro ⟨top, htop, hown⟩
          rcases List.mem_append.1 htop with htop | htop
          · exact .inl ⟨top, htop, hown⟩
          · obtain rfl := List.mem_singleton.1 htop
            obtain ⟨m, hm, -, dt, hdt, hp⟩ := hown
            rw [hn] at hm
            obtain rfl := Option.some.inj hm
            exact .inr ⟨dt, hdt, hp⟩

structure Found (x : PartyTexts) (r : PartyReads) (projectID : Bytes) (edges : List GraphEdge) (nodes : List GraphNodeInfo) (id : Bytes)
    (ps : List Bytes) : Prop where
  sorted : ps.Pairwise (· < ·)
  mem : ∀ p, p ∈ ps ↔ IsParty x r projectID edges nodes id p

def Founds (x : PartyTexts) (r : PartyReads) (projectID : Bytes) (edges : List GraphEdge) (nodes : List GraphNodeInfo) :
    List (Bytes × List Bytes) → List (Bytes × List Bytes) → Prop :=
  List.Forall₂ fun e found => found.1 = e.1 ∧ Found x r projectID edges nodes e.1 found.2

theorem addEntry_found {id : Bytes} {acc : List (Bytes × List Bytes) × List (Bytes × Bytes)} {done : List (Bytes × List Bytes)}
    (h : Founds x r projectID edges nodes done acc.1) :
    Outcome (addEntry x r projectID nodes acc (id, FindTopNodes edges id))
      (fun acc' => Founds x r projectID edges nodes (done ++ [(id, FindTopNodes edges id)]) acc'.1) (TableErr r edges id) := by
  have htops : Outcome (((FindTopNodes edges id).mergeSort fun a b => decide (a ≤ b)).foldlM (addTop x r projectID nodes id) ([], acc.2))
      (fun set => ∀ p, p ∈ set.1 ↔ ∃ top, IsTop edges id top ∧ Owner x r projectID nodes top p) (TableErr r edges id) := by
    refine (@Outcome.foldlM _ _ _ (addTop x r projectID nodes id) (fun done set => ∀ p, p ∈ set.1 ↔ ∃ top ∈ done, Owner x r projectID nodes top p)
      (TableErr r edges id) _ (fun top htop done set hset => ?_) [] ([], acc.2) (by simp)).mono (fun set hset p => ?_) fun _ he => he
    · exact (addTop_owners hset).mono (fun _ h => h) fun e he => ⟨top, mem_FindTopNodes.1 (List.mem_mergeSort.1 htop), he⟩
    · rw [hset p]
      simp only [List.nil_append, List.mem_mergeSort, mem_FindTopNodes]
  refine htops.bind (fun set hset => ?_) fun _ he => he
  refine List.rel_append h (.cons ⟨rfl, Table.sorted_dedup _, fun p => ?_⟩ .nil)
  rw [List.mem_mergeSort, List.mem_dedup, List.mem_append, hset p]
  exact Iff.rfl

theorem Found.partiesOf {id : Bytes} {ps : List Bytes} (h : Found x r projectID edges nodes id ps) :
    PartiesOf x r projectID edges nodes id (if ps = [] ∧ defaultInitiator r projectID ≠ [] then [defaultInitiator r projectID] else ps) := by
  split_ifs with hempty
  · obtain ⟨rfl, hdefault⟩ := hempty
    have hno : ∀ q, ¬IsParty x r projectID edges nodes id q := fun q hq => List.not_mem_nil ((h.mem q).2 hq)
    refine ⟨List.pairwise_singleton _ _, fun p => ?_⟩
    rw [List.mem_singleton]
    constructor
    · rintro rfl
      exact .inr ⟨hno, hdefault, rfl⟩
    · rintro (hp | ⟨-, -, rfl⟩)
      · exact absurd hp (hno p)
      · rfl
  · refine ⟨h.sorted, fun p => ?_⟩
    rw [h.mem p]
    constructor
    · exact .inl
    · rintro (hp | ⟨hno, hne, rfl⟩)
      · exact hp
      · refine absurd ⟨List.eq_nil_iff_forall_not_mem.2 fun q hq => hno q ((h.mem q).1 hq), hne⟩ hempty

theorem findParties_found : Outcome (findParties x r projectID edges nodes selected)
    (fun res => (∀ e ∈ res.1, PartiesOf x r projectID edges nodes e.1 e.2) ∧ ∀ id, id ∈ res.1.map Prod.fst ↔ id ∈ selected.map (·.graphNodeId))
    fun e => ∃ n ∈ selected, TableErr r edges n.graphNodeId e := by
  have hentry {e : Bytes × List Bytes} (he : e ∈ (selected.map fun n => (n.graphNodeId, FindTopNodes edges n.graphNodeId)).mergeSort
      fun a b => decide (a.2.length ≤ b.2.length)) : ∃ n ∈ selected, (n.graphNodeId, FindTopNodes edges n.graphNodeId) = e :=
    List.mem_map.1 (List.mem_mergeSort.1 he)
  have hloop := @Outcome.foldlM _ _ _ (addEntry x r projectID nodes) (fun done acc => Founds x r projectID edges nodes done acc.1)
    (fun e => ∃ n ∈ selected, TableErr r edges n.graphNodeId e) _ (fun e he done acc hacc => by
      obtain ⟨n, hn, rfl⟩ := hentry he
      exact (addEntry_found hacc).mono (fun _ h => h) fun e he => ⟨n, hn, he⟩) [] ([], []) .nil
  refine hloop.bind (fun res hres => ⟨?_, fun id => ?_⟩) fun _ he => he
  · intro e he
    obtain ⟨found, hfound, rfl⟩ := List.mem_map.1 he
    obtain ⟨entry, -, hid, hf⟩ := List.Forall₂.exists_left hres found hfound
    have hparties := (hid ▸ hf).partiesOf
    split_ifs with hempty
    · rwa [if_pos hempty] at hparties
    · rwa [if_neg hempty] at hparties
  · simp only [List.mem_map]
    constructor
    · rintro ⟨e, ⟨found, hfound, rfl⟩, rfl⟩
      obtain ⟨entry, hentries, hid, -⟩ := List.Forall₂.exists_left hres found hfound
      obtain ⟨n, hn, rfl⟩ := hentry hentries
      refine ⟨n, hn, ?_⟩
      split_ifs <;> exact hid.symm
    · rintro ⟨n, hn, rfl⟩
      have hentries : (n.graphNodeId, FindTopNodes edges n.graphNodeId) ∈ (selected.map fun n => (n.graphNodeId, FindTopNodes edges n.graphNodeId)).mergeSort
          fun a b => decide (a.2.length ≤ b.2.length) := List.mem_mergeSort.2 (List.mem_map.2 ⟨n, hn, rfl⟩)
      obtain ⟨found, hfound, hid, -⟩ := List.Forall₂.exists_right hres _ hentries
      refine ⟨_, ⟨found, hfound, rfl⟩, ?_⟩
      split_ifs <;> exact hid

theorem findParties_partiesOf : Outcome (findParties x r projectID edges nodes selected)
    (fun res => ∀ n ∈ selected, PartiesOf x r projectID edges nodes n.graphNodeId (partiesOf res.1 n.graphNodeId))
    fun e => ∃ n ∈ selected, TableErr r edges n.graphNodeId e := by
  refine findParties_found.mono (fun res hres n hn => ?_) fun _ he => he
  obtain ⟨e, he, hid⟩ := List.mem_map.1 ((hres.2 n.graphNodeId).2 (List.mem_map.2 ⟨n, hn, rfl⟩))
  obtain ⟨e', hfind⟩ : ∃ e', res.1.find? (fun e => decide (e.1 = n.graphNodeId)) = some e' :=
    Option.isSome_iff_exists.1 (List.find?_isSome.2 ⟨e, he, decide_eq_true hid⟩)
  have hkey := List.find?_some hfind
  have hid' : e'.1 = n.graphNodeId := of_decide_eq_true hkey
  unfold partiesOf
  rw [hfind]
  exact hid' ▸ hres.1 e' (List.mem_of_find?_eq_some hfind)

/-- The nodes at the top are found, each once, and from them the parties of every selected node. -/
theorem findParties_owners :
    (∀ id, (FindTopNodes edges id).Nodup ∧ ∀ top, top ∈ FindTopNodes edges id ↔ IsTop edges id top) ∧
    Outcome (findParties x r projectID edges nodes selected)
      (fun res => ∀ n ∈ selected, PartiesOf x r projectID edges nodes n.graphNodeId (partiesOf res.1 n.graphNodeId))
      fun e => ∃ n ∈ selected, TableErr r edges n.graphNodeId e :=
  ⟨fun _ => ⟨Roots.nodup_roots _ _, fun _ => mem_FindTopNodes⟩, findParties_partiesOf⟩

def cacheTexts : PartyTexts where
  edgesJSON _ := str "[]"
  jsonStrings _ := str "[]"
  graphNode n := n.graphNodeId
  taskStartLog _ _ id := id
  taskSucceedLog _ _ id := id
  attrString _ := []
  coverCustomAttr attr := attr
  typeAttr _ := []
  modelHash _ := []
  setModelHash attr _ := attr
  unicode := .asciiCase
  attrStrings attr := if attr = str "\x7b\"ss\":[\"bob\"]\x7d" then [str "bob"] else []

def cacheNode : GraphNodeInfo :=
  ⟨DataPrepUnbalancePSICache, str "g-node-1", [], [], ⟨str "data_prep", str "unbalance_psi_cache", [], [str "\x7b\x7d", str "\x7b\"ss\":[\"bob\"]\x7d"]⟩⟩

def sourceNode : GraphNodeInfo := ⟨str "stats/groupby_statistics", str "g-node-2", [], [], ⟨str "stats", str "groupby_statistics", [], []⟩⟩

def noTables : PartyReads := ⟨[], [⟨str "p", str "carol"⟩], fun _ _ => none, false⟩

/-- The hidden party and the default one own nothing that is read. -/
theorem findParties_not_owners : ∃ res, findParties cacheTexts noTables (str "p") [] [cacheNode, sourceNode] [cacheNode, sourceNode] = .ok res ∧
    str "bob" ∈ partiesOf res.1 (str "g-node-1") ∧ str "carol" ∈ partiesOf res.1 (str "g-node-2") ∧
    ∀ top p, ¬Owner cacheTexts noTables (str "p") [cacheNode, sourceNode] top p := by
  have hnone : ∀ top p, ¬Owner cacheTexts noTables (str "p") [cacheNode, sourceNode] top p := by
    rintro top p ⟨n, -, -, dt, hdt, -⟩
    cases hdt
  have hspec : Outcome (findParties cacheTexts noTables (str "p") [] [cacheNode, sourceNode] [cacheNode, sourceNode]) _ _ := findParties_partiesOf
  cases hres : findParties cacheTexts noTables (str "p") [] [cacheNode, sourceNode] [cacheNode, sourceNode] with
  | error e =>
    obtain ⟨n, -, top, -, he⟩ := hspec.of_error hres
    cases he
  | ok res =>
    have hparties := hspec.of_ok hres
    have hhidden : hiddenParty cacheTexts [cacheNode, sourceNode] (str "g-node-1") = [str "bob"] := by
      have hfold : EqualFold cacheTexts.unicode cacheNode.codeName DataPrepUnbalancePSICache = true := decide_eq_true rfl
      have hid : HiddenPartyID cacheTexts cacheNode.nodeDef = str "bob" := by decide +kernel
      have hnode : byID [cacheNode, sourceNode] (str "g-node-1") = some cacheNode := by decide +kernel
      rw [hiddenParty, hnode]
      exact (if_pos ⟨hfold, by rw [hid]; decide +kernel⟩).trans (by rw [hid])
    have hplain : hiddenParty cacheTexts [cacheNode, sourceNode] (str "g-node-2") = [] := by
      have hnode : byID [cacheNode, sourceNode] (str "g-node-2") = some sourceNode := by decide +kernel
      rw [hiddenParty, hnode]
      exact if_neg fun h => h.2 rfl
    refine ⟨res, rfl, ?_, ?_, hnone⟩
    · refine ((hparties cacheNode (by simp)).mem _).2 (.inl (.inr ?_))
      exact hhidden ▸ List.mem_singleton_self _
    · refine ((hparties sourceNode (by simp)).mem _).2 (.inr ⟨?_, by decide +kernel, by decide +kernel⟩)
      rintro q (⟨top, -, howner⟩ | hq)
      · exact hnone top q howner
      · have : q ∈ hiddenParty cacheTexts [cacheNode, sourceNode] (str "g-node-2") := hq
        rw [hplain] at this
        cases this

def partiesAnswer (x : PartyTexts) (r : PartyReads) (req : StartGraphRequest) (g : Loaded) : Except Err (Bytes → List Bytes) := do
  let selected ← selectNodes g.nodes req.nodes
  let res ← findParties x r req.projectID g.edges g.nodes selected
  return partiesOf res.1

theorem prepare_parties {a : Answers} {req : StartGraphRequest} {opts : StartGraphOptions} {job : ProjectJob} {g : Loaded} (hg : a.graph = .ok g)
    (htee : a.teeNodeID = []) (hparties : a.parties = partiesAnswer x r req g) (h : prepare a req opts = .ok job) :
    ∀ t ∈ job.tasks, PartiesOf x r req.projectID g.edges g.nodes t.node.graphNodeId t.parties := by
  unfold prepare at h
  rw [hg] at h
  obtain ⟨g', hg', h⟩ := Except.ok_of_bind h
  obtain rfl := Except.ok.inj hg'
  by_cases hnodes : g.nodes = []
  · rw [if_pos hnodes] at h
    cases h
  rw [if_neg hnodes] at h
  obtain ⟨selected, hselected, h⟩ := Except.ok_of_bind h
  cases hproject : a.project with
  | false =>
    simp only [hproject] at h
    cases h
  | true =>
    simp only [hproject, Bool.not_true, Bool.false_eq_true, if_false] at h
    obtain ⟨parties, hok, h⟩ := Except.ok_of_bind h
    rw [hparties, partiesAnswer, hselected] at hok
    obtain ⟨_, hsame, hok⟩ := Except.ok_of_bind hok
    obtain rfl := Except.ok.inj hsame
    obtain ⟨res, hres, hok⟩ := Except.ok_of_bind hok
    obtain rfl := Except.ok.inj hok
    cases hhealth : a.health with
    | some e =>
      simp only [hhealth] at h
      cases h
    | none =>
      simp only [hhealth, htee] at h
      cases h
      intro t ht
      obtain ⟨n, hn, rfl⟩ := List.mem_map.1 ht
      exact findParties_partiesOf.of_ok hres n hn

end Graph.Chain
