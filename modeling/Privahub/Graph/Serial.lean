import Privahub.Graph.Service
import Mathlib.Logic.Relation

/-!
# Updates of a graph in the order of their writes

A call reads and then writes back what it has read. `Reads` says that a call, run alone on the present
database, comes to where it is now. `Undisturbed` is the condition on a write: no other call has read the
graph row and not yet written it, and when the nodes are replaced no call is about to save one of them.
Under it every call in flight keeps `Reads`, so the calls that succeed are, in the order of their writes, a
serial run (`Serial`).
-/

namespace Graph

/-- The call run alone on `db`, until it returns `r` and leaves `db'`. -/
inductive Alone (s : GraphService) (db : Db) : Call → Db → Result → Prop
  | done {c db' r} (h : s.run db c = .done db' r) : Alone s db c db' r
  | call {c d db' r} (h : s.run db c = .call d) (ha : Alone s db d db' r) : Alone s db c db' r

/-- The requests are handled one after the other, each of them with this result. -/
inductive Serial (s : GraphService) (db : Db) : List (Request × Result) → Db → Prop
  | nil : Serial s db [] db
  | concat {l mid req r db'} (h : Serial s db l mid) (ha : Alone s mid (.load req) db' r) : Serial s db (l ++ [(req, r)]) db'

def Returned.success (e : Returned) : Option (Request × Result) :=
  match e.result with
  | .ok r => some (e.request, r)
  | .error _ => none

/-- The calls that have succeeded, in the order of their writes. -/
def successes (w : World) : List (Request × Result) := w.log.filterMap Returned.success

def index (p k : Bytes) : Request × Result → Option Int64
  | (.refreshNodeMaxIndex q, r) => if q.projectId = p ∧ q.graphId = k then r else none
  | _ => none

/-- The indices that `RefreshNodeMaxIndex` has returned for a graph. -/
def indices (p k : Bytes) (w : World) : List Int64 := (successes w).filterMap (index p k)

/-- The call has read the graph row in order to write it. -/
def Call.holdsGraph : Call → Bool
  | saveIndex .. | saveMeta .. | binding .. | commit .. => true
  | load _ | findNode .. | saveNode .. => false

def Call.writesGraph : Call → Bool
  | saveIndex .. | saveMeta .. | commit .. => true
  | _ => false

def Call.holdsNode : Call → Bool
  | saveNode .. => true
  | _ => false

def Call.replacesNodes : Call → Bool
  | commit req .. => req.nodes.isSome
  | _ => false

/-- What is in flight while `c` takes its step. -/
def Call.Apart (c d : Call) : Prop := (c.writesGraph → ¬ d.holdsGraph) ∧ (c.replacesNodes → ¬ d.holdsNode)

def Undisturbed (w : World) : Action → Prop
  | .exec i _ => ∀ c, w.calls i = some c → ∀ j d, j ≠ i → w.calls j = some d → c.Apart d
  | _ => True

variable {s : GraphService} {db db' : Db} {c d : Call} {req : Request} {r : Result} {w w' : World}

/-- Run alone on `db`, `c` comes to `d`. -/
def Reads (s : GraphService) (db : Db) : Call → Call → Prop := Relation.ReflTransGen fun a b => s.run db a = .call b

theorem Reads.alone (h : Reads s db c d) {r : Result} (hd : s.run db d = .done db' r) : Alone s db c db' r := by
  induction h using Relation.ReflTransGen.head_induction_on with
  | refl => exact .done hd
  | head h _ ih => exact .call h ih

theorem Reads.congr {K : Call → Prop} (hback : ∀ a b, s.run db a = .call b → K b → K a)
    (hrun : ∀ a b, K b → s.run db a = .call b → s.run db' a = .call b) (hd : K d) (h : Reads s db c d) : Reads s db' c d := by
  induction h with
  | refl => exact .refl
  | tail _ hstep ih => exact (ih (hback _ _ hstep hd)).tail (hrun _ _ hd hstep)

theorem validate_call {q : FullUpdateGraphRequest} {g : ProjectGraphDO} {out : List ProjectGraphDomainDatasourceDO}
    {l : List GraphDataSourceConfig} (h : GraphService.validate q g out l = .call d) :
    (∃ out', d = .commit q g out') ∨ ∃ out' e rest, d = .binding q g out' e rest := by
  cases l with
  | nil => exact .inl ⟨_, (Next.call.inj h).symm⟩
  | cons e rest =>
    rw [GraphService.validate] at h
    split_ifs at h
    exact .inr ⟨_, _, _, (Next.call.inj h).symm⟩

theorem checkBinding_call {q : FullUpdateGraphRequest} {g : ProjectGraphDO} {out : List ProjectGraphDomainDatasourceDO}
    {e : GraphDataSourceConfig} {rest : List GraphDataSourceConfig} {b : ProjectGraphDomainDatasourceDO}
    (h : s.checkBinding q g out e rest b = .call d) :
    (∃ out', d = .commit q g out') ∨ ∃ out' e rest, d = .binding q g out' e rest := by
  unfold GraphService.checkBinding at h
  split_ifs at h
  · exact validate_call h
  · split at h
    · cases h
    · split at h
      · exact validate_call h
      · cases h
  · exact validate_call h

def Call.graph? : Call → Option ProjectGraphDO
  | saveIndex _ g _ | saveMeta _ g | binding _ g .. | commit _ g _ => some g
  | load _ | findNode .. | saveNode .. => none

structure SameGraph (g h : ProjectGraphDO) : Prop where
  id : g.id = h.id
  key : g.key = h.key
  ownerId : g.ownerId = h.ownerId

/-- What the call does to the index of the row `g` by writing `h`. -/
def Call.Indexed (g h : ProjectGraphDO) : Call → Prop
  | saveIndex _ _ i => g.nodeMaxIndex ≤ i ∧ h.nodeMaxIndex = i + 1
  | _ => h.nodeMaxIndex = g.nodeMaxIndex

theorem nextIndex_spec (q : RefreshNodeMaxIndexRequest) (i : Int64) :
    i ≤ (GraphService.nextIndex q i).1 ∧ (GraphService.nextIndex q i).2 = (GraphService.nextIndex q i).1 + 1 := by
  unfold GraphService.nextIndex
  split
  · split_ifs with hc
    · exact ⟨Int64.le_of_lt hc, rfl⟩
    · exact ⟨Int64.le_refl i, rfl⟩
  · exact ⟨Int64.le_refl i, rfl⟩

theorem run_call (h : s.run db c = .call d) :
    (∃ req g, c = .load req ∧ db.findGraph req.projectId req.graphId = some g ∧ s.loaded g req = .call d) ∨
    (∃ q n r, c = .findNode q n ∧ db.findNode q.projectId q.graphId n.graphNodeId = some r ∧
      d = .saveNode q (s.nodeDOFromInfo q.projectId q.graphId n r.id)) ∨
    ∃ q g out e rest b, c = .binding q g out e rest ∧ db.findBinding q.projectId q.graphId e.nodeId = some b ∧
      s.checkBinding q g out e rest b = .call d := by
  cases c with
  | load req =>
    simp only [GraphService.run] at h
    split at h
    · exact .inl ⟨req, _, rfl, ‹_›, h⟩
    · cases h
  | findNode q n =>
    simp only [GraphService.run] at h
    split at h
    · exact .inr (.inl ⟨q, n, _, rfl, ‹_›, (Next.call.inj h).symm⟩)
    · cases h
  | binding q g out e rest =>
    simp only [GraphService.run] at h
    split at h
    · exact .inr (.inr ⟨q, g, out, e, rest, _, rfl, ‹_›, h⟩)
    · cases h
  | saveIndex q g i =>
    simp only [GraphService.run, write] at h
    split at h <;> cases h
  | saveMeta q g =>
    simp only [GraphService.run, write] at h
    split at h <;> cases h
  | saveNode q n =>
    simp only [GraphService.run, write] at h
    split at h <;> cases h
  | commit q g ds =>
    simp only [GraphService.run, write] at h
    split at h <;> cases h

theorem loaded_call {g : ProjectGraphDO} (h : s.loaded g req = .call d) :
    d.request = req ∧ ((∃ g', d.graph? = some g' ∧ SameGraph g g' ∧ d.Indexed g g') ∨
      ∃ q n, req = .updateGraphNode q ∧ d = .findNode q n) := by
  cases req with
  | refreshNodeMaxIndex q =>
    obtain rfl := Next.call.inj h
    exact ⟨rfl, .inl ⟨_, rfl, ⟨rfl, rfl, rfl⟩, nextIndex_spec q g.nodeMaxIndex⟩⟩
  | updateGraphMeta q =>
    simp only [GraphService.loaded] at h
    split_ifs at h
    obtain rfl := Next.call.inj h
    exact ⟨rfl, .inl ⟨_, rfl, ⟨rfl, rfl, rfl⟩, rfl⟩⟩
  | updateGraphNode q =>
    simp only [GraphService.loaded] at h
    split_ifs at h
    split at h
    · split_ifs at h
      obtain rfl := Next.call.inj h
      exact ⟨rfl, .inr ⟨q, _, rfl, rfl⟩⟩
    · cases h
  | fullUpdateGraph q =>
    simp only [GraphService.loaded] at h
    split_ifs at h
    rcases validate_call h with ⟨_, rfl⟩ | ⟨_, _, _, rfl⟩
    · exact ⟨rfl, .inl ⟨_, rfl, ⟨rfl, rfl, rfl⟩, rfl⟩⟩
    · exact ⟨rfl, .inl ⟨_, rfl, ⟨rfl, rfl, rfl⟩, rfl⟩⟩

theorem run_request (h : s.run db c = .call d) : d.request = c.request := by
  rcases run_call h with ⟨req, g, rfl, _, hl⟩ | ⟨q, n, r, rfl, _, rfl⟩ | ⟨q, g, out, e, rest, b, rfl, _, hb⟩
  · exact (loaded_call hl).1
  · rfl
  · rcases checkBinding_call hb with ⟨_, rfl⟩ | ⟨_, _, _, rfl⟩ <;> rfl

theorem run_not_load {q : Request} : s.run db c ≠ .call (.load q) := by
  intro h
  rcases run_call h with ⟨req, g, rfl, _, hl⟩ | ⟨_, _, _, _, _, heq⟩ | ⟨_, _, _, _, _, _, _, _, hb⟩
  · rcases (loaded_call hl).2 with ⟨_, hg, _⟩ | ⟨_, _, _, heq⟩
    · cases hg
    · cases heq
  · cases heq
  · rcases checkBinding_call hb with ⟨_, heq⟩ | ⟨_, _, _, heq⟩ <;> cases heq

theorem Reads.graph {g : ProjectGraphDO} (h : Reads s db (.load req) c) (hg : c.graph? = some g) :
    ∃ g₀, db.findGraph req.projectId req.graphId = some g₀ ∧ SameGraph g₀ g ∧ c.Indexed g₀ g := by
  induction h generalizing g with
  | refl => cases hg
  | @tail b c hb hstep ih =>
    rcases run_call hstep with ⟨req', g₀, rfl, hf, hl⟩ | ⟨q, n, r, rfl, _, rfl⟩ | ⟨q, g', out, e, rest, b, rfl, _, hcb⟩
    · obtain rfl : req' = req := by
        rcases Relation.ReflTransGen.cases_tail hb with heq | ⟨a, _, ha⟩
        · exact Call.load.inj heq
        · exact absurd ha run_not_load
      rcases (loaded_call hl).2 with ⟨g', hg', hsame⟩ | ⟨q, n, _, rfl⟩
      · obtain rfl := Option.some.inj (hg.symm.trans hg')
        exact ⟨g₀, hf, hsame⟩
      · cases hg
    · cases hg
    · rcases checkBinding_call hcb with ⟨_, rfl⟩ | ⟨_, _, _, rfl⟩ <;> exact ih hg

theorem Reads.node {q : UpdateGraphNodeRequest} {n : ProjectGraphNodeDO} (h : Reads s db (.load req) (.saveNode q n)) :
    ∃ n₀ ∈ db.nodes, n₀.id = n.id ∧ n₀.key = n.key := by
  obtain ⟨b, _, hstep⟩ := (Relation.ReflTransGen.cases_tail h).resolve_left (by simp)
  rcases run_call hstep with ⟨req, g₀, rfl, hf, hl⟩ | ⟨q, n', r, rfl, hr, heq⟩ | ⟨q, g', out, e, rest, b, rfl, _, hb⟩
  · rcases (loaded_call hl).2 with ⟨g', hg', _⟩ | ⟨_, _, _, heq⟩
    · cases hg'
    · cases heq
  · obtain ⟨rfl, rfl⟩ := Call.saveNode.inj heq
    have hkey := List.find?_some hr
    exact ⟨r, List.mem_of_find?_eq_some hr, rfl, of_decide_eq_true hkey⟩
  · rcases checkBinding_call hb with ⟨_, heq⟩ | ⟨_, _, _, heq⟩ <;> cases heq

theorem setGraphs_eq {gs : List ProjectGraphDO} (h : db.setGraphs gs = some db') :
    db'.graphs = gs ∧ db'.nodes = db.nodes ∧ db'.bindings = db.bindings := by
  unfold Db.setGraphs at h
  split_ifs at h
  obtain rfl := Option.some.inj h
  exact ⟨rfl, rfl, rfl⟩

theorem setNodes_eq {ns : List ProjectGraphNodeDO} {k : Int} (h : db.setNodes ns k = some db') :
    db'.graphs = db.graphs ∧ db'.nodes = ns ∧ db'.bindings = db.bindings := by
  unfold Db.setNodes at h
  split_ifs at h
  obtain rfl := Option.some.inj h
  exact ⟨rfl, rfl, rfl⟩

theorem setBindings_eq {ds : List ProjectGraphDomainDatasourceDO} (h : db.setBindings ds = some db') :
    db'.graphs = db.graphs ∧ db'.nodes = db.nodes := by
  unfold Db.setBindings at h
  split_ifs at h
  obtain rfl := Option.some.inj h
  exact ⟨rfl, rfl⟩

theorem saveBindings_eq {ds : List ProjectGraphDomainDatasourceDO} (h : ds.foldlM Db.saveBinding db = some db') :
    db'.graphs = db.graphs ∧ db'.nodes = db.nodes := by
  induction ds generalizing db with
  | nil =>
    obtain rfl := Option.some.inj h
    exact ⟨rfl, rfl⟩
  | cons d ds ih =>
    obtain ⟨mid, hm, h⟩ := Option.bind_eq_some_iff.1 h
    have hmid : mid.graphs = db.graphs ∧ mid.nodes = db.nodes := by
      unfold Db.saveBinding at hm
      split_ifs at hm
      · exact setBindings_eq hm
      · exact setBindings_eq hm
    obtain ⟨hg, hn⟩ := ih h
    exact ⟨hg.trans hmid.1, hn.trans hmid.2⟩

theorem createNodes_graphs {p k : Bytes} {ns : List GraphNodeInfo} (h : s.createNodes db p k ns = some db') :
    db'.graphs = db.graphs := by
  induction ns generalizing db with
  | nil =>
    obtain rfl := Option.some.inj h
    rfl
  | cons n ns ih =>
    rw [GraphService.createNodes] at h
    split_ifs at h
    · exact ih h
    · obtain ⟨mid, hm, h⟩ := Option.bind_eq_some_iff.1 h
      exact (ih h).trans (setNodes_eq hm).1

theorem saveGraph_eq {g g₀ : ProjectGraphDO} (hg : g₀ ∈ db.graphs) (hsame : SameGraph g₀ g) (h : db.saveGraph g = some db') :
    (∀ p k, db'.findGraph p k = (db.findGraph p k).map fun r => if r = g₀ then g else r) ∧ db'.nodes = db.nodes := by
  unfold Db.saveGraph at h
  rw [if_pos (List.any_eq_true.2 ⟨g₀, hg, decide_eq_true hsame.id⟩)] at h
  obtain ⟨hgs, hn, _⟩ := setGraphs_eq h
  have hrow : ∀ r ∈ db.graphs, (decide (r.id = g.id) = true ↔ r = g₀) := by
    intro r hr
    rw [decide_eq_true_eq, ← hsame.id]
    exact ⟨Table.eq_of_col_eq db.graph_ids hr hg, congrArg _⟩
  refine ⟨fun p k => ?_, hn⟩
  have hfind := Table.find?_updateWhere (p := fun r => decide (r.id = g.id)) (f := fun _ => g)
    (q := fun r : ProjectGraphDO => decide (r.key = (p, k))) fun r hr hid => by
      rw [(hrow r hr).1 hid, hsame.key]
  rw [Db.findGraph, hgs, hfind]
  cases hf : db.findGraph p k with
  | none => rw [Db.findGraph] at hf; rw [hf]; rfl
  | some r =>
    have hr := hrow r (List.mem_of_find?_eq_some hf)
    rw [Db.findGraph] at hf
    rw [hf, Option.map_some, Option.map_some, if_congr hr rfl rfl]

theorem commitFull_eq {q : FullUpdateGraphRequest} {g g₀ : ProjectGraphDO} {ds : List ProjectGraphDomainDatasourceDO}
    (hg : g₀ ∈ db.graphs) (hsame : SameGraph g₀ g) (h : s.commitFull db q g ds = some db') :
    (∀ p k, db'.findGraph p k = (db.findGraph p k).map fun r => if r = g₀ then g else r) ∧
      (q.nodes = none → db'.nodes = db.nodes) := by
  unfold GraphService.commitFull at h
  obtain ⟨db₁, h₁, h⟩ := Option.bind_eq_some_iff.1 h
  obtain ⟨db₂, h₂, h₃⟩ := Option.bind_eq_some_iff.1 h
  have hdb₁ : db₁.graphs = db.graphs ∧ (q.nodes = none → db₁.nodes = db.nodes) := by
    unfold GraphService.replaceNodes at h₁
    split at h₁
    · rename_i hns
      have hgs := createNodes_graphs h₁
      exact ⟨hgs, fun hn => absurd (hns.symm.trans hn) (by simp)⟩
    · obtain rfl := Option.some.inj h₁
      exact ⟨rfl, fun _ => rfl⟩
  obtain ⟨hfind, hn⟩ := saveGraph_eq (hdb₁.1 ▸ hg) hsame h₂
  obtain ⟨hgs₃, hn₃⟩ := saveBindings_eq h₃
  refine ⟨fun p k => ?_, fun hq => hn₃.trans (hn.trans (hdb₁.2 hq))⟩
  have hfind₁ : db₁.findGraph p k = db.findGraph p k := by rw [Db.findGraph, hdb₁.1]; rfl
  have hfind₃ : db'.findGraph p k = db₂.findGraph p k := by rw [Db.findGraph, hgs₃]; rfl
  rw [hfind₃, hfind, hfind₁]

theorem SameGraph.owner {g g₀ : ProjectGraphDO} (hsame : SameGraph g₀ g)
    (h : ∀ p k, db'.findGraph p k = (db.findGraph p k).map fun r => if r = g₀ then g else r) (p k : Bytes) :
    (db'.findGraph p k).map (·.ownerId) = (db.findGraph p k).map (·.ownerId) := by
  rw [h, Option.map_map]
  congr 1
  funext r
  simp only [Function.comp_apply]
  split_ifs with hr
  · rw [hr, hsame.ownerId]
  · rfl

theorem putNode_eq {n n₀ : ProjectGraphNodeDO} (hn : n₀ ∈ db.nodes) (hid : n₀.id = n.id) (hkey : n₀.key = n.key)
    (h : s.putNode db n = some db') : db'.graphs = db.graphs ∧ db'.bindings = db.bindings ∧
      ∀ p k j, (db'.findNode p k j).map (·.id) = (db.findNode p k j).map (·.id) := by
  unfold GraphService.putNode at h
  rw [if_pos (List.any_eq_true.2 ⟨n₀, hn, decide_eq_true hid⟩)] at h
  obtain ⟨hg, hns, hb⟩ := setNodes_eq h
  refine ⟨hg, hb, fun p k j => ?_⟩
  have hfind : db'.findNode p k j = (db.findNode p k j).map fun r => if decide (r.id = n.id) then n else r := by
    rw [Db.findNode, hns]
    refine Table.find?_updateWhere fun r hr hrid => ?_
    rw [Table.eq_of_col_eq db.node_ids hr hn ((of_decide_eq_true hrid).trans hid.symm), hkey]
  rw [hfind, Option.map_map]
  congr 1
  funext r
  simp only [Function.comp_apply]
  split_ifs with hrid
  · exact (of_decide_eq_true hrid).symm
  · rfl

theorem load_congr {q : UpdateGraphNodeRequest}
    (hown : ∀ p k, (db'.findGraph p k).map (·.ownerId) = (db.findGraph p k).map (·.ownerId))
    (h : s.run db (.load (.updateGraphNode q)) = .call d) : s.run db' (.load (.updateGraphNode q)) = .call d := by
  have hmap := hown q.projectId q.graphId
  simp only [GraphService.run, Request.projectId, Request.graphId] at h ⊢
  cases hg : db.findGraph q.projectId q.graphId with
  | none =>
    rw [hg] at h
    cases h
  | some g =>
    rw [hg] at h hmap
    obtain ⟨g', hg', ho⟩ := Option.map_eq_some_iff.1 hmap
    rw [hg']
    simp only [GraphService.loaded, ownerCheck, ho] at h ⊢
    exact h

theorem Reads.putNode (hg : db'.graphs = db.graphs) (hb : db'.bindings = db.bindings)
    (hn : ∀ p k j, (db'.findNode p k j).map (·.id) = (db.findNode p k j).map (·.id)) (h : Reads s db c d) : Reads s db' c d := by
  refine h.congr (K := fun _ => True) (fun _ _ _ _ => trivial) (fun a b _ hstep => ?_) trivial
  rcases run_call hstep with ⟨req, g, rfl, hf, hl⟩ | ⟨q, n, r, rfl, hf, rfl⟩ | ⟨q, g, out, e, rest, b, rfl, hf, hl⟩
  · have hf' : db'.findGraph req.projectId req.graphId = some g := by rw [← hf, Db.findGraph, hg]; rfl
    simp only [GraphService.run, hf', hl]
  · have hmap := hn q.projectId q.graphId n.graphNodeId
    rw [hf] at hmap
    obtain ⟨r', hf', hid⟩ := Option.map_eq_some_iff.1 hmap
    simp only [GraphService.run, hf', hid]
  · have hf' : db'.findBinding q.projectId q.graphId e.nodeId = some b := by rw [← hf, Db.findBinding, hb]; rfl
    simp only [GraphService.run, hf', hl]

/-- The reads of a call that does not hold the graph row stay valid while the row is written, if the nodes
are kept or the call holds no node. -/
theorem Reads.saveGraph (hown : ∀ p k, (db'.findGraph p k).map (·.ownerId) = (db.findGraph p k).map (·.ownerId))
    (hn : db'.nodes = db.nodes ∨ ¬ d.holdsNode) (hd : ¬ d.holdsGraph) (h : Reads s db (.load req) d) :
    Reads s db' (.load req) d := by
  refine h.congr (K := fun a => (db'.nodes = db.nodes ∨ ¬ a.holdsNode) ∧ ¬ a.holdsGraph) (fun a b hstep hK => ?_)
    (fun a b hK hstep => ?_) ⟨hn, hd⟩
  · rcases run_call hstep with ⟨req, g, rfl, hf, hl⟩ | ⟨q, n, r, rfl, hf, rfl⟩ | ⟨q, g, out, e, rest, b, rfl, hf, hl⟩
    · exact ⟨.inr (by simp [Call.holdsNode]), by simp [Call.holdsGraph]⟩
    · exact ⟨.inr (by simp [Call.holdsNode]), by simp [Call.holdsGraph]⟩
    · rcases checkBinding_call hl with ⟨_, rfl⟩ | ⟨_, _, _, rfl⟩ <;> simp [Call.holdsGraph] at hK
  · rcases run_call hstep with ⟨req, g, rfl, hf, hl⟩ | ⟨q, n, r, rfl, hf, rfl⟩ | ⟨q, g, out, e, rest, b, rfl, hf, hl⟩
    · rcases (loaded_call hl).2 with ⟨g', hg', _⟩ | ⟨q, n, rfl, rfl⟩
      · cases b <;> simp [Call.graph?, Call.holdsGraph] at hg' hK
      · exact load_congr hown hstep
    · have hns : db'.nodes = db.nodes := hK.1.resolve_right (by simp [Call.holdsNode])
      have hf' : db'.findNode q.projectId q.graphId n.graphNodeId = some r := by rw [← hf, Db.findNode, hns]; rfl
      simp only [GraphService.run, hf']
    · rcases checkBinding_call hl with ⟨_, rfl⟩ | ⟨_, _, _, rfl⟩ <;> simp [Call.holdsGraph] at hK

theorem validate_not_done {q : FullUpdateGraphRequest} {g : ProjectGraphDO} {out : List ProjectGraphDomainDatasourceDO}
    {l : List GraphDataSourceConfig} : GraphService.validate q g out l ≠ .done db' r := by
  cases l with
  | nil => simp [GraphService.validate]
  | cons e rest =>
    rw [GraphService.validate]
    split_ifs <;> simp

theorem loaded_not_done {g : ProjectGraphDO} : s.loaded g req ≠ .done db' r := by
  cases req with
  | refreshNodeMaxIndex q => simp [GraphService.loaded]
  | updateGraphMeta q =>
    simp only [GraphService.loaded]
    split_ifs <;> simp
  | updateGraphNode q =>
    simp only [GraphService.loaded]
    split_ifs
    · split
      · split_ifs <;> simp
      · simp
    · simp
  | fullUpdateGraph q =>
    simp only [GraphService.loaded]
    split_ifs
    · exact validate_not_done
    · simp

theorem checkBinding_not_done {q : FullUpdateGraphRequest} {g : ProjectGraphDO} {out : List ProjectGraphDomainDatasourceDO}
    {e : GraphDataSourceConfig} {rest : List GraphDataSourceConfig} {b : ProjectGraphDomainDatasourceDO} :
    s.checkBinding q g out e rest b ≠ .done db' r := by
  unfold GraphService.checkBinding
  split_ifs
  · exact validate_not_done
  · simp
  · split
    · simp
    · split
      · exact validate_not_done
      · simp
  · exact validate_not_done

theorem write_done {o : Option Db} {r' : Result} (h : write o r' = .done db' r) : o = some db' ∧ r' = r := by
  unfold write at h
  split at h
  · obtain ⟨rfl, rfl⟩ := Next.done.inj h
    exact ⟨rfl, rfl⟩
  · cases h

theorem run_done (h : s.run db c = .done db' r) :
    (∃ q g i, c = .saveIndex q g i ∧ db.saveGraph g = some db' ∧ r = some i) ∨
    (∃ q g, c = .saveMeta q g ∧ db.saveGraph g = some db') ∨
    (∃ q g ds, c = .commit q g ds ∧ s.commitFull db q g ds = some db') ∨
    ∃ q n, c = .saveNode q n ∧ s.putNode db n = some db' := by
  cases c with
  | load q =>
    simp only [GraphService.run] at h
    split at h
    · exact absurd h loaded_not_done
    · cases h
  | saveIndex q g i => exact .inl ⟨q, g, i, rfl, (write_done h).1, (write_done h).2.symm⟩
  | saveMeta q g => exact .inr (.inl ⟨q, g, rfl, (write_done h).1⟩)
  | findNode q n =>
    simp only [GraphService.run] at h
    split at h <;> cases h
  | saveNode q n => exact .inr (.inr (.inr ⟨q, n, rfl, (write_done h).1⟩))
  | binding q g out e rest =>
    simp only [GraphService.run] at h
    split at h
    · exact absurd h checkBinding_not_done
    · cases h
  | commit q g ds => exact .inr (.inr (.inl ⟨q, g, ds, rfl, (write_done h).1⟩))

theorem Reads.written {g : ProjectGraphDO} (hc : Reads s db (.load req) c) (hrun : s.run db c = .done db' r)
    (hg : c.graph? = some g) : ∃ g₀, db.findGraph req.projectId req.graphId = some g₀ ∧ SameGraph g₀ g ∧ c.Indexed g₀ g ∧
      ∀ p k, db'.findGraph p k = (db.findGraph p k).map fun r => if r = g₀ then g else r := by
  obtain ⟨g₀, hf, hsame, hidx⟩ := hc.graph hg
  have hmem := List.mem_of_find?_eq_some hf
  refine ⟨g₀, hf, hsame, hidx, ?_⟩
  rcases run_done hrun with ⟨q, g', i, rfl, hsave, _⟩ | ⟨q, g', rfl, hsave⟩ | ⟨q, g', ds, rfl, hsave⟩ | ⟨q, n, rfl, _⟩
  · exact (saveGraph_eq hmem hsame (Option.some.inj hg ▸ hsave)).1
  · exact (saveGraph_eq hmem hsame (Option.some.inj hg ▸ hsave)).1
  · exact (commitFull_eq hmem hsame (Option.some.inj hg ▸ hsave)).1
  · cases hg

theorem Reads.nodes (hc : Reads s db (.load req) c) (hrun : s.run db c = .done db' r) :
    db'.nodes = db.nodes ∨ c.replacesNodes ∨ ∃ q n, c = .saveNode q n := by
  rcases run_done hrun with ⟨q, g, i, rfl, hsave, _⟩ | ⟨q, g, rfl, hsave⟩ | ⟨q, g, ds, rfl, hsave⟩ | ⟨q, n, rfl, _⟩
  · obtain ⟨g₀, hf, hsame, _⟩ := hc.graph rfl
    exact .inl (saveGraph_eq (List.mem_of_find?_eq_some hf) hsame hsave).2
  · obtain ⟨g₀, hf, hsame, _⟩ := hc.graph rfl
    exact .inl (saveGraph_eq (List.mem_of_find?_eq_some hf) hsame hsave).2
  · obtain ⟨g₀, hf, hsame, _⟩ := hc.graph rfl
    cases hq : q.nodes with
    | none => exact .inl ((commitFull_eq (List.mem_of_find?_eq_some hf) hsame hsave).2 hq)
    | some ns => exact .inr (.inl (by simp [Call.replacesNodes, hq]))
  · exact .inr (.inr ⟨q, n, rfl⟩)

theorem Reads.done {req' : Request} (hc : Reads s db (.load req') c) (hrun : s.run db c = .done db' r) (hap : c.Apart d)
    (hd : Reads s db (.load req) d) : Reads s db' (.load req) d := by
  by_cases hnode : ∃ q n, c = .saveNode q n
  · obtain ⟨q, n, rfl⟩ := hnode
    rcases run_done hrun with ⟨_, _, _, heq, _⟩ | ⟨_, _, heq, _⟩ | ⟨_, _, _, heq, _⟩ | ⟨_, _, heq, hsave⟩
    · cases heq
    · cases heq
    · cases heq
    · obtain ⟨rfl, rfl⟩ := Call.saveNode.inj heq
      obtain ⟨n₀, hmem, hid, hkey⟩ := hc.node
      obtain ⟨hg, hb, hn⟩ := putNode_eq hmem hid hkey hsave
      exact hd.putNode hg hb hn
  · obtain ⟨g, hg, hw⟩ : ∃ g, c.graph? = some g ∧ c.writesGraph := by
      rcases run_done hrun with ⟨_, g, _, rfl, _⟩ | ⟨_, g, rfl, _⟩ | ⟨_, g, _, rfl, _⟩ | ⟨q, n, rfl, _⟩
      · exact ⟨g, rfl, rfl⟩
      · exact ⟨g, rfl, rfl⟩
      · exact ⟨g, rfl, rfl⟩
      · exact absurd ⟨q, n, rfl⟩ hnode
    obtain ⟨g₀, _, hsame, _, hfind⟩ := hc.written hrun hg
    refine hd.saveGraph (hsame.owner hfind) ?_ (hap.1 hw)
    rcases hc.nodes hrun with hn | hr | hq
    · exact .inl hn
    · exact .inr (hap.2 hr)
    · exact absurd hq hnode

structure Inv (s : GraphService) (db : Db) (w : World) : Prop where
  reads : ∀ i c, w.calls i = some c → Reads s w.db (.load c.request) c
  serial : Serial s db (successes w) w.db

theorem inv_step {a : Action} (h : Inv s db w) (hu : Undisturbed w a) (hs : s.step w a = some w') : Inv s db w' := by
  obtain ⟨i, c, rfl, hf, _, rfl⟩ | ⟨i, c, x, rfl, hc, rfl⟩ | ⟨i, c, rfl, _, rfl⟩ := Calls.step_cases hs
  · refine ⟨fun j d hd => ?_, h.serial⟩
    rcases Calls.World.calls_begin hd with rfl | hd
    · cases d <;> simp [Call.first] at hf
      exact .refl
    · exact h.reads j d hd
  · have hcalls : ∀ j d, (w.after s.exec i c x).calls j = some d →
        j = i ∧ (s.exec w.db c x).next = some d ∨ j ≠ i ∧ w.calls j = some d := by
      intro j d hd
      by_cases hj : j = i
      · subst hj; exact .inl ⟨rfl, by simpa [Calls.World.after] using hd⟩
      · exact .inr ⟨hj, by simpa [Calls.World.after, hj] using hd⟩
    have hlog : successes (w.after s.exec i c x) = successes w ++ (s.exec w.db c x).events.filterMap Returned.success :=
      List.filterMap_append ..
    -- a call that returns an error leaves everything as it is
    have hquiet : (s.exec w.db c x).db = w.db → (s.exec w.db c x).next = none →
        (s.exec w.db c x).events.filterMap Returned.success = [] → Inv s db (w.after s.exec i c x) := by
      intro hdb hnext hev
      refine ⟨fun j d hd => ?_, ?_⟩
      · rcases hcalls j d hd with ⟨_, hn⟩ | ⟨_, hd⟩
        · simp [hnext] at hn
        · show Reads s (s.exec w.db c x).db _ d
          rw [hdb]
          exact h.reads j d hd
      · rw [hlog, hev, List.append_nil]
        show Serial s db _ (s.exec w.db c x).db
        rw [hdb]
        exact h.serial
    cases x with
    | some text => exact hquiet rfl rfl rfl
    | none =>
      cases hr : s.run w.db c with
      | fail e =>
        have hex : s.exec w.db c none = ⟨w.db, none, [⟨c.request, .error e⟩]⟩ := by simp only [GraphService.exec, hr]
        exact hquiet (by rw [hex]) (by rw [hex]) (by rw [hex]; rfl)
      | call c' =>
        have hex : s.exec w.db c none = ⟨w.db, some c', []⟩ := by simp only [GraphService.exec, hr]
        rw [hex] at hcalls hlog
        refine ⟨fun j d hd => ?_, ?_⟩
        · show Reads s (s.exec w.db c none).db _ d
          rw [hex]
          rcases hcalls j d hd with ⟨_, hn⟩ | ⟨_, hd⟩
          · obtain rfl := Option.some.inj hn
            rw [run_request hr]
            exact (h.reads i c hc).tail hr
          · exact h.reads j d hd
        · rw [hlog]
          show Serial s db _ (s.exec w.db c none).db
          rw [hex]
          simpa using h.serial
      | done db' r =>
        have hex : s.exec w.db c none = ⟨db', none, [⟨c.request, .ok r⟩]⟩ := by simp only [GraphService.exec, hr]
        rw [hex] at hcalls hlog
        refine ⟨fun j d hd => ?_, ?_⟩
        · show Reads s (s.exec w.db c none).db _ d
          rw [hex]
          rcases hcalls j d hd with ⟨_, hn⟩ | ⟨hj, hd⟩
          · simp at hn
          · exact (h.reads i c hc).done hr (hu c hc j d hj hd) (h.reads j d hd)
        · rw [hlog]
          show Serial s db _ (s.exec w.db c none).db
          rw [hex]
          exact h.serial.concat ((h.reads i c hc).alone hr)
  · exact ⟨fun j d hd => h.reads j d (Calls.World.calls_drop hd), h.serial⟩

theorem Alone.reads (h : Alone s db c db' r) : ∃ d, Reads s db c d ∧ s.run db d = .done db' r := by
  induction h with
  | done h => exact ⟨_, .refl, h⟩
  | call h _ ih =>
    obtain ⟨d, hd, hrun⟩ := ih
    exact ⟨d, .head h hd, hrun⟩

theorem Reads.request (h : Reads s db c d) : d.request = c.request := by
  induction h with
  | refl => rfl
  | tail _ hstep ih => exact (run_request hstep).trans ih

theorem Alone.index (p k : Bytes) (h : Alone s db (.load req) db' r) :
    (∃ i g g', index p k (req, r) = some i ∧ db.findGraph p k = some g ∧ db'.findGraph p k = some g' ∧
      g.nodeMaxIndex ≤ i ∧ g'.nodeMaxIndex = i + 1) ∨
    index p k (req, r) = none ∧ (db'.findGraph p k).map (·.nodeMaxIndex) = (db.findGraph p k).map (·.nodeMaxIndex) := by
  obtain ⟨d, hd, hrun⟩ := h.reads
  have hreq : req = d.request := hd.request.symm
  cases hgr : d.graph? with
  | none =>
    rcases run_done hrun with ⟨q, g, i, rfl, _⟩ | ⟨q, g, rfl, _⟩ | ⟨q, g, ds, rfl, _⟩ | ⟨q, n, rfl, hsave⟩
    · cases hgr
    · cases hgr
    · cases hgr
    · obtain ⟨n₀, hmem, hid, hkey⟩ := hd.node
      have hgs := (putNode_eq hmem hid hkey hsave).1
      exact .inr ⟨by rw [hreq]; rfl, by rw [Db.findGraph, Db.findGraph, hgs]⟩
  | some g =>
    obtain ⟨g₀, hf, hsame, hidx, hfind⟩ := hd.written hrun hgr
    -- the row that is written is that of the request
    have hkey : ∀ r₀, db.findGraph p k = some r₀ → r₀ = g₀ → req.projectId = p ∧ req.graphId = k := by
      rintro r₀ hr₀ rfl
      have h₁ := List.find?_some hf
      have h₂ := List.find?_some hr₀
      simp only [decide_eq_true_eq] at h₁ h₂
      exact Prod.mk.inj (h₁.symm.trans h₂)
    have hkeep : (∀ r₀, db.findGraph p k = some r₀ → r₀ = g₀ → g.nodeMaxIndex = g₀.nodeMaxIndex) →
        (db'.findGraph p k).map (·.nodeMaxIndex) = (db.findGraph p k).map (·.nodeMaxIndex) := by
      intro hsm
      rw [hfind, Option.map_map]
      cases hr : db.findGraph p k with
      | none => rfl
      | some r₀ =>
        simp only [Option.map_some, Function.comp_apply]
        split_ifs with hr₀
        · rw [hsm r₀ hr hr₀, hr₀]
        · rfl
    rcases run_done hrun with ⟨q, g', i, rfl, _, rfl⟩ | ⟨q, g', rfl, _⟩ | ⟨q, g', ds, rfl, _⟩ | ⟨q, n, rfl, _⟩
    · subst hreq
      by_cases hq : q.projectId = p ∧ q.graphId = k
      · obtain ⟨rfl, rfl⟩ := hq
        refine .inl ⟨i, g₀, g, by simp [Graph.index, Call.request], hf, ?_, hidx⟩
        rw [hfind, show db.findGraph q.projectId q.graphId = some g₀ from hf, Option.map_some, if_pos rfl]
      · refine .inr ⟨by simp only [Graph.index, Call.request, if_neg hq], hkeep ?_⟩
        intro r₀ hr₀ heq
        exact absurd (hkey r₀ hr₀ heq) hq
    · exact .inr ⟨by rw [hreq]; rfl, hkeep fun _ _ _ => hidx⟩
    · exact .inr ⟨by rw [hreq]; rfl, hkeep fun _ _ _ => hidx⟩
    · cases hgr

theorem lt_next {i : Int64} (h : i ≠ Int64.maxValue) : i < i + 1 := by
  have hne : i.toInt ≠ 2 ^ 63 - 1 := by
    intro he
    exact h (Int64.toInt_inj.1 he)
  have hle := Int64.toInt_lt i
  have hge := Int64.le_toInt i
  have hadd : (i + 1).toInt = i.toInt + 1 := by
    rw [Int64.toInt_add]
    show (i.toInt + 1).bmod (2 ^ 64) = i.toInt + 1
    rw [Int.bmod_eq_of_le] <;> omega
  rw [Int64.lt_iff_toInt_lt, hadd]
  omega

theorem Serial.indices {l : List (Request × Result)} {p k : Bytes} (h : Serial s db l db')
    (hmax : ∀ i ∈ l.filterMap (index p k), i ≠ Int64.maxValue) :
    (l.filterMap (index p k)).Pairwise (· < ·) ∧
      ∀ g, db'.findGraph p k = some g → ∀ i ∈ l.filterMap (index p k), i < g.nodeMaxIndex := by
  induction h with
  | nil => exact ⟨.nil, fun _ _ _ hi => nomatch hi⟩
  | @concat l mid req r db' h ha ih =>
    obtain ⟨hpw, hlt⟩ := ih fun i hi => hmax i (by rw [List.filterMap_append]; exact List.mem_append_left _ hi)
    rcases ha.index p k with ⟨i, g, g', hi, hg, hg', hle, hnext⟩ | ⟨hi, hkeep⟩
    · have hl : (l ++ [(req, r)]).filterMap (index p k) = l.filterMap (index p k) ++ [i] := by simp [hi]
      rw [hl] at hmax ⊢
      have hbelow : ∀ j ∈ l.filterMap (index p k), j < i := fun j hj => Int64.lt_of_lt_of_le (hlt g hg j hj) hle
      have hsucc : i < i + 1 := lt_next (hmax i (by simp))
      constructor
      · refine List.pairwise_append.2 ⟨hpw, List.pairwise_singleton .., fun a ha b hb => ?_⟩
        obtain rfl := List.mem_singleton.1 hb
        exact hbelow a ha
      · intro g'' hg'' j hj
        obtain rfl := Option.some.inj (hg'.symm.trans hg'')
        rw [hnext]
        rcases List.mem_append.1 hj with hj | hj
        · exact Int64.lt_trans (hbelow j hj) hsucc
        · obtain rfl := List.mem_singleton.1 hj
          exact hsucc
    · have hl : (l ++ [(req, r)]).filterMap (index p k) = l.filterMap (index p k) := by simp [hi]
      rw [hl]
      refine ⟨hpw, fun g' hg' j hj => ?_⟩
      rw [hg', Option.map_some] at hkeep
      obtain ⟨g, hg, he⟩ := Option.map_eq_some_iff.1 hkeep.symm
      rw [← he]
      exact hlt g hg j hj

/-- In every run in which no call writes the graph row, or replaces its nodes, between the reads and the write
of another call, the calls that succeed amount to a serial run in the order of their writes; the indices
returned for a graph are distinct unless one of them is the largest `int`. -/
theorem updates_serial {as : List Action} (hu : Lts.RunAll s.step Undisturbed (.idle db) as)
    (hr : Lts.run s.step (.idle db) as = some w) : Serial s db (successes w) w.db ∧
      ∀ p k, (∀ i ∈ indices p k w, i ≠ Int64.maxValue) → (indices p k w).Nodup := by
  have h : Inv s db w :=
    Lts.run_invariant (fun _ _ _ hi hp hs => inv_step hi hp hs) ⟨Calls.World.idle_all _ _, .nil⟩ hu hr
  refine ⟨h.serial, fun p k hmax => (h.serial.indices hmax).1.imp ?_⟩
  intro i j hlt heq
  exact Int64.lt_irrefl (heq ▸ hlt)

def plainGraphs : GraphService where
  edgesJSON _ := []
  jsonStrings := List.flatten
  canonicalNodeDef := id
  hasKuscia := false
  unicode := .asciiCase
  insertAgain _ _ := none

def oneGraph : Db where
  graphs := [⟨1, [1], [2], [], [], [], 32, 1⟩]
  nodes := []
  bindings := []
  nextNode := 1
  graph_ids := List.nodup_singleton _
  graph_keys := List.nodup_singleton _
  node_ids := .nil
  node_keys := .nil
  binding_keys := .nil

def refresh (i : Nat) : Action := .start i (.load (.refreshNodeMaxIndex ⟨[1], [2], none⟩))

def rename (i : Nat) : Action := .start i (.load (.updateGraphMeta ⟨[1], [2], [7], ⟨[], []⟩⟩))

def go (i : Nat) : Action := .exec i none

def refreshFirst : List Action := [refresh 0, rename 1, go 0, go 0, go 1, go 1]

theorem updates_serial_refreshFirst : ∃ w, Lts.run plainGraphs.step (.idle oneGraph) refreshFirst = some w ∧
    Serial plainGraphs oneGraph (successes w) w.db ∧
      ∀ p k, (∀ i ∈ indices p k w, i ≠ Int64.maxValue) → (indices p k w).Nodup := by
  obtain ⟨w, hw⟩ : ∃ w, Lts.run plainGraphs.step (.idle oneGraph) refreshFirst = some w :=
    Option.isSome_iff_exists.1 (by decide +kernel)
  refine ⟨w, hw, updates_serial ?_ hw⟩
  -- the other call has not read the row yet, or has returned
  let Alone (v : World) : Action → Bool
    | .exec i _ => (List.range 2).all fun j => j == i || (v.calls j).all Call.first
    | _ => true
  refine Calls.runAll_of_slots (n := 2) (Q := fun v a => Alone v a = true) (fun v a hn ha => ?_) (fun _ _ => rfl)
    (by simp [refreshFirst, refresh, rename, go]) (by decide +kernel)
  cases a with
  | exec i x =>
    intro c _ j d hj hd
    have hlt : j < 2 := by
      by_contra hge
      rw [hn j (by omega)] at hd
      cases hd
    have hf : j = i ∨ (v.calls j).all Call.first := by
      simpa using List.all_eq_true.1 ha j (List.mem_range.2 hlt)
    have hf := hf.resolve_left hj
    rw [hd] at hf
    cases d <;> simp [Call.first] at hf
    exact ⟨fun _ => by simp [Call.holdsGraph], fun _ => by simp [Call.holdsNode]⟩
  | start i c => trivial
  | abandon i => trivial

/-- Two refreshes read the row before either of them writes it. -/
theorem refresh_twice : ∃ w, Lts.run plainGraphs.step (.idle oneGraph) [refresh 0, refresh 1, go 0, go 1, go 0, go 1] = some w ∧
    indices [1] [2] w = [32, 32] := by
  have hrun : (Lts.run plainGraphs.step (.idle oneGraph) [refresh 0, refresh 1, go 0, go 1, go 0, go 1]).map (fun w =>
      decide (indices [1] [2] w = [32, 32])) = some true := by decide +kernel
  obtain ⟨w, hw, h⟩ := Option.map_eq_some_iff.1 hrun
  exact ⟨w, hw, of_decide_eq_true h⟩

end Graph
