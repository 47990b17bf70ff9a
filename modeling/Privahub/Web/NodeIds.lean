import Privahub.Graph.Service
import Privahub.Lib.JsonWrite

/-!
# Node ids of a graph

`allocateNodeIds` of the clients that edit one graph, over `RefreshNodeMaxIndex` of the server, while nodes come and go. The server moves
its counter on by one, however many ids the client takes from it. `allocated_fresh`: the ids are new wherever the counter, or the nodes
that the client has at hand, have reached every id that was given out and every node of the graph.
-/

namespace Web

/-- The number that `-node-(\d+)$` matches. -/
def nodeIndexOf (nodeId : Bytes) : Nat :=
  let ds := (nodeId.reverse.takeWhile Bytes.isDigit).reverse
  let rest := (nodeId.reverse.dropWhile Bytes.isDigit).reverse
  if ds ≠ [] ∧ str "-node-" <:+ rest then Json.digitsVal ds else 0

def maxNodeIndex (nodeIds : List Bytes) : Nat := nodeIds.foldl (fun m id => max m (nodeIndexOf id)) 0

def nodeIdOf (graphId : Bytes) (index : Nat) : Bytes := graphId ++ str "-node-" ++ Bytes.digits index

namespace NodeIds

/-- The graph as the server has it, the ids of its nodes, and the ids that each call was given. -/
structure Db where
  graph : Graph.ProjectGraphDO
  nodes : List Bytes
  given : List (List Bytes)

/-- `allocate` comes with the nodes that its client has at hand when it is called; nodes are added and removed by anybody. -/
inductive Call
  | allocate (nodes : List Bytes) (count : Nat)
  | add (id : Bytes)
  | remove (id : Bytes)

structure Ending where
  served : Bool

abbrev World := Calls.World Db Call Unit
abbrev Action := Calls.Action Call Ending
abbrev Effect := Calls.Effect Db Call Unit

/-- `local || undefined` -/
def currentIndex (nodes : List Bytes) : Option Int64 := if maxNodeIndex nodes = 0 then none else some (Int64.ofNat (maxNodeIndex nodes))

def request (g : Graph.ProjectGraphDO) (nodes : List Bytes) : Graph.RefreshNodeMaxIndexRequest := ⟨g.projectId, g.graphId, currentIndex nodes⟩

/-- `raw || 32` -/
def orDefault (raw : Int64) : Nat := if raw = 0 then 32 else raw.toInt.toNat

def base (g : Graph.ProjectGraphDO) (nodes : List Bytes) (served : Bool) : Nat :=
  if served ∧ maxNodeIndex nodes < 2 ^ 63 then
    max (maxNodeIndex nodes) (orDefault (Graph.GraphService.nextIndex (request g nodes) g.nodeMaxIndex).1)
  else max (maxNodeIndex nodes) 32

def allocateNodeIds (g : Graph.ProjectGraphDO) (nodes : List Bytes) (count : Nat) (served : Bool) : List Bytes :=
  (List.range count).map fun i => nodeIdOf g.graphId (base g nodes served + i + 1)

def refreshed (g : Graph.ProjectGraphDO) (nodes : List Bytes) (served : Bool) : Graph.ProjectGraphDO :=
  if served ∧ maxNodeIndex nodes < 2 ^ 63 then
    { g with nodeMaxIndex := (Graph.GraphService.nextIndex (request g nodes) g.nodeMaxIndex).2 }
  else g

def exec (db : Db) (c : Call) (x : Ending) : Effect :=
  match c with
  | .allocate nodes count =>
    ⟨{ db with graph := refreshed db.graph nodes x.served, given := db.given ++ [allocateNodeIds db.graph nodes count x.served] }, none, []⟩
  | .add id => ⟨{ db with nodes := db.nodes ++ [id] }, none, []⟩
  | .remove id => ⟨{ db with nodes := db.nodes.filter fun n => !decide (n = id) }, none, []⟩

def step : World → Action → Option World := Calls.step (fun _ => true) exec

/-- The condition: when the request is served (and it is), the counter or the largest index among the nodes at hand has reached the index of every
id given out so far and of every node of the graph, all below 2^53, where the browser's numbers are exact. -/
def Reached (w : World) (a : Action) : Prop :=
  ∀ i x nodes count, a = .exec i x → w.calls i = some (.allocate nodes count) → x.served = true ∧
    (∀ id ∈ w.db.given.flatten ++ w.db.nodes, nodeIndexOf id ≤ maxNodeIndex nodes ∨ (nodeIndexOf id : Int) ≤ w.db.graph.nodeMaxIndex.toInt) ∧
    max (maxNodeIndex nodes) (max 32 w.db.graph.nodeMaxIndex.toInt.toNat) + count < 2 ^ 53

/-- The ids that the step gives out are distinct, and neither given out before nor those of nodes of the graph. -/
def Distinct (w : World) (a : Action) : Prop :=
  ∀ i x nodes count, a = .exec i x → w.calls i = some (.allocate nodes count) →
    (allocateNodeIds w.db.graph nodes count x.served).Nodup ∧
      ∀ id ∈ allocateNodeIds w.db.graph nodes count x.served, id ∉ w.db.given.flatten ∧ id ∉ w.db.nodes

variable {g : Graph.ProjectGraphDO} {nodes : List Bytes} {count : Nat} {db : Db} {w w' : World} {a : Action}

theorem takeWhile_digits (n : Nat) (s : Bytes) (hs : s.head?.any Bytes.isDigit = false) :
    ((Bytes.digits n).reverse ++ s).takeWhile Bytes.isDigit = (Bytes.digits n).reverse ∧
      ((Bytes.digits n).reverse ++ s).dropWhile Bytes.isDigit = s := by
  have hall : ∀ b ∈ (Bytes.digits n).reverse, Bytes.isDigit b = true := fun b hb => Bytes.isDigit_of_mem_digits (List.mem_reverse.1 hb)
  rw [List.takeWhile_append_of_pos hall, List.dropWhile_append_of_pos hall]
  cases s with
  | nil => simp
  | cons b t =>
    have hb : Bytes.isDigit b = false := by simpa using hs
    simp [hb]

theorem nodeIndexOf_nodeIdOf (graphId : Bytes) (n : Nat) : nodeIndexOf (nodeIdOf graphId n) = n := by
  have hrev : (nodeIdOf graphId n).reverse = (Bytes.digits n).reverse ++ (graphId ++ str "-node-").reverse := by
    rw [nodeIdOf, List.reverse_append]
  have hhead : (graphId ++ str "-node-").reverse.head?.any Bytes.isDigit = false := by
    rw [List.reverse_append]
    rfl
  obtain ⟨htake, hdrop⟩ := takeWhile_digits n _ hhead
  unfold nodeIndexOf
  rw [hrev, htake, hdrop, List.reverse_reverse, List.reverse_reverse]
  rw [if_pos ⟨Bytes.digits_ne_nil n, List.suffix_append graphId (str "-node-")⟩]
  exact Json.digitsVal_digits n

theorem nodeIdOf_injective (graphId : Bytes) : Function.Injective (nodeIdOf graphId) := by
  intro m n h
  rw [← nodeIndexOf_nodeIdOf graphId m, h, nodeIndexOf_nodeIdOf]

theorem nextIndex_ge (q : Graph.RefreshNodeMaxIndexRequest) (m : Int64) : m ≤ (Graph.GraphService.nextIndex q m).1 := by
  unfold Graph.GraphService.nextIndex
  split
  · split_ifs with hc
    · exact Int64.le_of_lt hc
    · exact Int64.le_refl m
  · exact Int64.le_refl m

theorem le_orDefault (r : Int64) : r.toInt ≤ orDefault r := by
  unfold orDefault
  split_ifs with h
  · rw [h]
    decide
  · exact Int.self_le_toNat _

theorem le_base {n : Nat} (hserved : maxNodeIndex nodes < 2 ^ 63) (h : n ≤ maxNodeIndex nodes ∨ (n : Int) ≤ g.nodeMaxIndex.toInt) :
    n ≤ base g nodes true := by
  unfold base
  rw [if_pos ⟨rfl, hserved⟩]
  rcases h with h | h
  · exact h.trans (le_max_left _ _)
  · have hnext : g.nodeMaxIndex.toInt ≤ (Graph.GraphService.nextIndex (request g nodes) g.nodeMaxIndex).1.toInt :=
      Int64.le_iff_toInt_le.1 (nextIndex_ge _ _)
    have hdef := le_orDefault (Graph.GraphService.nextIndex (request g nodes) g.nodeMaxIndex).1
    exact (Int.ofNat_le.1 (h.trans (hnext.trans hdef))).trans (le_max_right _ _)

theorem nodup_allocateNodeIds (served : Bool) : (allocateNodeIds g nodes count served).Nodup := by
  refine List.Nodup.map (fun i j h => ?_) List.nodup_range
  have := nodeIdOf_injective _ h
  omega

theorem base_lt_of_mem {served : Bool} {id : Bytes} (h : id ∈ allocateNodeIds g nodes count served) : base g nodes served < nodeIndexOf id := by
  obtain ⟨i, -, rfl⟩ := List.mem_map.1 h
  rw [nodeIndexOf_nodeIdOf]
  omega

theorem distinct_of_reached (h : Reached w a) : Distinct w a := by
  intro i x nodes count ha hc
  obtain ⟨hserved, hreach, hbound⟩ := h i x nodes count ha hc
  have hlt : maxNodeIndex nodes < 2 ^ 63 := by omega
  rw [hserved]
  refine ⟨nodup_allocateNodeIds true, fun id hid => ?_⟩
  have hnew := base_lt_of_mem hid
  have hnot : id ∉ w.db.given.flatten ++ w.db.nodes := fun hmem => absurd (le_base hlt (hreach id hmem)) (by omega)
  exact ⟨fun hg => hnot (List.mem_append_left _ hg), fun hn => hnot (List.mem_append_right _ hn)⟩

theorem nodup_step (hi : w.db.given.flatten.Nodup) (hd : Distinct w a) (hs : step w a = some w') : w'.db.given.flatten.Nodup := by
  obtain ⟨i, c, rfl, _, _, rfl⟩ | ⟨i, c, x, rfl, hc, rfl⟩ | ⟨i, c, rfl, _, rfl⟩ := Calls.step_cases hs
  · exact hi
  · cases c with
    | allocate nodes count =>
      obtain ⟨hnd, hnew⟩ := hd i x nodes count rfl hc
      show (w.db.given ++ [allocateNodeIds w.db.graph nodes count x.served]).flatten.Nodup
      rw [List.flatten_append, List.flatten_singleton, List.nodup_append]
      refine ⟨hi, hnd, ?_⟩
      rintro id hold _ hid rfl
      exact (hnew id hid).1 hold
    | add | remove => exact hi
  · exact hi

/-- In every run in which each call has reached what was given out, all the ids that are given out are distinct, and none is that of a
node that is in the graph at the time. -/
theorem allocated_fresh {as : List Action} (h : Lts.RunAll step Reached (.idle ⟨g, nodes, []⟩) as)
    (hr : Lts.run step (.idle ⟨g, nodes, []⟩) as = some w) :
    w.db.given.flatten.Nodup ∧ Lts.RunAll step Distinct (.idle ⟨g, nodes, []⟩) as := by
  have hd := h.imp fun _ _ => distinct_of_reached
  have hnil : (Calls.World.idle ⟨g, nodes, []⟩ : World).db.given.flatten.Nodup := List.Pairwise.nil
  exact ⟨Lts.run_invariant (fun _ _ _ hi hd hs => nodup_step hi hd hs) hnil hd hr, hd⟩

instance (w : World) : (a : Action) → Decidable (Distinct w a)
  | .start .. | .abandon _ => .isTrue nofun
  | .exec i x =>
    match h : w.calls i with
    | some (.allocate nodes count) =>
      decidable_of_iff ((allocateNodeIds w.db.graph nodes count x.served).Nodup ∧
        ∀ id ∈ allocateNodeIds w.db.graph nodes count x.served, id ∉ w.db.given.flatten ∧ id ∉ w.db.nodes) <| by
      constructor
      · intro hd _ _ _ _ ha hc
        obtain ⟨rfl, rfl⟩ := Calls.Action.exec.inj ha
        obtain ⟨rfl, rfl⟩ := Call.allocate.inj (Option.some.inj (h.symm.trans hc))
        exact hd
      · intro hd
        exact hd i x nodes count rfl h
    | some (.add _) | some (.remove _) | none => .isTrue fun _ _ _ _ ha hc => by
      obtain ⟨rfl, rfl⟩ := Calls.Action.exec.inj ha
      rw [h] at hc
      cases hc

def emptyGraph : Graph.ProjectGraphDO := ⟨1, str "p", str "g", str "graph", [], str "alice", 32, 1⟩

def served (i : Nat) : Action := .exec i ⟨true⟩

def pasted : List Action := [.start 0 (.allocate [] 2), .start 1 (.allocate [] 1), served 0, served 1]

theorem given_twice : (Lts.run step (.idle ⟨emptyGraph, [], []⟩) pasted).any
      (fun w => decide (w.db.given = [[str "g-node-33", str "g-node-34"], [str "g-node-34"]])) = true ∧
    ¬ Lts.RunAll step Distinct (.idle ⟨emptyGraph, [], []⟩) pasted := by decide +kernel

def oneByOne : List Action :=
  [.start 0 (.allocate [] 1), .start 1 (.allocate [] 1), served 0, served 1, .start 0 (.add (str "g-node-33")), served 0,
    .start 0 (.add (str "g-node-34")), served 0, .start 1 (.allocate [str "g-node-33", str "g-node-34"] 2), served 1]

def reached (w : World) : Action → Bool
  | .exec i x => match w.calls i with
    | some (.allocate nodes count) => x.served &&
        (w.db.given.flatten ++ w.db.nodes).all (fun id =>
          decide (nodeIndexOf id ≤ maxNodeIndex nodes ∨ (nodeIndexOf id : Int) ≤ w.db.graph.nodeMaxIndex.toInt)) &&
        decide (max (maxNodeIndex nodes) (max 32 w.db.graph.nodeMaxIndex.toInt.toNat) + count < 2 ^ 53)
    | _ => true
  | _ => true

theorem allocated_fresh_oneByOne : ∃ w, Lts.run step (.idle ⟨emptyGraph, [], []⟩) oneByOne = some w ∧ w.db.given.flatten.length = 4 ∧
    w.db.given.flatten.Nodup ∧ Lts.RunAll step Distinct (.idle ⟨emptyGraph, [], []⟩) oneByOne := by
  have hrun : (Lts.run step (.idle ⟨emptyGraph, [], []⟩) oneByOne).any (fun w => decide (w.db.given.flatten.length = 4)) = true := by
    decide +kernel
  have hreached : Lts.RunAll step (fun w a => reached w a = true) (.idle ⟨emptyGraph, [], []⟩) oneByOne := by decide +kernel
  obtain ⟨w, hw, hlen⟩ := (Option.any_eq_true _ _).1 hrun
  refine ⟨w, hw, of_decide_eq_true hlen, allocated_fresh (hreached.imp fun w a ha => ?_) hw⟩
  rintro i x nodes count rfl hc
  simp only [reached, hc, Bool.and_eq_true] at ha
  exact ⟨ha.1.1, fun id hid => of_decide_eq_true (List.all_eq_true.1 ha.1.2 id hid), of_decide_eq_true ha.2⟩

end NodeIds

end Web
