import Privahub.Lib.Layers
import Privahub.Web.GraphModel

/-!
# The layout of a canvas

`tidyLayout` takes the nodes round by round: first those that no edge leads to, then those whose last edge the round before has taken
off. A round is a column; what is left in the end, the nodes on a cycle and behind one, is the last column. An entry that a map does not
have reads as 0 or as the empty list, which is what `||` makes of it.
-/

namespace Web.TidyLayout

/-- `rest` is all but the id and the position. -/
structure DAGNode (ν ρ : Type) where
  id : Bytes
  x : ν
  y : ν
  rest : ρ

variable {ν ρ : Type}

structure Maps where
  inDegree : Bytes → Nat
  adjacency : Bytes → List Bytes

def addEdge (ids : List Bytes) (m : Maps) (e : DAGEdge) : Maps :=
  if e.target ∈ ids ∧ e.source ∈ ids then
    { inDegree := Function.update m.inDegree e.target (m.inDegree e.target + 1)
      adjacency := Function.update m.adjacency e.source (m.adjacency e.source ++ [e.target]) }
  else m

def maps (ids : List Bytes) (edges : List DAGEdge) : Maps := edges.foldl (addEdge ids) ⟨fun _ => 0, fun _ => []⟩

/-- An edge to `target` is taken off. -/
def countDown (visited : List Bytes) (s : (Bytes → Nat) × List Bytes) (target : Bytes) : (Bytes → Nat) × List Bytes :=
  let deg := (if s.1 target = 0 then 1 else s.1 target) - 1
  (Function.update s.1 target deg, if deg = 0 ∧ target ∉ visited then s.2 ++ [target] else s.2)

def nextQueue (adjacency : Bytes → List Bytes) (visited queue : List Bytes) (inDegree : Bytes → Nat) : (Bytes → Nat) × List Bytes :=
  queue.foldl (fun s id => (adjacency id).foldl (countDown visited) s) (inDegree, [])

/-- The layers and the nodes visited, `none` when there are more than `n` rounds. -/
def rounds (adjacency : Bytes → List Bytes) : Nat → (Bytes → Nat) → List Bytes → List Bytes → Option (List (List Bytes) × List Bytes)
  | _, _, visited, [] => some ([], visited)
  | 0, _, _, _ :: _ => none
  | n + 1, inDegree, visited, id :: queue =>
    let visited := visited ++ id :: queue
    let s := nextQueue adjacency visited (id :: queue) inDegree
    (rounds adjacency n s.1 visited s.2).map fun r => ((id :: queue) :: r.1, r.2)

def layers (ids : List Bytes) (edges : List DAGEdge) : Option (List (List Bytes)) :=
  let m := maps ids edges
  (rounds m.adjacency ids.length m.inDegree [] (ids.filter fun id => decide (m.inDegree id = 0))).map fun r =>
    let unvisited := ids.filter fun id => decide (id ∉ r.2)
    if unvisited.isEmpty then r.1 else r.1 ++ [unvisited]

/-- The nodes of a layer. `num` is the number of an integer. -/
def place (num : Int → ν) (nodes : List (DAGNode ν ρ)) (layer : List Bytes) (layerIdx : Nat) : List (DAGNode ν ρ) :=
  let offsetY : Int := 60 + (300 - ((layer.length - 1) * 100) / 2)
  layer.zipIdx.filterMap fun p => (nodes.reverse.find? fun n => decide (n.id = p.1)).map fun node =>
    { node with x := num (80 + layerIdx * 220), y := num (offsetY + p.2 * 100) }

def tidyLayout (num : Int → ν) (nodes : List (DAGNode ν ρ)) (edges : List DAGEdge) : Option (List (DAGNode ν ρ)) :=
  if nodes.isEmpty then some nodes
  else (layers (nodes.map (·.id)) edges).map fun ls => ls.zipIdx.flatMap fun p => place num nodes p.1 p.2

open Layers (pending targets times)

def links (ids : List Bytes) (edges : List DAGEdge) : List (Bytes × Bytes) :=
  (edges.filter fun e => decide (e.target ∈ ids ∧ e.source ∈ ids)).map fun e => (e.source, e.target)

variable {ids visited queue T : List Bytes} {edges : List DAGEdge} {t : Bytes} {pairs : List (Bytes × Bytes)} {inDegree : Bytes → Nat}
  {ls : List (List Bytes)} {num : Int → ν} {nodes : List (DAGNode ν ρ)}

theorem mem_links {p : Bytes × Bytes} : p ∈ links ids edges ↔ ∃ e ∈ edges, (e.target ∈ ids ∧ e.source ∈ ids) ∧ (e.source, e.target) = p := by
  simp only [links, List.mem_map, List.mem_filter, decide_eq_true_eq, and_assoc]

theorem foldl_addEdge {m : Maps} : (edges.foldl (addEdge ids) m).inDegree t = m.inDegree t + pending (links ids edges) [] t ∧
    (edges.foldl (addEdge ids) m).adjacency t = m.adjacency t ++ targets (links ids edges) t := by
  induction edges generalizing m with
  | nil => simp [links, pending, targets]
  | cons e edges ih =>
    rw [List.foldl_cons, ih.1, ih.2]
    by_cases hv : e.target ∈ ids ∧ e.source ∈ ids
    · have hlinks : links ids (e :: edges) = (e.source, e.target) :: links ids edges := by simp [links, hv]
      rw [hlinks, Layers.pending_cons, addEdge, if_pos hv]
      constructor
      · by_cases ht : t = e.target
        · subst ht
          simp
          omega
        · simp [Function.update_of_ne ht, Ne.symm ht]
      · by_cases hs : t = e.source
        · subst hs
          simp [targets]
        · simp [targets, Function.update_of_ne hs, Ne.symm hs]
    · have hlinks : links ids (e :: edges) = links ids edges := by simp only [links, List.filter_cons, hv, decide_false]; rfl
      rw [hlinks, addEdge, if_neg hv]
      exact ⟨rfl, rfl⟩

theorem foldl_countDown (visited : List Bytes) {s : (Bytes → Nat) × List Bytes} (hT : ∀ t, times T t ≤ s.1 t) :
    (∀ t, (T.foldl (countDown visited) s).1 t = s.1 t - times T t) ∧
    ∃ l, (T.foldl (countDown visited) s).2 = s.2 ++ l ∧ l.Nodup ∧ ∀ t, t ∈ l ↔ t ∈ T ∧ s.1 t = times T t ∧ t ∉ visited := by
  induction T generalizing s with
  | nil => exact ⟨fun _ => rfl, [], by simp, List.nodup_nil, by simp⟩
  | cons a T ih =>
    have hpos : times T a + 1 ≤ s.1 a := by simpa [Layers.times_cons] using hT a
    have hdeg : (if s.1 a = 0 then 1 else s.1 a) - 1 = s.1 a - 1 := by rw [if_neg (by omega)]
    have hstep : ∀ t, (countDown visited s a).1 t = if t = a then s.1 a - 1 else s.1 t := by
      intro t
      simp only [countDown, hdeg, Function.update_apply]
    obtain ⟨h1, l, h2, hnodup, hl⟩ := ih (s := countDown visited s a) fun t => by
      have := hT t
      rw [Layers.times_cons] at this
      rw [hstep]
      split_ifs at this ⊢ with h
      · subst h; omega
      · omega
    refine ⟨fun t => ?_, ?_⟩
    · rw [List.foldl_cons, h1, hstep, Layers.times_cons]
      split_ifs with h
      · subst h; omega
      · omega
    by_cases hpush : s.1 a - 1 = 0 ∧ a ∉ visited
    · -- this was the last edge to `a`
      have hnone : times T a = 0 := by omega
      refine ⟨a :: l, ?_, List.nodup_cons.2 ⟨fun ha => Nat.ne_of_gt (Layers.times_pos.2 ((hl a).1 ha).1) hnone, hnodup⟩, fun t => ?_⟩
      · rw [List.foldl_cons, h2, countDown, hdeg, if_pos hpush]
        simp
      · rw [List.mem_cons, List.mem_cons, hl, hstep, Layers.times_cons]
        by_cases h : t = a
        · subst h
          simp [hpush.2]
          omega
        · simp [h]
    · refine ⟨l, ?_, hnodup, fun t => ?_⟩
      · rw [List.foldl_cons, h2, countDown, hdeg, if_neg hpush]
      · rw [hl, hstep, Layers.times_cons, List.mem_cons]
        by_cases h : t = a
        · subst h
          simp only [if_true, true_or, true_and]
          constructor
          · rintro ⟨_, heq, hv⟩
            exact ⟨by omega, hv⟩
          · rintro ⟨heq, hv⟩
            have hmem : 0 < times T t := by
              by_contra hzero
              exact hpush ⟨by omega, hv⟩
            exact ⟨Layers.times_pos.1 hmem, by omega, hv⟩
        · simp [h]

theorem nextQueue_eq {adjacency : Bytes → List Bytes} :
    nextQueue adjacency visited queue inDegree = (queue.flatMap adjacency).foldl (countDown visited) (inDegree, []) :=
  (List.foldl_flatMap ..).symm

theorem nextQueue_spec (hpairs : ∀ p ∈ pairs, p.2 ∈ ids) (hdeg : ∀ t, inDegree t = pending pairs visited t) (hnodup : queue.Nodup)
    (hq : ∀ t, t ∈ queue ↔ t ∈ ids ∧ t ∉ visited ∧ pending pairs visited t = 0) :
    (∀ t, (nextQueue (targets pairs) (visited ++ queue) queue inDegree).1 t = pending pairs (visited ++ queue) t) ∧
    (nextQueue (targets pairs) (visited ++ queue) queue inDegree).2.Nodup ∧
    ∀ t, t ∈ (nextQueue (targets pairs) (visited ++ queue) queue inDegree).2 ↔
      t ∈ ids ∧ t ∉ visited ++ queue ∧ pending pairs (visited ++ queue) t = 0 := by
  have hsplit : ∀ t, inDegree t = pending pairs (visited ++ queue) t + times (queue.flatMap (targets pairs)) t := fun t =>
    (hdeg t).trans (Layers.pending_append hnodup fun a ha => ((hq a).1 ha).2.1)
  have hle : ∀ t, times (queue.flatMap (targets pairs)) t ≤ inDegree t := fun t => by
    rw [hsplit t]
    omega
  obtain ⟨h1, l, h2, hl, hmem⟩ := foldl_countDown (visited ++ queue) (s := (inDegree, [])) hle
  rw [← nextQueue_eq] at h1 h2
  rw [List.nil_append] at h2
  dsimp only at h1 hmem
  rw [h2]
  refine ⟨fun t => ?_, hl, fun t => ?_⟩
  · rw [h1, hsplit t]
    omega
  · have hin := hsplit t
    rw [hmem]
    constructor
    · rintro ⟨ht, heq, hv⟩
      obtain ⟨a, _, ht⟩ := List.mem_flatMap.1 ht
      obtain ⟨p, hp, rfl⟩ := List.mem_map.1 ht
      exact ⟨hpairs p (List.mem_of_mem_filter hp), hv, by omega⟩
    · rintro ⟨ht, hv, h0⟩
      refine ⟨Layers.times_pos.1 (Nat.pos_of_ne_zero fun hz => hv ?_), by omega, hv⟩
      -- no edge was taken off, so it was ready before
      exact List.mem_append_right _ ((hq t).2 ⟨ht, fun h => hv (List.mem_append_left _ h), by rw [← hdeg t]; omega⟩)

theorem rounds_layered (visited : List Bytes) {n : Nat} (hpairs : ∀ p ∈ pairs, p.2 ∈ ids)
    (hdeg : ∀ t, inDegree t = pending pairs visited t) (hnodup : queue.Nodup)
    (hq : ∀ t, t ∈ queue ↔ t ∈ ids ∧ t ∉ visited ∧ pending pairs visited t = 0)
    (hn : Layers.left ids visited ≤ n) :
    ∃ ls, rounds (targets pairs) n inDegree visited queue = some (ls, visited ++ ls.flatten) ∧ Layers.Layered ids pairs visited ls := by
  induction n generalizing inDegree visited queue with
  | zero =>
    have hnone : queue = [] := by
      refine List.eq_nil_iff_forall_not_mem.2 fun t ht => ?_
      have hpos := Layers.left_pos ((hq t).1 ht).1 ((hq t).1 ht).2.1
      omega
    subst hnone
    exact ⟨[], by simp [rounds], .nil fun t ht hv h0 => List.not_mem_nil ((hq t).2 ⟨ht, hv, h0⟩)⟩
  | succ n ih =>
    cases queue with
    | nil => exact ⟨[], by simp [rounds], .nil fun t ht hv h0 => List.not_mem_nil ((hq t).2 ⟨ht, hv, h0⟩)⟩
    | cons id queue =>
      obtain ⟨hdeg', hnodup', hq'⟩ := nextQueue_spec hpairs hdeg hnodup hq
      have hid := (hq id).1 (List.mem_cons_self ..)
      have hlt : Layers.left ids (visited ++ id :: queue) < Layers.left ids visited := Layers.left_append_lt hid.1 hid.2.1 (List.mem_cons_self ..)
      obtain ⟨ls, hrun, hls⟩ := ih _ hdeg' hnodup' hq' (by omega)
      refine ⟨(id :: queue) :: ls, ?_, .cons hnodup hq hls⟩
      simp only [rounds, hrun, Option.map_some, List.flatten_cons, List.append_assoc]

theorem layers_spec (edges : List DAGEdge) (hids : ids.Nodup) : ∃ ls rest, layers ids edges = some (if rest.isEmpty then ls else ls ++ [rest]) ∧
    Layers.Layered ids (links ids edges) [] ls ∧ (ls.flatten ++ rest).Perm ids ∧ ∀ t ∈ rest, Layers.Behind (links ids edges) t := by
  have hmaps : (maps ids edges).adjacency = targets (links ids edges) ∧ ∀ t, (maps ids edges).inDegree t = pending (links ids edges) [] t := by
    constructor
    · funext t
      exact foldl_addEdge.2.trans (List.nil_append _)
    · exact fun t => foldl_addEdge.1.trans (Nat.zero_add _)
  have hends : ∀ p ∈ links ids edges, p.2 ∈ ids ∧ p.1 ∈ ids := by
    rintro p hp
    obtain ⟨e, _, he, rfl⟩ := mem_links.1 hp
    exact he
  obtain ⟨ls, hrun, hls⟩ := rounds_layered [] (n := ids.length) (fun p hp => (hends p hp).1) hmaps.2
    (hids.filter fun id => decide ((maps ids edges).inDegree id = 0)) (fun t => by simp [hmaps.2]) Layers.left_nil.le
  refine ⟨ls, ids.filter fun id => decide (id ∉ ls.flatten), ?_, hls, ?_, fun t ht => ?_⟩
  · simp only [layers, hmaps.1, hrun, Option.map_some, List.nil_append]
  · have hnodup : (ls.flatten).Nodup := by simpa using hls.nodup List.nodup_nil
    refine (List.perm_ext_iff_of_nodup (List.nodup_append.2 ⟨hnodup, hids.filter _, ?_⟩) hids).2 fun t => ?_
    · rintro a ha b hb rfl
      exact of_decide_eq_true (List.mem_filter.1 hb).2 ha
    · rw [List.mem_append, List.mem_filter]
      constructor
      · rintro (ht | ⟨ht, _⟩)
        · exact hls.subset ht
        · exact ht
      · intro ht
        by_cases hin : t ∈ ls.flatten
        · exact .inl hin
        · exact .inr ⟨ht, decide_eq_true hin⟩
  · obtain ⟨ht, hn⟩ := List.mem_filter.1 ht
    exact hls.behind (fun p hp => (hends p hp).2) ht (by simpa using hn)

def DAGNode.data (n : DAGNode ν ρ) : Bytes × ρ := (n.id, n.rest)

/-- `nodeMap.get`. -/
def nodeAt (nodes : List (DAGNode ν ρ)) (id : Bytes) : Option (DAGNode ν ρ) := nodes.reverse.find? fun n => decide (n.id = id)

theorem nodeAt_eq {n : DAGNode ν ρ} (hids : (nodes.map (·.id)).Nodup) (hn : n ∈ nodes) : nodeAt nodes n.id = some n := by
  cases h : nodeAt nodes n.id with
  | none => simpa using List.find?_eq_none.1 h n (List.mem_reverse.2 hn)
  | some m =>
    have hm : m ∈ nodes := List.mem_reverse.1 (List.mem_of_find?_eq_some h)
    have hid : m.id = n.id := by simpa using List.find?_some h
    rw [List.inj_on_of_nodup_map hids hm hn hid]

def dataAt (nodes : List (DAGNode ν ρ)) (id : Bytes) : Option (Bytes × ρ) := (nodeAt nodes id).map DAGNode.data

theorem map_place {layer : List Bytes} {i : Nat} : (place num nodes layer i).map DAGNode.data = layer.filterMap (dataAt nodes) := by
  have hfst : layer.zipIdx.map Prod.fst = layer := List.zipIdx_map_fst ..
  rw [← hfst, List.filterMap_map, hfst, place, List.map_filterMap]
  refine List.filterMap_congr fun p _ => ?_
  rw [Option.map_map]
  rfl

theorem tidy_at {n : DAGNode ν ρ} (h : n ∈ ls.zipIdx.flatMap fun p => place num nodes p.1 p.2) :
    ∃ (i : Nat) (l : List Bytes) (k : Nat), ls[i]? = some l ∧ l[k]? = some n.id ∧ n.x = num (80 + i * 220) ∧
      n.y = num (60 + (300 - ((l.length - 1) * 100) / 2) + k * 100) := by
  obtain ⟨p, hp, hn⟩ := List.mem_flatMap.1 h
  obtain ⟨c, hc, hn⟩ := List.mem_filterMap.1 hn
  obtain ⟨m, hm, rfl⟩ := Option.map_eq_some_iff.1 hn
  have hid : m.id = c.1 := by simpa using List.find?_some hm
  exact ⟨p.2, p.1, c.2, List.mem_zipIdx_iff_getElem?.1 hp, hid ▸ List.mem_zipIdx_iff_getElem?.1 hc, rfl, rfl⟩

theorem mem_tidy {n : DAGNode ν ρ} (h : n ∈ ls.zipIdx.flatMap fun p => place num nodes p.1 p.2) :
    ∃ (i : Nat) (l : List Bytes), ls[i]? = some l ∧ n.id ∈ l ∧ n.x = num (80 + i * 220) := by
  obtain ⟨i, l, k, hl, hk, hx, -⟩ := tidy_at h
  exact ⟨i, l, hl, List.mem_of_getElem? hk, hx⟩

theorem map_tidy : (ls.zipIdx.flatMap fun p => place num nodes p.1 p.2).map DAGNode.data = ls.flatten.filterMap (dataAt nodes) := by
  have hfst : ls.zipIdx.map Prod.fst = ls := List.zipIdx_map_fst ..
  rw [List.map_flatMap, ← hfst, List.filterMap_flatten, List.map_map, List.flatMap_def, hfst]
  simp only [map_place]
  rfl

/-- Each node comes back once, with its position changed only; and an edge whose target does not lie on a cycle or behind one goes to a
column further to the right. -/
theorem tidyLayout_columns (num : Int → ν) (nodes : List (DAGNode ν ρ)) (edges : List DAGEdge) (hids : (nodes.map (·.id)).Nodup) :
    ∃ r, tidyLayout num nodes edges = some r ∧ (r.map DAGNode.data).Perm (nodes.map DAGNode.data) ∧
      ∀ e ∈ edges, ∀ s ∈ r, ∀ t ∈ r, s.id = e.source → t.id = e.target → ¬ Layers.Behind (links (nodes.map (·.id)) edges) t.id →
        ∃ i j : Nat, i < j ∧ s.x = num (80 + i * 220) ∧ t.x = num (80 + j * 220) := by
  cases hnil : nodes.isEmpty with
  | true =>
    obtain rfl := List.isEmpty_iff.1 hnil
    exact ⟨[], rfl, .nil, fun _ _ s hs => nomatch hs⟩
  | false =>
    obtain ⟨ls, rest, hrun, hls, hperm, hrest⟩ := layers_spec edges hids
    generalize hls' : (if rest.isEmpty then ls else ls ++ [rest]) = ls' at hrun
    have hflat : ls'.flatten = ls.flatten ++ rest := by
      rw [← hls']
      split_ifs with he
      · simp [List.isEmpty_iff.1 he]
      · simp
    have hpre : ∀ (i : Nat) l, ls[i]? = some l → ls'[i]? = some l := by
      intro i l hl
      rw [← hls']
      split_ifs
      · exact hl
      · rw [List.getElem?_append_left (List.getElem?_eq_some_iff.1 hl).1, hl]
    have hnodup : ls'.flatten.Nodup := hflat ▸ hperm.nodup_iff.2 hids
    refine ⟨ls'.zipIdx.flatMap fun p => place num nodes p.1 p.2, by simp [tidyLayout, hnil, hrun], ?_, ?_⟩
    · have hall : (nodes.map (·.id)).filterMap (dataAt nodes) = nodes.map DAGNode.data := by
        rw [List.filterMap_map, ← List.filterMap_eq_map]
        refine List.filterMap_congr fun n hn => ?_
        show (nodeAt nodes n.id).map DAGNode.data = some n.data
        rw [nodeAt_eq hids hn]
        rfl
      rw [map_tidy, hflat, ← hall]
      exact hperm.filterMap _
    · intro e he s hs t ht hsource htarget hbehind
      obtain ⟨i, l, hl, hsl, hsx⟩ := mem_tidy hs
      obtain ⟨j, l', hl', htl, htx⟩ := mem_tidy ht
      have hmem : ∀ {i : Nat} {l : List Bytes} {id : Bytes}, ls'[i]? = some l → id ∈ l → id ∈ ls.flatten ++ rest := fun hl hid =>
        hflat ▸ List.mem_flatten.2 ⟨_, List.mem_of_getElem? hl, hid⟩
      -- the layer of the target is one of the rounds
      have hround : t.id ∈ ls.flatten := (List.mem_append.1 (hmem hl' htl)).resolve_right fun h => hbehind (hrest _ h)
      obtain ⟨m, hm, htm⟩ := List.mem_flatten.1 hround
      obtain ⟨j₀, hj₀⟩ := List.mem_iff_getElem?.1 hm
      obtain rfl := Layers.index_unique hnodup hl' htl (hpre _ _ hj₀) htm
      have hlink : (s.id, t.id) ∈ links (nodes.map (·.id)) edges :=
        mem_links.2 ⟨e, he, ⟨htarget ▸ hperm.mem_iff.1 (hmem hl' htl), hsource ▸ hperm.mem_iff.1 (hmem hl hsl)⟩, by rw [hsource, htarget]⟩
      obtain ⟨k, m', hk, hm', hsm⟩ := (hls.source hlink hj₀ htm).resolve_left List.not_mem_nil
      obtain rfl := Layers.index_unique hnodup hl hsl (hpre _ _ hm') hsm
      exact ⟨i, j, hk, hsx, htx⟩

def edge (source target : Bytes) : DAGEdge := ⟨[], source, target, none, none⟩

def canvas : List (DAGNode Int Unit) := [⟨str "c", 0, 0, ()⟩, ⟨str "b", 0, 0, ()⟩, ⟨str "a", 0, 0, ()⟩]

def canvasEdges : List DAGEdge := [edge (str "a") (str "b"), edge (str "a") (str "b"), edge (str "c") (str "c"), edge (str "b") (str "d")]

example : (tidyLayout id canvas canvasEdges).map (fun r => r.map fun n => (n.id, n.x, n.y)) =
    some [(str "a", 80, 360), (str "b", 300, 360), (str "c", 520, 360)] := by
  decide +kernel

theorem tidyLayout_columns_canvas : ∃ r, tidyLayout id canvas canvasEdges = some r ∧ (r.map DAGNode.data).Perm (canvas.map DAGNode.data) ∧
    ∀ s ∈ r, ∀ t ∈ r, s.id = str "a" → t.id = str "b" → ∃ i j : Nat, i < j ∧ s.x = 80 + i * 220 ∧ t.x = 80 + j * 220 := by
  obtain ⟨r, hr, hperm, hcols⟩ := tidyLayout_columns id canvas canvasEdges (by decide)
  refine ⟨r, hr, hperm, fun s hs t ht hsa htb => hcols (edge (str "a") (str "b")) (List.mem_cons_self ..) s hs t ht hsa htb ?_⟩
  rw [htb]
  -- only `a` leads to `b`, and nothing leads to `a`
  have hlinks : links (canvas.map (·.id)) canvasEdges = [(str "a", str "b"), (str "a", str "b"), (str "c", str "c")] := by decide
  have hb : ∀ x, (x, str "b") ∈ links (canvas.map (·.id)) canvasEdges → x = str "a" := fun x hx => by
    rw [hlinks] at hx
    have hcb : str "b" ≠ str "c" := by decide
    simpa [hcb] using hx
  have ha : ∀ x, ¬ Relation.TransGen (Layers.Edge (links (canvas.map (·.id)) canvasEdges)) x (str "a") := fun x hx => by
    obtain ⟨y, _, hy⟩ := Relation.TransGen.tail'_iff.1 hx
    rw [Layers.Edge, hlinks] at hy
    have hab : str "a" ≠ str "b" ∧ str "a" ≠ str "c" := by decide
    simp [hab.1, hab.2] at hy
  rintro ⟨c, hcycle, hpath⟩
  have hbb : Relation.TransGen (Layers.Edge (links (canvas.map (·.id)) canvasEdges)) c (str "b") := hcycle.trans_left hpath
  obtain ⟨y, hy, hyb⟩ := Relation.TransGen.tail'_iff.1 hbb
  obtain rfl := hb y hyb
  exact ha c (hcycle.trans_left hy)

/-- No node covers another: two of them are a column apart, or a row of one column. -/
theorem tidyLayout_apart (num : Int → ν) (nodes : List (DAGNode ν ρ)) (edges : List DAGEdge) (hids : (nodes.map (·.id)).Nodup) :
    ∃ r, tidyLayout num nodes edges = some r ∧ (nodes ≠ [] → ∀ s ∈ r, ∀ t ∈ r, s.id ≠ t.id → ∃ a b c d : Int,
      s.x = num a ∧ s.y = num b ∧ t.x = num c ∧ t.y = num d ∧ (220 ≤ |a - c| ∨ a = c ∧ 100 ≤ |b - d|)) := by
  cases hnil : nodes.isEmpty with
  | true => exact ⟨nodes, by rw [tidyLayout, if_pos hnil], fun h => absurd (List.isEmpty_iff.1 hnil) h⟩
  | false =>
    obtain ⟨ls, rest, hrun, -, hperm, -⟩ := layers_spec edges hids
    refine ⟨_, by rw [tidyLayout, if_neg (by simp [hnil]), hrun, Option.map_some], fun _ s hs t ht hne => ?_⟩
    obtain ⟨i, l, k, hl, hk, hsx, hsy⟩ := tidy_at hs
    obtain ⟨j, l', k', hl', hk', htx, hty⟩ := tidy_at ht
    refine ⟨_, _, _, _, hsx, hsy, htx, hty, ?_⟩
    by_cases hij : i = j
    · subst hij
      obtain rfl := Option.some.inj (hl.symm.trans hl')
      -- one column: the rows differ
      have hkk : k ≠ k' := fun h => hne (Option.some.inj (hk.symm.trans (h ▸ hk')))
      refine .inr ⟨rfl, ?_⟩
      rw [le_abs]
      omega
    · left
      rw [le_abs]
      omega

theorem tidyLayout_apart_canvas : ∃ r, tidyLayout id canvas canvasEdges = some r ∧ ∀ s ∈ r, ∀ t ∈ r, s.id ≠ t.id → s.x ≠ t.x ∨ s.y ≠ t.y := by
  obtain ⟨r, hr, hapart⟩ := tidyLayout_apart id canvas canvasEdges (by decide)
  refine ⟨r, hr, fun s hs t ht hne => ?_⟩
  obtain ⟨a, b, c, d, rfl, rfl, rfl, rfl, h⟩ := hapart nofun s hs t ht hne
  grind

end Web.TidyLayout
