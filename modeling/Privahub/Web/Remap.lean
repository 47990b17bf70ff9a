import Privahub.Web.GraphModel
import Mathlib.Data.List.Nodup

/-!
# Imported graphs

`remapImportedGraph` gives the nodes of a file the ids that were allocated for them, and rewrites what refers to them: inputs, outputs,
ports, results and the ends and anchors of edges. `remap_copy`: where the ids of the file are distinct, the result is a copy of the graph
under the new ids. The id of an edge is computed from its new anchors, so edges with the same anchors get the same id.
-/

namespace Web.Remap

structure Port (π : Type) where
  id : Bytes
  rest : π

structure RemappableNode (ρ π : Type) where
  id : Bytes
  inputs : Option (List Bytes)
  outputs : Option (List Bytes)
  ports : Option (List (Port π))
  resultOutputs : Option (List (Port π))
  rest : ρ

variable {ρ π : Type}

/-- `idMap` after the entries `(n.id, ids[i] ?? n.id)`. -/
def idMap (names ids : List Bytes) : List (Bytes × Bytes) := names.zipIdx.map fun p => (p.1, (ids[p.2]?).getD p.1)

def get (m : List (Bytes × Bytes)) (id : Bytes) : Option Bytes := (m.reverse.find? fun p => decide (p.1 = id)).map Prod.snd

def kindText : Kind → Bytes
  | .input => str "input"
  | .output => str "output"

def anchorText (id : Bytes) (kind : Kind) (index : Bytes) : Bytes := id ++ str "-" ++ kindText kind ++ str "-" ++ index

/-- The text of the number that `index` is read as; from 2^53 on, where not every integer is a number, it is `large`. -/
def indexText (large : Nat → Bytes) (index : Nat) : Bytes := if index < 2 ^ 53 then Bytes.digits index else large index

def anchor (large : Nat → Bytes) (m : List (Bytes × Bytes)) (a : Option Bytes) : Option Bytes := match parseAnchor a with
  | none => a
  | some p => match get m p.nodeId with
    | none => a
    | some next => if next = [] then a else some (anchorText next p.kind (indexText large p.index))

/-- `anchor(a) ?? a`. -/
def rewrite (large : Nat → Bytes) (m : List (Bytes × Bytes)) (a : Bytes) : Bytes := (anchor large m (some a)).getD a

def remapNode (large : Nat → Bytes) (m : List (Bytes × Bytes)) (n : RemappableNode ρ π) : RemappableNode ρ π :=
  { n with
    id := (get m n.id).getD []
    inputs := n.inputs.map (List.map (rewrite large m))
    outputs := n.outputs.map (List.map (rewrite large m))
    ports := n.ports.map (List.map fun p => { p with id := rewrite large m p.id })
    resultOutputs := n.resultOutputs.map (List.map fun p => { p with id := rewrite large m p.id }) }

/-- The id of an edge after its anchors, or after its ends when it lacks one. -/
def newId (source target : Bytes) (sourceAnchor targetAnchor : Option Bytes) : Bytes := match sourceAnchor, targetAnchor with
  | some s, some t => if s ≠ [] ∧ t ≠ [] then edgeIdOf s t else source ++ str "__" ++ target
  | _, _ => source ++ str "__" ++ target

def remapEdge (large : Nat → Bytes) (m : List (Bytes × Bytes)) (e : DAGEdge) : DAGEdge :=
  let source := (get m e.source).getD []
  let target := (get m e.target).getD []
  let sourceAnchor := anchor large m e.sourceAnchor
  let targetAnchor := anchor large m e.targetAnchor
  { id := newId source target sourceAnchor targetAnchor, source, target, sourceAnchor, targetAnchor }

def remapImportedGraph (large : Nat → Bytes) (nodes : List (RemappableNode ρ π)) (edges : List DAGEdge) (ids : List Bytes) :
    List (RemappableNode ρ π) × List DAGEdge :=
  let m := idMap (nodes.map (·.id)) ids
  (nodes.map (remapNode large m), (edges.filter fun e => (get m e.source).isSome && (get m e.target).isSome).map (remapEdge large m))

/-- Node `a` of the file has become `b`. -/
def Renamed (names ids : List Bytes) (a b : Bytes) : Prop := ∃ i : Nat, names[i]? = some a ∧ ids[i]? = some b

/-- `b` is the anchor of the new id where `a` was one of an imported node; else it is `a`. -/
inductive Follows (large : Nat → Bytes) (names ids : List Bytes) (a : Bytes) : Bytes → Prop
  | moved {p : Anchor} {id : Bytes} (hp : parseAnchor (some a) = some p) (hid : Renamed names ids p.nodeId id) :
    Follows large names ids a (anchorText id p.kind (indexText large p.index))
  | kept (h : ∀ p, parseAnchor (some a) = some p → p.nodeId ∉ names) : Follows large names ids a a

variable {large : Nat → Bytes} {names ids : List Bytes} {a b id : Bytes} {nodes : List (RemappableNode ρ π)} {edges : List DAGEdge} {e : DAGEdge}

theorem get_isSome (ids : List Bytes) : (get (idMap names ids) a).isSome = true ↔ a ∈ names := by
  simp only [get, idMap, Option.isSome_map, List.find?_isSome, List.mem_reverse, List.mem_map, decide_eq_true_eq]
  constructor
  · rintro ⟨_, ⟨p, hp, rfl⟩, rfl⟩
    exact List.fst_mem_of_mem_zipIdx hp
  · intro ha
    obtain ⟨i, hi⟩ := List.mem_iff_getElem?.1 ha
    exact ⟨_, ⟨(a, i), List.mem_zipIdx_iff_getElem?.2 hi, rfl⟩, rfl⟩

theorem renamed_of_get (hlen : ids.length = names.length) (h : get (idMap names ids) a = some b) : Renamed names ids a b := by
  obtain ⟨q, hq, rfl⟩ := Option.map_eq_some_iff.1 h
  have hqa : q.1 = a := by simpa using List.find?_some hq
  obtain ⟨⟨n, i⟩, hp, rfl⟩ := List.mem_map.1 (List.mem_reverse.1 (List.mem_of_find?_eq_some hq))
  have hi := List.mem_zipIdx_iff_getElem?.1 hp
  have hlt : i < ids.length := hlen ▸ (List.getElem?_eq_some_iff.1 hi).1
  refine ⟨i, hqa ▸ hi, ?_⟩
  simp [List.getElem?_eq_getElem hlt]

theorem get_of_mem (hlen : ids.length = names.length) (h : a ∈ names) : ∃ b, get (idMap names ids) a = some b ∧ Renamed names ids a b := by
  obtain ⟨b, hb⟩ := Option.isSome_iff_exists.1 ((get_isSome ids).2 h)
  exact ⟨b, hb, renamed_of_get hlen hb⟩

theorem follows_rewrite (hlen : ids.length = names.length) (hne : [] ∉ ids) : Follows large names ids a (rewrite large (idMap names ids) a) := by
  unfold rewrite anchor
  split
  · rename_i hp
    exact .kept fun p h => by rw [hp] at h; cases h
  · rename_i p hp
    split
    · rename_i hget
      refine .kept fun q hq hmem => ?_
      obtain rfl := Option.some.inj (hp.symm.trans hq)
      obtain ⟨b, hb, _⟩ := get_of_mem hlen hmem
      rw [hget] at hb
      cases hb
    · rename_i next hget
      have hr := renamed_of_get hlen hget
      have hnext : next ≠ [] := by
        rintro rfl
        obtain ⟨i, _, hi⟩ := hr
        exact hne (List.mem_of_getElem? hi)
      rw [if_neg hnext]
      exact .moved hp hr

structure NodeCopied (large : Nat → Bytes) (names ids : List Bytes) (n n' : RemappableNode ρ π) : Prop where
  id : Renamed names ids n.id n'.id
  inputs : Option.Rel (List.Forall₂ (Follows large names ids)) n.inputs n'.inputs
  outputs : Option.Rel (List.Forall₂ (Follows large names ids)) n.outputs n'.outputs
  ports : Option.Rel (List.Forall₂ fun p q => Follows large names ids p.id q.id ∧ q.rest = p.rest) n.ports n'.ports
  resultOutputs : Option.Rel (List.Forall₂ fun p q => Follows large names ids p.id q.id ∧ q.rest = p.rest) n.resultOutputs n'.resultOutputs
  rest : n'.rest = n.rest

structure EdgeCopied (large : Nat → Bytes) (names ids : List Bytes) (e e' : DAGEdge) : Prop where
  source : Renamed names ids e.source e'.source
  target : Renamed names ids e.target e'.target
  sourceAnchor : Option.Rel (Follows large names ids) e.sourceAnchor e'.sourceAnchor
  targetAnchor : Option.Rel (Follows large names ids) e.targetAnchor e'.targetAnchor
  id : e'.id = newId e'.source e'.target e'.sourceAnchor e'.targetAnchor

theorem rel_map {α β : Type} {R : α → β → Prop} {f : α → β} {o : Option (List α)} (h : ∀ a, R a (f a)) :
    Option.Rel (List.Forall₂ R) o (o.map (List.map f)) := by
  cases o with
  | none => exact .none
  | some l => exact .some (List.forall₂_map_right_iff.2 (List.forall₂_same.2 fun a _ => h a))

theorem remapNode_copied {n : RemappableNode ρ π} (hlen : ids.length = names.length) (hne : [] ∉ ids) (hn : n.id ∈ names) :
    NodeCopied large names ids n (remapNode large (idMap names ids) n) := by
  refine ⟨?_, rel_map fun a => follows_rewrite hlen hne, rel_map fun a => follows_rewrite hlen hne,
    rel_map fun p => ⟨follows_rewrite hlen hne, rfl⟩, rel_map fun p => ⟨follows_rewrite hlen hne, rfl⟩, rfl⟩
  obtain ⟨b, hb, hr⟩ := get_of_mem hlen hn
  simpa [remapNode, hb] using hr

theorem rel_anchor {o : Option Bytes} (hlen : ids.length = names.length) (hne : [] ∉ ids) :
    Option.Rel (Follows large names ids) o (anchor large (idMap names ids) o) := by
  cases o with
  | none => exact .none
  | some a =>
    have hsome : anchor large (idMap names ids) (some a) = some (rewrite large (idMap names ids) a) := by
      unfold rewrite anchor
      split
      · rfl
      · split
        · rfl
        · split_ifs <;> rfl
    rw [hsome]
    exact .some (follows_rewrite hlen hne)

theorem remapEdge_copied (hlen : ids.length = names.length) (hne : [] ∉ ids) (he : e.source ∈ names ∧ e.target ∈ names) :
    EdgeCopied large names ids e (remapEdge large (idMap names ids) e) := by
  obtain ⟨s, hs, hsr⟩ := get_of_mem hlen he.1
  obtain ⟨t, ht, htr⟩ := get_of_mem hlen he.2
  exact ⟨by simpa [remapEdge, hs] using hsr, by simpa [remapEdge, ht] using htr, rel_anchor hlen hne, rel_anchor hlen hne, rfl⟩

theorem Renamed.mem_right (h : Renamed names ids a b) : b ∈ ids := by
  obtain ⟨i, _, hi⟩ := h
  exact List.mem_of_getElem? hi

theorem Renamed.left_unique {a' : Bytes} (hids : ids.Nodup) (h : Renamed names ids a b) (h' : Renamed names ids a' b) : a = a' := by
  obtain ⟨i, hi, hb⟩ := h
  obtain ⟨j, hj, hb'⟩ := h'
  obtain ⟨hlt, hbi⟩ := List.getElem?_eq_some_iff.1 hb
  obtain ⟨hlt', hbj⟩ := List.getElem?_eq_some_iff.1 hb'
  obtain rfl := (List.Nodup.getElem_inj_iff hids).1 (hbi.trans hbj.symm)
  exact Option.some.inj (hi.symm.trans hj)

theorem dropSuffix_append {s t : Bytes} : dropSuffix t (s ++ t) = some s := by
  simp [dropSuffix]

theorem dropSuffix_none {s t u : Bytes} (hlen : u.length ≤ t.length) (h : ¬ u <:+ t) : dropSuffix u (s ++ t) = none := by
  refine if_neg fun hs => h ?_
  exact List.suffix_of_suffix_length_le hs (List.suffix_append s t) hlen

theorem span_digits {s : Bytes} {i : Nat} :
    ((s ++ str "-" ++ Bytes.digits i).reverse.takeWhile Bytes.isDigit).reverse = Bytes.digits i ∧
    ((s ++ str "-" ++ Bytes.digits i).reverse.dropWhile Bytes.isDigit).reverse = s ++ str "-" := by
  have hall : ∀ b ∈ (Bytes.digits i).reverse, Bytes.isDigit b := fun b hb => Bytes.isDigit_of_mem_digits (List.mem_reverse.1 hb)
  have hrev : (s ++ str "-" ++ Bytes.digits i).reverse = (Bytes.digits i).reverse ++ 45 :: s.reverse := by simp [str]; rfl
  have hhyphen : Bytes.isDigit 45 = false := by decide
  rw [hrev, List.takeWhile_append_of_pos hall, List.dropWhile_append_of_pos hall, List.takeWhile_cons_of_neg (by simp [hhyphen]),
    List.dropWhile_cons_of_neg (by simp [hhyphen])]
  constructor
  · simp
  · rw [List.reverse_cons, List.reverse_reverse]
    rfl

theorem parseAnchor_anchorText (kind : Kind) (i : Nat) (h : lineTerminator id = false) :
    parseAnchor (some (anchorText id kind (Bytes.digits i))) = some ⟨id, kind, i⟩ := by
  have hspan := span_digits (s := id ++ str "-" ++ kindText kind) (i := i)
  unfold parseAnchor
  simp only [Option.getD_some, anchorText, hspan.1, hspan.2, if_neg (Bytes.digits_ne_nil i), Json.digitsVal_digits]
  cases kind with
  | input =>
    have hin : id ++ str "-" ++ kindText .input ++ str "-" = id ++ str "-input-" := by simp [kindText, List.append_assoc]; rfl
    rw [hin, dropSuffix_append]
    simp [h]
  | output =>
    have hout : id ++ str "-" ++ kindText .output ++ str "-" = id ++ str "-output-" := by simp [kindText, List.append_assoc]; rfl
    rw [hout, dropSuffix_append, dropSuffix_none (by decide) (by decide)]
    simp [h]

/-- An id without line terminator and underscore, as those of a canvas. -/
def Plain (id : Bytes) : Prop := lineTerminator id = false ∧ 95 ∉ id

/-- Both anchors of the edge are those of imported nodes. -/
structure Anchored (names : List Bytes) (e : DAGEdge) (s t : Anchor) : Prop where
  source : parseAnchor e.sourceAnchor = some s
  target : parseAnchor e.targetAnchor = some t
  imported : s.nodeId ∈ names ∧ t.nodeId ∈ names
  indices : s.index < 2 ^ 53 ∧ t.index < 2 ^ 53

theorem Follows.eq_text {p : Anchor} (h : Follows large names ids a b) (hp : parseAnchor (some a) = some p) (hmem : p.nodeId ∈ names)
    (hi : p.index < 2 ^ 53) : ∃ id, Renamed names ids p.nodeId id ∧ b = anchorText id p.kind (Bytes.digits p.index) := by
  cases h with
  | @moved q id hq hid =>
    obtain rfl := Option.some.inj (hp.symm.trans hq)
    exact ⟨id, hid, by rw [indexText, if_pos hi]⟩
  | kept h => exact absurd hmem (h p hp)

theorem anchorText_ne_nil {kind : Kind} {index : Bytes} : anchorText id kind index ≠ [] := by
  intro h
  simp only [anchorText, List.append_eq_nil_iff] at h
  exact absurd h.1.1.1.2 (by decide)

theorem not_mem_anchorText {kind : Kind} {i : Nat} (h : 95 ∉ id) : 95 ∉ anchorText id kind (Bytes.digits i) := by
  have hdigits : 95 ∉ Bytes.digits i := fun hmem => absurd (Bytes.isDigit_of_mem_digits hmem) (by decide)
  have hkind : 95 ∉ str "-" ∧ 95 ∉ kindText kind := by cases kind <;> decide
  simp [anchorText, h, hdigits, hkind.1, hkind.2]

theorem EdgeCopied.id_eq {e' : DAGEdge} {s t : Anchor} (h : EdgeCopied large names ids e e') (ha : Anchored names e s t) :
    ∃ x y, Renamed names ids s.nodeId x ∧ Renamed names ids t.nodeId y ∧
      e'.id = edgeIdOf (anchorText x s.kind (Bytes.digits s.index)) (anchorText y t.kind (Bytes.digits t.index)) := by
  have hid := h.id
  have hs := h.sourceAnchor
  have ht := h.targetAnchor
  cases hsa : e.sourceAnchor with
  | none => simpa [hsa, parseAnchor] using ha.source
  | some a =>
    cases hta : e.targetAnchor with
    | none => simpa [hta, parseAnchor] using ha.target
    | some b =>
      rw [hsa] at hs
      rw [hta] at ht
      generalize e'.sourceAnchor = sa at hs hid
      generalize e'.targetAnchor = ta at ht hid
      cases hs with
      | some hs =>
        cases ht with
        | some ht =>
          obtain ⟨x, hx, rfl⟩ := hs.eq_text (hsa ▸ ha.source) ha.imported.1 ha.indices.1
          obtain ⟨y, hy, rfl⟩ := ht.eq_text (hta ▸ ha.target) ha.imported.2 ha.indices.2
          exact ⟨x, y, hx, hy, hid.trans (if_pos ⟨anchorText_ne_nil, anchorText_ne_nil⟩)⟩

theorem split_underscore {u u' r r' : Bytes} (h : 95 ∉ u) (h' : 95 ∉ u') (heq : u ++ 95 :: r = u' ++ 95 :: r') : u = u' ∧ r = r' := by
  rcases List.append_eq_append_iff.1 heq with ⟨v, rfl, hv⟩ | ⟨v, rfl, hv⟩
  · cases v with
    | nil => exact ⟨by simp, (List.cons.inj hv).2⟩
    | cons b v =>
      obtain ⟨rfl, _⟩ := List.cons.inj hv
      exact absurd (List.mem_append_right _ (List.mem_cons_self ..)) h'
  · cases v with
    | nil => exact ⟨by simp, (List.cons.inj hv).2.symm⟩
    | cons b v =>
      obtain ⟨rfl, _⟩ := List.cons.inj hv
      exact absurd (List.mem_append_right _ (List.mem_cons_self ..)) h

theorem anchor_of_text {p q : Anchor} {x y : Bytes} (hids : ids.Nodup) (hx : Renamed names ids p.nodeId x) (hy : Renamed names ids q.nodeId y)
    (hpx : Plain x) (hpy : Plain y) (h : anchorText x p.kind (Bytes.digits p.index) = anchorText y q.kind (Bytes.digits q.index)) : p = q := by
  have hparse := parseAnchor_anchorText p.kind p.index hpx.1
  rw [h, parseAnchor_anchorText q.kind q.index hpy.1] at hparse
  obtain ⟨rfl, hkind, hindex⟩ := Anchor.mk.inj (Option.some.inj hparse)
  obtain ⟨n, k, i⟩ := p
  obtain ⟨m, l, j⟩ := q
  obtain rfl : n = m := hx.left_unique hids hy
  obtain rfl : l = k := hkind
  obtain rfl : j = i := hindex
  rfl

theorem anchors_of_id {e' f f' : DAGEdge} {s t s' t' : Anchor} (hids : ids.Nodup) (hplain : ∀ id ∈ ids, Plain id)
    (he : EdgeCopied large names ids e e') (hf : EdgeCopied large names ids f f') (ha : Anchored names e s t) (ha' : Anchored names f s' t')
    (heq : e'.id = f'.id) : s = s' ∧ t = t' := by
  obtain ⟨x, y, hx, hy, hid⟩ := he.id_eq ha
  obtain ⟨x', y', hx', hy', hid'⟩ := hf.id_eq ha'
  have hplain' : ∀ {a b}, Renamed names ids a b → Plain b := fun h => hplain _ h.mem_right
  have hsplit : ∀ u v : Bytes, edgeIdOf u v = u ++ 95 :: (95 :: v) := fun u v => by simp [edgeIdOf, str]; rfl
  rw [hid, hid', hsplit, hsplit] at heq
  obtain ⟨hsource, htarget⟩ := split_underscore (not_mem_anchorText (hplain' hx).2) (not_mem_anchorText (hplain' hx').2) heq
  exact ⟨anchor_of_text hids hx hx' (hplain' hx) (hplain' hx') hsource,
    anchor_of_text hids hy hy' (hplain' hy) (hplain' hy') (List.cons.inj htarget).2⟩

/-- The edges between imported nodes are kept, and every end and anchor goes to a new id of its node; where the node ids of the file are distinct,
node `i` gets the id `ids[i]`. Under plain ids, two edges between anchors get the same id only if they join the same ports. -/
theorem remap_copy (large : Nat → Bytes) (nodes : List (RemappableNode ρ π)) (edges : List DAGEdge) (ids : List Bytes)
    (hlen : ids.length = nodes.length) (hids : ids.Nodup) (hne : [] ∉ ids) :
    let names := nodes.map (·.id)
    let kept := edges.filter fun e => decide (e.source ∈ names ∧ e.target ∈ names)
    let out := remapImportedGraph large nodes edges ids
    ((nodes.map (·.id)).Nodup → out.1.map (·.id) = ids) ∧ List.Forall₂ (NodeCopied large names ids) nodes out.1 ∧
      List.Forall₂ (EdgeCopied large names ids) kept out.2 ∧
      ((∀ id ∈ ids, Plain id) → ∀ (i j : Nat) e f e' f' s t s' t', kept[i]? = some e → out.2[i]? = some e' → kept[j]? = some f →
        out.2[j]? = some f' → Anchored names e s t → Anchored names f s' t' → e'.id = f'.id → s = s' ∧ t = t') := by
  intro names kept out
  have hlen' : ids.length = names.length := by simpa [names] using hlen
  have hkept : out.2 = kept.map (remapEdge large (idMap names ids)) := by
    show List.map _ _ = List.map _ _
    congr 1
    refine List.filter_congr fun e _ => ?_
    rw [Bool.eq_iff_iff, Bool.and_eq_true, get_isSome, get_isSome, decide_eq_true_eq]
  have hedge : ∀ e ∈ kept, EdgeCopied large names ids e (remapEdge large (idMap names ids) e) := fun e he =>
    remapEdge_copied hlen' hne (of_decide_eq_true (List.mem_filter.1 he).2)
  have hnode : ∀ n ∈ nodes, NodeCopied large names ids n (remapNode large (idMap names ids) n) := fun n hn =>
    remapNode_copied hlen' hne (List.mem_map_of_mem hn)
  refine ⟨?_, List.forall₂_map_right_iff.2 (List.forall₂_same.2 hnode), ?_, ?_⟩
  · intro hdistinct
    refine List.ext_getElem (by simp [out, remapImportedGraph, hlen]) fun i hi hi' => ?_
    have hlt : i < nodes.length := hlen ▸ hi'
    have hid : (out.1.map (·.id))[i] = (remapNode large (idMap names ids) nodes[i]).id := by simp [out, remapImportedGraph, names]
    -- the name of node `i` stands nowhere else
    obtain ⟨j, hj, hj'⟩ := (hnode nodes[i] (List.getElem_mem hlt)).id
    obtain ⟨hjlt, hj⟩ := List.getElem?_eq_some_iff.1 hj
    have hilt : i < names.length := hlen' ▸ hi'
    have hname : names[j] = names[i] := hj.trans (by simp [names])
    obtain rfl := (List.Nodup.getElem_inj_iff hdistinct).1 hname
    rw [hid]
    exact ((List.getElem?_eq_some_iff.1 hj').2).symm
  · rw [hkept]
    exact List.forall₂_map_right_iff.2 (List.forall₂_same.2 hedge)
  · intro hplain i j e f e' f' s t s' t' hi hi' hj hj' ha ha' heq
    rw [hkept, List.getElem?_map, hi] at hi'
    rw [hkept, List.getElem?_map, hj] at hj'
    obtain rfl := Option.some.inj hi'
    obtain rfl := Option.some.inj hj'
    exact anchors_of_id hids hplain (hedge e (List.mem_of_getElem? hi)) (hedge f (List.mem_of_getElem? hj)) ha ha' heq

def file (id : Bytes) (outputs : List Bytes) : RemappableNode Unit Unit := ⟨id, none, some outputs, none, none, ()⟩

def fileEdge (id : Bytes) : DAGEdge := ⟨id, str "a", str "b", some (outputAnchor (str "a") 0), some (inputAnchor (str "b") 0)⟩

theorem remap_copy_file : (remapImportedGraph Bytes.digits [file (str "a") [outputAnchor (str "a") 0], file (str "b") []] [fileEdge (str "e")]
    [str "g-node-1", str "g-node-2"]).1.map (·.id) = [str "g-node-1", str "g-node-2"] :=
  (remap_copy Bytes.digits [file (str "a") [outputAnchor (str "a") 0], file (str "b") []] [fileEdge (str "e")] [str "g-node-1", str "g-node-2"]
    rfl (by decide) (by decide)).1 (by decide)

/-- Edges with the same anchors get the same id, nodes with the same id too, and under an empty id an anchor stays as it is. -/
theorem remap_not_copy :
    (remapImportedGraph Bytes.digits [file (str "a") [], file (str "b") []] [fileEdge (str "e"), fileEdge (str "f")] [str "x", str "y"]).2.map (·.id) =
      [str "x-output-0__y-input-0", str "x-output-0__y-input-0"] ∧
    (remapImportedGraph Bytes.digits [file (str "a") [], file (str "a") []] [] [str "x", str "y"]).1.map (·.id) = [str "y", str "y"] ∧
    (remapImportedGraph Bytes.digits [file (str "a") [outputAnchor (str "a") 0]] [] [[]]).1.map (·.outputs) = [some [outputAnchor (str "a") 0]] := by
  refine ⟨?_, ?_, ?_⟩ <;> decide +kernel

end Web.Remap
