import Mathlib.Data.List.Basic
import Mathlib.Data.List.Nodup
import Mathlib.Logic.Relation
import Mathlib.Tactic.Cases

/-!
# The roots above a point

The edges of a graph as a list of pairs, source first; an edge may stand in it many times, and lead back. `loop` goes against the edges
with a stack, marks a point when it takes it off and passes over a point that is marked. It comes to an end for want of edges into
points not yet marked. `mem_roots`: it collects the points without an edge into them from which the start can be reached.
-/

namespace Roots

universe u
variable {α : Type u}

/-- There is an edge from `a` to `b`. -/
def Edge (edges : List (α × α)) (a b : α) : Prop := (a, b) ∈ edges

/-- No edge leads to `a`. -/
def IsRoot (edges : List (α × α)) (a : α) : Prop := ∀ e ∈ edges, e.2 ≠ a

variable [DecidableEq α]

/-- Where the edges into `b` come from, if there are any. -/
def incoming (edges : List (α × α)) (b : α) : Option (List α) :=
  match edges.filter fun e => decide (e.2 = b) with
  | [] => none
  | e :: es => some ((e :: es).map Prod.fst)

variable {edges : List (α × α)} {a b start : α} {visited : List α}

theorem incoming_none : incoming edges b = none ↔ IsRoot edges b := by
  unfold incoming
  split
  case h_1 hnone =>
    refine ⟨fun _ e he hb => ?_, fun _ => rfl⟩
    simpa using List.filter_eq_nil_iff.1 hnone e he (decide_eq_true hb)
  case h_2 e es hsome =>
    refine ⟨nofun, fun hroot => ?_⟩
    have he : e ∈ edges.filter fun e => decide (e.2 = b) := hsome ▸ List.mem_cons_self ..
    exact absurd (of_decide_eq_true (List.mem_filter.1 he).2) (hroot e (List.mem_filter.1 he).1)

theorem mem_incoming {srcs : List α} (h : incoming edges b = some srcs) : a ∈ srcs ↔ Edge edges a b := by
  unfold incoming at h
  split at h
  case h_1 => cases h
  case h_2 e es hsome =>
    obtain rfl := Option.some.inj h
    rw [← hsome, List.mem_map]
    constructor
    · rintro ⟨⟨x, y⟩, he, rfl⟩
      obtain ⟨he, hy⟩ := List.mem_filter.1 he
      exact (of_decide_eq_true hy : y = b) ▸ he
    · exact fun he => ⟨(a, b), List.mem_filter.2 ⟨he, decide_eq_true rfl⟩, rfl⟩

def unseen (edges : List (α × α)) (visited : List α) : Nat := (edges.filter fun e => decide (e.2 ∉ visited)).length

theorem unseen_cons_le : unseen edges (a :: visited) ≤ unseen edges visited := by
  refine (List.monotone_filter_right edges fun e he => ?_).length_le
  exact decide_eq_true fun hv => of_decide_eq_true he (.tail _ hv)

theorem unseen_cons_lt {srcs : List α} (h : incoming edges a = some srcs) (ha : a ∉ visited) : unseen edges (a :: visited) < unseen edges visited := by
  refine Nat.lt_of_le_of_ne unseen_cons_le fun heq => ?_
  have hsub : (edges.filter fun e => decide (e.2 ∉ a :: visited)).Sublist (edges.filter fun e => decide (e.2 ∉ visited)) :=
    List.monotone_filter_right edges fun e he => decide_eq_true fun hv => of_decide_eq_true he (.tail _ hv)
  have hroot : IsRoot edges a := by
    rintro ⟨x, y⟩ he rfl
    have hmem : (x, y) ∈ edges.filter fun e => decide (e.2 ∉ visited) := List.mem_filter.2 ⟨he, decide_eq_true ha⟩
    rw [← hsub.eq_of_length heq] at hmem
    exact of_decide_eq_true (List.mem_filter.1 hmem).2 (List.mem_cons_self ..)
  rw [incoming_none.2 hroot] at h
  cases h

def loop (edges : List (α × α)) (result visited : List α) : List α → List α
  | [] => result
  | cur :: stack =>
    if _hv : cur ∈ visited then loop edges result visited stack
    else match _hin : incoming edges cur with
      | none => loop edges (result ++ [cur]) (cur :: visited) stack
      | some srcs => loop edges result (cur :: visited) (srcs.reverse ++ stack)
termination_by stack => (unseen edges visited, stack.length)
decreasing_by
  · exact Prod.Lex.right _ (Nat.lt_succ_self _)
  · rcases Nat.lt_or_eq_of_le (unseen_cons_le : unseen edges (cur :: visited) ≤ unseen edges visited) with hlt | heq
    · exact Prod.Lex.left _ _ hlt
    · rw [heq]
      exact Prod.Lex.right _ (Nat.lt_succ_self _)
  · exact Prod.Lex.left _ _ (unseen_cons_lt _hin _hv)

theorem loop_root {edges : List (α × α)} {result visited stack : List α} {cur : α} (hv : cur ∉ visited) (hin : incoming edges cur = none) :
    loop edges result visited (cur :: stack) = loop edges (result ++ [cur]) (cur :: visited) stack := by
  rw [loop, dif_neg hv]
  split
  · rfl
  · next srcs hsrcs => exact nomatch hin.symm.trans hsrcs

theorem loop_push {edges : List (α × α)} {result visited stack srcs : List α} {cur : α} (hv : cur ∉ visited)
    (hin : incoming edges cur = some srcs) :
    loop edges result visited (cur :: stack) = loop edges result (cur :: visited) (srcs.reverse ++ stack) := by
  rw [loop, dif_neg hv]
  split
  · next hnone => exact nomatch hin.symm.trans hnone
  · next srcs' hsrcs => rw [Option.some.inj (hin.symm.trans hsrcs)]

def roots (edges : List (α × α)) (start : α) : List α := loop edges [] [] [start]

open Relation (ReflTransGen)

structure Walked (edges : List (α × α)) (start : α) (result visited stack : List α) : Prop where
  nodup : result.Nodup
  marked : ∀ r ∈ result, r ∈ visited ∧ IsRoot edges r
  above : ∀ a, a ∈ visited ∨ a ∈ stack → ReflTransGen (Edge edges) a start
  kept : ∀ a ∈ visited, IsRoot edges a → a ∈ result
  behind : ∀ b ∈ visited, ∀ a, Edge edges a b → a ∈ visited ∨ a ∈ stack
  begun : start ∈ visited ∨ start ∈ stack

variable {result stack : List α} {cur : α}

omit [DecidableEq α] in
theorem Walked.skip (h : Walked edges start result visited (cur :: stack)) (hv : cur ∈ visited) : Walked edges start result visited stack := by
  have hmove : ∀ a, a ∈ visited ∨ a ∈ cur :: stack → a ∈ visited ∨ a ∈ stack := by
    rintro a (ha | ha)
    · exact .inl ha
    · rcases List.mem_cons.1 ha with rfl | ha
      · exact .inl hv
      · exact .inr ha
  exact {
    nodup := h.nodup
    marked := h.marked
    above := fun a ha => h.above a (ha.imp_right (.tail _))
    kept := h.kept
    behind := fun b hb a hab => hmove a (h.behind b hb a hab)
    begun := hmove start h.begun }

omit [DecidableEq α] in
theorem Walked.root (h : Walked edges start result visited (cur :: stack)) (hv : cur ∉ visited) (hroot : IsRoot edges cur) :
    Walked edges start (result ++ [cur]) (cur :: visited) stack := by
  have hmove : ∀ a, a ∈ visited ∨ a ∈ cur :: stack → a ∈ cur :: visited ∨ a ∈ stack := by
    rintro a (ha | ha)
    · exact .inl (.tail _ ha)
    · rcases List.mem_cons.1 ha with rfl | ha
      · exact .inl (List.mem_cons_self ..)
      · exact .inr ha
  refine ⟨?_, ?_, ?_, ?_, ?_, hmove start h.begun⟩
  · refine List.nodup_append.2 ⟨h.nodup, List.nodup_singleton _, fun a ha b hb hab => ?_⟩
    exact hv (List.mem_singleton.1 hb ▸ hab ▸ (h.marked a ha).1)
  · intro r hr
    rcases List.mem_append.1 hr with hr | hr
    · exact ⟨.tail _ (h.marked r hr).1, (h.marked r hr).2⟩
    · obtain rfl := List.mem_singleton.1 hr
      exact ⟨List.mem_cons_self .., hroot⟩
  · rintro a (ha | ha)
    · rcases List.mem_cons.1 ha with rfl | ha
      · exact h.above a (.inr (List.mem_cons_self ..))
      · exact h.above a (.inl ha)
    · exact h.above a (.inr (.tail _ ha))
  · intro a ha har
    rcases List.mem_cons.1 ha with rfl | ha
    · exact List.mem_append_right _ (List.mem_singleton_self _)
    · exact List.mem_append_left _ (h.kept a ha har)
  · intro b hb a hab
    rcases List.mem_cons.1 hb with rfl | hb
    · exact absurd rfl (hroot _ hab)
    · exact hmove a (h.behind b hb a hab)

theorem Walked.push {srcs : List α} (h : Walked edges start result visited (cur :: stack)) (hin : incoming edges cur = some srcs) :
    Walked edges start result (cur :: visited) (srcs.reverse ++ stack) := by
  have hmove : ∀ a, a ∈ visited ∨ a ∈ cur :: stack → a ∈ cur :: visited ∨ a ∈ srcs.reverse ++ stack := by
    rintro a (ha | ha)
    · exact .inl (.tail _ ha)
    · rcases List.mem_cons.1 ha with rfl | ha
      · exact .inl (List.mem_cons_self ..)
      · exact .inr (List.mem_append_right _ ha)
  have hcur : ReflTransGen (Edge edges) cur start := h.above cur (.inr (List.mem_cons_self ..))
  refine ⟨h.nodup, fun r hr => ⟨.tail _ (h.marked r hr).1, (h.marked r hr).2⟩, ?_, ?_, ?_, hmove start h.begun⟩
  · rintro a (ha | ha)
    · rcases List.mem_cons.1 ha with rfl | ha
      · exact hcur
      · exact h.above a (.inl ha)
    · rcases List.mem_append.1 ha with ha | ha
      · exact .head ((mem_incoming hin).1 (List.mem_reverse.1 ha)) hcur
      · exact h.above a (.inr (.tail _ ha))
  · intro a ha har
    rcases List.mem_cons.1 ha with rfl | ha
    · rw [incoming_none.2 har] at hin
      cases hin
    · exact h.kept a ha har
  · intro b hb a hab
    rcases List.mem_cons.1 hb with rfl | hb
    · exact .inr (List.mem_append_left _ (List.mem_reverse.2 ((mem_incoming hin).2 hab)))
    · exact hmove a (h.behind b hb a hab)

theorem Walked.loop (h : Walked edges start result visited stack) : ∃ visited', Walked edges start (loop edges result visited stack) visited' [] := by
  fun_induction Roots.loop edges result visited stack with
  | case1 => exact ⟨_, h⟩
  | case2 result visited cur stack hv ih => exact ih (h.skip hv)
  | case3 result visited cur stack hv hin ih => exact ih (h.root hv (incoming_none.1 hin))
  | case4 result visited cur stack hv srcs hin ih => exact ih (h.push hin)

theorem walked_roots (edges : List (α × α)) (start : α) : ∃ visited, Walked edges start (roots edges start) visited [] := by
  refine Walked.loop ⟨List.nodup_nil, nofun, ?_, nofun, nofun, .inr (List.mem_singleton_self _)⟩
  rintro a (ha | ha)
  · cases ha
  · exact List.mem_singleton.1 ha ▸ .refl

omit [DecidableEq α] in
theorem Walked.all (h : Walked edges start result visited []) (ha : ReflTransGen (Edge edges) a start) : a ∈ visited := by
  induction ha using ReflTransGen.head_induction_on with
  | refl => exact h.begun.resolve_right List.not_mem_nil
  | head hab _ ih => exact (h.behind _ ih _ hab).resolve_right List.not_mem_nil

theorem nodup_roots (edges : List (α × α)) (start : α) : (roots edges start).Nodup := (walked_roots edges start).elim fun _ h => h.nodup

theorem mem_roots : a ∈ roots edges start ↔ ReflTransGen (Edge edges) a start ∧ IsRoot edges a := by
  obtain ⟨visited, h⟩ := walked_roots edges start
  constructor
  · exact fun ha => ⟨h.above a (.inl (h.marked a ha).1), (h.marked a ha).2⟩
  · exact fun ha => h.kept a (h.all ha.1) ha.2

end Roots
