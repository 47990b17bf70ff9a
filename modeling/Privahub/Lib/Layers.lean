import Privahub.Lib.Search
import Mathlib.Data.List.Nodup
import Mathlib.Order.WellFounded
import Mathlib.Data.Fintype.Card
import Mathlib.Data.Set.Finite.List

/-!
# Layers of a graph

The first layer holds the points that no edge leads to, each further one those that only edges from earlier layers lead to (`Layered`). An
edge into a layer comes from an earlier one (`Layered.source`), and a point of no layer lies on a cycle or behind one
(`Layered.behind`).
-/

namespace Layers

universe u
variable {α : Type u} [DecidableEq α]

/-- How many edges lead to `t` from points that are not done. -/
def pending (edges : List (α × α)) (done : List α) (t : α) : Nat := edges.countP fun e => decide (e.2 = t ∧ e.1 ∉ done)

def Edge (edges : List (α × α)) (a b : α) : Prop := (a, b) ∈ edges

/-- `t` lies on a cycle, or a path leads to it from one. -/
def Behind (edges : List (α × α)) (t : α) : Prop :=
  ∃ c, Relation.TransGen (Edge edges) c c ∧ Relation.ReflTransGen (Edge edges) c t

inductive Layered (points : List α) (edges : List (α × α)) : List α → List (List α) → Prop
  | nil {done : List α} (h : ∀ t ∈ points, t ∉ done → pending edges done t ≠ 0) : Layered points edges done []
  | cons {done l : List α} {ls : List (List α)} (hnodup : l.Nodup) (hl : ∀ t, t ∈ l ↔ t ∈ points ∧ t ∉ done ∧ pending edges done t = 0)
    (h : Layered points edges (done ++ l) ls) : Layered points edges done (l :: ls)

variable {points done l : List α} {edges : List (α × α)} {ls : List (List α)} {t : α}

theorem pending_eq_zero : pending edges done t = 0 ↔ ∀ e ∈ edges, e.2 = t → e.1 ∈ done := by
  rw [pending, List.countP_eq_zero]
  refine forall₂_congr fun e _ => ?_
  simp only [decide_eq_true_eq, not_and, not_not]

/-- The targets of the edges from `a`. -/
def targets (edges : List (α × α)) (a : α) : List α := (edges.filter fun e => decide (e.1 = a)).map Prod.snd

theorem pending_cons {e : α × α} : pending (e :: edges) done t = pending edges done t + if e.2 = t ∧ e.1 ∉ done then 1 else 0 := by
  simp only [pending, List.countP_cons, decide_eq_true_eq]

def times (l : List α) (t : α) : Nat := l.countP fun b => decide (t = b)

theorem times_cons {b : α} : times (b :: l) t = times l t + if t = b then 1 else 0 := by
  simp only [times, List.countP_cons, decide_eq_true_eq]

theorem times_append {l' : List α} : times (l ++ l') t = times l t + times l' t := List.countP_append

theorem times_pos : 0 < times l t ↔ t ∈ l := by
  simp [times, List.countP_pos_iff]

theorem times_targets_cons {e : α × α} {a : α} :
    times (targets (e :: edges) a) t = times (targets edges a) t + if e.1 = a ∧ e.2 = t then 1 else 0 := by
  by_cases hea : e.1 = a
  · simp [targets, hea, times_cons, eq_comm]
  · simp [targets, hea]

theorem pending_concat {a : α} (ha : a ∉ done) : pending edges done t = pending edges (done ++ [a]) t + times (targets edges a) t := by
  induction edges with
  | nil => rfl
  | cons e edges ih =>
    rw [pending_cons, pending_cons, times_targets_cons, ih]
    by_cases hea : e.1 = a
    · subst hea
      simp [ha]
      omega
    · simp [hea]
      omega

theorem pending_append (hnodup : l.Nodup) (hdone : ∀ a ∈ l, a ∉ done) :
    pending edges done t = pending edges (done ++ l) t + times (l.flatMap (targets edges)) t := by
  induction l generalizing done with
  | nil => simp [times]
  | cons a l ih =>
    obtain ⟨ha, hnodup⟩ := List.nodup_cons.1 hnodup
    have hrest : ∀ b ∈ l, b ∉ done ++ [a] := by
      intro b hb hmem
      rcases List.mem_append.1 hmem with hmem | hmem
      · exact hdone b (.tail _ hb) hmem
      · exact ha (List.mem_singleton.1 hmem ▸ hb)
    rw [pending_concat (hdone a (List.mem_cons_self ..)), ih hnodup hrest, List.flatMap_cons, times_append, List.append_assoc]
    simp only [List.singleton_append]
    omega

def left (points done : List α) : Nat := (points.filter fun t => decide (t ∉ done)).length

theorem left_append_lt (ht : t ∈ points) (hn : t ∉ done) (hl : t ∈ l) : left points (done ++ l) < left points done := by
  refine Nat.lt_of_le_of_lt (List.Sublist.length_le (List.monotone_filter_right points fun a ha => ?_)) (Search.filter_seen_lt ht hn)
  simp only [decide_eq_true_eq, List.mem_append, List.mem_cons, not_or] at ha ⊢
  exact ⟨fun he => ha.2 (he ▸ hl), ha.1⟩

theorem left_pos (ht : t ∈ points) (hn : t ∉ done) : 0 < left points done :=
  List.length_pos_of_mem (List.mem_filter.2 ⟨ht, decide_eq_true hn⟩)

theorem left_nil : left points [] = points.length := by simp [left]

omit [DecidableEq α] in
theorem index_unique {l' : List α} {i j : Nat} (hnodup : ls.flatten.Nodup) (hi : ls[i]? = some l) (ht : t ∈ l) (hj : ls[j]? = some l')
    (ht' : t ∈ l') : i = j := by
  have hpair := List.pairwise_iff_getElem.1 (List.nodup_flatten.1 hnodup).2
  obtain ⟨hi, hl⟩ := List.getElem?_eq_some_iff.1 hi
  obtain ⟨hj, hl'⟩ := List.getElem?_eq_some_iff.1 hj
  rcases lt_trichotomy i j with hlt | heq | hlt
  · exact absurd (hl'.symm ▸ ht') (hpair i j hi hj hlt (hl.symm ▸ ht))
  · exact heq
  · exact absurd (hl.symm ▸ ht) (hpair j i hj hi hlt (hl'.symm ▸ ht'))

namespace Layered

variable (h : Layered points edges done ls)
include h

theorem nodup (hdone : done.Nodup) : (done ++ ls.flatten).Nodup := by
  induction h with
  | nil => simpa using hdone
  | cons hnodup hl _ ih =>
    rw [List.flatten_cons, ← List.append_assoc]
    refine ih (List.nodup_append.2 ⟨hdone, hnodup, ?_⟩)
    rintro a ha b hb rfl
    exact ((hl a).1 hb).2.1 ha

theorem subset (ht : t ∈ ls.flatten) : t ∈ points := by
  induction h with
  | nil => cases ht
  | cons hnodup hl _ ih =>
    rw [List.flatten_cons] at ht
    rcases List.mem_append.1 ht with ht | ht
    · exact ((hl t).1 ht).1
    · exact ih ht

theorem source {e : α × α} {i : Nat} (he : e ∈ edges) (hi : ls[i]? = some l) (ht : e.2 ∈ l) : e.1 ∈ done ∨ ∃ j l', j < i ∧ ls[j]? = some l' ∧ e.1 ∈ l' := by
  induction h generalizing i with
  | nil => cases hi
  | @cons done l₀ ls hnodup hl _ ih =>
    cases i with
    | zero =>
      obtain rfl := Option.some.inj hi
      exact .inl (pending_eq_zero.1 ((hl _).1 ht).2.2 e he rfl)
    | succ i =>
      rcases ih hi with hd | ⟨j, l', hj, hl', hmem⟩
      · rcases List.mem_append.1 hd with hd | hd
        · exact .inl hd
        · exact .inr ⟨0, l₀, Nat.succ_pos i, rfl, hd⟩
      · exact .inr ⟨j + 1, l', Nat.succ_lt_succ hj, hl', hmem⟩

theorem stuck (ht : t ∈ points) (hn : t ∉ done ++ ls.flatten) : ∃ a, a ∉ done ++ ls.flatten ∧ (a, t) ∈ edges := by
  induction h with
  | @nil done h =>
    simp only [List.flatten_nil, List.append_nil] at hn ⊢
    have hpos := h t ht hn
    rw [Ne, pending_eq_zero] at hpos
    simp only [not_forall] at hpos
    obtain ⟨e, he, rfl, hd⟩ := hpos
    exact ⟨e.1, hd, he⟩
  | cons _ _ _ ih =>
    rw [List.flatten_cons, ← List.append_assoc] at hn ⊢
    exact ih hn

theorem behind (hedges : ∀ e ∈ edges, e.1 ∈ points) (ht : t ∈ points) (hn : t ∉ done ++ ls.flatten) : Behind edges t := by
  by_contra hno
  -- the points that lead to `t` and are in no layer
  let S : Set α := {a | a ∈ points ∧ a ∉ done ++ ls.flatten ∧ Relation.ReflTransGen (Edge edges) a t}
  have hfin : Finite S := (List.finite_toSet points).subset fun a ha => ha.1
  have : IsTrans S fun a b => Relation.TransGen (Edge edges) a.1 b.1 := ⟨fun _ _ _ hab hbc => hab.trans hbc⟩
  have : Std.Irrefl fun a b : S => Relation.TransGen (Edge edges) a.1 b.1 := ⟨fun a ha => hno ⟨a.1, ha, a.2.2.2⟩⟩
  have hwf := Finite.wellFounded_of_trans_of_irrefl fun a b : S => Relation.TransGen (Edge edges) a.1 b.1
  obtain ⟨⟨m, hm⟩, _, hmin⟩ := hwf.has_min Set.univ ⟨⟨t, ht, hn, .refl⟩, trivial⟩
  obtain ⟨a, ha, hedge⟩ := h.stuck hm.1 hm.2.1
  have hstep : Edge edges a m := hedge
  exact hmin ⟨a, hedges _ hedge, ha, hm.2.2.head hstep⟩ trivial (.single hstep)

end Layered

end Layers
