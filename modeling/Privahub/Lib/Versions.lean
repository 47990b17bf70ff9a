import Mathlib.Data.List.Induction
import Mathlib.Data.List.Pairwise
import Mathlib.Tactic.Common

/-!
# Writes of row versions in the order in which they are applied

An element writes version `ver e` of row `row e`. A sequence is `Forward` if it never goes back to an
older version of a row it has written; elements of different rows may come in any order, and a
version may be repeated. `replay` is the table such a sequence leaves behind, and in a forward
sequence a row is what its newest version has made of it (`replay_of_newest`).
-/

namespace Versions

universe u v w
variable {E : Type u} {K : Type v} {V : Type w} (row : E → K) (ver : E → Nat)

/-- No element is followed by an older version of its row. -/
abbrev Forward (es : List E) : Prop := es.Pairwise fun a b => row a = row b → ver a ≤ ver b

/-- The table after the writes `es`: each changes its own row. -/
def replay [DecidableEq K] (write : E → Option V → Option V) (t : K → Option V) (es : List E) : K → Option V :=
  es.foldl (fun t e => Function.update t (row e) (write e (t (row e)))) t

variable {row ver} {es fs : List E} {e : E}

theorem Forward.concat (h : Forward row ver es) (he : ∀ a ∈ es, row a = row e → ver a ≤ ver e) :
    Forward row ver (es ++ [e]) := by
  refine List.pairwise_append.2 ⟨h, List.pairwise_singleton .., fun a ha b hb => ?_⟩
  obtain rfl := List.mem_singleton.1 hb
  exact he a ha

theorem Forward.advance (h : Forward row ver (es ++ e :: fs)) : Forward row ver ((es ++ [e]) ++ e :: fs) := by
  obtain ⟨h1, h2, h3⟩ := List.pairwise_append.1 h
  refine List.pairwise_append.2 ⟨?_, h2, fun a ha b hb => ?_⟩
  · exact Forward.concat h1 fun a ha => h3 a ha e (List.mem_cons_self ..)
  · rcases List.mem_append.1 ha with ha | ha
    · exact h3 a ha b hb
    · obtain rfl := List.mem_singleton.1 ha
      rcases List.mem_cons.1 hb with rfl | hb
      · exact fun _ => Nat.le_refl _
      · exact (List.pairwise_cons.1 h2).1 b hb

section replay

variable [DecidableEq K] {write : E → Option V → Option V} {t : K → Option V}

@[simp] theorem replay_concat :
    replay row write t (es ++ [e]) = Function.update (replay row write t es) (row e) (write e (replay row write t es (row e))) := by
  simp [replay]

theorem replay_of_newest (h : Forward row ver es) {x : Option V}
    (hx : ∀ a ∈ es, row a = row e → ver a = ver e → ∀ v, write a v = x)
    (he : e ∈ es) (hmax : ∀ a ∈ es, row a = row e → ver a ≤ ver e) : replay row write t es (row e) = x := by
  induction es using List.reverseRecOn with
  | nil => simp at he
  | append_singleton es a ih =>
    rw [replay_concat]
    by_cases hrow : row a = row e
    · -- the last write of the row is not older than `e`
      have hle : ver e ≤ ver a := by
        rcases List.mem_append.1 he with hm | hm
        · exact (List.pairwise_append.1 h).2.2 e hm a (by simp) hrow.symm
        · exact Nat.le_of_eq (by rw [List.mem_singleton.1 hm])
      rw [hrow, Function.update_self]
      exact hx a (by simp) hrow (Nat.le_antisymm (hmax a (by simp) hrow) hle) _
    · rw [Function.update_of_ne fun hk => hrow hk.symm]
      have hm : e ∈ es := by
        rcases List.mem_append.1 he with hm | hm
        · exact hm
        · exact absurd (by rw [List.mem_singleton.1 hm]) hrow
      exact ih (List.pairwise_append.1 h).1 (fun b hb => hx b (List.mem_append_left _ hb)) hm
        fun b hb => hmax b (List.mem_append_left _ hb)

end replay

end Versions
