import Mathlib.Algebra.Order.Field.Basic
import Mathlib.Tactic.Linarith
import Mathlib.Tactic.Ring

/-!
# What a budget lets through

A budget never holds more than `cap` and gains at most `rate` a unit of time. From any `start` on it lets through at most what it can hold and
what it has gained since.
-/

namespace Budget

variable {K : Type*} [Field K] [LinearOrder K] [IsStrictOrderedRing K] {cap rate start level level' time time' stop : K} {n : ℕ}

/-- `n` have been let through since `start` when `level` is left at `time`. -/
def Within (cap rate start : K) (n : ℕ) (level time : K) : Prop :=
  n = 0 ∧ level ≤ cap ∨ start ≤ time ∧ n + level ≤ cap + rate * (time - start)

omit [IsStrictOrderedRing K] in
theorem Within.full : Within cap rate start 0 cap time := .inl ⟨rfl, le_rfl⟩

theorem Within.wait (h : Within cap rate start n level time) (htime : time ≤ time') (hcap : level' ≤ cap)
    (hgain : level' ≤ level + rate * (time' - time)) : Within cap rate start n level' time' := by
  obtain ⟨hn, -⟩ | ⟨hstart, hle⟩ := h
  · exact .inl ⟨hn, hcap⟩
  · refine .inr ⟨hstart.trans htime, ?_⟩
    calc (n : K) + level' ≤ n + (level + rate * (time' - time)) := by gcongr
      _ = n + level + rate * (time' - time) := by ring
      _ ≤ cap + rate * (time - start) + rate * (time' - time) := by gcongr
      _ = cap + rate * (time' - start) := by ring

theorem Within.take (hrate : 0 ≤ rate) (h : Within cap rate start n level time) (hstart : start ≤ time) :
    Within cap rate start (n + 1) (level - 1) time := by
  refine .inr ⟨hstart, ?_⟩
  rw [Nat.cast_add_one, add_assoc, add_sub_cancel]
  obtain ⟨rfl, hcap⟩ | ⟨-, hle⟩ := h
  · have hgain : 0 ≤ rate * (time - start) := mul_nonneg hrate (sub_nonneg.2 hstart)
    rw [Nat.cast_zero, zero_add]
    linarith
  · exact hle

omit [IsStrictOrderedRing K] in
theorem Within.early (h : Within cap rate start n level time) (hstart : time < start) (hlevel : level' ≤ level) :
    Within cap rate start n level' time := by
  obtain ⟨hn, hcap⟩ | ⟨hle, -⟩ := h
  · exact .inl ⟨hn, hlevel.trans hcap⟩
  · exact absurd hle (not_le.2 hstart)

theorem Within.le (hcap : 0 ≤ cap) (hrate : 0 ≤ rate) (h : Within cap rate start n level time) (hlevel : 0 ≤ level) (htime : time ≤ stop)
    (hstop : start ≤ stop) : (n : K) ≤ cap + rate * (stop - start) := by
  obtain ⟨rfl, -⟩ | ⟨-, hle⟩ := h
  · rw [Nat.cast_zero]
    exact add_nonneg hcap (mul_nonneg hrate (sub_nonneg.2 hstop))
  · calc (n : K) ≤ n + level := le_add_of_nonneg_right hlevel
      _ ≤ cap + rate * (time - start) := hle
      _ ≤ cap + rate * (stop - start) := by gcongr

end Budget
