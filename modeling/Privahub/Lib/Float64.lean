import Mathlib

/-!
# Integers as binary64 numbers

What becomes of an integer that is read into a float and written again: `nearest` rounds it to 53 bits, `shortest` writes the fewest digits that are
read back as the same float, and zeros after them. Nothing is lost below `2 ^ 53` (`viaFloat_eq`).
-/

namespace Float64

/-- The distance of the floats from `a` on, for `2 ^ 52 ≤ a`. -/
def ulp (a : Nat) : Nat := 2 ^ (a.size - 53)

/-- The float nearest to `a`, the even one of two. -/
def nearest (a : Nat) : Nat :=
  let q := a / ulp a
  let r := a % ulp a
  if 2 * r < ulp a ∨ (2 * r = ulp a ∧ q % 2 = 0) then q * ulp a else (q + 1) * ulp a

/-- Whether `d` is read as the float `v`: it is no further from `v` than the half of the way to the next float, and nearer than that if the mantissa
is odd. Below a power of two the floats are closer to each other. -/
def ReadAs (v d : Nat) : Prop :=
  let lo := if v / ulp v = 2 ^ 52 then 4 * v - ulp v else 4 * v - 2 * ulp v
  let hi := 4 * v + 2 * ulp v
  (lo < 4 * d ∨ (lo = 4 * d ∧ v / ulp v % 2 = 0)) ∧ (4 * d < hi ∨ (4 * d = hi ∧ v / ulp v % 2 = 0))

instance (v d : Nat) : Decidable (ReadAs v d) := inferInstanceAs (Decidable ((_ ∨ _) ∧ (_ ∨ _)))

/-- `v` rounded to a multiple of `10 ^ k`, to an even one if both are as near, or the other way if only that is read as `v`. -/
def rounded (v k : Nat) : Option Nat :=
  let down := v / 10 ^ k * 10 ^ k
  let up := down + 10 ^ k
  if ReadAs v down ∧ ReadAs v up then
    some (if 2 * (v - down) < 10 ^ k ∨ (2 * (v - down) = 10 ^ k ∧ v / 10 ^ k % 2 = 0) then down else up)
  else if ReadAs v down then some down else if ReadAs v up then some up else none

/-- The digits that `strconv.FormatFloat(v, 'f', -1, 64)` writes, as a number. Below `2 ^ 53` the floats next to an integer are at most one away, so
that its digits are its own. -/
def shortest (v : Nat) : Nat :=
  if v.size ≤ 53 then v else (((List.range 20).reverse).findSome? (rounded v)).getD v

def viaFloat (n : Int) : Int := if n < 0 then -(shortest (nearest n.natAbs)) else shortest (nearest n.natAbs)

variable {a : Nat} {n : Int}

theorem nearest_eq (h : a < 2 ^ 53) : nearest a = a := by
  have hulp : ulp a = 1 := by
    have hsize : a.size ≤ 53 := Nat.size_le.2 h
    rw [ulp, Nat.sub_eq_zero_of_le hsize, Nat.pow_zero]
  have hq : a / ulp a = a := by rw [hulp, Nat.div_one]
  have hr : a % ulp a = 0 := by rw [hulp, Nat.mod_one]
  have hlt : 2 * (a % ulp a) < ulp a := by rw [hr, hulp]; omega
  show (if _ then _ else _) = a
  rw [if_pos (Or.inl hlt), hq, hulp, Nat.mul_one]

theorem viaFloat_eq (h1 : -2 ^ 53 < n) (h2 : n < 2 ^ 53) : viaFloat n = n := by
  have habs : n.natAbs < 2 ^ 53 := by omega
  have hshort : shortest n.natAbs = n.natAbs := if_pos (Nat.size_le.2 habs)
  rw [viaFloat, nearest_eq habs, hshort]
  split_ifs <;> omega

/-- An odd integer beyond `2 ^ 53`, and a power of two that has fewer digits than it needs. -/
example : viaFloat (2 ^ 53 + 1) = 2 ^ 53 ∧ viaFloat (2 ^ 60) = 1152921504606847000 ∧ viaFloat 1152921504606847000 = 1152921504606847000 := by
  decide +kernel

end Float64
