import Privahub.Lib.Utf8

/-!
# Unicode case tables

The tables themselves are a parameter; what a program relies on is what they say of ASCII, and that
the orbits of simple folding stay within Unicode and leave the underscore alone. `asciiCase` knows
ASCII only.
-/

structure CaseTables where
  isUpper : Nat → Bool
  toLower : Nat → Nat
  toUpper : Nat → Nat
  simpleFold : Nat → Nat
  isUpper_ascii : ∀ r < 128, isUpper r = (decide (65 ≤ r) && decide (r ≤ 90))
  toLower_ascii : ∀ r < 128, toLower r = if 65 ≤ r ∧ r ≤ 90 then r + 32 else r
  simpleFold_le : ∀ r, simpleFold r ≤ max r 0x10FFFF
  simpleFold_underscore : ∀ r, simpleFold r = 95 ↔ r = 95

namespace CaseTables

def asciiCase : CaseTables where
  isUpper r := decide (65 ≤ r) && decide (r ≤ 90)
  toLower r := if 65 ≤ r ∧ r ≤ 90 then r + 32 else r
  toUpper r := if 97 ≤ r ∧ r ≤ 122 then r - 32 else r
  simpleFold r := if 65 ≤ r ∧ r ≤ 90 then r + 32 else if 97 ≤ r ∧ r ≤ 122 then r - 32 else r
  isUpper_ascii _ _ := rfl
  toLower_ascii _ _ := rfl
  simpleFold_le r := by split_ifs <;> omega
  simpleFold_underscore r := by split_ifs <;> omega

variable (u : CaseTables)

/-- The smallest rune of the orbit of `r`. -/
def foldRune (r : Nat) : Nat :=
  if u.simpleFold r ≤ r then u.simpleFold r else foldRune (u.simpleFold r)
termination_by 0x10FFFF - r
decreasing_by have := u.simpleFold_le r; omega

theorem foldRune_underscore {r : Nat} : u.foldRune r = 95 ↔ r = 95 := by
  fun_induction foldRune u r with
  | case1 r _ => exact u.simpleFold_underscore r
  | case2 r _ ih => rw [ih, u.simpleFold_underscore]

end CaseTables
