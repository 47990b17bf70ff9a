import Privahub.Lib.Bytes

/-!
# Hexadecimal texts

`encoding/hex`: bytes are written with lowercase digits, and read with digits of either case (`decode_encode`).
-/

namespace Hex

/-- Digit `n`, below 16. -/
def digit (n : Nat) : UInt8 := UInt8.ofNat (if n < 10 then 48 + n else 87 + n)

def value (b : UInt8) : Option Nat :=
  if 48 ≤ b ∧ b ≤ 57 then some (b.toNat - 48)
  else if 97 ≤ b ∧ b ≤ 102 then some (b.toNat - 87)
  else if 65 ≤ b ∧ b ≤ 70 then some (b.toNat - 55)
  else none

/-- `hex.EncodeToString`. -/
def encode (s : Bytes) : Bytes := s.flatMap fun b => [digit (b.toNat / 16), digit (b.toNat % 16)]

/-- `hex.DecodeString`. -/
def decode : Bytes → Option Bytes
  | [] => some []
  | [_] => none
  | a :: b :: s => (value a).bind fun x => (value b).bind fun y => (decode s).map (UInt8.ofNat (16 * x + y) :: ·)

theorem value_digit : ∀ n < 16, value (digit n) = some n := by decide

theorem digit_ne_colon : ∀ n < 16, digit n ≠ 58 := by decide

theorem decode_encode (s : Bytes) : decode (encode s) = some s := by
  induction s with
  | nil => rfl
  | cons b s ih =>
    have hb := b.toNat_lt
    show decode (digit (b.toNat / 16) :: digit (b.toNat % 16) :: encode s) = some (b :: s)
    rw [decode, value_digit _ (by omega), value_digit _ (by omega), ih]
    show some (UInt8.ofNat (16 * (b.toNat / 16) + b.toNat % 16) :: s) = some (b :: s)
    rw [Nat.div_add_mod, UInt8.ofNat_toNat]

theorem colon_notMem_encode (s : Bytes) : 58 ∉ encode s := by
  intro h
  obtain ⟨b, -, hb⟩ := List.mem_flatMap.1 h
  have hlt := b.toNat_lt
  obtain hb | hb := List.mem_cons.1 hb
  · exact digit_ne_colon _ (by omega) hb.symm
  · exact digit_ne_colon _ (by omega) (List.mem_singleton.1 hb).symm

end Hex
