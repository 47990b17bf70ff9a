import Privahub.Lib.Bytes

/-!
# Base64

The standard alphabet with padding. `encode` writes three bytes as four characters; `decode` skips line breaks and does not look at the bits that the
last character has too many, as Go's `StdEncoding` does, and reads back what was written (`decode_encode`).
-/

namespace Base64

def alphabet : Bytes := str "ABCDEFGHIJKLMNOPQRSTUVWXYZabcdefghijklmnopqrstuvwxyz0123456789+/"

def charOf (n : Nat) : UInt8 := alphabet.getD n 61

def valueOf (b : UInt8) : Option Nat :=
  if 65 ≤ b ∧ b ≤ 90 then some (b.toNat - 65)
  else if 97 ≤ b ∧ b ≤ 122 then some (b.toNat - 71)
  else if 48 ≤ b ∧ b ≤ 57 then some (b.toNat + 4)
  else if b = 43 then some 62
  else if b = 47 then some 63
  else none

def encode : Bytes → Bytes
  | [] => []
  | [a] => [charOf (a.toNat / 4), charOf (a.toNat % 4 * 16), 61, 61]
  | [a, b] => [charOf (a.toNat / 4), charOf (a.toNat % 4 * 16 + b.toNat / 16), charOf (b.toNat % 16 * 4), 61]
  | a :: b :: c :: t =>
    charOf (a.toNat / 4) :: charOf (a.toNat % 4 * 16 + b.toNat / 16) :: charOf (b.toNat % 16 * 4 + c.toNat / 64) :: charOf (c.toNat % 64) :: encode t

def byte1 (v w : Nat) : UInt8 := UInt8.ofNat (v * 4 + w / 16)
def byte2 (w x : Nat) : UInt8 := UInt8.ofNat (w % 16 * 16 + x / 4)
def byte3 (x y : Nat) : UInt8 := UInt8.ofNat (x % 4 * 64 + y)

/-- Groups of four characters, the last of them padded with `=`. -/
def decodeGroups : Bytes → Option Bytes
  | [] => some []
  | a :: b :: c :: d :: t => do
    let v ← valueOf a
    let w ← valueOf b
    if c = 61 ∧ d = 61 ∧ t = [] then return [byte1 v w]
    let x ← valueOf c
    if d = 61 ∧ t = [] then return [byte1 v w, byte2 w x]
    let y ← valueOf d
    return byte1 v w :: byte2 w x :: byte3 x y :: (← decodeGroups t)
  | _ => none

def decode (s : Bytes) : Option Bytes := decodeGroups (s.filter fun b => b ≠ 10 ∧ b ≠ 13)

theorem charOf_facts : ∀ n < 64, valueOf (charOf n) = some n ∧ charOf n ≠ 61 ∧ charOf n ≠ 10 ∧ charOf n ≠ 13 := by decide +kernel

variable {n v w x y : Nat} {s : Bytes}

theorem valueOf_charOf (h : n < 64) : valueOf (charOf n) = some n := (charOf_facts n h).1

theorem charOf_ne (h : n < 64) : charOf n ≠ 61 := (charOf_facts n h).2.1

theorem ofNat_toNat {b : UInt8} {n : Nat} (h : n = b.toNat) : UInt8.ofNat n = b := by rw [h, UInt8.ofNat_toNat]

theorem decodeGroups_encode : ∀ s : Bytes, decodeGroups (encode s) = some s
  | [] => rfl
  | [a] => by
    have ha := a.toNat_lt
    have h1 : byte1 (a.toNat / 4) (a.toNat % 4 * 16) = a := ofNat_toNat (by omega)
    rw [encode, decodeGroups, valueOf_charOf (by omega), valueOf_charOf (by omega)]
    simp [h1]
  | [a, b] => by
    have ha := a.toNat_lt
    have hb := b.toNat_lt
    have h1 : byte1 (a.toNat / 4) (a.toNat % 4 * 16 + b.toNat / 16) = a := ofNat_toNat (by omega)
    have h2 : byte2 (a.toNat % 4 * 16 + b.toNat / 16) (b.toNat % 16 * 4) = b := ofNat_toNat (by omega)
    rw [encode, decodeGroups, valueOf_charOf (by omega), valueOf_charOf (by omega), valueOf_charOf (by omega)]
    simp [charOf_ne (show b.toNat % 16 * 4 < 64 by omega), h1, h2]
  | a :: b :: c :: t => by
    have ha := a.toNat_lt
    have hb := b.toNat_lt
    have hc := c.toNat_lt
    have h1 : byte1 (a.toNat / 4) (a.toNat % 4 * 16 + b.toNat / 16) = a := ofNat_toNat (by omega)
    have h2 : byte2 (a.toNat % 4 * 16 + b.toNat / 16) (b.toNat % 16 * 4 + c.toNat / 64) = b := ofNat_toNat (by omega)
    have h3 : byte3 (b.toNat % 16 * 4 + c.toNat / 64) (c.toNat % 64) = c := ofNat_toNat (by omega)
    rw [encode, decodeGroups, valueOf_charOf (by omega), valueOf_charOf (by omega), valueOf_charOf (by omega), valueOf_charOf (by omega),
      decodeGroups_encode t]
    simp [charOf_ne (show b.toNat % 16 * 4 + c.toNat / 64 < 64 by omega), charOf_ne (show c.toNat % 64 < 64 by omega), h1, h2, h3]

theorem no_break : ∀ s : Bytes, ∀ b ∈ encode s, b ≠ 10 ∧ b ≠ 13 := by
  have hchar : ∀ n, n < 64 → charOf n ≠ 10 ∧ charOf n ≠ 13 := fun n hn => (charOf_facts n hn).2.2
  intro s
  induction s using encode.induct with
  | case1 => exact fun b hb => absurd hb List.not_mem_nil
  | case2 a =>
    have ha := a.toNat_lt
    simp [encode, hchar (a.toNat / 4) (by omega), hchar (a.toNat % 4 * 16) (by omega)]
  | case3 a b =>
    have ha := a.toNat_lt
    have hb := b.toNat_lt
    simp [encode, hchar (a.toNat / 4) (by omega), hchar (a.toNat % 4 * 16 + b.toNat / 16) (by omega), hchar (b.toNat % 16 * 4) (by omega)]
  | case4 a b c t ih =>
    have ha := a.toNat_lt
    have hb := b.toNat_lt
    have hc := c.toNat_lt
    intro x hx
    rw [encode] at hx
    rcases List.mem_cons.1 hx with rfl | hx
    · exact hchar _ (by omega)
    rcases List.mem_cons.1 hx with rfl | hx
    · exact hchar _ (by omega)
    rcases List.mem_cons.1 hx with rfl | hx
    · exact hchar _ (by omega)
    rcases List.mem_cons.1 hx with rfl | hx
    · exact hchar _ (by omega)
    · exact ih x hx

theorem decode_encode (s : Bytes) : decode (encode s) = some s := by
  have hfilter : (encode s).filter (fun b => b ≠ 10 ∧ b ≠ 13) = encode s :=
    List.filter_eq_self.2 fun b hb => decide_eq_true (no_break s b hb)
  rw [decode, hfilter, decodeGroups_encode]

theorem encode_ne_nil (h : s ≠ []) : encode s ≠ [] := by
  cases s using encode.fun_cases with
  | case1 => exact absurd rfl h
  | _ => exact List.cons_ne_nil _ _

end Base64
