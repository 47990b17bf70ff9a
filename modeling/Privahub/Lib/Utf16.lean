import Privahub.Lib.Ascii

/-!
# Strings as JavaScript has them

A string is a list of UTF-16 code units; `toUtf8` is what is left of it after a transfer as JSON text, where a surrogate without its other half
becomes the replacement character. An ASCII text is the same on both sides (`toUtf8_ofBytes`).
-/

abbrev Utf16 := List UInt16

namespace Utf16

def ofBytes (s : Bytes) : Utf16 := s.map UInt8.toUInt16

/-- `String(n)` of an integer. -/
def ofInt (n : Int) : Utf16 := ofBytes (Bytes.itoa n)

def isSpace (c : UInt16) : Bool :=
  let r := c.toNat
  (9 ≤ r && r ≤ 13) || r == 32 || r == 0xA0 || r == 0x1680 || (0x2000 ≤ r && r ≤ 0x200A) || r == 0x2028 || r == 0x2029 || r == 0x202F ||
    r == 0x205F || r == 0x3000 || r == 0xFEFF

def trim (s : Utf16) : Utf16 := ((s.dropWhile isSpace).reverse.dropWhile isSpace).reverse

def isDigit (c : UInt16) : Bool := 48 ≤ c && c ≤ 57

def digitsVal (ds : Utf16) : Nat := ds.foldl (fun n c => n * 10 + (c.toNat - 48)) 0

def isHigh (c : UInt16) : Bool := 0xD800 ≤ c && c ≤ 0xDBFF

def isLow (c : UInt16) : Bool := 0xDC00 ≤ c && c ≤ 0xDFFF

def toUtf8 : Utf16 → Bytes
  | [] => []
  | [a] => Utf8.encodeRune a.toNat
  | a :: b :: t =>
    if isHigh a && isLow b then Utf8.encodeRune (0x10000 + (a.toNat - 0xD800) * 0x400 + (b.toNat - 0xDC00)) ++ toUtf8 t
    else Utf8.encodeRune a.toNat ++ toUtf8 (b :: t)

variable {s : Bytes}

theorem ofBytes_append (s t : Bytes) : ofBytes (s ++ t) = ofBytes s ++ ofBytes t := List.map_append

theorem ofBytes_injective : Function.Injective ofBytes :=
  List.map_injective_iff.2 fun a b h => UInt8.toNat_inj.1 (by simpa using congrArg UInt16.toNat h)

theorem toUtf8_ofBytes (h : Utf8.IsAscii s) : toUtf8 (ofBytes s) = s := by
  have hone : ∀ b : UInt8, b.toNat < 128 → Utf8.encodeRune b.toUInt16.toNat = [b] := by
    intro b hb
    rw [UInt8.toNat_toUInt16, Utf8.encodeRune, if_pos hb, UInt8.ofNat_toNat]
  have hhigh : ∀ b : UInt8, isHigh b.toUInt16 = false := by
    intro b
    have hb := b.toNat_lt
    have : (0xD800 : UInt16).toNat = 0xD800 := rfl
    simp only [isHigh, Bool.and_eq_false_iff, decide_eq_false_iff_not, UInt16.le_iff_toNat_le, UInt8.toNat_toUInt16]
    omega
  induction s with
  | nil => rfl
  | cons a s ih =>
    have ha := hone a (h a (List.mem_cons_self ..))
    cases s with
    | nil => exact ha
    | cons b s =>
      have hrest := ih fun c hc => h c (List.mem_cons_of_mem _ hc)
      show toUtf8 (a.toUInt16 :: b.toUInt16 :: ofBytes s) = _
      rw [toUtf8, hhigh, Bool.false_and, if_neg Bool.false_ne_true, ha]
      exact congrArg (a :: ·) hrest

end Utf16
