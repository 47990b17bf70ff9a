import Mathlib.Data.List.Basic
import Mathlib.Data.List.Infix
import Mathlib.Data.List.TakeWhile
import Mathlib.Tactic.Common
import Mathlib.Tactic.IntervalCases

/-!
# Byte strings

A string is a list of bytes, compared byte for byte; nothing says it is valid UTF-8.
`itoa` is decimal formatting, `lenPrefixJoin` the self-delimiting join `<length>:<content>` of a
list of strings, injective for every content of the fields (`lenPrefixJoin_injective`).
-/

abbrev Bytes := List UInt8

def str (s : String) : Bytes := s.toByteArray.data.toList

namespace Bytes

/-- A property of the bytes of a string is decided byte by byte, not value by value. -/
instance (priority := high) decidableBAll {p : UInt8 → Prop} [DecidablePred p] (s : Bytes) : Decidable (∀ b ∈ s, p b) := List.decidableBAll p s

instance lawfulBEq : LawfulBEq Bytes := inferInstance

instance pair_lawfulBEq : LawfulBEq (Bytes × Bytes) := inferInstance

def charByte (c : Char) : UInt8 := UInt8.ofNat c.toNat

def digits (n : Nat) : Bytes := (Nat.toDigits 10 n).map charByte

def itoa : Int → Bytes
  | .ofNat n => digits n
  | .negSucc n => 45 :: digits (n + 1)

def isDigit (b : UInt8) : Bool := 48 ≤ b && b ≤ 57

theorem toNat_of_isDigit {c : Char} (h : c.isDigit) : 48 ≤ c.toNat ∧ c.toNat ≤ 57 := by
  simp only [Char.isDigit, Bool.and_eq_true, decide_eq_true_eq, ge_iff_le] at h
  exact ⟨UInt32.le_iff_toNat_le.1 h.1, UInt32.le_iff_toNat_le.1 h.2⟩

theorem charByte_toNat {c : Char} (h : c.isDigit) : (charByte c).toNat = c.toNat := by
  have := toNat_of_isDigit h
  simp only [charByte, UInt8.toNat_ofNat']
  omega

theorem isDigit_charByte {c : Char} (h : c.isDigit) : isDigit (charByte c) := by
  simp only [isDigit, Bool.and_eq_true, decide_eq_true_eq, UInt8.le_iff_toNat_le, charByte_toNat h]
  exact toNat_of_isDigit h

theorem isDigit_of_mem_digits {n : Nat} {b : UInt8} (h : b ∈ digits n) : isDigit b := by
  obtain ⟨c, hc, rfl⟩ := List.mem_map.1 h
  exact isDigit_charByte (Nat.isDigit_of_mem_toDigits (by decide) (by decide) hc)

theorem digits_ne_nil (n : Nat) : digits n ≠ [] := by
  simp [digits, Nat.toDigits_ne_nil]

theorem digits_of_lt {n : Nat} (h : n < 10) : digits n = [UInt8.ofNat (48 + n)] := by
  rw [digits, Nat.toDigits_of_lt_base h]
  interval_cases n <;> rfl

theorem digits_of_ge {n : Nat} (h : 10 ≤ n) : digits n = digits (n / 10) ++ [UInt8.ofNat (48 + n % 10)] := by
  have hd : ∀ k < 10, charByte (Nat.digitChar k) = UInt8.ofNat (48 + k) := by decide
  rw [digits, Nat.toDigits_of_base_le (by decide) h, List.map_append, List.map_singleton, hd _ (Nat.mod_lt _ (by decide))]
  rfl

theorem digits_cons {n : Nat} (h : 0 < n) : ∃ d ds, digits n = d :: ds ∧ isDigit d ∧ d ≠ 48 := by
  induction n using Nat.strongRecOn with
  | ind n ih =>
    rcases Nat.lt_or_ge n 10 with hlt | hge
    · refine ⟨_, [], digits_of_lt hlt, ?_⟩
      interval_cases n <;> decide
    · obtain ⟨d, ds, hd, h1, h2⟩ := ih (n / 10) (by omega) (by omega)
      exact ⟨d, _, by rw [digits_of_ge hge, hd]; rfl, h1, h2⟩

theorem length_digits_le {n k : Nat} (hk : 0 < k) (h : n < 10 ^ k) : (digits n).length ≤ k := by
  rw [digits, List.length_map]
  exact (Nat.length_toDigits_le_iff (by decide) hk).2 h

theorem length_itoa_le {n : Int} (h1 : -2 ^ 63 ≤ n) (h2 : n < 2 ^ 63) : (itoa n).length ≤ 20 := by
  cases n with
  | ofNat n =>
    have : (n : Int) < 2 ^ 63 := h2
    exact length_digits_le (by decide) (by omega)
  | negSucc n =>
    have h3 : (digits (n + 1)).length ≤ 19 := length_digits_le (by decide) (by omega)
    simp only [itoa, List.length_cons]; omega

theorem digits_injective : Function.Injective digits := by
  intro m n h
  have hinv : ∀ k, (digits k).map (fun b => Char.ofNat b.toNat) = Nat.toDigits 10 k := by
    intro k
    rw [digits, List.map_map]
    conv_rhs => rw [← List.map_id (Nat.toDigits 10 k)]
    refine List.map_congr_left fun c hc => ?_
    simp only [Function.comp_apply, id_eq,
      charByte_toNat (Nat.isDigit_of_mem_toDigits (by decide) (by decide) hc), Char.ofNat_toNat]
  have := congrArg (List.map fun b => Char.ofNat b.toNat) h
  rw [hinv, hinv] at this
  rw [← Nat.ofDigitChars_ten_toDigits (n := m), this, Nat.ofDigitChars_ten_toDigits]

theorem itoa_injective : Function.Injective itoa := by
  have hneg : ∀ n l, (45 : UInt8) :: l ≠ digits n := fun n l h => by
    have := isDigit_of_mem_digits (n := n) (b := 45) (h ▸ List.mem_cons_self ..)
    simp [isDigit] at this
  intro a b h
  match a, b with
  | .ofNat m, .ofNat n => exact congrArg _ (digits_injective h)
  | .ofNat m, .negSucc n => exact absurd h.symm (hneg _ _)
  | .negSucc m, .ofNat n => exact absurd h (hneg _ _)
  | .negSucc m, .negSucc n =>
    have := digits_injective (List.cons.inj h).2
    rw [Nat.succ.inj this]

def linesFrom : Bytes → Bytes → List Bytes
  | acc, [] => if acc = [] then [] else [acc.reverse]
  | acc, b :: t => if b = 10 then acc.reverse :: linesFrom [] t else linesFrom (b :: acc) t

def dropCR (l : Bytes) : Bytes := if l.getLast? = some 13 then l.dropLast else l

/-- The lines a `bufio.Scanner` with a buffer of at most `max` bytes returns before it stops. -/
def scanLines (max : Nat) (s : Bytes) : List Bytes := ((linesFrom [] s).takeWhile fun l => l.length < max).map dropCR

theorem linesFrom_break {line : Bytes} (h : 10 ∉ line) (acc t : Bytes) :
    linesFrom acc (line ++ 10 :: t) = (acc.reverse ++ line) :: linesFrom [] t := by
  induction line generalizing acc with
  | nil => simp [linesFrom]
  | cons b line ih =>
    have hb : b ≠ 10 := fun hb => h (hb ▸ List.mem_cons_self)
    rw [List.cons_append, linesFrom, if_neg hb, ih fun hm => h (List.mem_cons_of_mem _ hm)]
    simp

theorem linesFrom_lines {ls : List Bytes} (h : ∀ l ∈ ls, 10 ∉ l) (t : Bytes) :
    linesFrom [] ((ls.flatMap fun l => l ++ [10]) ++ t) = ls ++ linesFrom [] t := by
  induction ls with
  | nil => rfl
  | cons l ls ih =>
    rw [List.flatMap_cons, List.append_assoc, List.append_assoc]
    exact (linesFrom_break (h l List.mem_cons_self) [] _).trans (congrArg _ (ih fun m hm => h m (List.mem_cons_of_mem _ hm)))

/-- `filepath.Base`. -/
def fileBase (p : Bytes) : Bytes :=
  if p = [] then [46]
  else
    let q := (p.reverse.dropWhile (· == 47)).takeWhile (· != 47)
    if q = [] then [47] else q.reverse

/-- `<byte length>:<content>`. -/
def lenPrefix (f : Bytes) : Bytes := digits f.length ++ 58 :: f

def lenPrefixJoin (fields : List Bytes) : Bytes := fields.flatMap lenPrefix

theorem lenPrefix_ne_nil (f : Bytes) : lenPrefix f ≠ [] := by simp [lenPrefix]

theorem lenPrefix_append_inj {f g r s : Bytes} (h : lenPrefix f ++ r = lenPrefix g ++ s) :
    f = g ∧ r = s := by
  have hcolon : ∀ n, (58 : UInt8) ∉ digits n := fun n hm => by
    have := isDigit_of_mem_digits hm
    simp [isDigit] at this
  simp only [lenPrefix, List.append_assoc, List.cons_append] at h
  have hsplit : ∀ {a b x y : Bytes}, 58 ∉ a → 58 ∉ b → a ++ 58 :: x = b ++ 58 :: y → a = b ∧ x = y := by
    intro a b x y ha hb he
    induction a generalizing b with
    | nil =>
      cases b with
      | nil => simpa using he
      | cons c b => simp only [List.nil_append, List.cons_append, List.cons.injEq] at he
                    exact absurd (he.1 ▸ List.mem_cons_self ..) hb
    | cons c a ih =>
      cases b with
      | nil => simp only [List.nil_append, List.cons_append, List.cons.injEq] at he
               exact absurd (he.1 ▸ List.mem_cons_self ..) ha
      | cons d b =>
        simp only [List.cons_append, List.cons.injEq] at he
        obtain ⟨rfl, hx⟩ := ih (fun hm => ha (.tail _ hm)) (fun hm => hb (.tail _ hm)) he.2
        exact ⟨by rw [he.1], hx⟩
  obtain ⟨hd, hfr⟩ := hsplit (hcolon _) (hcolon _) h
  exact List.append_inj hfr (digits_injective hd)

theorem lenPrefixJoin_injective : Function.Injective lenPrefixJoin := by
  intro fs gs h
  induction fs generalizing gs with
  | nil =>
    cases gs with
    | nil => rfl
    | cons g gs => exact absurd h.symm (by simp [lenPrefixJoin, lenPrefix_ne_nil])
  | cons f fs ih =>
    cases gs with
    | nil => exact absurd h (by simp [lenPrefixJoin, lenPrefix_ne_nil])
    | cons g gs =>
      simp only [lenPrefixJoin, List.flatMap_cons] at h
      obtain ⟨rfl, hrest⟩ := lenPrefix_append_inj h
      rw [ih hrest]

end Bytes
