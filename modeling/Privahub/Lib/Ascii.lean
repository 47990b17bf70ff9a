import Privahub.Lib.Fields

/-!
# ASCII texts

The runes of an ASCII text are its bytes, so that trimming leaves a text alone that neither begins nor ends with white space (`trimSpace_ascii`) and
the words of a text are read off it (`fields_cons`).
-/

namespace Bytes

def twoDigits (n : Nat) : Bytes := [UInt8.ofNat (48 + n / 10), UInt8.ofNat (48 + n % 10)]

theorem twoDigits_injective {m n : Nat} (hm : m < 100) (hn : n < 100) (h : twoDigits m = twoDigits n) : m = n := by
  have hten : ∀ i j, i < 10 → j < 10 → UInt8.ofNat (48 + i) = UInt8.ofNat (48 + j) → i = j := by
    intro i j hi hj h
    have := congrArg UInt8.toNat h
    rw [Utf8.toNat_ofNat (by omega), Utf8.toNat_ofNat (by omega)] at this
    omega
  obtain ⟨h1, h2⟩ := List.cons.inj h
  have h3 := hten _ _ (by omega) (by omega) h1
  have h4 := hten _ _ (by omega) (by omega) (List.cons.inj h2).1
  omega

theorem isDigit_ofNat {n : Nat} (h : n < 10) : isDigit (UInt8.ofNat (48 + n)) = true := by
  interval_cases n <;> rfl

theorem isDigit_twoDigits {n : Nat} (h : n < 100) : ∀ b ∈ twoDigits n, isDigit b = true := by
  intro b hb
  rcases List.mem_cons.1 hb with rfl | hb
  · exact isDigit_ofNat (by omega)
  · rw [List.mem_singleton.1 hb]
    exact isDigit_ofNat (by omega)

end Bytes

namespace Utf8

open Bytes (twoDigits)

def IsAscii (s : Bytes) : Prop := ∀ b ∈ s, b.toNat < 128

instance (s : Bytes) : Decidable (IsAscii s) := inferInstanceAs (Decidable (∀ b ∈ s, b.toNat < 128))

def isSpaceByte (b : UInt8) : Bool := isSpaceRune b.toNat

def IsWord (s : Bytes) : Prop := ∀ b ∈ s, b.toNat < 128 ∧ isSpaceByte b = false

instance (s : Bytes) : Decidable (IsWord s) := inferInstanceAs (Decidable (∀ b ∈ s, b.toNat < 128 ∧ isSpaceByte b = false))

variable {s t w : Bytes}

theorem IsAscii.append (hs : IsAscii s) (ht : IsAscii t) : IsAscii (s ++ t) := by
  intro b hb
  rcases List.mem_append.1 hb with hb | hb
  · exact hs b hb
  · exact ht b hb

theorem isAscii_cons {b : UInt8} (hb : b.toNat < 128) (hs : IsAscii s) : IsAscii (b :: s) := by
  intro c hc
  rcases List.mem_cons.1 hc with rfl | hc
  · exact hb
  · exact hs c hc

theorem isAscii_intercalate {l : List Bytes} (ht : IsAscii t) (h : ∀ s ∈ l, IsAscii s) : IsAscii (t.intercalate l) := by
  induction l with
  | nil => exact nofun
  | cons x l ih =>
    cases l with
    | nil => simpa using h x List.mem_cons_self
    | cons y l =>
      rw [List.intercalate_cons_cons]
      exact ((h x List.mem_cons_self).append ht).append (ih fun s hs => h s (List.mem_cons_of_mem _ hs))

theorem IsWord.isAscii (h : IsWord s) : IsAscii s := fun b hb => (h b hb).1

theorem isWord_of_isDigit (hs : ∀ b ∈ s, Bytes.isDigit b = true) : IsWord s := by
  intro b hb
  have h := hs b hb
  have h57 : (57 : UInt8).toNat = 57 := rfl
  have h48 : (48 : UInt8).toNat = 48 := rfl
  simp only [Bytes.isDigit, Bool.and_eq_true, decide_eq_true_eq, UInt8.le_iff_toNat_le] at h
  have hall : ∀ r, 48 ≤ r → r ≤ 57 → isSpaceRune r = false := by
    intro r h1 h2
    interval_cases r <;> rfl
  exact ⟨by omega, hall _ (by omega) (by omega)⟩

theorem isWord_digits (n : Nat) : IsWord (Bytes.digits n) := isWord_of_isDigit fun _ => Bytes.isDigit_of_mem_digits

theorem isWord_twoDigits {n : Nat} (h : n < 100) : IsWord (twoDigits n) := isWord_of_isDigit (Bytes.isDigit_twoDigits h)

theorem isWord_itoa (n : Int) : IsWord (Bytes.itoa n) := by
  cases n with
  | ofNat n => exact isWord_digits n
  | negSucc n =>
    intro b hb
    rcases List.mem_cons.1 hb with rfl | hb
    · exact ⟨by decide, rfl⟩
    · exact isWord_digits _ b hb

theorem runes_append_ascii (hs : IsAscii s) (t : Bytes) : runes (s ++ t) = s.map (fun b => (b.toNat, [b])) ++ runes t := by
  induction s with
  | nil => rfl
  | cons b s ih =>
    rw [List.cons_append, runes_ascii_cons _ (hs b List.mem_cons_self), ih fun c hc => hs c (List.mem_cons_of_mem _ hc)]
    rfl

theorem runes_ascii (hs : IsAscii s) : runes s = s.map fun b => (b.toNat, [b]) := by
  have h := runes_append_ascii hs []
  rw [List.append_nil] at h
  exact h.trans (List.append_nil _)

theorem trimSpace_ascii (hs : IsAscii s) (hhead : ∀ b ∈ s.head?, isSpaceByte b = false) (hlast : ∀ b ∈ s.getLast?, isSpaceByte b = false) :
    trimSpace s = s := by
  have hdrop : ∀ l : Bytes, (∀ b ∈ l.head?, isSpaceByte b = false) →
      (l.map fun b => (b.toNat, [b])).dropWhile (fun r : Nat × Bytes => isSpaceRune r.1) = l.map fun b => (b.toNat, [b]) := by
    intro l hl
    cases l with
    | nil => rfl
    | cons b l =>
      rw [List.map_cons, List.dropWhile_cons_of_neg]
      exact Bool.eq_false_iff.1 (hl b rfl)
  rw [trimSpace, runes_ascii hs]
  rw [hdrop s hhead, ← List.map_reverse, hdrop, ← List.map_reverse, List.reverse_reverse, List.flatMap_map]
  · exact List.flatMap_singleton' s
  · rwa [List.head?_reverse]

theorem trimSpace_word (hs : IsWord s) : trimSpace s = s :=
  trimSpace_ascii hs.isAscii (fun b hb => (hs b (List.mem_of_mem_head? hb)).2) fun b hb => (hs b (List.mem_of_mem_getLast? hb)).2

theorem wordsFrom_word {α : Type} {p : α → Bool} {w : List α} (hw : ∀ a ∈ w, p a = false) (cur l : List α) :
    wordsFrom p cur (w ++ l) = wordsFrom p (cur ++ w) l := by
  induction w generalizing cur with
  | nil => rw [List.append_nil, List.nil_append]
  | cons a w ih =>
    rw [List.cons_append, wordsFrom, if_neg (Bool.eq_false_iff.1 (hw a List.mem_cons_self)), ih fun b hb => hw b (List.mem_cons_of_mem _ hb),
      List.append_assoc, List.singleton_append]

theorem fields_cons (hw : IsWord w) (hne : w ≠ []) (s : Bytes) : fields (w ++ 32 :: s) = w :: fields s := by
  have hpart : ∀ r ∈ w.map (fun b => (b.toNat, [b])), isSpacePart r = false := by
    intro r hr
    obtain ⟨b, hb, rfl⟩ := List.mem_map.1 hr
    exact (hw b hb).2
  rw [fields, runes_append_ascii hw.isAscii, wordsFrom_word hpart, List.nil_append, runes_ascii_cons s (by decide), wordsFrom,
    if_pos (show isSpacePart (UInt8.toNat 32, [32]) = true from rfl), if_neg]
  · rw [List.singleton_append, List.map_cons, List.flatMap_map]
    exact congrArg (· :: fields s) (List.flatMap_singleton' w)
  · simpa using hne

end Utf8
