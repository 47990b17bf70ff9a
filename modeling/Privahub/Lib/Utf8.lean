import Privahub.Lib.Bytes

/-!
# UTF-8 as Go reads it

`decodeRune` reads one code point and its width from the front of a byte string; a byte that starts
no well-formed sequence is `(runeError, 1)`. `encodeRune` is the inverse on Unicode scalar values
(`decodeRune_encodeRune`), and `runes` the sequence a `for range` loop over the string sees.
-/

namespace Utf8

def runeError : Nat := 0xFFFD

/-- A code point that UTF-8 can carry: no surrogate, at most `0x10FFFF`. -/
def IsScalar (c : Nat) : Prop := c < 0xD800 ∨ 0xDFFF < c ∧ c ≤ 0x10FFFF

instance (c : Nat) : Decidable (IsScalar c) := inferInstanceAs (Decidable (_ ∨ _))

def inRange (lo hi : Nat) (b : UInt8) : Bool := lo ≤ b.toNat && b.toNat ≤ hi

/-- The accepted second bytes after a first byte `x` of a sequence of three or four bytes. -/
def acceptRange (x : Nat) : Nat × Nat :=
  if x = 0xE0 then (0xA0, 0xBF) else if x = 0xED then (0x80, 0x9F)
  else if x = 0xF0 then (0x90, 0xBF) else if x = 0xF4 then (0x80, 0x8F) else (0x80, 0xBF)

def join (x : Nat) (bs : Bytes) : Nat := bs.foldl (fun c b => c * 64 + (b.toNat - 0x80)) x

def decodeRune : Bytes → Nat × Nat
  | [] => (runeError, 0)
  | a :: t =>
    let x := a.toNat
    if x < 0x80 then (x, 1)
    else if x < 0xC2 then (runeError, 1)
    else if x < 0xE0 then
      match t with
      | b :: _ => if inRange 0x80 0xBF b then (join (x - 0xC0) [b], 2) else (runeError, 1)
      | _ => (runeError, 1)
    else if x < 0xF0 then
      match t with
      | b :: c :: _ =>
        if inRange (acceptRange x).1 (acceptRange x).2 b && inRange 0x80 0xBF c then (join (x - 0xE0) [b, c], 3)
        else (runeError, 1)
      | _ => (runeError, 1)
    else if x < 0xF5 then
      match t with
      | b :: c :: d :: _ =>
        if inRange (acceptRange x).1 (acceptRange x).2 b && inRange 0x80 0xBF c && inRange 0x80 0xBF d then
          (join (x - 0xF0) [b, c, d], 4)
        else (runeError, 1)
      | _ => (runeError, 1)
    else (runeError, 1)

/-- The bytes of a code point, those of `runeError` when it is no scalar value. -/
def encodeRune (c : Nat) : Bytes :=
  if c < 0x80 then [UInt8.ofNat c]
  else if c < 0x800 then [UInt8.ofNat (0xC0 + c / 64), UInt8.ofNat (0x80 + c % 64)]
  else if ¬ IsScalar c then [0xEF, 0xBF, 0xBD]
  else if c < 0x10000 then
    [UInt8.ofNat (0xE0 + c / 4096), UInt8.ofNat (0x80 + c / 64 % 64), UInt8.ofNat (0x80 + c % 64)]
  else [UInt8.ofNat (0xF0 + c / 262144), UInt8.ofNat (0x80 + c / 4096 % 64),
    UInt8.ofNat (0x80 + c / 64 % 64), UInt8.ofNat (0x80 + c % 64)]

def runesFrom : Nat → Bytes → List (Nat × Bytes)
  | _, [] => []
  | k + 1, _ :: t => runesFrom k t
  | 0, b :: t =>
    let r := decodeRune (b :: t)
    (r.1, (b :: t).take r.2) :: runesFrom (r.2 - 1) t

def runes (s : Bytes) : List (Nat × Bytes) := runesFrom 0 s

def invalid (r : Nat × Bytes) : Bool := r.1 == runeError && r.2.length == 1

def validString (s : Bytes) : Bool := (runes s).all fun r => !invalid r

/-- `unicode.IsSpace`. -/
def isSpaceRune (c : Nat) : Bool :=
  (9 ≤ c && c ≤ 13) || c == 32 || c == 0x85 || c == 0xA0 || c == 0x1680 || (0x2000 ≤ c && c ≤ 0x200A) ||
    c == 0x2028 || c == 0x2029 || c == 0x202F || c == 0x205F || c == 0x3000

/-- `strings.TrimSpace`. -/
def trimSpace (s : Bytes) : Bytes :=
  let rs := (runes s).dropWhile fun r => isSpaceRune r.1
  (rs.reverse.dropWhile fun r => isSpaceRune r.1).reverse.flatMap fun r => r.2

theorem encodeRune_ne_nil (c : Nat) : encodeRune c ≠ [] := by
  unfold encodeRune; split_ifs <;> simp

theorem invalid_encodeRune (c : Nat) : invalid (c, encodeRune c) = false := by
  unfold invalid
  by_cases he : c = runeError
  · subst he; rfl
  · simp [he]

theorem toNat_ofNat {n : Nat} (h : n < 256) : (UInt8.ofNat n).toNat = n := by
  simp only [UInt8.toNat_ofNat']; omega

theorem decodeRune_one {a : UInt8} (t : Bytes) (h : a.toNat < 0x80) : decodeRune (a :: t) = (a.toNat, 1) := by
  simp [decodeRune, h]

theorem decodeRune_two {a b : UInt8} (t : Bytes) (h1 : 0xC2 ≤ a.toNat) (h2 : a.toNat < 0xE0)
    (hb : inRange 0x80 0xBF b) : decodeRune (a :: b :: t) = (join (a.toNat - 0xC0) [b], 2) := by
  rw [decodeRune, if_neg (by omega), if_neg (by omega), if_pos h2]
  simp [hb]

theorem decodeRune_three {a b c : UInt8} (t : Bytes) (h1 : 0xE0 ≤ a.toNat) (h2 : a.toNat < 0xF0)
    (hb : inRange (acceptRange a.toNat).1 (acceptRange a.toNat).2 b) (hc : inRange 0x80 0xBF c) :
    decodeRune (a :: b :: c :: t) = (join (a.toNat - 0xE0) [b, c], 3) := by
  rw [decodeRune, if_neg (by omega), if_neg (by omega), if_neg (by omega), if_pos h2]
  simp [hb, hc]

theorem decodeRune_four {a b c d : UInt8} (t : Bytes) (h1 : 0xF0 ≤ a.toNat) (h2 : a.toNat < 0xF5)
    (hb : inRange (acceptRange a.toNat).1 (acceptRange a.toNat).2 b) (hc : inRange 0x80 0xBF c)
    (hd : inRange 0x80 0xBF d) :
    decodeRune (a :: b :: c :: d :: t) = (join (a.toNat - 0xF0) [b, c, d], 4) := by
  rw [decodeRune, if_neg (by omega), if_neg (by omega), if_neg (by omega), if_neg (by omega), if_pos h2]
  simp [hb, hc, hd]

theorem inRange_ofNat {lo hi n : Nat} (h : n < 256) (h1 : lo ≤ n) (h2 : n ≤ hi) : inRange lo hi (UInt8.ofNat n) := by
  simp [inRange, toNat_ofNat h, h1, h2]

theorem decodeRune_encodeRune {c : Nat} (hc : IsScalar c) (t : Bytes) :
    decodeRune (encodeRune c ++ t) = (c, (encodeRune c).length) := by
  have hr : ¬ ¬ IsScalar c := not_not.2 hc
  unfold IsScalar at hc
  unfold encodeRune
  by_cases h1 : c < 0x80
  · rw [if_pos h1]
    have hx := toNat_ofNat (show c < 256 by omega)
    exact (decodeRune_one t (by omega)).trans (by rw [hx]; rfl)
  rw [if_neg h1]
  by_cases h2 : c < 0x800
  · rw [if_pos h2]
    have hx := toNat_ofNat (show 0xC0 + c / 64 < 256 by omega)
    have hb := toNat_ofNat (show 0x80 + c % 64 < 256 by omega)
    refine (decodeRune_two t (by omega) (by omega) (inRange_ofNat (by omega) (by omega) (by omega))).trans ?_
    simp only [join, List.foldl_cons, List.foldl_nil, hx, hb, List.length_cons, List.length_nil, Prod.mk.injEq,
      and_true]
    omega
  rw [if_neg h2, if_neg hr]
  by_cases h3 : c < 0x10000
  · rw [if_pos h3]
    have hx := toNat_ofNat (show 0xE0 + c / 4096 < 256 by omega)
    have hb := toNat_ofNat (show 0x80 + c / 64 % 64 < 256 by omega)
    have hd := toNat_ofNat (show 0x80 + c % 64 < 256 by omega)
    refine (decodeRune_three t (by omega) (by omega) ?_ (inRange_ofNat (by omega) (by omega) (by omega))).trans ?_
    · refine inRange_ofNat (by omega) ?_ ?_ <;> rw [hx] <;> unfold acceptRange <;> split_ifs <;> simp only <;> omega
    simp only [join, List.foldl_cons, List.foldl_nil, hx, hb, hd, List.length_cons, List.length_nil, Prod.mk.injEq,
      and_true]
    omega
  rw [if_neg h3]
  have hx := toNat_ofNat (show 0xF0 + c / 262144 < 256 by omega)
  have hb := toNat_ofNat (show 0x80 + c / 4096 % 64 < 256 by omega)
  have hd := toNat_ofNat (show 0x80 + c / 64 % 64 < 256 by omega)
  have he := toNat_ofNat (show 0x80 + c % 64 < 256 by omega)
  refine (decodeRune_four t (by omega) (by omega) ?_ (inRange_ofNat (by omega) (by omega) (by omega))
    (inRange_ofNat (by omega) (by omega) (by omega))).trans ?_
  · refine inRange_ofNat (by omega) ?_ ?_ <;> rw [hx] <;> unfold acceptRange <;> split_ifs <;> simp only <;> omega
  simp only [join, List.foldl_cons, List.foldl_nil, hx, hb, hd, he, List.length_cons, List.length_nil, Prod.mk.injEq,
      and_true]
  omega

theorem runesFrom_append (u : Bytes) (s : Bytes) : runesFrom u.length (u ++ s) = runesFrom 0 s := by
  induction u with
  | nil => rfl
  | cons b u ih => exact ih

theorem runes_encodeRune_append {c : Nat} (hc : IsScalar c) (s : Bytes) :
    runes (encodeRune c ++ s) = (c, encodeRune c) :: runes s := by
  have hd := decodeRune_encodeRune hc s
  rcases hu : encodeRune c with _ | ⟨b, u⟩
  · exact absurd hu (encodeRune_ne_nil c)
  rw [hu] at hd
  simp only [runes, List.cons_append, runesFrom] at hd ⊢
  rw [hd, List.length_cons, Nat.add_sub_cancel, runesFrom_append]
  simp

theorem ofNat_eq {a : UInt8} {n : Nat} (h : n = a.toNat) : UInt8.ofNat n = a := by
  rw [h, UInt8.ofNat_toNat]

theorem toNat_of_inRange {lo hi : Nat} {b : UInt8} (h : inRange lo hi b) : lo ≤ b.toNat ∧ b.toNat ≤ hi := by
  simpa [inRange] using h

theorem encodeRune_two {a b : UInt8} (h1 : 0xC2 ≤ a.toNat) (h2 : a.toNat < 0xE0) (hb : inRange 0x80 0xBF b) :
    IsScalar (join (a.toNat - 0xC0) [b]) ∧ encodeRune (join (a.toNat - 0xC0) [b]) = [a, b] := by
  obtain ⟨b1, b2⟩ := toNat_of_inRange hb
  have hj : join (a.toNat - 0xC0) [b] = (a.toNat - 0xC0) * 64 + (b.toNat - 0x80) := rfl
  rw [hj]
  refine ⟨.inl (by omega), ?_⟩
  rw [encodeRune, if_neg (by omega), if_pos (by omega), ofNat_eq (a := a) (by omega), ofNat_eq (a := b) (by omega)]

theorem encodeRune_three {a b c : UInt8} (h1 : 0xE0 ≤ a.toNat) (h2 : a.toNat < 0xF0)
    (hb : inRange (acceptRange a.toNat).1 (acceptRange a.toNat).2 b) (hc : inRange 0x80 0xBF c) :
    IsScalar (join (a.toNat - 0xE0) [b, c]) ∧ encodeRune (join (a.toNat - 0xE0) [b, c]) = [a, b, c] := by
  obtain ⟨b1, b2⟩ := toNat_of_inRange hb
  obtain ⟨c1, c2⟩ := toNat_of_inRange hc
  have hj : join (a.toNat - 0xE0) [b, c] = ((a.toNat - 0xE0) * 64 + (b.toNat - 0x80)) * 64 + (c.toNat - 0x80) := rfl
  rw [hj]
  have hb : (a.toNat = 0xE0 → 0xA0 ≤ b.toNat) ∧ (a.toNat = 0xED → b.toNat ≤ 0x9F) ∧ 0x80 ≤ b.toNat ∧ b.toNat ≤ 0xBF := by
    unfold acceptRange at b1 b2
    split_ifs at b1 b2 <;> simp only at b1 b2 <;> omega
  have hsc : IsScalar (((a.toNat - 0xE0) * 64 + (b.toNat - 0x80)) * 64 + (c.toNat - 0x80)) := by
    unfold IsScalar; omega
  refine ⟨hsc, ?_⟩
  rw [encodeRune, if_neg (by omega), if_neg (by omega), if_neg (not_not.2 hsc), if_pos (by omega),
    ofNat_eq (a := a) (by omega), ofNat_eq (a := b) (by omega), ofNat_eq (a := c) (by omega)]

theorem encodeRune_four {a b c d : UInt8} (h1 : 0xF0 ≤ a.toNat) (h2 : a.toNat < 0xF5)
    (hb : inRange (acceptRange a.toNat).1 (acceptRange a.toNat).2 b) (hc : inRange 0x80 0xBF c)
    (hd : inRange 0x80 0xBF d) :
    IsScalar (join (a.toNat - 0xF0) [b, c, d]) ∧ encodeRune (join (a.toNat - 0xF0) [b, c, d]) = [a, b, c, d] := by
  obtain ⟨b1, b2⟩ := toNat_of_inRange hb
  obtain ⟨c1, c2⟩ := toNat_of_inRange hc
  obtain ⟨d1, d2⟩ := toNat_of_inRange hd
  have hj : join (a.toNat - 0xF0) [b, c, d] =
      (((a.toNat - 0xF0) * 64 + (b.toNat - 0x80)) * 64 + (c.toNat - 0x80)) * 64 + (d.toNat - 0x80) := rfl
  rw [hj]
  have hb : (a.toNat = 0xF0 → 0x90 ≤ b.toNat) ∧ (a.toNat = 0xF4 → b.toNat ≤ 0x8F) ∧ 0x80 ≤ b.toNat ∧ b.toNat ≤ 0xBF := by
    unfold acceptRange at b1 b2
    split_ifs at b1 b2 <;> simp only at b1 b2 <;> omega
  have hsc : IsScalar ((((a.toNat - 0xF0) * 64 + (b.toNat - 0x80)) * 64 + (c.toNat - 0x80)) * 64 + (d.toNat - 0x80)) := by
    unfold IsScalar; omega
  refine ⟨hsc, ?_⟩
  rw [encodeRune, if_neg (by omega), if_neg (by omega), if_neg (not_not.2 hsc), if_neg (by omega),
    ofNat_eq (a := a) (by omega), ofNat_eq (a := b) (by omega), ofNat_eq (a := c) (by omega), ofNat_eq (a := d) (by omega)]

theorem decodeRune_cases (a : UInt8) (t : Bytes) :
    decodeRune (a :: t) = (runeError, 1) ∧ 0x80 ≤ a.toNat ∨
    ∃ c u, IsScalar c ∧ a :: t = encodeRune c ++ u := by
  have hgood : ∀ {c : Nat} {bs u : Bytes}, IsScalar c ∧ encodeRune c = bs → a :: t = bs ++ u →
      ∃ c u, IsScalar c ∧ a :: t = encodeRune c ++ u := fun ⟨hc, he⟩ hu => ⟨_, _, hc, by rw [he, hu]⟩
  rcases Nat.lt_or_ge a.toNat 0x80 with h1 | h1
  · have hone : encodeRune a.toNat = [a] := by rw [encodeRune, if_pos h1, ofNat_eq rfl]
    exact .inr (hgood ⟨.inl (by omega), hone⟩ rfl)
  have h1' : ¬ a.toNat < 0x80 := by omega
  rcases Nat.lt_or_ge a.toNat 0xC2 with h2 | h2
  · exact .inl ⟨by simp [decodeRune, h1', h2], h1⟩
  have h2' : ¬ a.toNat < 0xC2 := by omega
  rcases Nat.lt_or_ge a.toNat 0xE0 with h3 | h3
  · rcases t with _ | ⟨b, t⟩
    · exact .inl ⟨by simp [decodeRune, h1', h2', h3], h1⟩
    by_cases hb : inRange 0x80 0xBF b
    · exact .inr (hgood (encodeRune_two h2 h3 hb) rfl)
    · exact .inl ⟨by simp [decodeRune, h1', h2', h3, hb], h1⟩
  have h3' : ¬ a.toNat < 0xE0 := by omega
  rcases Nat.lt_or_ge a.toNat 0xF0 with h4 | h4
  · rcases t with _ | ⟨b, _ | ⟨c, t⟩⟩
    · exact .inl ⟨by simp [decodeRune, h1', h2', h3', h4], h1⟩
    · exact .inl ⟨by simp [decodeRune, h1', h2', h3', h4], h1⟩
    by_cases hb : inRange (acceptRange a.toNat).1 (acceptRange a.toNat).2 b ∧ inRange 0x80 0xBF c
    · exact .inr (hgood (encodeRune_three h3 h4 hb.1 hb.2) rfl)
    · exact .inl ⟨by simp only [decodeRune, h1', h2', h3', h4, if_true, if_false, Bool.and_eq_true, hb], h1⟩
  have h4' : ¬ a.toNat < 0xF0 := by omega
  rcases Nat.lt_or_ge a.toNat 0xF5 with h5 | h5
  · rcases t with _ | ⟨b, _ | ⟨c, _ | ⟨d, t⟩⟩⟩
    · exact .inl ⟨by simp [decodeRune, h1', h2', h3', h4', h5], h1⟩
    · exact .inl ⟨by simp [decodeRune, h1', h2', h3', h4', h5], h1⟩
    · exact .inl ⟨by simp [decodeRune, h1', h2', h3', h4', h5], h1⟩
    by_cases hb : (inRange (acceptRange a.toNat).1 (acceptRange a.toNat).2 b ∧ inRange 0x80 0xBF c) ∧ inRange 0x80 0xBF d
    · exact .inr (hgood (encodeRune_four h4 h5 hb.1.1 hb.1.2 hb.2) rfl)
    · exact .inl ⟨by simp only [decodeRune, h1', h2', h3', h4', h5, if_true, if_false, Bool.and_eq_true, hb], h1⟩
  · exact .inl ⟨by simp [decodeRune, h1', h2', h3', h4', Nat.not_lt.2 h5], h1⟩

theorem runes_bad {a : UInt8} {t : Bytes} (h : decodeRune (a :: t) = (runeError, 1)) :
    runes (a :: t) = (runeError, [a]) :: runes t := by
  simp [runes, runesFrom, h]

theorem runes_ascii_cons {b : UInt8} (t : Bytes) (h : b.toNat < 0x80) : runes (b :: t) = (b.toNat, [b]) :: runes t := by
  have he : encodeRune b.toNat = [b] := by simp [encodeRune, h]
  have hr := runes_encodeRune_append (c := b.toNat) (by unfold IsScalar; omega) t
  rwa [he, List.singleton_append] at hr

theorem rune_induction {P : Bytes → Prop} (nil : P [])
    (bad : ∀ a t, decodeRune (a :: t) = (runeError, 1) → 0x80 ≤ a.toNat → P t → P (a :: t))
    (good : ∀ c t, IsScalar c → P t → P (encodeRune c ++ t)) (s : Bytes) : P s := by
  induction hn : s.length using Nat.strongRecOn generalizing s with
  | ind n ih =>
    rcases s with _ | ⟨a, t⟩
    · exact nil
    rcases decodeRune_cases a t with ⟨h, hx⟩ | ⟨c, u, hc, hu⟩
    · exact bad a t h hx (ih t.length (by simp at hn; omega) t rfl)
    · have hlen := congrArg List.length hu
      have hpos := List.length_pos_iff.2 (encodeRune_ne_nil c)
      rw [List.length_append] at hlen
      rw [hu]
      exact good c u hc (ih u.length (by omega) u rfl)

theorem runes_flatten (s : Bytes) : (runes s).flatMap Prod.snd = s := by
  induction s using rune_induction with
  | nil => rfl
  | bad a t h hx ih => rw [runes_bad h, List.flatMap_cons, ih]; rfl
  | good c t hc ih => rw [runes_encodeRune_append hc, List.flatMap_cons, ih]

theorem mem_dropWhile {α : Type} {p : α → Bool} {l : List α} {x : α} (hx : x ∈ l) (hp : p x = false) : x ∈ l.dropWhile p := by
  rw [← List.takeWhile_append_dropWhile (p := p) (l := l)] at hx
  rcases List.mem_append.1 hx with hx | hx
  · rw [List.mem_takeWhile_imp hx] at hp
    exact absurd hp (by simp)
  · exact hx

theorem trimSpace_ne_nil {s : Bytes} {r : Nat × Bytes} (hr : r ∈ runes s) (hs : isSpaceRune r.1 = false) (hne : r.2 ≠ []) :
    trimSpace s ≠ [] := by
  have h1 := mem_dropWhile (p := fun r : Nat × Bytes => isSpaceRune r.1) hr hs
  have h2 := mem_dropWhile (p := fun r : Nat × Bytes => isSpaceRune r.1) (List.mem_reverse.2 h1) hs
  intro h
  exact hne (List.flatMap_eq_nil_iff.1 h r (List.mem_reverse.2 h2))

theorem rune_head {s : Bytes} {r : Nat × Bytes} (hr : r ∈ runes s) :
    ∃ b t, r.2 = b :: t ∧ (b.toNat < 0x80 → r.1 = b.toNat) := by
  induction s using rune_induction with
  | nil => simp [runes, runesFrom] at hr
  | bad a t h hx ih =>
    rw [runes_bad h] at hr
    rcases List.mem_cons.1 hr with rfl | hr
    · exact ⟨a, [], rfl, fun hlt => absurd hlt (by omega)⟩
    · exact ih hr
  | good c t hc ih =>
    rw [runes_encodeRune_append hc] at hr
    rcases List.mem_cons.1 hr with rfl | hr
    · obtain ⟨b, u, hu⟩ := List.exists_cons_of_ne_nil (encodeRune_ne_nil c)
      refine ⟨b, u, hu, fun hlt => ?_⟩
      have hd := decodeRune_encodeRune hc []
      rw [hu, List.append_nil, decodeRune_one u hlt] at hd
      exact (Prod.mk.inj hd).1.symm
    · exact ih hr

theorem trimSpace_cons {b : UInt8} (t : Bytes) (hlt : b.toNat < 0x80) (hs : isSpaceRune b.toNat = true) : trimSpace (b :: t) = trimSpace t := by
  have hr : runes (b :: t) = (b.toNat, [b]) :: runes t := runes_ascii_cons t hlt
  simp [trimSpace, hr, hs]

theorem head?_trimSpace_cons {b : UInt8} (t : Bytes) (hlt : b.toNat < 0x80) (hs : isSpaceRune b.toNat = false) :
    (trimSpace (b :: t)).head? = some b := by
  have hr : runes (b :: t) = (b.toNat, [b]) :: runes t := runes_ascii_cons t hlt
  have hin : (b.toNat, [b]) ∈ (runes (b :: t)).reverse := List.mem_reverse.2 (hr ▸ List.mem_cons_self ..)
  have hmem := mem_dropWhile (p := fun r : Nat × Bytes => isSpaceRune r.1) hin hs
  have hpre : (((runes (b :: t)).reverse.dropWhile fun r => isSpaceRune r.1).reverse) <+: runes (b :: t) := by
    rw [← List.reverse_suffix, List.reverse_reverse]
    exact List.dropWhile_suffix _
  have hdrop : (runes (b :: t)).dropWhile (fun r => isSpaceRune r.1) = runes (b :: t) := by
    rw [hr]
    exact List.dropWhile_cons_of_neg (by simp [hs])
  rw [trimSpace, hdrop]
  cases hm : ((runes (b :: t)).reverse.dropWhile fun r => isSpaceRune r.1).reverse with
  | nil =>
    rw [List.reverse_eq_nil_iff] at hm
    rw [hm] at hmem
    exact absurd hmem List.not_mem_nil
  | cons r rs =>
    rw [hm, hr] at hpre
    obtain ⟨rest, hrest⟩ := hpre
    obtain rfl := (List.cons.inj hrest).1
    rfl

end Utf8
