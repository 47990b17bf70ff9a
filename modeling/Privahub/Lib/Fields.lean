import Mathlib.Data.List.Induction
import Privahub.Lib.Utf8

/-!
# Fields

`strings.Fields`: the stretches of a string without white space. `fields_trimSpace`: trimming changes none of them; a field is not empty,
and trimming does not make it so (`trimSpace_field`).
-/

namespace Utf8

/-- The longest stretches without `p`, the first of which has begun with `cur`. -/
def wordsFrom {α : Type} (p : α → Bool) : List α → List α → List (List α)
  | cur, [] => if cur.isEmpty then [] else [cur]
  | cur, a :: l => if p a then (if cur.isEmpty then [] else [cur]) ++ wordsFrom p [] l else wordsFrom p (cur ++ [a]) l

def isSpacePart (r : Nat × Bytes) : Bool := isSpaceRune r.1

/-- `strings.Fields`. -/
def fields (s : Bytes) : List Bytes := (wordsFrom isSpacePart [] (runes s)).map fun w => w.flatMap Prod.snd

section words

variable {α : Type} {p : α → Bool} {a : α} {l cur w : List α}

theorem wordsFrom_snoc (ha : p a = true) : wordsFrom p cur (l ++ [a]) = wordsFrom p cur l := by
  induction l generalizing cur with
  | nil => simp [wordsFrom, ha]
  | cons b l ih =>
    simp only [List.cons_append, wordsFrom]
    rw [ih, ih]

theorem wordsFrom_dropWhile (l : List α) : wordsFrom p [] (l.dropWhile p) = wordsFrom p [] l := by
  induction l with
  | nil => rfl
  | cons a l ih =>
    rw [List.dropWhile_cons]
    split_ifs with ha
    · rw [ih]
      simp [wordsFrom, ha]
    · rfl

theorem wordsFrom_dropWhile_end (l : List α) : wordsFrom p [] (l.reverse.dropWhile p).reverse = wordsFrom p [] l := by
  induction l using List.reverseRecOn with
  | nil => rfl
  | append_singleton l a ih =>
    rw [List.reverse_append, List.reverse_singleton, List.singleton_append, List.dropWhile_cons]
    split_ifs with ha
    · rw [ih, wordsFrom_snoc ha]
    · rw [List.reverse_cons, List.reverse_reverse]

theorem of_mem_wordsFrom (hcur : ∀ b ∈ cur, p b = false) (h : w ∈ wordsFrom p cur l) :
    w ≠ [] ∧ (∀ b ∈ w, p b = false) ∧ w <:+: cur ++ l := by
  induction l generalizing cur with
  | nil =>
    simp only [wordsFrom] at h
    split_ifs at h with he
    · cases h
    · obtain rfl := List.mem_singleton.1 h
      exact ⟨fun hn => he (by simp [hn]), hcur, by simp⟩
  | cons a l ih =>
    simp only [wordsFrom] at h
    split_ifs at h with ha he
    · obtain ⟨hne, hw, hin⟩ := ih (List.forall_mem_nil _) h
      exact ⟨hne, hw, hin.trans ⟨cur ++ [a], [], by simp⟩⟩
    · rcases List.mem_append.1 h with h | h
      · obtain rfl := List.mem_singleton.1 h
        exact ⟨fun hn => he (by simp [hn]), hcur, (List.prefix_append ..).isInfix⟩
      · obtain ⟨hne, hw, hin⟩ := ih (List.forall_mem_nil _) h
        exact ⟨hne, hw, hin.trans ⟨cur ++ [a], [], by simp⟩⟩
    · have hsnoc : ∀ b ∈ cur ++ [a], p b = false := by
        intro b hb
        rcases List.mem_append.1 hb with hb | hb
        · exact hcur b hb
        · exact List.mem_singleton.1 hb ▸ Bool.eq_false_iff.2 ha
      obtain ⟨hne, hw, hin⟩ := ih hsnoc h
      exact ⟨hne, hw, by simpa using hin⟩

end words

variable {l₁ l₂ : List (Nat × Bytes)} {s t : Bytes} {a : UInt8}

theorem decodeRune_bad_of_append {u : Bytes} (h : decodeRune (a :: (t ++ u)) = (runeError, 1)) : decodeRune (a :: t) = (runeError, 1) := by
  rcases decodeRune_cases a t with ⟨h', -⟩ | ⟨c, v, hc, hv⟩
  · exact h'
  · exfalso
    have hgood : decodeRune (a :: (t ++ u)) = (c, (encodeRune c).length) := by
      rw [← List.cons_append, hv, List.append_assoc]
      exact decodeRune_encodeRune hc _
    rw [hgood] at h
    obtain ⟨rfl, hlen⟩ := Prod.mk.inj h
    exact absurd hlen (by decide)

theorem runes_of_append (h : runes s = l₁ ++ l₂) : runes (l₁.flatMap Prod.snd) = l₁ := by
  induction s using rune_induction generalizing l₁ with
  | nil =>
    obtain ⟨rfl, rfl⟩ := List.append_eq_nil_iff.1 h.symm
    rfl
  | bad a t hbad hx ih =>
    cases l₁ with
    | nil => rfl
    | cons r l₁ =>
      rw [runes_bad hbad] at h
      obtain ⟨rfl, hrest⟩ := List.cons.inj h
      have ht : t = l₁.flatMap Prod.snd ++ l₂.flatMap Prod.snd := by
        rw [← List.flatMap_append]
        exact (runes_flatten t).symm.trans (congrArg _ hrest)
      rw [List.flatMap_cons, List.singleton_append, runes_bad (decodeRune_bad_of_append (ht ▸ hbad)), ih hrest]
  | good c t hc ih =>
    cases l₁ with
    | nil => rfl
    | cons r l₁ =>
      rw [runes_encodeRune_append hc] at h
      obtain ⟨rfl, hrest⟩ := List.cons.inj h
      rw [List.flatMap_cons, runes_encodeRune_append hc, ih hrest]

theorem runes_of_append_right (h : runes s = l₁ ++ l₂) : runes (l₂.flatMap Prod.snd) = l₂ := by
  induction s using rune_induction generalizing l₁ with
  | nil =>
    obtain ⟨rfl, rfl⟩ := List.append_eq_nil_iff.1 h.symm
    rfl
  | bad a t hbad hx ih =>
    cases l₁ with
    | nil => rw [List.nil_append] at h; rw [← h, runes_flatten]
    | cons r l₁ =>
      rw [runes_bad hbad] at h
      exact ih (List.cons.inj h).2
  | good c t hc ih =>
    cases l₁ with
    | nil => rw [List.nil_append] at h; rw [← h, runes_flatten]
    | cons r l₁ =>
      rw [runes_encodeRune_append hc] at h
      exact ih (List.cons.inj h).2

theorem runes_infix {w : List (Nat × Bytes)} (h : w <:+: runes s) : runes (w.flatMap Prod.snd) = w := by
  obtain ⟨l₁, l₂, h⟩ := h
  exact runes_of_append_right (runes_of_append h.symm)

theorem runes_trimSpace (s : Bytes) :
    runes (trimSpace s) = (((runes s).dropWhile isSpacePart).reverse.dropWhile isSpacePart).reverse := by
  refine runes_infix (s := s) (List.IsInfix.trans ?_ (List.dropWhile_suffix isSpacePart).isInfix)
  rw [← List.reverse_infix, List.reverse_reverse]
  exact (List.dropWhile_suffix _).isInfix

theorem fields_trimSpace (s : Bytes) : fields (trimSpace s) = fields s := by
  unfold fields
  rw [runes_trimSpace, wordsFrom_dropWhile_end, wordsFrom_dropWhile]

theorem trimSpace_field (h : t ∈ fields s) : trimSpace t ≠ [] := by
  obtain ⟨w, hw, rfl⟩ := List.mem_map.1 h
  obtain ⟨hne, hpart, hin⟩ := of_mem_wordsFrom nofun hw
  have hrunes : runes (w.flatMap Prod.snd) = w := runes_infix (by simpa using hin)
  obtain ⟨r, w', rfl⟩ := List.exists_cons_of_ne_nil hne
  have hr : r ∈ runes ((r :: w').flatMap Prod.snd) := by
    rw [hrunes]
    exact List.mem_cons_self ..
  obtain ⟨b, u, hb, -⟩ := rune_head hr
  exact trimSpace_ne_nil hr (hpart r (List.mem_cons_self ..)) (by simp [hb])

end Utf8
