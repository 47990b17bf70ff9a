import Privahub.Lib.Bytes

/-!
# Replacing in a string, and cutting it

`strings.ReplaceAll` of a part that is not empty: its occurrences are taken from the left and do not overlap. One at the front is replaced
first (`replaceAll_append`), and removing them changes the string exactly when there is one (`removeAll_eq_iff`). `cut` cuts a string at the
leftmost matches of any kind; put together again the pieces and the matches are the string (`cut_join`).
-/

namespace Bytes

def replaceFrom (old new : Bytes) : Nat → Bytes → Bytes
  | _, [] => []
  | k + 1, _ :: s => replaceFrom old new k s
  | 0, b :: s => if old <+: b :: s then new ++ replaceFrom old new (old.length - 1) s else b :: replaceFrom old new 0 s

/-- `strings.ReplaceAll`. -/
def replaceAll (s old new : Bytes) : Bytes := replaceFrom old new 0 s

variable {old new s : Bytes}

theorem replaceFrom_drop (k : Nat) (s : Bytes) : replaceFrom old new k s = replaceAll (s.drop k) old new := by
  induction s generalizing k with
  | nil => cases k <;> rfl
  | cons b s ih =>
    cases k with
    | zero => rfl
    | succ k => exact ih k

theorem replaceAll_append (h : old ≠ []) (s : Bytes) : replaceAll (old ++ s) old new = new ++ replaceAll s old new := by
  cases old with
  | nil => exact absurd rfl h
  | cons a t =>
    have hpre : a :: t <+: a :: (t ++ s) := ⟨s, rfl⟩
    show replaceFrom (a :: t) new 0 (a :: (t ++ s)) = _
    rw [replaceFrom, if_pos hpre, replaceFrom_drop, List.length_cons, Nat.add_sub_cancel, List.drop_left]

theorem replaceAll_of_not_infix (h : ¬ old <:+: s) : replaceAll s old new = s := by
  induction s with
  | nil => rfl
  | cons b s ih =>
    rw [List.infix_cons_iff, not_or] at h
    show replaceFrom old new 0 (b :: s) = _
    rw [replaceFrom, if_neg h.1]
    exact congrArg (b :: ·) (ih h.2)

theorem length_removeFrom_le (k : Nat) (s : Bytes) : (replaceFrom old [] k s).length ≤ s.length := by
  induction s generalizing k with
  | nil => cases k <;> rfl
  | cons b s ih =>
    cases k with
    | zero =>
      rw [replaceFrom]
      split_ifs
      · exact (ih _).trans (Nat.le_succ _)
      · exact Nat.succ_le_succ (ih 0)
    | succ k => exact (ih k).trans (Nat.le_succ _)

theorem length_removeAll_lt (hne : old ≠ []) (h : old <:+: s) : (replaceAll s old []).length < s.length := by
  induction s with
  | nil => exact absurd (List.infix_nil.1 h) hne
  | cons b s ih =>
    show (replaceFrom old [] 0 (b :: s)).length < _
    rw [replaceFrom]
    split_ifs with hpre
    · exact Nat.lt_succ_of_le (length_removeFrom_le _ s)
    · exact Nat.succ_lt_succ (ih ((List.infix_cons_iff.1 h).resolve_left hpre))

theorem removeAll_eq_iff (hne : old ≠ []) : replaceAll s old [] = s ↔ ¬ old <:+: s := by
  refine ⟨fun h hin => ?_, replaceAll_of_not_infix⟩
  exact absurd (congrArg List.length h) (length_removeAll_lt hne hin).ne

/-- The piece before the first match, and each match with the piece after it; `m` is how long the match at the front is, if there is one. The
first bytes, as many as the number says, belong to a match. -/
def cutFrom (m : Bytes → Option Nat) : Nat → Bytes → Bytes × List (Bytes × Bytes)
  | _, [] => ([], [])
  | k + 1, _ :: s => cutFrom m k s
  | 0, b :: s => match m (b :: s) with
    | some n => ([], ((b :: s).take n, (cutFrom m (n - 1) s).1) :: (cutFrom m (n - 1) s).2)
    | none => (b :: (cutFrom m 0 s).1, (cutFrom m 0 s).2)

def cut (m : Bytes → Option Nat) (s : Bytes) : Bytes × List (Bytes × Bytes) := cutFrom m 0 s

def pieces (m : Bytes → Option Nat) (s : Bytes) : List Bytes := (cut m s).1 :: (cut m s).2.map Prod.snd

def Matcher (m : Bytes → Option Nat) : Prop := ∀ s n, m s = some n → 0 < n ∧ n ≤ s.length

variable {m : Bytes → Option Nat}

theorem cutFrom_drop (k : Nat) (s : Bytes) : cutFrom m k s = cut m (s.drop k) := by
  induction s generalizing k with
  | nil => cases k <;> rfl
  | cons b s ih =>
    cases k with
    | zero => rfl
    | succ k => exact ih k

theorem cut_cons_none {b : UInt8} (h : m (b :: s) = none) : cut m (b :: s) = (b :: (cut m s).1, (cut m s).2) := by
  show cutFrom m 0 (b :: s) = _
  rw [cutFrom, h]
  rfl

theorem cut_cons_some {b : UInt8} {n : Nat} (hm : Matcher m) (h : m (b :: s) = some n) :
    cut m (b :: s) = ([], ((b :: s).take n, (cut m ((b :: s).drop n)).1) :: (cut m ((b :: s).drop n)).2) := by
  show cutFrom m 0 (b :: s) = _
  obtain ⟨k, rfl⟩ : ∃ k, n = k + 1 := Nat.exists_eq_succ_of_ne_zero (hm _ _ h).1.ne'
  rw [cutFrom, h]
  dsimp only
  rw [Nat.add_sub_cancel, cutFrom_drop, List.drop_succ_cons]

theorem cut_induction (hm : Matcher m) {P : Bytes → Prop} (nil : P []) (skip : ∀ b s, m (b :: s) = none → P s → P (b :: s))
    (step : ∀ b s n, m (b :: s) = some n → P ((b :: s).drop n) → P (b :: s)) (s : Bytes) : P s := by
  induction hlen : s.length using Nat.strong_induction_on generalizing s with
  | _ len ih =>
    cases s with
    | nil => exact nil
    | cons b s =>
      cases hb : m (b :: s) with
      | none => exact skip b s hb (ih s.length (by rw [← hlen]; exact Nat.lt_succ_self _) s rfl)
      | some n =>
        obtain ⟨hpos, hle⟩ := hm _ _ hb
        refine step b s n hb (ih _ ?_ _ rfl)
        rw [List.length_drop, ← hlen]
        omega

theorem cut_join (hm : Matcher m) (s : Bytes) : (cut m s).1 ++ (cut m s).2.flatMap (fun t => t.1 ++ t.2) = s := by
  induction s using cut_induction hm with
  | nil => rfl
  | skip b s h ih => rw [cut_cons_none h, List.cons_append, ih]
  | step b s n h ih => rw [cut_cons_some hm h, List.nil_append, List.flatMap_cons, List.append_assoc, ih, List.take_append_drop]

theorem cut_match (hm : Matcher m) (s : Bytes) : ∀ t ∈ (cut m s).2, ∃ rest, m (t.1 ++ rest) = some t.1.length := by
  induction s using cut_induction hm with
  | nil => exact nofun
  | skip b s h ih =>
    rw [cut_cons_none h]
    exact ih
  | step b s n h ih =>
    rw [cut_cons_some hm h]
    intro t ht
    obtain rfl | ht := List.mem_cons.1 ht
    · refine ⟨(b :: s).drop n, ?_⟩
      rw [List.take_append_drop, List.length_take_of_le (hm _ _ h).2, h]
    · exact ih t ht

theorem cut_piece (hm : Matcher m) (s : Bytes) : ∀ p ∈ pieces m s, ∀ b ∈ p, ∃ rest, m (b :: rest) = none := by
  unfold pieces
  induction s using cut_induction hm with
  | nil =>
    intro p hp b hb
    obtain rfl := List.mem_singleton.1 hp
    cases hb
  | skip b s h ih =>
    rw [cut_cons_none h]
    intro p hp c hc
    obtain rfl | hp := List.mem_cons.1 hp
    · obtain rfl | hc := List.mem_cons.1 hc
      · exact ⟨s, h⟩
      · exact ih _ List.mem_cons_self c hc
    · exact ih p (List.mem_cons_of_mem _ hp) c hc
  | step b s n h ih =>
    rw [cut_cons_some hm h]
    intro p hp c hc
    obtain rfl | hp := List.mem_cons.1 hp
    · cases hc
    · exact ih p hp c hc

end Bytes
