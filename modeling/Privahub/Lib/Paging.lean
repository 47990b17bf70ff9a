import Mathlib.Algebra.Order.Ring.Int
import Mathlib.Data.List.Basic

/-!
# Pages of a list by 64-bit numbers

`page` cuts the page of a number and a size out of a list as a program with 64-bit integers does, where the index of the first element wraps
around. `page_eq_none_iff` says when the cut is out of range, and `pages_eq_take_iff` when the first pages are the list in order: no product and no
sum may wrap around, unless what it wraps to is past the end.
-/

namespace Paging

universe u
variable {α : Type u}

/-- `xs[start:stop]`, out of range as `none`. -/
def slice (xs : List α) (start stop : Int64) : Option (List α) :=
  if 0 ≤ start ∧ start ≤ stop ∧ stop ≤ Int64.ofNat xs.length then some ((xs.take stop.toInt.toNat).drop start.toInt.toNat) else none

def page (xs : List α) (number size : Int64) : Option (List α) :=
  let n := Int64.ofNat xs.length
  let start := size * (number - 1)
  let start := if start > n then n else start
  let stop := start + size
  let stop := if stop > n then n else stop
  slice xs start stop

/-- The pages `1` to `k`, one after the other. -/
def pages (f : Int64 → Option (List α)) : Nat → Option (List α)
  | 0 => some []
  | k + 1 => do
    let xs ← pages f k
    let ys ← f (Int64.ofNat (k + 1))
    some (xs ++ ys)

def wrapped (number size : Int) : Int := (size * (number - 1)).bmod (2 ^ 64)

/-- Neither the start nor the end of the page wraps to a negative number. -/
def InRange (n number size : Int) : Prop := 0 ≤ wrapped number size ∧ min (wrapped number size) n + size < 2 ^ 63

/-- The page is in range, and its start does not wrap to an index of the list. -/
def Right (n number size : Int) : Prop := InRange n number size ∧ (size * (number - 1) < 2 ^ 63 ∨ n ≤ wrapped number size)

instance (n number size : Int) : Decidable (InRange n number size) := inferInstanceAs (Decidable (_ ∧ _))

instance (n number size : Int) : Decidable (Right n number size) := inferInstanceAs (Decidable (_ ∧ _))

variable {xs : List α} {number size : Int64} {n : Int}

theorem wrapped_of_lt {p s : Int} (hp : 1 ≤ p) (hs : 0 ≤ s) (h : s * (p - 1) < 2 ^ 63) : wrapped p s = s * (p - 1) := by
  have hnonneg : 0 ≤ s * (p - 1) := mul_nonneg hs (by omega)
  exact Int.bmod_eq_of_le (by omega) (by omega)

theorem wrapped_lt (p s : Int) : wrapped p s < 2 ^ 63 := by
  have := Int.bmod_lt (x := s * (p - 1)) (m := 2 ^ 64) (by decide)
  unfold wrapped
  omega

theorem neg_le_wrapped (p s : Int) : -2 ^ 63 ≤ wrapped p s := by
  have := Int.le_bmod (x := s * (p - 1)) (m := 2 ^ 64) (by decide)
  unfold wrapped
  omega

theorem toInt_first (hp : 1 ≤ number.toInt) : (size * (number - 1)).toInt = wrapped number.toInt size.toInt := by
  have hlt := number.toInt_lt
  have hsub : (number - 1).toInt = number.toInt - 1 := by
    rw [Int64.toInt_sub, Int64.toInt_one]
    exact Int.bmod_eq_of_le (by omega) (by omega)
  rw [Int64.toInt_mul, hsub, wrapped]

theorem toInt_clamp {x y : Int64} : (if x > y then y else x).toInt = min x.toInt y.toInt := by
  split_ifs with h
  · rw [gt_iff_lt, Int64.lt_iff_toInt_lt] at h
    omega
  · rw [gt_iff_lt, Int64.lt_iff_toInt_lt] at h
    omega

variable (hn : xs.length < 2 ^ 63) (hp : 1 ≤ number.toInt) (hs : 0 ≤ size.toInt)

include hn in
theorem slice_eq (start stop : Int64) : slice xs start stop =
    if 0 ≤ start.toInt ∧ start.toInt ≤ stop.toInt ∧ stop.toInt ≤ xs.length then
      some ((xs.take stop.toInt.toNat).drop start.toInt.toNat) else none := by
  simp only [slice, Int64.le_iff_toInt_le, Int64.toInt_zero, Int64.toInt_ofNat_of_lt hn]

include hn hp hs in
theorem page_eq : page xs number size = if InRange xs.length number.toInt size.toInt then
    some ((xs.drop (wrapped number.toInt size.toInt).toNat).take size.toInt.toNat) else none := by
  have hlt := wrapped_lt number.toInt size.toInt
  have hge := neg_le_wrapped number.toInt size.toInt
  have hslt := size.toInt_lt
  set w := wrapped number.toInt size.toInt with hw
  have hstart : (if size * (number - 1) > Int64.ofNat xs.length then Int64.ofNat xs.length else size * (number - 1)).toInt =
      min w xs.length := by rw [toInt_clamp, toInt_first hp, Int64.toInt_ofNat_of_lt hn]
  unfold page
  simp only
  rw [slice_eq hn]
  generalize (if size * (number - 1) > Int64.ofNat xs.length then Int64.ofNat xs.length else size * (number - 1)) = start at hstart ⊢
  have hstop : (if start + size > Int64.ofNat xs.length then Int64.ofNat xs.length else start + size).toInt =
      min ((min w xs.length + size.toInt).bmod (2 ^ 64)) xs.length := by
    rw [toInt_clamp, Int64.toInt_add, Int64.toInt_ofNat_of_lt hn, hstart]
  rw [hstart, hstop]
  by_cases hin : InRange xs.length number.toInt size.toInt
  · -- nothing wraps
    obtain ⟨h0, h1⟩ := id hin
    rw [← hw] at h0 h1
    have hsum : (min w xs.length + size.toInt).bmod (2 ^ 64) = min w xs.length + size.toInt :=
      Int.bmod_eq_of_le (by omega) (by omega)
    rw [hsum, if_pos hin, if_pos (by omega)]
    congr 1
    apply List.ext_getElem?
    intro i
    simp only [List.getElem?_drop, List.getElem?_take]
    split_ifs with ha hb hb
    · by_cases hwn : w ≤ xs.length
      · congr 1
        omega
      · omega
    · omega
    · by_cases hwn : w ≤ xs.length
      · exact (List.getElem?_eq_none (by omega)).symm
      · exact (List.getElem?_eq_none (by omega)).symm
    · rfl
  · rw [if_neg hin, if_neg]
    rintro ⟨h0, h1, -⟩
    have hsum : 2 ^ 63 ≤ min w xs.length + size.toInt := by
      by_contra hcon
      exact hin ⟨by omega, by rw [← hw]; omega⟩
    -- the end wraps to a negative number
    have hend : (min w xs.length + size.toInt).bmod (2 ^ 64) = min w xs.length + size.toInt - 2 ^ 64 := by
      rw [Int.bmod, Int.emod_eq_of_lt (by omega) (by omega), if_neg (by omega)]
      rfl
    omega

include hn hp hs in
theorem page_eq_none_iff : page xs number size = none ↔ ¬ InRange xs.length number.toInt size.toInt := by
  rw [page_eq hn hp hs]
  split_ifs with h <;> simp [h]

theorem toInt_ofNat_succ {k : Nat} (hk : k + 1 < 2 ^ 63) : (Int64.ofNat (k + 1)).toInt = k + 1 := by
  rw [Int64.toInt_ofNat_of_lt hk]
  rfl

theorem first_index (k m : Nat) : (m : Int) * (((k : Int) + 1) - 1) = (k * m : Nat) := by
  rw [add_sub_cancel_right, Nat.cast_mul, mul_comm]

theorem page_of_right {k m : Nat} (hn : xs.length < 2 ^ 63) (hk : k + 1 < 2 ^ 63) (hm : size.toInt = m) (h : Right xs.length (k + 1) m) :
    page xs (Int64.ofNat (k + 1)) size = some ((xs.drop (k * m)).take m) := by
  have hp : (Int64.ofNat (k + 1)).toInt = k + 1 := toInt_ofNat_succ hk
  rw [page_eq hn (by omega) (by omega), hp, hm, if_pos h.1, Int.toNat_natCast]
  have hmul := first_index k m
  congr 2
  by_cases hlt : (k * m : Nat) < (2 : Int) ^ 63
  · rw [wrapped_of_lt (by omega) (by omega) (by rw [hmul]; exact hlt), hmul, Int.toNat_natCast]
  · -- both are past the end
    have hw := h.2.resolve_left (by rw [hmul]; exact hlt)
    rw [List.drop_eq_nil_of_le (by omega), List.drop_eq_nil_of_le (by omega)]

theorem page_of_not_right {k m : Nat} (hn : xs.length < 2 ^ 63) (hk : k + 1 < 2 ^ 63) (hm : size.toInt = m) (hpos : 0 < m)
    (h : ¬ Right xs.length (k + 1) m) {ys : List α} (hy : page xs (Int64.ofNat (k + 1)) size = some ys) :
    xs.length ≤ k * m ∧ ys ≠ [] := by
  have hp : (Int64.ofNat (k + 1)).toInt = k + 1 := toInt_ofNat_succ hk
  rw [page_eq hn (by omega) (by omega), hp, hm] at hy
  split_ifs at hy with hin
  obtain rfl := Option.some.inj hy
  have hmul := first_index k m
  simp only [Right, hin, hmul, true_and, not_or, not_lt, not_le] at h
  refine ⟨by omega, fun hnil => ?_⟩
  have hlen := congrArg List.length hnil
  have h0 := hin.1
  simp only [List.length_take, List.length_drop, List.length_nil, Int.toNat_natCast] at hlen
  omega

theorem pages_congr {f g : Int64 → Option (List α)} {k : Nat} (h : ∀ i < k, f (Int64.ofNat (i + 1)) = g (Int64.ofNat (i + 1))) :
    pages f k = pages g k := by
  induction k with
  | zero => rfl
  | succ k ih => rw [pages, pages, ih fun i hi => h i (by omega), h k (by omega)]

theorem pages_spec {m : Nat} (hn : xs.length < 2 ^ 63) (hm : size.toInt = m) (hpos : 0 < m) {k : Nat} (hk : k < 2 ^ 63) {ys : List α}
    (h : pages (fun p => page xs p size) k = some ys) :
    ((∀ i < k, Right xs.length (i + 1) m) ∧ ys = xs.take (k * m)) ∨ xs.length < ys.length := by
  induction k generalizing ys with
  | zero =>
    obtain rfl := Option.some.inj h
    exact .inl ⟨fun i hi => absurd hi (Nat.not_lt_zero i), by simp⟩
  | succ k ih =>
    simp only [pages, Option.bind_eq_bind, Option.bind_eq_some_iff] at h
    obtain ⟨zs, hzs, ps, hps, heq⟩ := h
    obtain rfl := Option.some.inj heq
    rcases ih (by omega) hzs with ⟨hall, rfl⟩ | hlong
    swap
    · right
      rw [List.length_append]
      omega
    by_cases hright : Right xs.length (k + 1) m
    · rw [page_of_right hn (by omega) hm hright] at hps
      obtain rfl := Option.some.inj hps
      refine .inl ⟨fun i hi => ?_, ?_⟩
      · rcases Nat.lt_succ_iff_lt_or_eq.1 hi with hi | rfl
        · exact hall i hi
        · exact hright
      · rw [Nat.succ_mul, List.take_add]
    · obtain ⟨hle, hne⟩ := page_of_not_right hn (by omega) hm hpos hright hps
      right
      have hpos' := List.length_pos_iff.2 hne
      rw [List.length_append, List.length_take]
      omega

theorem pages_eq_take_iff {m : Nat} (hn : xs.length < 2 ^ 63) (hm : size.toInt = m) (hpos : 0 < m) {k : Nat} (hk : k < 2 ^ 63) :
    pages (fun p => page xs p size) k = some (xs.take (k * m)) ↔ ∀ i < k, Right xs.length (i + 1) m := by
  constructor
  · intro h
    rcases pages_spec hn hm hpos hk h with ⟨hall, -⟩ | hlong
    · exact hall
    · rw [List.length_take] at hlong
      omega
  · intro hall
    induction k with
    | zero => simp [pages]
    | succ k ih =>
      have hpage := page_of_right hn (by omega) hm (hall k (by omega))
      simp only [pages, ih (by omega) fun i hi => hall i (by omega), hpage, Option.bind_eq_bind, Option.bind_some]
      rw [Nat.succ_mul, List.take_add]

end Paging
