import Mathlib

/-!
# The Gregorian calendar

Days are numbered from 1970-01-01, and months from January of the year 0, so that `M` is the month `M % 12` of the year `M / 12`, January
being 0. `monthStart` is the first day of a month and `monthOf` the month of a day: the only one whose days include it (`monthOf_eq`).
No two months in a row are short (`monthLen_or_succ`), so every day of the month comes back within three of them (`exists_dayOf`).
-/

namespace Calendar

def IsLeap (y : Int) : Prop := y % 4 = 0 ∧ (y % 100 ≠ 0 ∨ y % 400 = 0)

instance (y : Int) : Decidable (IsLeap y) := inferInstanceAs (Decidable (_ ∧ _))

def leapDay (y : Int) : Int := if IsLeap y then 1 else 0

def yearStart (y : Int) : Int := 365 * (y - 1970) + (y - 1969) / 4 - (y - 1901) / 100 + (y - 1601) / 400

/-- The days of a year before its month `m`; from March on February's missing days are taken off the closed form. -/
def daysBefore (k m : Int) : Int := (367 * m + 5) / 12 - if m < 2 then 0 else 2 - k

def monthStart (M : Int) : Int := yearStart (M / 12) + daysBefore (leapDay (M / 12)) (M % 12)

def monthLen (M : Int) : Int :=
  if M % 12 = 1 then 28 + leapDay (M / 12) else if M % 12 = 3 ∨ M % 12 = 5 ∨ M % 12 = 8 ∨ M % 12 = 10 then 30 else 31

def yearOf (n : Int) : Int :=
  let y := 400 * n / 146097 + 1970
  if n < yearStart y then y - 1 else if yearStart (y + 1) ≤ n then y + 1 else y

/-- The month of day `d` of a year, in closed form. -/
def monthIn (k d : Int) : Int := (12 * (if d < 59 + k then d else d + 2 - k) + 6) / 367

def monthOf (n : Int) : Int := 12 * yearOf n + monthIn (leapDay (yearOf n)) (n - yearStart (yearOf n))

def dayOf (n : Int) : Int := n - monthStart (monthOf n) + 1

def weekday (n : Int) : Int := (n + 4) % 7

variable {n M y d : Int}

theorem leapDay_le (y : Int) : 0 ≤ leapDay y ∧ leapDay y ≤ 1 := by
  unfold leapDay
  split_ifs <;> omega

theorem yearStart_succ (y : Int) : yearStart (y + 1) = yearStart y + 365 + leapDay y := by
  unfold yearStart leapDay IsLeap
  split_ifs <;> omega

theorem yearOf_spec (n : Int) : yearStart (yearOf n) ≤ n ∧ n < yearStart (yearOf n + 1) := by
  have hlow : ∀ y, 146097 * (y - 1970) - 600 ≤ 400 * yearStart y := by
    intro y
    unfold yearStart
    omega
  have hhigh : ∀ y, 400 * yearStart y ≤ 146097 * (y - 1970) + 600 := by
    intro y
    unfold yearStart
    omega
  show yearStart (if n < yearStart (400 * n / 146097 + 1970) then _ else _) ≤ n ∧ _ < yearStart ((if n < yearStart (400 * n / 146097 + 1970) then _ else _) + 1)
  generalize hy : 400 * n / 146097 + 1970 = y
  split_ifs with h1 h2
  · have := hhigh (y - 1)
    rw [Int.sub_add_cancel]
    omega
  · have := hlow (y + 1 + 1)
    omega
  · omega

theorem monthStart_add (hm : 0 ≤ d) (hd : d < 12) : monthStart (12 * y + d) = yearStart y + daysBefore (leapDay y) d := by
  unfold monthStart
  rw [show (12 * y + d) / 12 = y by omega, show (12 * y + d) % 12 = d by omega]

theorem monthStart_succ (M : Int) : monthStart (M + 1) = monthStart M + monthLen M := by
  have hk := leapDay_le (M / 12)
  by_cases hlast : M % 12 = 11
  · have hnext := monthStart_add (y := M / 12 + 1) (d := 0) (by omega) (by omega)
    rw [show M + 1 = 12 * (M / 12 + 1) + 0 by omega, hnext, yearStart_succ]
    unfold monthStart daysBefore monthLen
    rw [hlast]
    split_ifs <;> omega
  · unfold monthStart daysBefore monthLen
    rw [show (M + 1) / 12 = M / 12 by omega, show (M + 1) % 12 = M % 12 + 1 by omega]
    have hm : 0 ≤ M % 12 ∧ M % 12 < 11 := by omega
    generalize M % 12 = m at *
    obtain ⟨h0, h11⟩ := hm
    interval_cases m <;> split_ifs <;> omega

theorem monthLen_bounds (M : Int) : 28 ≤ monthLen M ∧ monthLen M ≤ 31 := by
  have := leapDay_le (M / 12)
  unfold monthLen
  split_ifs <;> omega

theorem monthLen_or_succ (M : Int) : monthLen M = 31 ∨ monthLen (M + 1) = 31 := by
  unfold monthLen
  split_ifs <;> omega

theorem monthStart_strictMono : StrictMono monthStart := by
  refine strictMono_int_of_lt_succ fun M => ?_
  have := monthLen_bounds M
  rw [monthStart_succ]
  omega

theorem monthOf_spec (n : Int) : monthStart (monthOf n) ≤ n ∧ n < monthStart (monthOf n + 1) := by
  obtain ⟨h1, h2⟩ := yearOf_spec n
  have hk := leapDay_le (yearOf n)
  rw [yearStart_succ] at h2
  rw [monthStart_succ]
  unfold monthOf
  generalize yearOf n = y at *
  have hin : 0 ≤ monthIn (leapDay y) (n - yearStart y) ∧ monthIn (leapDay y) (n - yearStart y) < 12 := by
    unfold monthIn
    split_ifs <;> omega
  rw [monthStart_add hin.1 hin.2]
  unfold monthLen
  rw [show (12 * y + monthIn (leapDay y) (n - yearStart y)) / 12 = y by omega,
    show (12 * y + monthIn (leapDay y) (n - yearStart y)) % 12 = monthIn (leapDay y) (n - yearStart y) by omega]
  unfold monthIn daysBefore
  split_ifs <;> omega

theorem monthOf_eq (h1 : monthStart M ≤ n) (h2 : n < monthStart (M + 1)) : monthOf n = M := by
  obtain ⟨h3, h4⟩ := monthOf_spec n
  have hle := Int.lt_add_one_iff.1 (monthStart_strictMono.lt_iff_lt.1 (lt_of_le_of_lt h3 h2))
  have hge := Int.lt_add_one_iff.1 (monthStart_strictMono.lt_iff_lt.1 (lt_of_le_of_lt h1 h4))
  omega

theorem monthOf_mono : Monotone monthOf := by
  intro m n h
  exact Int.lt_add_one_iff.1 (monthStart_strictMono.lt_iff_lt.1 (lt_of_le_of_lt ((monthOf_spec m).1.trans h) (monthOf_spec n).2))

theorem dayOf_bounds (n : Int) : 1 ≤ dayOf n ∧ dayOf n ≤ monthLen (monthOf n) := by
  have h := monthOf_spec n
  rw [monthStart_succ] at h
  unfold dayOf
  omega

theorem monthOf_add (h1 : 1 ≤ d) (h2 : d ≤ monthLen M) : monthOf (monthStart M + d - 1) = M := by
  refine monthOf_eq (by omega) ?_
  rw [monthStart_succ]
  omega

theorem dayOf_add (h1 : 1 ≤ d) (h2 : d ≤ monthLen M) : dayOf (monthStart M + d - 1) = d := by
  rw [dayOf, monthOf_add h1 h2]
  omega

theorem monthStart_dayOf (n : Int) : monthStart (monthOf n) + dayOf n - 1 = n := by
  unfold dayOf
  omega

theorem dayOf_succ_eq_one : dayOf (n + 1) = 1 ↔ dayOf n = monthLen (monthOf n) := by
  have hn := dayOf_bounds n
  have heq := monthStart_dayOf n
  constructor
  · intro h
    by_contra hne
    have hin : dayOf (monthStart (monthOf n) + (dayOf n + 1) - 1) = dayOf n + 1 := dayOf_add (by omega) (by omega)
    rw [show monthStart (monthOf n) + (dayOf n + 1) - 1 = n + 1 by omega] at hin
    omega
  · intro h
    have hfirst : dayOf (monthStart (monthOf n + 1) + 1 - 1) = 1 := dayOf_add (by omega) (by have := monthLen_bounds (monthOf n + 1); omega)
    rwa [monthStart_succ, show monthStart (monthOf n) + monthLen (monthOf n) + 1 - 1 = n + 1 by omega] at hfirst

theorem lt_of_next (n : Int) (h : 1 ≤ d) : n < monthStart (monthOf n + 1) + d - 1 := by
  have := (monthOf_spec n).2
  omega

theorem monthStart_next_le (n : Int) : monthStart (monthOf n + 1) ≤ n + 31 := by
  have h1 := (monthOf_spec n).1
  have h2 := monthLen_bounds (monthOf n)
  rw [monthStart_succ]
  omega

theorem exists_dayOf (n : Int) (h1 : 1 ≤ d) (h2 : d ≤ 31) : ∃ i, n < i ∧ i ≤ n + 93 ∧ dayOf i = d := by
  have hnext := monthStart_next_le n
  rcases monthLen_or_succ (monthOf n + 1) with h | h
  · exact ⟨monthStart (monthOf n + 1) + d - 1, lt_of_next n h1, by omega, dayOf_add h1 (by omega)⟩
  · have hlen := monthLen_bounds (monthOf n + 1)
    have hsucc := monthStart_succ (monthOf n + 1)
    have hlt := lt_of_next n h1
    exact ⟨monthStart (monthOf n + 1 + 1) + d - 1, by omega, by omega, dayOf_add h1 (by omega)⟩

theorem exists_lastDay (n : Int) : ∃ i, n < i ∧ i ≤ n + 93 ∧ dayOf (i + 1) = 1 := by
  have hnext := monthStart_next_le n
  have hlen := monthLen_bounds (monthOf n + 1)
  refine ⟨monthStart (monthOf n + 1) + monthLen (monthOf n + 1) - 1, lt_of_next n (by omega), by omega, ?_⟩
  rw [dayOf_succ_eq_one, dayOf_add (by omega) le_rfl, monthOf_add (by omega) le_rfl]

theorem exists_weekday (n : Int) {w : Int} (h1 : 0 ≤ w) (h2 : w < 7) : ∃ i, n < i ∧ i ≤ n + 93 ∧ weekday i = w := by
  unfold weekday
  exact ⟨n + 1 + (w - (n + 5)) % 7, by omega, by omega, by omega⟩

end Calendar
