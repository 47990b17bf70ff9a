import Privahub.Web.Schedule

/-!
# The dates of a schedule form

The day loop of `getScheduledDatesWithinRange` lists the date of every day among the 7320 from the start's on that the form fires on (`Fires`) and
whose moment is in the range (`mem_scheduledDates`). A date names its day (`dateText_injective`).
-/

namespace Web.Schedule

open Calendar Utf16
open Bytes (twoDigits twoDigits_injective)

/-- The time value of `secs` seconds into day `n`. -/
def momentOf (zone n secs : Int) : Int := (n * 86400 + secs - zone) * 1000

def dateText (n : Int) : Utf16 := ofInt (monthOf n / 12) ++ pad (monthOf n % 12 + 1) ++ pad (dayOf n)

def weekKey (n : Int) : Utf16 := ofInt (if weekday n = 0 then 7 else weekday n)

/-- The form fires on day `n`; a day of the month that the month is too short for stands for its last. -/
def Fires (cycle : ScheduleCycle) (days : List Utf16) (n : Int) : Prop := match cycle with
  | .D => True
  | .W => weekKey n ∈ days
  | .M => ∃ d ∈ days, if d = LAST_DAY_OF_MONTH then dayOf n = monthLen (monthOf n) else ∃ k, toNumber d = some k ∧ dayOf n = min k (monthLen (monthOf n))

variable {zone n k d s start stop : Int} {cycle : ScheduleCycle} {days : List Utf16} {time : Utf16}

theorem pad_eq : ∀ n : Nat, n < 100 → pad n = ofBytes (twoDigits n) := by decide +kernel

theorem pad_injective (h0 : 0 ≤ n) (h1 : n < 100) (h2 : 0 ≤ k) (h3 : k < 100) (h : pad n = pad k) : n = k := by
  lift n to Nat using h0
  lift k to Nat using h2
  rw [pad_eq n (by omega), pad_eq k (by omega)] at h
  rw [twoDigits_injective (by omega) (by omega) (ofBytes_injective h)]

theorem length_pad (h0 : 0 ≤ n) (h1 : n < 100) : (pad n).length = 2 := by
  lift n to Nat using h0
  rw [pad_eq n (by omega)]
  rfl

theorem ofInt_injective : Function.Injective ofInt := ofBytes_injective.comp Bytes.itoa_injective

theorem dayOf_range (n : Int) : 1 ≤ dayOf n ∧ dayOf n ≤ 31 := by
  have h1 := dayOf_bounds n
  have h2 := monthLen_bounds (monthOf n)
  omega

theorem dateText_injective : Function.Injective dateText := by
  intro m n h
  have hm := dayOf_range m
  have hn := dayOf_range n
  unfold dateText at h
  obtain ⟨h, hday⟩ := List.append_inj' h (by rw [length_pad (by omega) (by omega), length_pad (by omega) (by omega)])
  obtain ⟨hyear, hmonth⟩ := List.append_inj' h (by rw [length_pad (by omega) (by omega), length_pad (by omega) (by omega)])
  have h1 := ofInt_injective hyear
  have h2 := pad_injective (by omega) (by omega) (by omega) (by omega) hmonth
  have h3 := pad_injective (by omega) (by omega) (by omega) (by omega) hday
  have h4 : monthOf m = monthOf n := by omega
  rw [← monthStart_dayOf m, ← monthStart_dayOf n, h3, h4]

theorem localDay_momentOf (h0 : 0 ≤ s) (h1 : s < 86400) : localDay zone (momentOf zone n s) = n := by
  unfold localDay momentOf
  omega

theorem newDate_eq (hy : 100 ≤ monthOf n / 12) (h m s : Int) :
    newDate zone (monthOf n / 12) (monthOf n % 12) (dayOf n) h m s = momentOf zone n (h * 3600 + m * 60 + s) := by
  have hday := monthStart_dayOf n
  unfold newDate makeDay momentOf
  rw [if_neg (by omega), show 12 * (monthOf n / 12) + monthOf n % 12 = monthOf n by omega]
  omega

theorem setDate_succ (zone d : Int) : setDate zone d (getDate zone d + 1) = d + 86400000 := by
  have hday := monthStart_dayOf (localDay zone d)
  unfold setDate makeDay getFullYear getMonth getDate
  rw [show 12 * (monthOf (localDay zone d) / 12) + monthOf (localDay zone d) % 12 = monthOf (localDay zone d) by omega]
  omega

theorem getDate_last (hy : 100 ≤ monthOf n / 12) : getDate zone (newDate zone (monthOf n / 12) (monthOf n % 12 + 1) 0 0 0 0) = monthLen (monthOf n) := by
  have hlast : newDate zone (monthOf n / 12) (monthOf n % 12 + 1) 0 0 0 0 = momentOf zone (monthStart (monthOf n) + monthLen (monthOf n) - 1) 0 := by
    unfold newDate makeDay momentOf
    rw [if_neg (by omega), show 12 * (monthOf n / 12) + (monthOf n % 12 + 1) = monthOf n + 1 by omega, monthStart_succ]
    omega
  have hlen := monthLen_bounds (monthOf n)
  rw [getDate, hlast, localDay_momentOf le_rfl (by decide), dayOf_add (by omega) le_rfl]

theorem candidate_iff (hy : 100 ≤ monthOf n / 12) : candidate zone cycle days (momentOf zone n 0) = true ↔ Fires cycle days n := by
  have hlocal : localDay zone (momentOf zone n 0) = n := localDay_momentOf le_rfl (by decide)
  cases cycle with
  | D => exact iff_of_true rfl trivial
  | W =>
    show days.contains _ = true ↔ _
    rw [List.contains_iff_mem, getDay, hlocal]
    rfl
  | M =>
    show (days.map _).contains _ = true ↔ _
    simp only [List.contains_iff_mem, List.mem_map, getFullYear, getMonth, hlocal, getDate_last hy]
    refine exists_congr fun d => and_congr_right fun _ => ?_
    rw [getDate, hlocal]
    by_cases hd : d = LAST_DAY_OF_MONTH
    · rw [if_pos hd, if_pos hd, Option.some_inj, eq_comm]
    · rw [if_neg hd, if_neg hd, Option.map_eq_some_iff]
      exact exists_congr fun k => and_congr_right fun _ => eq_comm

def secsOf (time : Utf16) : Int := timePart time 0 * 3600 + timePart time 1 * 60 + timePart time 2

theorem momentOn_eq (hy : 100 ≤ monthOf n / 12) : momentOn zone time (momentOf zone n 0) = momentOf zone n (secsOf time) := by
  unfold momentOn getFullYear getMonth getDate
  rw [localDay_momentOf le_rfl (by decide), newDate_eq hy]
  rfl

theorem mem_setAdd {result : List Utf16} {x y : Utf16} : y ∈ setAdd result x ↔ y ∈ result ∨ y = x := by
  unfold setAdd
  by_cases h : x ∈ result
  · rw [if_pos h]
    exact (or_iff_left_of_imp fun hy => hy ▸ h).symm
  · rw [if_neg h, List.mem_append, List.mem_singleton]

theorem mem_datesFrom (hs : 0 ≤ secsOf time) (guard : Nat) (hy : 100 ≤ monthOf n / 12) {result : List Utf16} (x : Utf16) :
    x ∈ datesFrom zone start stop cycle days time guard (momentOf zone n 0) result ↔
      x ∈ result ∨ ∃ k, n ≤ k ∧ k < n + guard ∧ Fires cycle days k ∧ start ≤ momentOf zone k (secsOf time) ∧
        momentOf zone k (secsOf time) ≤ stop ∧ x = dateText k := by
  induction guard generalizing n result with
  | zero =>
    refine (or_iff_left ?_).symm
    rintro ⟨k, h1, h2, -⟩
    omega
  | succ guard ih =>
    rw [datesFrom]
    by_cases hcursor : momentOf zone n 0 ≤ stop
    · have hymd : ymd zone (momentOf zone n 0) = dateText n := by
        show dateText (localDay zone (momentOf zone n 0)) = dateText n
        rw [localDay_momentOf le_rfl (by decide)]
      have hnext : setDate zone (momentOf zone n 0) (getDate zone (momentOf zone n 0) + 1) = momentOf zone (n + 1) 0 := by
        rw [setDate_succ]
        unfold momentOf
        omega
      have hyear : 100 ≤ monthOf (n + 1) / 12 := by
        have := monthOf_mono (show n ≤ n + 1 by omega)
        omega
      rw [if_pos hcursor, hnext, ih hyear, momentOn_eq hy, hymd]
      by_cases hday : candidate zone cycle days (momentOf zone n 0) = true ∧ start ≤ momentOf zone n (secsOf time) ∧ momentOf zone n (secsOf time) ≤ stop
      · rw [if_pos hday, mem_setAdd, or_assoc]
        refine or_congr_right ⟨?_, ?_⟩
        · rintro (rfl | ⟨k, h1, h2, hk⟩)
          · exact ⟨n, le_rfl, by omega, (candidate_iff hy).1 hday.1, hday.2.1, hday.2.2, rfl⟩
          · exact ⟨k, by omega, by omega, hk⟩
        · rintro ⟨k, h1, h2, hk⟩
          by_cases hkn : k = n
          · exact .inl (hkn ▸ hk.2.2.2)
          · exact .inr ⟨k, by omega, by omega, hk⟩
      · rw [if_neg hday]
        refine or_congr_right ⟨?_, ?_⟩
        · rintro ⟨k, h1, h2, hk⟩
          exact ⟨k, by omega, by omega, hk⟩
        · rintro ⟨k, h1, h2, hk⟩
          have hkn : k ≠ n := fun h => hday (h ▸ ⟨(candidate_iff (h ▸ hy)).2 hk.1, hk.2.1, hk.2.2.1⟩)
          exact ⟨k, by omega, by omega, hk⟩
    · rw [if_neg hcursor]
      refine (or_iff_left ?_).symm
      rintro ⟨k, h1, -, -, -, h2, -⟩
      unfold momentOf at *
      omega

theorem mem_scheduledDates (hs : 0 ≤ secsOf time) (hy : 100 ≤ getFullYear zone start) (x : Utf16) :
    x ∈ getScheduledDatesWithinRange zone start stop cycle days time ↔
      ∃ k, localDay zone start ≤ k ∧ k < localDay zone start + 7320 ∧ Fires cycle days k ∧ start ≤ momentOf zone k (secsOf time) ∧
        momentOf zone k (secsOf time) ≤ stop ∧ x = dateText k := by
  unfold getScheduledDatesWithinRange
  rw [getFullYear, getMonth, getDate, newDate_eq hy]
  exact (mem_datesFrom hs (366 * 20) hy x).trans (or_iff_right List.not_mem_nil)

end Web.Schedule
