import Privahub.Sched.CronText
import Privahub.Web.ScheduleDates

/-!
# The texts a schedule form is sent as

What the payload says of an accepted form's range, time of day and days is what the back end reads of it (`parse_formatDateTime`, `validTime`,
`dateFields_spec`).
-/

namespace Web.Schedule

open Calendar Utf16
open Bytes (twoDigits twoDigits_injective)

variable {zone n d : Int} {cycle : ScheduleCycle} {days : List Utf16} {time v d' : Utf16} {re : Bytes}

theorem pad_int (h0 : 0 ≤ n) (h1 : n < 100) : pad n = ofBytes (twoDigits n.toNat) := by
  lift n to Nat using h0
  exact pad_eq n (by omega)

theorem getMonth_bounds (zone d : Int) : 0 ≤ getMonth zone d ∧ getMonth zone d < 12 := by
  unfold getMonth
  omega

theorem localSeconds_eq (zone d : Int) :
    getHours zone d * 3600 + getMinutes zone d * 60 + getSeconds zone d = localSeconds zone d ∧ 0 ≤ getHours zone d ∧ getHours zone d ≤ 23 ∧
      0 ≤ getMinutes zone d ∧ getMinutes zone d ≤ 59 ∧ 0 ≤ getSeconds zone d ∧ getSeconds zone d ≤ 59 := by
  unfold getHours getMinutes getSeconds localSeconds
  omega

def textOf (zone d : Int) : Bytes :=
  Cronutil.dateTimeText (getFullYear zone d) (getMonth zone d + 1).toNat (getDate zone d).toNat (getHours zone d).toNat (getMinutes zone d).toNat
    (getSeconds zone d).toNat

theorem formatDateTime_eq (zone d : Int) : formatDateTime zone d = ofBytes (textOf zone d) := by
  have hmonth := getMonth_bounds zone d
  have hday : 1 ≤ getDate zone d ∧ getDate zone d ≤ 31 := dayOf_range _
  obtain ⟨-, h1, h2, h3, h4, h5, h6⟩ := localSeconds_eq zone d
  unfold formatDateTime
  rw [pad_int (by omega) (by omega), pad_int (by omega) (by omega), pad_int h1 (by omega), pad_int h3 (by omega), pad_int h5 (by omega)]
  simp only [textOf, Cronutil.dateTimeText, ofInt, lit, ofBytes, List.map_append, List.map_cons, List.append_assoc]
  rfl

theorem toUtf8_formatDateTime (zone d : Int) : toUtf8 (formatDateTime zone d) = textOf zone d := by
  have hmonth := getMonth_bounds zone d
  have hday : 1 ≤ getDate zone d ∧ getDate zone d ≤ 31 := dayOf_range _
  obtain ⟨-, h1, h2, h3, h4, h5, h6⟩ := localSeconds_eq zone d
  rw [formatDateTime_eq]
  exact toUtf8_ofBytes (Cronutil.isAscii_dateTimeText (by omega) (by omega) (by omega) (by omega) (by omega))

theorem trimSpace_textOf (zone d : Int) : Utf8.trimSpace (textOf zone d) = textOf zone d := by
  have hmonth := getMonth_bounds zone d
  have hday : 1 ≤ getDate zone d ∧ getDate zone d ≤ 31 := dayOf_range _
  obtain ⟨-, h1, h2, h3, h4, h5, h6⟩ := localSeconds_eq zone d
  exact Cronutil.trimSpace_dateTimeText (by omega) (by omega) (by omega) (by omega) (by omega)

theorem parse_formatDateTime (hd : d % 1000 = 0) (hy : 1000 ≤ getFullYear zone d ∧ getFullYear zone d ≤ 9999) :
    Cronutil.ParseDateTime zone (toUtf8 (formatDateTime zone d)) = .ok (d * 1000000) := by
  have hmonth := getMonth_bounds zone d
  have hday := dayOf_bounds (localDay zone d)
  have hlen := monthLen_bounds (monthOf (localDay zone d))
  have hsame := monthStart_dayOf (localDay zone d)
  obtain ⟨hsec, h1, h2, h3, h4, h5, h6⟩ := localSeconds_eq zone d
  have hM : 12 * getFullYear zone d + (((getMonth zone d + 1).toNat : Int) - 1) = monthOf (localDay zone d) := by
    unfold getFullYear getMonth
    omega
  have hdate : getDate zone d = dayOf (localDay zone d) := rfl
  have hread : Cronutil.parseInLocation zone (textOf zone d) = _ :=
    Cronutil.parseInLocation_text hy (by omega) (by omega) (by rw [hM]; omega) (by omega) (by omega) (by omega)
  rw [toUtf8_formatDateTime, Cronutil.ParseDateTime, trimSpace_textOf, hread]
  refine congrArg Except.ok ?_
  unfold Cronutil.date
  rw [hM]
  unfold localSeconds at hsec
  unfold localDay at *
  omega

theorem parse_formatDateTime_error (hy : ¬(1000 ≤ getFullYear zone d ∧ getFullYear zone d ≤ 9999)) :
    Cronutil.ParseDateTime zone (toUtf8 (formatDateTime zone d)) = .error (.time (toUtf8 (formatDateTime zone d))) := by
  have hnone : Cronutil.parseInLocation zone (textOf zone d) = none := Cronutil.parseInLocation_none hy
  rw [toUtf8_formatDateTime, Cronutil.ParseDateTime, trimSpace_textOf, hnone]

theorem whole_of_parse (h : parseDateTime zone v = some d) : d % 1000 = 0 := by
  unfold parseDateTime at h
  simp only at h
  split_ifs at h
  cases h
  unfold newDate
  omega

theorem digit_eq {c : UInt16} (h : isDigit c = true) : ∃ k, k < 10 ∧ c = (UInt8.ofNat (48 + k)).toUInt16 := by
  have h48 : (48 : UInt16).toNat = 48 := rfl
  have h57 : (57 : UInt16).toNat = 57 := rfl
  simp only [isDigit, Bool.and_eq_true, decide_eq_true_eq, UInt16.le_iff_toNat_le] at h
  refine ⟨c.toNat - 48, by omega, UInt16.toNat_inj.1 ?_⟩
  rw [UInt8.toNat_toUInt16, Utf8.toNat_ofNat (by omega)]
  omega

theorem fits_nil (h : fits [] v = true) : v = [] := by
  cases v with
  | nil => rfl
  | cons c v => cases h

theorem fits_cons {r : UInt8} (h : fits (r :: re) v = true) : ∃ c v', v = c :: v' ∧ fitsChar r c = true ∧ fits re v' = true := by
  cases v with
  | nil => cases h
  | cons c v => exact ⟨c, v, rfl, (Bool.and_eq_true_iff.1 h).1, (Bool.and_eq_true_iff.1 h).2⟩

theorem fits_two {r : UInt8} (hr : r = 100 ∨ r = 53) (h : fits (r :: 100 :: re) v = true) :
    ∃ n v', n < 100 ∧ (r = 53 → n < 60) ∧ v = ofBytes (twoDigits n) ++ v' ∧ fits re v' = true := by
  obtain ⟨a, v1, rfl, ha, h1⟩ := fits_cons h
  obtain ⟨b, v2, rfl, hb, h2⟩ := fits_cons h1
  have hadigit : isDigit a = true ∧ (r = 53 → a ≤ 53) := by
    rcases hr with rfl | rfl
    · exact ⟨ha, fun h => absurd h (by decide)⟩
    · have ha : (48 ≤ a && a ≤ 53) = true := ha
      have h48 : (48 : UInt16).toNat = 48 := rfl
      have h53 : (53 : UInt16).toNat = 53 := rfl
      have h57 : (57 : UInt16).toNat = 57 := rfl
      simp only [isDigit, Bool.and_eq_true, decide_eq_true_eq, UInt16.le_iff_toNat_le] at ha ⊢
      omega
  obtain ⟨i, hi, rfl⟩ := digit_eq hadigit.1
  obtain ⟨j, hj, rfl⟩ := digit_eq hb
  refine ⟨10 * i + j, v2, by omega, fun h53 => ?_, ?_, h2⟩
  · have hle := UInt16.le_iff_toNat_le.1 (hadigit.2 h53)
    have h53' : (53 : UInt16).toNat = 53 := rfl
    rw [UInt8.toNat_toUInt16, Utf8.toNat_ofNat (by omega)] at hle
    omega
  · rw [twoDigits, show (10 * i + j) / 10 = i by omega, show (10 * i + j) % 10 = j by omega]
    rfl

theorem fits_colon (h : fits (58 :: re) v = true) : ∃ v', v = 58 :: v' ∧ fits re v' = true := by
  obtain ⟨c, v', rfl, hc, hrest⟩ := fits_cons h
  obtain rfl : c = 58 := beq_iff_eq.1 hc
  exact ⟨v', rfl, hrest⟩

theorem digitsVal_ofBytes : ∀ n < 100, digitsVal (ofBytes (twoDigits n)) = n := by decide +kernel

theorem toNumber_twoDigits : ∀ n < 100, toNumber (ofBytes (twoDigits n)) = some (n : Int) := by decide +kernel

theorem validTime (h : isValidTime time = true) :
    ∃ hour minute second, hour ≤ 23 ∧ minute ≤ 59 ∧ second ≤ 59 ∧ toScheduleTime time = ofBytes (Cronutil.timeText hour minute second) := by
  unfold isValidTime at h
  simp only [Bool.and_eq_true, Bool.or_eq_true, decide_eq_true_eq] at h
  obtain ⟨hfits, hlt⟩ := h
  have hhour : ∀ hour w, hour < 100 → group (ofBytes (twoDigits hour) ++ w) 0 2 = hour := fun hour w hh => congrArg _ (digitsVal_ofBytes hour hh)
  rcases hfits with f0 | f0
  · obtain ⟨hour, v1, h1, -, hv, f1⟩ := fits_two (.inl rfl) (show fits (100 :: 100 :: [58, 53, 100]) (trim time) = true from f0)
    obtain ⟨v2, rfl, f2⟩ := fits_colon f1
    obtain ⟨minute, v3, -, h2, rfl, f3⟩ := fits_two (.inr rfl) f2
    obtain rfl := fits_nil f3
    rw [hv, hhour hour _ h1] at hlt
    refine ⟨hour, minute, 0, by omega, by have := h2 rfl; omega, by decide, ?_⟩
    rw [toScheduleTime, hv]
    rfl
  · obtain ⟨hour, v1, h1, -, hv, f1⟩ := fits_two (.inl rfl) (show fits (100 :: 100 :: [58, 53, 100, 58, 53, 100]) (trim time) = true from f0)
    obtain ⟨v2, rfl, f2⟩ := fits_colon f1
    obtain ⟨minute, v3, -, h2, rfl, f3⟩ := fits_two (.inr rfl) f2
    obtain ⟨v4, rfl, f4⟩ := fits_colon f3
    obtain ⟨second, v5, -, h3, rfl, f5⟩ := fits_two (.inr rfl) f4
    obtain rfl := fits_nil f5
    rw [hv, hhour hour _ h1] at hlt
    refine ⟨hour, minute, second, by omega, by have := h2 rfl; omega, by have := h3 rfl; omega, ?_⟩
    rw [toScheduleTime, hv]
    rfl

theorem ofBytes_intercalate (b : UInt8) (l : List Bytes) : ofBytes ([b].intercalate l) = [b.toUInt16].intercalate (l.map ofBytes) := by
  induction l with
  | nil => rfl
  | cons x l ih =>
    cases l with
    | nil => simp
    | cons y l =>
      rw [List.intercalate_cons_cons, ofBytes_append, ofBytes_append, ih]
      simp only [List.map_cons, List.intercalate_cons_cons]
      rfl

theorem mem_ofBytes {b : UInt8} {s : Bytes} (h : b.toUInt16 ∈ ofBytes s) : b ∈ s := by
  obtain ⟨c, hc, heq⟩ := List.mem_map.1 h
  obtain rfl : c = b := UInt8.toNat_inj.1 (by simpa using congrArg UInt16.toNat heq)
  exact hc

theorem timePart_eq {hour minute second : Nat} (hh : hour < 100) (hm : minute < 100) (hs : second < 100)
    (h : toScheduleTime time = ofBytes (Cronutil.timeText hour minute second)) :
    timePart time 0 = hour ∧ timePart time 1 = minute ∧ timePart time 2 = second := by
  have hsplit : (toScheduleTime time).splitOn 58 = [ofBytes (twoDigits hour), ofBytes (twoDigits minute), ofBytes (twoDigits second)] := by
    rw [h, Cronutil.timeText, ofBytes_intercalate]
    refine List.splitOn_intercalate 58 (fun l hl hc => ?_) (List.cons_ne_nil _ _)
    obtain ⟨k, hk, rfl⟩ : ∃ k, k < 100 ∧ l = ofBytes (twoDigits k) := by
      simp only [List.map_cons, List.map_nil, List.mem_cons, List.not_mem_nil, or_false] at hl
      rcases hl with rfl | rfl | rfl
      exacts [⟨hour, hh, rfl⟩, ⟨minute, hm, rfl⟩, ⟨second, hs, rfl⟩]
    exact absurd (Bytes.isDigit_twoDigits hk 58 (mem_ofBytes hc)) (by decide)
  unfold timePart
  rw [hsplit]
  simp only [List.getElem?_cons_zero, List.getElem?_cons_succ, Option.bind_some, toNumber_twoDigits _ hh, toNumber_twoDigits _ hm, toNumber_twoDigits _ hs,
    Option.getD_some]
  exact ⟨trivial, trivial, trivial⟩

/-- The entry `d` of a form's days names day `n`. -/
def Names (cycle : ScheduleCycle) (d : Utf16) (n : Int) : Prop := match cycle with
  | .D => True
  | .W => weekKey n = d
  | .M => if d = LAST_DAY_OF_MONTH then dayOf n = monthLen (monthOf n) else toNumber d = some (dayOf n)

def itemOf (d : Utf16) : Bytes := if d = LAST_DAY_OF_MONTH then str "end" else toUtf8 d

structure Item (f : Bytes → Except Cronutil.ErrInvalidConfig Bytes) (cycle : ScheduleCycle) (d : Utf16) : Prop where
  text : (if d = LAST_DAY_OF_MONTH then lit "end" else d) = ofBytes (itemOf d)
  word : Utf8.IsWord (itemOf d) ∧ itemOf d ≠ [] ∧ 44 ∉ itemOf d
  reads : ∃ rest, f (itemOf d) = .ok rest ∧ Cronutil.Reads rest (Names cycle d)
  back : ∀ n, ∃ k, n < k ∧ k ≤ n + 93 ∧ Names cycle d k

theorem ofInt_ne_last {k : Nat} : ofInt k ≠ LAST_DAY_OF_MONTH := by
  have hlast : LAST_DAY_OF_MONTH = ofInt (-1) := by decide
  intro h
  have := ofInt_injective (h.trans hlast)
  omega

theorem itemOf_ofInt (k : Nat) : itemOf (ofInt k) = Bytes.itoa k := by
  rw [itemOf, if_neg ofInt_ne_last]
  exact toUtf8_ofBytes (Utf8.isWord_itoa k).isAscii

theorem word_itoa (k : Nat) : Utf8.IsWord (Bytes.itoa k) ∧ Bytes.itoa k ≠ [] ∧ 44 ∉ Bytes.itoa (k : Int) :=
  ⟨Utf8.isWord_itoa k, Cronutil.itoa_ne_nil k, fun h => absurd (Bytes.isDigit_of_mem_digits (n := k) h) (by decide)⟩

theorem week_item (hd : d' ∈ WEEK_DAY_KEYS) : Item Cronutil.weeklyFields .W d' := by
  obtain ⟨i, hi, rfl⟩ := List.mem_map.1 hd
  have hi := List.mem_range.1 hi
  obtain ⟨rest, hrest, hreads⟩ := Cronutil.weekly_reads (k := i + 1) (by omega) (by omega)
  have hnames : Names .W (ofInt ((i + 1 : Nat) : Int)) = fun n => weekday n = ((i + 1 : Nat) : Int) % 7 := by
    funext n
    have hw : 0 ≤ weekday n ∧ weekday n < 7 := by
      unfold weekday
      omega
    refine propext ⟨fun h => ?_, fun h => ?_⟩
    · have := ofInt_injective h
      split_ifs at this <;> omega
    · refine congrArg ofInt ?_
      split_ifs <;> omega
  have hcast : (i : Int) + 1 = ((i + 1 : Nat) : Int) := rfl
  rw [hcast]
  exact {
    text := by rw [if_neg ofInt_ne_last, itemOf_ofInt]; rfl
    word := by rw [itemOf_ofInt]; exact word_itoa _
    reads := ⟨rest, by rw [itemOf_ofInt]; exact hrest, hnames ▸ hreads⟩
    back := fun n => hnames ▸ exists_weekday n (by omega) (by omega)
  }

theorem toNumber_ofInt : ∀ k : Nat, k < 32 → toNumber (ofInt k) = some (k : Int) := by decide +kernel

theorem month_item (hd : d' ∈ MONTH_DAY_KEYS) : Item Cronutil.monthlyFields .M d' := by
  rcases List.mem_append.1 hd with hd | hd
  · obtain ⟨i, hi, rfl⟩ := List.mem_map.1 hd
    have hi := List.mem_range.1 hi
    obtain ⟨rest, hrest, hreads⟩ := Cronutil.monthly_reads (k := i + 1) (by omega) (by omega)
    have hnames : Names .M (ofInt ((i + 1 : Nat) : Int)) = fun n => dayOf n = ((i + 1 : Nat) : Int) := by
      funext n
      rw [Names, if_neg ofInt_ne_last, toNumber_ofInt _ (by omega), Option.some_inj]
      exact propext eq_comm
    have hcast : (i : Int) + 1 = ((i + 1 : Nat) : Int) := rfl
    rw [hcast]
    exact {
      text := by rw [if_neg ofInt_ne_last, itemOf_ofInt]; rfl
      word := by rw [itemOf_ofInt]; exact word_itoa _
      reads := ⟨rest, by rw [itemOf_ofInt]; exact hrest, hnames ▸ hreads⟩
      back := fun n => hnames ▸ exists_dayOf n (by omega) (by omega)
    }
  · obtain rfl := List.mem_singleton.1 hd
    have hnames : Names .M LAST_DAY_OF_MONTH = fun n => dayOf n = monthLen (monthOf n) := rfl
    have hitem : itemOf LAST_DAY_OF_MONTH = str "end" := if_pos rfl
    exact {
      text := by rw [if_pos rfl, hitem]
      word := by rw [hitem]; decide
      reads := by rw [hitem, hnames]; exact Cronutil.last_reads
      back := fun n => by
        obtain ⟨k, h1, h2, hk⟩ := exists_lastDay n
        exact ⟨k, h1, h2, dayOf_succ_eq_one.1 hk⟩
    }

theorem mem_sortDays {x : Utf16} : x ∈ sortDays days ↔ x ∈ days := by
  rw [sortDays, List.mem_mergeSort, List.mem_eraseDups]

theorem splitList_scheduleDate {f : Bytes → Except Cronutil.ErrInvalidConfig Bytes} (hcycle : cycle ≠ .D) (hne : days ≠ [])
    (hitems : ∀ d ∈ days, Item f cycle d) :
    Cronutil.splitList (toUtf8 (buildScheduleDate cycle days)) = (sortDays days).map itemOf ∧ (sortDays days).map itemOf ≠ [] := by
  have hsorted : ∀ d ∈ sortDays days, Item f cycle d := fun d hd => hitems d (mem_sortDays.1 hd)
  have hnil : (sortDays days).map itemOf ≠ [] := by
    obtain ⟨d, hd⟩ := List.exists_mem_of_ne_nil days hne
    exact List.ne_nil_of_mem (List.mem_map_of_mem (mem_sortDays.2 hd))
  have htext : buildScheduleDate cycle days = ofBytes ([44].intercalate ((sortDays days).map itemOf)) := by
    rw [buildScheduleDate, if_neg hcycle, ofBytes_intercalate, List.map_map, List.map_congr_left fun d hd => (hsorted d hd).text]
    rfl
  have hwords : ∀ it ∈ (sortDays days).map itemOf, Utf8.IsWord it ∧ it ≠ [] ∧ 44 ∉ it := by
    intro it hit
    obtain ⟨d, hd, rfl⟩ := List.mem_map.1 hit
    exact (hsorted d hd).word
  rw [htext, toUtf8_ofBytes (Utf8.isAscii_intercalate (by decide) fun it hit => (hwords it hit).1.isAscii)]
  exact ⟨Cronutil.splitList_intercalate hnil hwords, hnil⟩

theorem mapM_items {f : Bytes → Except Cronutil.ErrInvalidConfig Bytes} (hitems : ∀ d ∈ days, Item f cycle d) :
    ∃ rests, ((sortDays days).map itemOf).mapM f = .ok rests ∧ List.Forall₂ (fun d rest => Cronutil.Reads rest (Names cycle d)) (sortDays days) rests := by
  have hreads : ∀ d ∈ sortDays days, ∃ rest, (fun d => f (itemOf d)) d = .ok rest ∧ Cronutil.Reads rest (Names cycle d) :=
    fun d hd => (hitems d (mem_sortDays.1 hd)).reads
  obtain ⟨rests, hrests, hall⟩ := Except.exists_mapM hreads
  exact ⟨rests, by rw [List.mapM_map]; exact hrests, hall⟩

/-- The entries of a form's days; a daily schedule has one without content. -/
def entries (cycle : ScheduleCycle) (days : List Utf16) : List Utf16 := if cycle = .D then [[]] else days

structure ReadAs (cycle : ScheduleCycle) (days : List Utf16) (rests : List Bytes) : Prop where
  fields : Cronutil.dateFields (toUtf8 cycle.text) (toUtf8 (buildScheduleDate cycle days)) = .ok rests
  left : ∀ rest ∈ rests, ∃ d ∈ entries cycle days, Cronutil.Reads rest (Names cycle d)
  right : ∀ d ∈ entries cycle days, ∃ rest ∈ rests, Cronutil.Reads rest (Names cycle d)
  back : ∀ d ∈ entries cycle days, ∀ n, ∃ k, n < k ∧ k ≤ n + 93 ∧ Names cycle d k

theorem readAs_of_items {f : Bytes → Except Cronutil.ErrInvalidConfig Bytes} (hcycle : cycle ≠ .D) (hne : days ≠ []) (hitems : ∀ d ∈ days, Item f cycle d)
    (hf : ∀ list, Cronutil.splitList list ≠ [] → Cronutil.dateFields (toUtf8 cycle.text) list = (Cronutil.splitList list).mapM f) :
    ∃ rests, ReadAs cycle days rests := by
  obtain ⟨hsplit, hnil⟩ := splitList_scheduleDate hcycle hne hitems
  obtain ⟨rests, hrests, hall⟩ := mapM_items hitems
  have hentries : entries cycle days = days := if_neg hcycle
  exact ⟨rests, {
    fields := by rw [hf _ (hsplit ▸ hnil), hsplit, hrests]
    left := fun rest hrest => by
      obtain ⟨d, hd, hreads⟩ := hall.exists_left rest hrest
      exact ⟨d, hentries.symm ▸ mem_sortDays.1 hd, hreads⟩
    right := fun d hd => hall.exists_right d (mem_sortDays.2 (hentries ▸ hd))
    back := fun d hd => (hitems d (hentries ▸ hd)).back
  }⟩

theorem keys_of_daysError (hcycle : cycle ≠ .D) (h : daysError cycle days = none) :
    days ≠ [] ∧ ∀ d ∈ days, d ∈ if cycle = .W then WEEK_DAY_KEYS else MONTH_DAY_KEYS := by
  unfold daysError at h
  rw [if_neg hcycle] at h
  generalize (if cycle = .W then WEEK_DAY_KEYS else MONTH_DAY_KEYS) = keys at *
  split_ifs at h with h1 h2 h3
  refine ⟨fun hnil => h1 (hnil ▸ rfl), fun d hd => ?_⟩
  by_contra hkey
  exact h3 (List.any_eq_true.2 ⟨d, hd, by simpa using hkey⟩)

theorem dateFields_spec (hdays : daysError cycle days = none) : ∃ rests, ReadAs cycle days rests := by
  cases cycle with
  | D =>
    exact ⟨[str "* * ?"], {
      fields := rfl
      left := fun rest hrest => ⟨[], List.mem_singleton_self _, List.mem_singleton.1 hrest ▸ Cronutil.reads_daily⟩
      right := fun d hd => ⟨_, List.mem_singleton_self _, Cronutil.reads_daily⟩
      back := fun d hd n => ⟨n + 1, by omega, by omega, trivial⟩
    }⟩
  | W =>
    obtain ⟨hne, hkeys⟩ := keys_of_daysError (by decide) hdays
    have hW : Cronutil.toUpper (Utf8.trimSpace (toUtf8 ScheduleCycle.W.text)) = str "W" := by decide
    refine readAs_of_items (by decide) hne (fun d hd => week_item (hkeys d hd)) fun list hlist => ?_
    rw [Cronutil.dateFields, hW]
    exact (if_neg (by decide)).trans ((if_pos rfl).trans (if_neg hlist))
  | M =>
    obtain ⟨hne, hkeys⟩ := keys_of_daysError (by decide) hdays
    have hM : Cronutil.toUpper (Utf8.trimSpace (toUtf8 ScheduleCycle.M.text)) = str "M" := by decide
    refine readAs_of_items (by decide) hne (fun d hd => month_item (hkeys d hd)) fun list hlist => ?_
    rw [Cronutil.dateFields, hM]
    exact (if_neg (by decide)).trans ((if_neg (by decide)).trans ((if_pos rfl).trans (if_neg hlist)))

end Web.Schedule
