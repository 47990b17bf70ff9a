import Privahub.Lib.Ascii
import Privahub.Lib.JsonWrite
import Privahub.Sched.Triggers

/-!
# Reading a schedule's texts

A date and time written out with a year of four digits is read as what it says, and with another year it is refused (`parseDateTime_text`,
`parseDateTime_error`); so is a time of day. Each expression built for a day of the week or month fires on that day (`weekly_on`, `monthly_on`).
-/

namespace Cronutil

open Calendar Utf8
open Bytes (twoDigits isDigit_twoDigits)

variable {zone y : Int} {mo d h mi s n : Nat} {w rest : Bytes}

theorem atoi_itoa {n : Int} (h1 : -2 ^ 63 ≤ n) (h2 : n < 2 ^ 63) : atoi (Bytes.itoa n) = some n := by
  have hplus : ∀ ds, Bytes.itoa n ≠ 43 :: ds := by
    intro ds hds
    cases n with
    | ofNat n => exact absurd (Bytes.isDigit_of_mem_digits (n := n) (b := 43) (by rw [show Bytes.digits n = 43 :: ds from hds]; exact List.mem_cons_self)) (by decide)
    | negSucc n => cases hds
  unfold atoi
  split
  · exact absurd ‹_› (hplus _)
  · exact absurd ‹_› (hplus _)
  · exact Json.parseInt64_itoa h1 h2

theorem digitsVal_twoDigits : ∀ n < 100, Json.digitsVal (twoDigits n) = n := by decide +kernel

theorem atoi_twoDigits : ∀ n < 100, atoi (twoDigits n) = some (n : Int) := by decide +kernel

theorem getnumMax_twoDigits (hn : n < 100) (fixed : Bool) (lo hi : Int) (hlo : lo ≤ n) (hhi : (n : Int) ≤ hi) (rest : Bytes) :
    getnumMax (twoDigits n ++ rest) fixed lo hi = some ((n : Int), rest) := by
  have h0 : isDigitAt (twoDigits n ++ rest) 0 = true := Bytes.isDigit_ofNat (by omega)
  have h1 : isDigitAt (twoDigits n ++ rest) 1 = true := Bytes.isDigit_ofNat (by omega)
  have hget : getnum (twoDigits n ++ rest) fixed = some ((n : Int), rest) := by
    rw [getnum, h0, h1]
    show some ((Json.digitsVal (twoDigits n) : Int), rest) = _
    rw [digitsVal_twoDigits n hn]
  rw [getnumMax, hget, Option.filter_some, if_pos (decide_eq_true (And.intro hlo hhi))]

def dateTimeText (y : Int) (mo d h mi s : Nat) : Bytes :=
  Bytes.itoa y ++ (45 :: (twoDigits mo ++ (45 :: (twoDigits d ++ (32 :: (twoDigits h ++ (58 :: (twoDigits mi ++ (58 :: twoDigits s)))))))))

theorem isAscii_dateTimeText (hmo : mo < 100) (hd : d < 100) (hh : h < 100) (hmi : mi < 100) (hs : s < 100) : IsAscii (dateTimeText y mo d h mi s) := by
  have htwo : ∀ {n}, n < 100 → IsAscii (twoDigits n) := fun hn => (isWord_twoDigits hn).isAscii
  exact (isWord_itoa y).isAscii.append (isAscii_cons (by decide) ((htwo hmo).append (isAscii_cons (by decide) ((htwo hd).append
    (isAscii_cons (by decide) ((htwo hh).append (isAscii_cons (by decide) ((htwo hmi).append (isAscii_cons (by decide) (htwo hs))))))))))

theorem itoa_ne_nil (y : Int) : Bytes.itoa y ≠ [] := by
  cases y with
  | ofNat n => exact Bytes.digits_ne_nil n
  | negSucc n => exact List.cons_ne_nil _ _

theorem trimSpace_dateTimeText (hmo : mo < 100) (hd : d < 100) (hh : h < 100) (hmi : mi < 100) (hs : s < 100) :
    trimSpace (dateTimeText y mo d h mi s) = dateTimeText y mo d h mi s := by
  refine trimSpace_ascii (isAscii_dateTimeText hmo hd hh hmi hs) (fun b hb => ?_) fun b hb => ?_
  · rw [dateTimeText, List.head?_append_of_ne_nil _ (itoa_ne_nil y)] at hb
    exact (isWord_itoa y b (List.mem_of_mem_head? hb)).2
  · have hlast : (dateTimeText y mo d h mi s).getLast? = (twoDigits s).getLast? := by
      simp [dateTimeText, twoDigits]
    rw [hlast] at hb
    exact (isWord_twoDigits hs b (List.mem_of_mem_getLast? hb)).2

theorem take_year (hy : 1000 ≤ y ∧ y ≤ 9999) (rest : Bytes) :
    (Bytes.itoa y ++ rest).take 4 = Bytes.itoa y ∧ (Bytes.itoa y ++ rest).drop 4 = rest ∧ (Bytes.itoa y).length = 4 ∧
      (Bytes.itoa y).all Bytes.isDigit = true ∧ (Json.digitsVal (Bytes.itoa y) : Int) = y := by
  lift y to Nat using by omega
  have h4 : (Bytes.digits y).length ≤ 4 := Bytes.length_digits_le (by decide) (by omega)
  have h3 : ¬(Bytes.digits y).length ≤ 3 := by
    rw [Bytes.digits, List.length_map, Nat.length_toDigits_le_iff (by decide) (by decide)]
    omega
  have hlen : (Bytes.itoa y).length = 4 := by
    show (Bytes.digits y).length = 4
    omega
  refine ⟨List.take_left' hlen, List.drop_left' hlen, hlen, List.all_eq_true.2 fun b hb => Bytes.isDigit_of_mem_digits hb, ?_⟩
  exact congrArg _ (Json.digitsVal_digits y)

theorem parseInLocation_text (hy : 1000 ≤ y ∧ y ≤ 9999) (hmo : 1 ≤ mo ∧ mo ≤ 12) (hd : 1 ≤ d ∧ d < 100) (hlen : (d : Int) ≤ monthLen (12 * y + (mo - 1)))
    (hh : h ≤ 23) (hmi : mi ≤ 59) (hs : s ≤ 59) :
    parseInLocation zone (dateTimeText y mo d h mi s) = some (date zone y mo d h mi s 0) := by
  obtain ⟨htake, hdrop, h4, hall, hval⟩ := take_year hy (45 :: (twoDigits mo ++ (45 :: (twoDigits d ++ (32 :: (twoDigits h ++ (58 :: (twoDigits mi ++ (58 :: twoDigits s)))))))))
  have hspace : ∀ t, skipSpace (32 :: (twoDigits h ++ t)) = some (twoDigits h ++ t) := by
    intro t
    have hne : ¬(UInt8.ofNat (48 + h / 10) == 32) = true := by
      have : h / 10 ≤ 2 := by omega
      interval_cases h / 10 <;> decide
    have hdrop : (twoDigits h ++ t).dropWhile (· == 32) = twoDigits h ++ t := List.dropWhile_cons_of_neg hne
    rw [skipSpace, if_neg (by simp), List.dropWhile_cons_of_pos (by decide), hdrop]
  have hskip : ∀ (c : UInt8) (t : Bytes), skip c (c :: t) = some t := fun c t => if_pos rfl
  have hsec := getnumMax_twoDigits (show s < 100 by omega) true 0 59 (by omega) (by omega) []
  rw [List.append_nil] at hsec
  unfold parseInLocation dateTimeText
  rw [htake, hdrop, if_pos ⟨h4, hall⟩]
  simp only [Option.bind_eq_bind, Option.bind_some, hval, hskip, hspace, getnumMax_twoDigits (show mo < 100 by omega) true 1 12 (by omega) (by omega),
    getnumMax_twoDigits (show d < 100 by omega) true 0 99 (by omega) (by omega),
    getnumMax_twoDigits (show h < 100 by omega) false 0 23 (by omega) (by omega),
    getnumMax_twoDigits (show mi < 100 by omega) true 0 59 (by omega) (by omega), hsec, fraction]
  exact if_pos ⟨trivial, by omega, hlen⟩

theorem parseInLocation_none (hy : ¬(1000 ≤ y ∧ y ≤ 9999)) : parseInLocation zone (dateTimeText y mo d h mi s) = none := by
  unfold parseInLocation dateTimeText
  generalize twoDigits mo ++ _ = rest
  rcases lt_or_ge y 0 with hneg | hpos
  · obtain ⟨n, rfl⟩ := Int.eq_negSucc_of_lt_zero hneg
    rw [if_neg]
    · rfl
    · rintro ⟨-, hall⟩
      exact absurd (List.all_eq_true.1 hall 45 List.mem_cons_self) (by decide)
  lift y to Nat using hpos
  have hitoa : Bytes.itoa (y : Int) = Bytes.digits y := rfl
  rw [hitoa]
  by_cases hlow : (Bytes.digits y).length ≤ 3
  · rw [if_neg]
    · rfl
    · rintro ⟨-, hall⟩
      refine absurd (List.all_eq_true.1 hall 45 ?_) (by decide)
      obtain ⟨k, hk⟩ := Nat.exists_eq_add_of_lt (show (Bytes.digits y).length < 4 by omega)
      rw [List.take_append, show 4 - (Bytes.digits y).length = k + 1 by omega, List.take_succ_cons]
      exact List.mem_append_right _ List.mem_cons_self
  · have hlong : ¬(Bytes.digits y).length ≤ 4 := by
      rw [Bytes.digits, List.length_map, Nat.length_toDigits_le_iff (by decide) (by decide)] at hlow ⊢
      omega
    obtain ⟨b, t, hbt⟩ := List.exists_cons_of_ne_nil (show (Bytes.digits y).drop 4 ≠ [] by rw [Ne, List.drop_eq_nil_iff]; exact hlong)
    have hb : b ≠ 45 := by
      rintro rfl
      exact absurd (Bytes.isDigit_of_mem_digits (List.mem_of_mem_drop (hbt ▸ List.mem_cons_self))) (by decide)
    have hskip : skip 45 ((Bytes.digits y ++ 45 :: rest).drop 4) = none := by
      rw [List.drop_append_of_le_length (by omega), hbt]
      exact if_neg hb
    split_ifs
    · show (skip 45 ((Bytes.digits y ++ 45 :: rest).drop 4)).bind _ >>= _ = none
      rw [hskip]
      rfl
    · rfl

def timeText (h m s : Nat) : Bytes := [58].intercalate [twoDigits h, twoDigits m, twoDigits s]

theorem isWord_timeText (hh : h < 100) (hmi : mi < 100) (hs : s < 100) : IsWord (timeText h mi s) := by
  have hcolon : (58 : UInt8).toNat < 128 ∧ isSpaceByte 58 = false := ⟨by decide, rfl⟩
  intro b hb
  have hb : b ∈ twoDigits h ++ 58 :: (twoDigits mi ++ 58 :: twoDigits s) := hb
  rcases List.mem_append.1 hb with hb | hb
  · exact isWord_twoDigits hh b hb
  rcases List.mem_cons.1 hb with rfl | hb
  · exact hcolon
  rcases List.mem_append.1 hb with hb | hb
  · exact isWord_twoDigits hmi b hb
  rcases List.mem_cons.1 hb with rfl | hb
  · exact hcolon
  · exact isWord_twoDigits hs b hb

theorem timePart_twoDigits {limit : Int} (hn : n < 100) (hmax : (n : Int) ≤ limit) (whole : Bytes) : timePart whole (twoDigits n) limit = .ok (n : Int) := by
  rw [timePart, trimSpace_word (isWord_twoDigits hn), atoi_twoDigits n hn]
  exact if_neg (by omega)

theorem parseScheduleTime_text (hh : h ≤ 23) (hmi : mi ≤ 59) (hs : s ≤ 59) : ParseScheduleTime (timeText h mi s) = .ok ((h : Int), (mi : Int), (s : Int)) := by
  have hsplit : (timeText h mi s).splitOn 58 = [twoDigits h, twoDigits mi, twoDigits s] := by
    refine List.splitOn_intercalate 58 (fun l hl hc => ?_) (List.cons_ne_nil _ _)
    obtain ⟨k, hk, rfl⟩ : ∃ k, k < 100 ∧ l = twoDigits k := by
      simp only [List.mem_cons, List.not_mem_nil, or_false] at hl
      rcases hl with rfl | rfl | rfl
      exacts [⟨h, by omega, rfl⟩, ⟨mi, by omega, rfl⟩, ⟨s, by omega, rfl⟩]
    exact absurd (isDigit_twoDigits hk 58 hc) (by decide)
  rw [ParseScheduleTime, trimSpace_word (isWord_timeText (by omega) (by omega) (by omega)), hsplit]
  simp only
  rw [timePart_twoDigits (by omega) (by omega), timePart_twoDigits (by omega) (by omega), timePart_twoDigits (by omega) (by omega)]
  rfl

structure TimeOfDay (h m s : Int) : Prop where
  hour : 0 ≤ h ∧ h ≤ 23
  minute : 0 ≤ m ∧ m ≤ 59
  second : 0 ≤ s ∧ s ≤ 59

/-- The expression fires at `secs` on the days with `P`. -/
structure Expr.Says (e : Expr) (secs : Int) (P : Int → Prop) : Prop where
  secs_eq : e.secs = secs
  on : ∀ n, e.On n = true ↔ P n

theorem Expr.Says.recurring {e : Expr} {secs : Int} {P : Int → Prop} (h : e.Says secs P) (hs : 0 ≤ secs ∧ secs < 86400)
    (hP : ∀ n, ∃ k, n < k ∧ k ≤ n + 93 ∧ P k) : e.Recurring where
  secs := h.secs_eq ▸ hs
  back n := by
    obtain ⟨k, h1, h2, hk⟩ := hP n
    exact ⟨k, h1, h2, (h.on k).2 hk⟩

section Reading

variable {hour minute second : Int}

theorem fields_exprText (rest : Bytes) :
    fields (exprText hour minute second rest) = Bytes.itoa second :: Bytes.itoa minute :: Bytes.itoa hour :: fields rest := by
  have hw : ∀ n s, fields (Bytes.itoa n ++ 32 :: s) = Bytes.itoa n :: fields s := fun n s => fields_cons (isWord_itoa n) (itoa_ne_nil n) s
  rw [← hw hour, ← hw minute, ← hw second]
  simp only [exprText, List.append_assoc, List.cons_append, List.nil_append]

theorem fixedField_itoa (h0 : 0 ≤ hour) {max : Int} (h1 : hour ≤ max) (hmax : max < 2 ^ 63) (expr field : Bytes) :
    fixedField expr field (Bytes.itoa hour) max = .ok hour := by
  rw [fixedField, atoi_itoa (by omega) (by omega)]
  exact if_neg (by omega)

theorem parse_exprText (f3 f5 : Bytes) (doms : List (Option Int)) (dows : List Int) (ht : TimeOfDay hour minute second) (hf : fields rest = [f3, str "*", f5])
    (hdoms : domField (exprText hour minute second rest) f3 = .ok doms) (hdows : dowField (exprText hour minute second rest) f5 = .ok dows)
    (hone : f3 = str "?" ↔ f5 ≠ str "?") :
    Parse (exprText hour minute second rest) = .ok ⟨second, minute, hour, decide (f3 = str "*"), decide (f3 = str "?"), doms.filterMap id,
      doms.contains none, decide (f5 = str "*"), decide (f5 = str "?"), dows⟩ := by
  have h59 : (59 : Int) < 2 ^ 63 := by decide
  have h23 : (23 : Int) < 2 ^ 63 := by decide
  rw [Parse, fields_exprText, hf]
  simp only [fixedField_itoa ht.second.1 ht.second.2 h59, fixedField_itoa ht.minute.1 ht.minute.2 h59, fixedField_itoa ht.hour.1 ht.hour.2 h23, hdoms, hdows,
    bind, Except.bind]
  rw [if_neg (by decide), if_neg (by simp), if_neg (by simp), if_neg fun h => hone.1 h.1 h.2, if_neg fun h => h.1 (hone.2 h.2.1)]

def Reads (rest : Bytes) (P : Int → Prop) : Prop :=
  ∀ hour minute second, TimeOfDay hour minute second →
    ∃ e, Parse (exprText hour minute second rest) = .ok e ∧ e.Says (hour * 3600 + minute * 60 + second) P

theorem reads_daily : Reads (str "* * ?") fun _ => True := by
  intro hour minute second ht
  exact ⟨_, parse_exprText (str "*") (str "?") [] [] ht (by decide) (if_pos (by decide)) (if_pos (by decide)) (by decide), rfl,
    fun n => iff_of_true rfl trivial⟩

theorem reads_weekly {i : Nat} (hi : i < 7) : Reads (str "? * " ++ quartzWeekdayNames.getD i []) fun n => weekday n = i := by
  intro hour minute second ht
  have hfields : ∀ i < 7, fields (str "? * " ++ quartzWeekdayNames.getD i []) = [str "?", str "*", quartzWeekdayNames.getD i []] := by decide +kernel
  have hname : ∀ i < 7, splitList (quartzWeekdayNames.getD i []) = [quartzWeekdayNames.getD i []] ∧
      parseQuartzWeekday (quartzWeekdayNames.getD i []) = some (i : Int) ∧ quartzWeekdayNames.getD i [] ≠ str "*" ∧ quartzWeekdayNames.getD i [] ≠ str "?" := by
    decide +kernel
  obtain ⟨hsplit, hparse, hany, hno⟩ := hname i hi
  have hdow : ∀ expr, dowField expr (quartzWeekdayNames.getD i []) = .ok [(i : Int)] := by
    intro expr
    rw [dowField, if_neg fun h => h.elim hany hno, hsplit]
    simp only [List.mapM_cons, List.mapM_nil, weekDay, hparse]
    rfl
  refine ⟨_, parse_exprText _ _ [] _ ht (hfields i hi) (if_pos (by decide)) (hdow _) (iff_of_true rfl hno), rfl, fun n => ?_⟩
  simp only [Expr.On, Expr.dowOn, decide_eq_true_eq, if_neg hno, if_true, hany, decide_false, Bool.false_or]
  rw [List.contains_iff_mem, List.mem_singleton]

theorem reads_monthly {d : Nat} (h1 : 1 ≤ d) (h2 : d ≤ 31) : Reads (Bytes.itoa d ++ str " * ?") fun n => dayOf n = d := by
  intro hour minute second ht
  have hday : ∀ d < 32, 1 ≤ d → ∀ expr, monthDay expr (Bytes.itoa (d : Nat)) = .ok (some (d : Int)) := by
    intro d hd h1 expr
    have hfold : equalFold (Bytes.itoa (d : Nat)) (str "L") = false := by
      interval_cases d <;> decide +kernel
    rw [monthDay, hfold, if_neg Bool.false_ne_true, atoi_itoa (by omega) (by omega)]
    exact if_neg (by omega)
  have hdigit : ∀ b ∈ Bytes.itoa (d : Nat), Bytes.isDigit b = true := fun b => Bytes.isDigit_of_mem_digits
  have hany : Bytes.itoa (d : Nat) ≠ str "*" := fun h => absurd (hdigit 42 (h ▸ List.mem_cons_self)) (by decide)
  have hno : Bytes.itoa (d : Nat) ≠ str "?" := fun h => absurd (hdigit 63 (h ▸ List.mem_cons_self)) (by decide)
  have hdom : ∀ expr, domField expr (Bytes.itoa (d : Nat)) = .ok [some (d : Int)] := by
    intro expr
    have hsplit : splitList (Bytes.itoa (d : Nat)) = [Bytes.itoa (d : Nat)] := by
      rw [splitList, List.splitOn_eq_singleton fun h => absurd (hdigit 44 h) (by decide), List.map_singleton, trimSpace_word (isWord_itoa _)]
      rw [List.filter_cons_of_pos (by simpa using itoa_ne_nil d), List.filter_nil]
    rw [domField, if_neg fun h => h.elim hany hno, hsplit, List.mapM_cons, hday d (by omega) h1]
    rfl
  have hfields : fields (Bytes.itoa (d : Nat) ++ str " * ?") = [Bytes.itoa (d : Nat), str "*", str "?"] :=
    (fields_cons (isWord_itoa _) (itoa_ne_nil _) (str "* ?")).trans (congrArg _ (by decide))
  refine ⟨_, parse_exprText _ _ _ [] ht hfields (hdom _) (if_pos (by decide)) (iff_of_false hno (by decide)), rfl, fun n => ?_⟩
  simp only [Expr.On, Expr.domOn, hany, decide_false, decide_true, if_true, Bool.false_or, List.filterMap_cons, id, List.filterMap_nil]
  rw [Bool.or_eq_true, List.contains_iff_mem, List.mem_singleton]
  exact or_iff_left fun h => Bool.false_ne_true (Bool.and_eq_true_iff.1 h).1

theorem reads_last : Reads (str "L * ?") fun n => dayOf n = monthLen (monthOf n) := by
  intro hour minute second ht
  have hdom : ∀ expr, domField expr (str "L") = .ok [none] := by
    intro expr
    have hsplit : splitList (str "L") = [str "L"] := by decide
    have hlast : monthDay expr (str "L") = .ok none := if_pos (by decide)
    rw [domField, if_neg (by decide), hsplit, List.mapM_cons, hlast]
    rfl
  refine ⟨_, parse_exprText (str "L") (str "?") _ [] ht (by decide) (hdom _) (if_pos (by decide)) (by decide), rfl, fun n => ?_⟩
  rw [← dayOf_succ_eq_one]
  exact beq_iff_eq

end Reading

theorem weekly_reads {k : Nat} (h1 : 1 ≤ k) (h2 : k ≤ 7) :
    ∃ rest, weeklyFields (Bytes.itoa k) = .ok rest ∧ Reads rest fun n => weekday n = k % 7 := by
  refine ⟨str "? * " ++ quartzWeekdayNames.getD (k % 7) [], ?_, ?_⟩
  · rw [weeklyFields, atoi_itoa (by omega) (by omega)]
    exact if_neg (by omega)
  · exact_mod_cast reads_weekly (i := k % 7) (by omega)

theorem monthly_reads {k : Nat} (h1 : 1 ≤ k) (h2 : k ≤ 31) :
    ∃ rest, monthlyFields (Bytes.itoa k) = .ok rest ∧ Reads rest fun n => dayOf n = k := by
  have hfold : (equalFold (Bytes.itoa (k : Nat)) (str "end") || equalFold (Bytes.itoa (k : Nat)) (str "L")) = false := by
    interval_cases k <;> decide +kernel
  refine ⟨_, ?_, reads_monthly h1 h2⟩
  rw [monthlyFields, hfold, if_neg Bool.false_ne_true, atoi_itoa (by omega) (by omega)]
  exact if_neg (by omega)

theorem last_reads : ∃ rest, monthlyFields (str "end") = .ok rest ∧ Reads rest fun n => dayOf n = monthLen (monthOf n) :=
  ⟨_, if_pos (by decide), reads_last⟩

theorem splitList_intercalate {items : List Bytes} (hne : items ≠ []) (hitems : ∀ it ∈ items, IsWord it ∧ it ≠ [] ∧ 44 ∉ it) :
    splitList ([44].intercalate items) = items := by
  rw [splitList, List.splitOn_intercalate 44 (fun it hit => (hitems it hit).2.2) hne, List.map_congr_left fun it hit => trimSpace_word (hitems it hit).1,
    List.map_id']
  exact List.filter_eq_self.2 fun it hit => by simpa using (hitems it hit).2.1

section Building

variable {hour minute second start stop now t : Int} {rests : List Bytes} {st en tt cycle list : Bytes} {ι : Type} {days : List ι} {P : ι → Int → Prop}

theorem build_eq (hstart : ParseDateTime zone st = .ok start) (hstop : ParseDateTime zone en = .ok stop) (hle : start ≤ stop)
    (htime : ParseScheduleTime tt = .ok (hour, minute, second)) (hlist : dateFields cycle list = .ok rests) :
    BuildCronExpressions zone cycle list tt st en = .ok (rests.map (exprText hour minute second)).eraseDups := by
  rw [BuildCronExpressions, hstart, hstop]
  simp only [bind, Except.bind, if_neg (not_lt.2 hle), htime, hlist]
  rfl

theorem parse_of_expand {cfg : Config} {r : List Bytes × List Trigger} (h : Expand zone cfg now = .ok r) :
    (∃ t, ParseDateTime zone cfg.startTime = .ok t) ∧ ∃ t, ParseDateTime zone cfg.endTime = .ok t := by
  unfold Expand at h
  obtain ⟨exprs, hbuild, -⟩ := Except.ok_of_bind h
  unfold BuildCronExpressions at hbuild
  obtain ⟨t, ht, hrest⟩ := Except.ok_of_bind hbuild
  obtain ⟨t', ht', -⟩ := Except.ok_of_bind hrest
  exact ⟨⟨t, ht⟩, t', ht'⟩

theorem TimeOfDay.secs (ht : TimeOfDay hour minute second) : 0 ≤ hour * 3600 + minute * 60 + second ∧ hour * 3600 + minute * 60 + second < 86400 := by
  obtain ⟨h1, h2, h3⟩ := ht
  omega

theorem fired_iff (ht : TimeOfDay hour minute second) (hrests : ∀ rest ∈ rests, ∃ d ∈ days, Reads rest (P d)) (hdays : ∀ d ∈ days, ∃ rest ∈ rests, Reads rest (P d)) :
    Fired zone start stop now (rests.map (exprText hour minute second)).eraseDups t ↔
      ∃ n, (∃ d ∈ days, P d n) ∧ start ≤ momentOf zone n (hour * 3600 + minute * 60 + second) ∧ momentOf zone n (hour * 3600 + minute * 60 + second) ≤ stop ∧
        now ≤ momentOf zone n (hour * 3600 + minute * 60 + second) ∧ t = momentOf zone n (hour * 3600 + minute * 60 + second) := by
  constructor
  · rintro ⟨expr, hexpr, e, hparse, n, hon, h1, h2, h3, rfl⟩
    obtain ⟨rest, hrest, rfl⟩ := List.mem_map.1 (List.mem_eraseDups.1 hexpr)
    obtain ⟨d, hd, hreads⟩ := hrests rest hrest
    obtain ⟨e', hparse', hmean⟩ := hreads hour minute second ht
    obtain rfl : e = e' := Except.ok.inj (hparse.symm.trans hparse')
    rw [hmean.secs_eq] at *
    exact ⟨n, ⟨d, hd, (hmean.on n).1 hon⟩, by omega, h2, h3, rfl⟩
  · rintro ⟨n, ⟨d, hd, hn⟩, h1, h2, h3, rfl⟩
    obtain ⟨rest, hrest, hreads⟩ := hdays d hd
    obtain ⟨e, hparse, hmean⟩ := hreads hour minute second ht
    refine ⟨_, List.mem_eraseDups.2 (List.mem_map_of_mem hrest), e, hparse, n, (hmean.on n).2 hn, ?_⟩
    rw [hmean.secs_eq]
    exact ⟨by omega, h2, h3, rfl⟩

theorem recurring_of_reads (ht : TimeOfDay hour minute second) (hrests : ∀ rest ∈ rests, ∃ d ∈ days, Reads rest (P d))
    (hback : ∀ d ∈ days, ∀ n, ∃ k, n < k ∧ k ≤ n + 93 ∧ P d k) :
    ∀ expr ∈ (rests.map (exprText hour minute second)).eraseDups, ∃ e, Parse expr = .ok e ∧ e.Recurring := by
  intro expr hexpr
  obtain ⟨rest, hrest, rfl⟩ := List.mem_map.1 (List.mem_eraseDups.1 hexpr)
  obtain ⟨d, hd, hreads⟩ := hrests rest hrest
  obtain ⟨e, hparse, hmean⟩ := hreads hour minute second ht
  exact ⟨e, hparse, hmean.recurring ht.secs (hback d hd)⟩

end Building

end Cronutil
