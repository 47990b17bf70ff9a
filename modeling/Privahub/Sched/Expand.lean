import Privahub.Sched.CronText
import Mathlib.Data.Set.Card

/-!
# Schedules

What `Expand` makes of a configuration: the times that are due, in order and each once (`expand_spec`). It refuses a configuration that cannot
be read, or that names no day with one of its items, and one with too many triggers.
-/

namespace Cronutil

open Calendar Utf8

inductive Cycle
  | day
  | week
  | month

def isoWeekday (n : Int) : Int := if weekday n = 0 then 7 else weekday n

def Cycle.Names : Cycle → Bytes → Int → Prop
  | .day, _, _ => True
  | .week, it, n => atoi it = some (isoWeekday n)
  | .month, it, n =>
    if equalFold it (str "end") || equalFold it (str "L") then dayOf n = monthLen (monthOf n) else atoi it = some (dayOf n)

def Cycle.items : Cycle → Bytes → List Bytes
  | .day, _ => [[]]
  | .week, list | .month, list => splitList list

def Config.cycle (cfg : Config) : Option Cycle :=
  let c := toUpper (trimSpace cfg.scheduleCycle)
  if c = str "D" then some .day else if c = str "W" then some .week else if c = str "M" then some .month else none

structure Reading where
  start : Int
  stop : Int
  hour : Int
  minute : Int
  second : Int
  cycle : Cycle
  items : List Bytes

def Reading.secs (r : Reading) : Int := r.hour * 3600 + r.minute * 60 + r.second

/-- The configuration reads so, and each of its items names a day. -/
structure Config.Says (zone : Int) (cfg : Config) (r : Reading) : Prop where
  start : ParseDateTime zone cfg.startTime = .ok r.start
  stop : ParseDateTime zone cfg.endTime = .ok r.stop
  order : r.start ≤ r.stop
  time : ParseScheduleTime cfg.scheduleTime = .ok (r.hour, r.minute, r.second)
  cycle : cfg.cycle = some r.cycle
  items : r.items = r.cycle.items cfg.scheduleDate
  nonempty : r.items ≠ []
  named : ∀ it ∈ r.items, ∃ n, r.cycle.Names it n

def Config.Valid (zone : Int) (cfg : Config) : Prop := ∃ r, cfg.Says zone r

/-- At the time of day on a day that matches, in the range and not in the past. -/
def Config.Due (zone : Int) (cfg : Config) (now t : Int) : Prop :=
  ∃ r, cfg.Says zone r ∧ max r.start now ≤ t ∧ t ≤ r.stop ∧ t = momentOf zone (localDay zone t) r.secs ∧
    ∃ it ∈ r.items, r.cycle.Names it (localDay zone t)

variable {zone now n : Int} {cfg : Config} {r r' : Reading} {c : Cycle} {it list s : Bytes}

theorem isoWeekday_bounds (n : Int) : 1 ≤ isoWeekday n ∧ isoWeekday n ≤ 7 := by
  unfold isoWeekday weekday
  split_ifs <;> omega

theorem isoWeekday_eq (n : Int) {d : Int} (h1 : 1 ≤ d) (h2 : d ≤ 7) : isoWeekday n = d ↔ weekday n = d % 7 := by
  unfold isoWeekday weekday
  split_ifs <;> omega

theorem names_back (h : ∃ n, c.Names it n) (n : Int) : ∃ k, n < k ∧ k ≤ n + 93 ∧ c.Names it k := by
  obtain ⟨m, hm⟩ := h
  cases c with
  | day => exact ⟨n + 1, by omega, by omega, trivial⟩
  | week =>
    obtain ⟨h1, h2⟩ := isoWeekday_bounds m
    obtain ⟨k, hk1, hk2, hk⟩ := exists_weekday n (w := isoWeekday m % 7) (by omega) (by omega)
    refine ⟨k, hk1, hk2, ?_⟩
    have hm : atoi it = some (isoWeekday m) := hm
    show atoi it = some (isoWeekday k)
    rw [hm, (isoWeekday_eq k h1 h2).2 hk]
  | month =>
    unfold Cycle.Names at hm ⊢
    simp only at hm ⊢
    split_ifs at hm ⊢ with hlast
    · obtain ⟨k, hk1, hk2, hk⟩ := exists_lastDay n
      exact ⟨k, hk1, hk2, dayOf_succ_eq_one.1 hk⟩
    · have hday := dayOf_bounds m
      have hlen := monthLen_bounds (monthOf m)
      obtain ⟨k, hk1, hk2, hk⟩ := exists_dayOf n (d := dayOf m) (by omega) (by omega)
      exact ⟨k, hk1, hk2, by rw [hk]; exact hm⟩

theorem weeklyFields_spec (it : Bytes) :
    Outcome (weeklyFields it) (fun rest => Reads rest (Cycle.week.Names it) ∧ ∃ n, Cycle.week.Names it n) (fun _ => ¬ ∃ n, Cycle.week.Names it n) := by
  unfold weeklyFields
  cases hatoi : atoi it with
  | none =>
    rintro ⟨n, hn⟩
    have hn : atoi it = some (isoWeekday n) := hn
    rw [hatoi] at hn
    cases hn
  | some d =>
    have hnames : ∀ n, Cycle.week.Names it n ↔ isoWeekday n = d := by
      intro n
      show atoi it = some (isoWeekday n) ↔ _
      rw [hatoi, Option.some_inj, eq_comm]
    simp only
    by_cases hd : d < 1 ∨ 7 < d
    · rw [if_pos hd]
      rintro ⟨n, hn⟩
      have := (hnames n).1 hn
      have := isoWeekday_bounds n
      omega
    · rw [if_neg hd]
      obtain ⟨k, hk⟩ : ∃ k : Nat, (k : Int) = d % 7 := ⟨(d % 7).toNat, by omega⟩
      have hsame : ∀ n, weekday n = k ↔ Cycle.week.Names it n := by
        intro n
        rw [hnames, isoWeekday_eq n (by omega) (by omega), hk]
      rw [← hk, Int.toNat_natCast]
      refine ⟨fun hour minute second ht => ?_, ?_⟩
      · obtain ⟨e, hparse, hmean⟩ := reads_weekly (i := k) (by omega) hour minute second ht
        exact ⟨e, hparse, hmean.secs_eq, fun n => (hmean.on n).trans (hsame n)⟩
      · obtain ⟨m, -, -, hm⟩ := exists_weekday 0 (w := k) (by omega) (by omega)
        exact ⟨m, (hsame m).1 hm⟩

theorem monthlyFields_spec (it : Bytes) :
    Outcome (monthlyFields it) (fun rest => Reads rest (Cycle.month.Names it) ∧ ∃ n, Cycle.month.Names it n) (fun _ => ¬ ∃ n, Cycle.month.Names it n) := by
  unfold monthlyFields
  by_cases hlast : (equalFold it (str "end") || equalFold it (str "L")) = true
  · have hnames : ∀ n, Cycle.month.Names it n ↔ dayOf n = monthLen (monthOf n) := fun n => by rw [Cycle.Names, if_pos hlast]
    rw [if_pos hlast]
    refine ⟨fun hour minute second ht => ?_, ?_⟩
    · obtain ⟨e, hparse, hmean⟩ := reads_last hour minute second ht
      exact ⟨e, hparse, hmean.secs_eq, fun n => (hmean.on n).trans (hnames n).symm⟩
    · obtain ⟨m, -, -, hm⟩ := exists_lastDay 0
      exact ⟨m, (hnames m).2 (dayOf_succ_eq_one.1 hm)⟩
  · have hnames : ∀ n, Cycle.month.Names it n ↔ atoi it = some (dayOf n) := fun n => by rw [Cycle.Names, if_neg hlast]
    rw [if_neg hlast]
    cases hatoi : atoi it with
    | none =>
      rintro ⟨n, hn⟩
      rw [hnames, hatoi] at hn
      cases hn
    | some d =>
      have hday : ∀ n, Cycle.month.Names it n ↔ dayOf n = d := by
        intro n
        rw [hnames, hatoi, Option.some_inj, eq_comm]
      simp only
      by_cases hd : d < 1 ∨ 31 < d
      · rw [if_pos hd]
        rintro ⟨n, hn⟩
        have h1 := (hday n).1 hn
        have h2 := dayOf_bounds n
        have h3 := monthLen_bounds (monthOf n)
        omega
      · rw [if_neg hd]
        obtain ⟨k, rfl⟩ : ∃ k : Nat, (k : Int) = d := ⟨d.toNat, by omega⟩
        refine ⟨fun hour minute second ht => ?_, ?_⟩
        · obtain ⟨e, hparse, hmean⟩ := reads_monthly (d := k) (by omega) (by omega) hour minute second ht
          exact ⟨e, hparse, hmean.secs_eq, fun n => (hmean.on n).trans (hday n).symm⟩
        · obtain ⟨m, -, -, hm⟩ := exists_dayOf 0 (d := k) (by omega) (by omega)
          exact ⟨m, (hday m).2 hm⟩


theorem timePart_bounds {p : Bytes} {limit v : Int} (h : timePart s p limit = .ok v) : 0 ≤ v ∧ v ≤ limit := by
  unfold timePart at h
  cases hatoi : atoi (trimSpace p) with
  | none => simp [hatoi] at h
  | some w =>
    simp only [hatoi] at h
    split_ifs at h with hw
    cases h
    omega

theorem parseScheduleTime_bounds {hour minute second : Int} (h : ParseScheduleTime s = .ok (hour, minute, second)) : TimeOfDay hour minute second := by
  unfold ParseScheduleTime at h
  split at h
  · obtain ⟨a, ha, h⟩ := Except.ok_of_bind h
    obtain ⟨b, hb, h⟩ := Except.ok_of_bind h
    cases h
    exact ⟨timePart_bounds ha, timePart_bounds hb, by omega⟩
  · obtain ⟨a, ha, h⟩ := Except.ok_of_bind h
    obtain ⟨b, hb, h⟩ := Except.ok_of_bind h
    obtain ⟨c, hc, h⟩ := Except.ok_of_bind h
    cases h
    exact ⟨timePart_bounds ha, timePart_bounds hb, timePart_bounds hc⟩
  · cases h

def Cycle.Written (c : Cycle) (items rests : List Bytes) : Prop :=
  List.Forall₂ (fun it rest => Reads rest (c.Names it) ∧ ∃ n, c.Names it n) items rests

theorem dateFields_spec (cfg : Config) :
    Outcome (dateFields cfg.scheduleCycle cfg.scheduleDate)
      (fun rests => ∃ c, cfg.cycle = some c ∧ c.items cfg.scheduleDate ≠ [] ∧ c.Written (c.items cfg.scheduleDate) rests)
      (fun _ => ¬ ∃ c, cfg.cycle = some c ∧ c.items cfg.scheduleDate ≠ [] ∧ ∀ it ∈ c.items cfg.scheduleDate, ∃ n, c.Names it n) := by
  have hlist : ∀ {f : Bytes → Except ErrInvalidConfig Bytes} {e : ErrInvalidConfig} {c : Cycle}, cfg.cycle = some c →
      c.items cfg.scheduleDate = splitList cfg.scheduleDate →
      (∀ it, Outcome (f it) (fun rest => Reads rest (c.Names it) ∧ ∃ n, c.Names it n) (fun _ => ¬ ∃ n, c.Names it n)) →
      Outcome (if splitList cfg.scheduleDate = [] then .error e else (splitList cfg.scheduleDate).mapM f)
        (fun rests => ∃ c, cfg.cycle = some c ∧ c.items cfg.scheduleDate ≠ [] ∧ c.Written (c.items cfg.scheduleDate) rests)
        (fun _ => ¬ ∃ c, cfg.cycle = some c ∧ c.items cfg.scheduleDate ≠ [] ∧ ∀ it ∈ c.items cfg.scheduleDate, ∃ n, c.Names it n) := by
    intro f e c hc hitems hf
    rw [← hitems]
    by_cases hnil : c.items cfg.scheduleDate = []
    · rw [if_pos hnil]
      rintro ⟨c', hc', hne, -⟩
      rw [hc] at hc'
      cases hc'
      exact hne hnil
    · rw [if_neg hnil]
      refine (Outcome.mapM _ fun it _ => hf it).mono (fun rests hrests => ⟨c, hc, hnil, hrests⟩) ?_
      rintro - ⟨it, hit, hno⟩ ⟨c', hc', -, hall⟩
      rw [hc] at hc'
      cases hc'
      exact hno (hall it hit)
  unfold dateFields
  simp only
  by_cases hD : toUpper (trimSpace cfg.scheduleCycle) = str "D"
  · rw [if_pos hD]
    exact ⟨.day, if_pos hD, List.cons_ne_nil _ _, .cons ⟨reads_daily, 0, trivial⟩ .nil⟩
  rw [if_neg hD]
  by_cases hW : toUpper (trimSpace cfg.scheduleCycle) = str "W"
  · rw [if_pos hW]
    exact hlist ((if_neg hD).trans (if_pos hW)) rfl weeklyFields_spec
  rw [if_neg hW]
  by_cases hM : toUpper (trimSpace cfg.scheduleCycle) = str "M"
  · rw [if_pos hM]
    exact hlist ((if_neg hD).trans ((if_neg hW).trans (if_pos hM))) rfl monthlyFields_spec
  rw [if_neg hM]
  rintro ⟨c, hc, -⟩
  rw [show cfg.cycle = none from (if_neg hD).trans ((if_neg hW).trans (if_neg hM))] at hc
  cases hc


theorem Config.Says.unique (h : cfg.Says zone r) (h' : cfg.Says zone r') : r = r' := by
  obtain ⟨start, stop, hour, minute, second, c, items⟩ := r
  obtain ⟨start', stop', hour', minute', second', c', items'⟩ := r'
  obtain rfl : start = start' := Except.ok.inj (h.start.symm.trans h'.start)
  obtain rfl : stop = stop' := Except.ok.inj (h.stop.symm.trans h'.stop)
  obtain ⟨rfl, rfl, rfl⟩ : hour = hour' ∧ minute = minute' ∧ second = second' := by simpa using h.time.symm.trans h'.time
  obtain rfl : c = c' := Option.some.inj (h.cycle.symm.trans h'.cycle)
  obtain rfl : items = items' := h.items.trans h'.items.symm
  rfl

theorem build_spec (zone : Int) (cfg : Config) :
    Outcome (BuildCronExpressions zone cfg.scheduleCycle cfg.scheduleDate cfg.scheduleTime cfg.startTime cfg.endTime)
      (fun exprs => ∃ r rests, cfg.Says zone r ∧ r.cycle.Written r.items rests ∧ exprs = (rests.map (exprText r.hour r.minute r.second)).eraseDups)
      (fun _ => ¬cfg.Valid zone) := by
  cases hstart : ParseDateTime zone cfg.startTime with
  | error e =>
    rw [BuildCronExpressions, hstart]
    rintro ⟨r, hr⟩
    cases hstart.symm.trans hr.start
  | ok start =>
  cases hstop : ParseDateTime zone cfg.endTime with
  | error e =>
    rw [BuildCronExpressions, hstart, hstop]
    rintro ⟨r, hr⟩
    cases hstop.symm.trans hr.stop
  | ok stop =>
  by_cases hle : stop < start
  · rw [BuildCronExpressions, hstart, hstop]
    simp only [bind, Except.bind, if_pos hle]
    rintro ⟨r, hr⟩
    have h1 := hstart.symm.trans hr.start
    have h2 := hstop.symm.trans hr.stop
    cases h1
    cases h2
    exact absurd hr.order (not_le.2 hle)
  cases htime : ParseScheduleTime cfg.scheduleTime with
  | error e =>
    rw [BuildCronExpressions, hstart, hstop]
    simp only [bind, Except.bind, if_neg hle, htime]
    rintro ⟨r, hr⟩
    cases htime.symm.trans hr.time
  | ok time =>
  obtain ⟨hour, minute, second⟩ := time
  have hspec := dateFields_spec cfg
  cases hlist : dateFields cfg.scheduleCycle cfg.scheduleDate with
  | error e =>
    rw [BuildCronExpressions, hstart, hstop]
    simp only [bind, Except.bind, if_neg hle, htime, hlist]
    rintro ⟨r, hr⟩
    refine hspec.of_error hlist ⟨r.cycle, hr.cycle, ?_, ?_⟩
    · rw [← hr.items]
      exact hr.nonempty
    · rw [← hr.items]
      exact hr.named
  | ok rests =>
    obtain ⟨c, hc, hne, hwritten⟩ := hspec.of_ok hlist
    rw [build_eq hstart hstop (not_lt.1 hle) htime hlist]
    refine ⟨⟨start, stop, hour, minute, second, c, c.items cfg.scheduleDate⟩, rests, ⟨hstart, hstop, not_lt.1 hle, htime, hc, rfl, hne, ?_⟩, hwritten, rfl⟩
    intro it hit
    obtain ⟨rest, -, -, hn⟩ := hwritten.exists_right it hit
    exact hn

theorem fired_due {rests : List Bytes} (hr : cfg.Says zone r) (hwritten : r.cycle.Written r.items rests) (now t : Int) :
    Fired zone r.start r.stop now (rests.map (exprText r.hour r.minute r.second)).eraseDups t ↔ cfg.Due zone now t := by
  have htime := parseScheduleTime_bounds hr.time
  have hsecs := htime.secs
  have hleft : ∀ rest ∈ rests, ∃ it ∈ r.items, Reads rest (r.cycle.Names it) := fun rest hrest =>
    (hwritten.exists_left rest hrest).imp fun it h => ⟨h.1, h.2.1⟩
  rw [fired_iff htime hleft fun it hit => (hwritten.exists_right it hit).imp fun rest h => ⟨h.1, h.2.1⟩]
  constructor
  · rintro ⟨n, hn, h1, h2, h3, rfl⟩
    refine ⟨r, hr, max_le h1 h3, h2, ?_, ?_⟩
    · rw [localDay_momentOf hsecs.1 hsecs.2]
      rfl
    · rwa [localDay_momentOf hsecs.1 hsecs.2]
  · rintro ⟨r', hr', h1, h2, h3, hn⟩
    obtain rfl := hr.unique hr'
    obtain ⟨h0, h1⟩ := max_le_iff.1 h1
    have h3 : t = momentOf zone (localDay zone t) (r.hour * 3600 + r.minute * 60 + r.second) := h3
    exact ⟨localDay zone t, hn, h3 ▸ h0, h3 ▸ h2, h3 ▸ h1, h3⟩

theorem triggersFrom_length {start stop : Int} {exprs : List Bytes} {out res : List Trigger} (h : triggersFrom zone start stop now exprs out = .ok res)
    (hout : out.length ≤ MaxTriggerTimes) : res.length ≤ MaxTriggerTimes := by
  induction exprs generalizing out with
  | nil =>
    cases h
    exact hout
  | cons expr exprs ih =>
    rw [triggersFrom] at h
    obtain ⟨times, -, h⟩ := Except.ok_of_bind h
    simp only at h
    split_ifs at h with hmax
    exact ih h (not_lt.1 hmax)

theorem triggerTimes_sorted {start stop : Int} {exprs : List Bytes} {res : List Trigger} (hexprs : ∀ expr ∈ exprs, ∃ e, Parse expr = .ok e ∧ e.Recurring)
    (h : TriggerTimes zone exprs start stop now = .ok res) : (res.map Trigger.time).Pairwise (· < ·) ∧ res.length ≤ MaxTriggerTimes := by
  unfold TriggerTimes at h
  cases hrun : triggersFrom zone start stop now exprs [] with
  | error e => simp [hrun, Except.map] at h
  | ok out =>
    rw [hrun] at h
    cases h
    have hnil : Distinct [] := ⟨List.nodup_nil, nofun⟩
    have hdistinct := ((triggersFrom_spec hexprs hnil).of_ok hrun).1
    have hperm := List.mergeSort_perm out fun a b => decide (a.time ≤ b.time)
    constructor
    · have hnodup : ((out.mergeSort fun a b => decide (a.time ≤ b.time)).map Trigger.time).Nodup := (hperm.map _).nodup_iff.2 hdistinct.nodup
      have hle : ((out.mergeSort fun a b => decide (a.time ≤ b.time)).map Trigger.time).Pairwise (· ≤ ·) := by
        refine List.pairwise_map.2 ((List.pairwise_mergeSort (fun a b c hab hbc => ?_) (fun a b => ?_) out).imp of_decide_eq_true)
        · exact decide_eq_true ((of_decide_eq_true hab).trans (of_decide_eq_true hbc))
        · simpa using le_total a.time b.time
      exact (hle.and hnodup).imp fun h => lt_of_le_of_ne h.1 h.2
    · rw [hperm.length_eq]
      exact triggersFrom_length hrun (Nat.zero_le _)

theorem expand_outcome (zone : Int) (cfg : Config) (now : Int) :
    Outcome (Expand zone cfg now)
      (fun res => cfg.Valid zone ∧ (res.2.map Trigger.time).Pairwise (· < ·) ∧ res.2.length ≤ MaxTriggerTimes ∧ ∀ t, t ∈ res.2.map Trigger.time ↔ cfg.Due zone now t)
      (fun _ => cfg.Valid zone → ∃ l : List Int, l.Nodup ∧ MaxTriggerTimes < l.length ∧ ∀ t ∈ l, cfg.Due zone now t) := by
  have hbuild := build_spec zone cfg
  unfold Expand
  cases hexprs : BuildCronExpressions zone cfg.scheduleCycle cfg.scheduleDate cfg.scheduleTime cfg.startTime cfg.endTime with
  | error e => exact fun hvalid => absurd hvalid (hbuild.of_error hexprs)
  | ok exprs =>
    obtain ⟨r, rests, hr, hwritten, rfl⟩ := hbuild.of_ok hexprs
    have hleft : ∀ rest ∈ rests, ∃ it ∈ r.items, Reads rest (r.cycle.Names it) := fun rest hrest =>
      (hwritten.exists_left rest hrest).imp fun it h => ⟨h.1, h.2.1⟩
    have hrecurring := recurring_of_reads (parseScheduleTime_bounds hr.time) hleft fun it hit n => names_back (hr.named it hit) n
    have hspec := triggerTimes_spec zone r.start r.stop now hrecurring
    rw [hr.start, hr.stop]
    simp only [bind, Except.bind]
    cases htimes : TriggerTimes zone (rests.map (exprText r.hour r.minute r.second)).eraseDups r.start r.stop now with
    | error e =>
      obtain ⟨l, hl, hlen, hin⟩ := hspec.of_error htimes
      exact fun _ => ⟨l, hl, hlen, fun t ht => (fired_due hr hwritten now t).1 (hin t ht)⟩
    | ok res =>
      obtain ⟨hsorted, hlen⟩ := triggerTimes_sorted hrecurring htimes
      exact ⟨⟨r, hr⟩, hsorted, hlen, fun t => (hspec.of_ok htimes t).trans (fired_due hr hwritten now t)⟩

theorem expand_spec (zone : Int) (cfg : Config) (now : Int) :
    (∀ res, Expand zone cfg now = .ok res →
      (res.2.map Trigger.time).Pairwise (· < ·) ∧ ∀ t, t ∈ res.2.map Trigger.time ↔ cfg.Due zone now t) ∧
    ((∃ e, Expand zone cfg now = .error e) ↔ ¬cfg.Valid zone ∨ (MaxTriggerTimes : ENat) < Set.encard {t | cfg.Due zone now t}) := by
  have h := expand_outcome zone cfg now
  refine ⟨fun res hres => ⟨(h.of_ok hres).2.1, (h.of_ok hres).2.2.2⟩, ?_⟩
  constructor
  · rintro ⟨e, he⟩
    refine or_iff_not_imp_left.2 fun hvalid => ?_
    obtain ⟨l, hl, hlen, hin⟩ := h.of_error he (not_not.1 hvalid)
    have hcard : ((l.toFinset : Set Int)).encard = l.length := by
      rw [Set.encard_coe_eq_coe_finsetCard, List.toFinset_card_of_nodup hl]
    calc (MaxTriggerTimes : ENat) < l.length := Nat.cast_lt.2 hlen
      _ = ((l.toFinset : Set Int)).encard := hcard.symm
      _ ≤ _ := Set.encard_le_encard fun t ht => hin t (List.mem_toFinset.1 ht)
  · intro hbad
    cases hrun : Expand zone cfg now with
    | error e => exact ⟨e, rfl⟩
    | ok res =>
      obtain ⟨hvalid, -, hlen, hmem⟩ := h.of_ok hrun
      rcases hbad with hno | hmany
      · exact absurd hvalid hno
      · refine absurd hmany (not_lt.2 ?_)
        have hset : {t | cfg.Due zone now t} = (((res.2.map Trigger.time).toFinset : Finset Int) : Set Int) := by
          ext t
          rw [Finset.mem_coe, List.mem_toFinset]
          exact (hmem t).symm
        rw [hset, Set.encard_coe_eq_coe_finsetCard]
        refine Nat.cast_le.2 ((List.toFinset_card_le _).trans ?_)
        rwa [List.length_map]

end Cronutil
