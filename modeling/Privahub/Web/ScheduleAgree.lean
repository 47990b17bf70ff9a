import Privahub.Web.ScheduleText

/-!
# The front end's schedule and the back end's

Where the dates a form lists and the triggers its payload expands to agree (`agree_iff`): the range has years of four digits, one of the form's days comes
up in it, all of them within the first 7320 days, and among these no day of the month stands for the end of a shorter one. The form is accepted in the
other cases too.
-/

namespace Web.Schedule

open Calendar Utf16

def configOf (c : Cron) : Cronutil.Config :=
  ⟨toUtf8 c.startTime, toUtf8 c.endTime, toUtf8 c.scheduleCycle, toUtf8 c.scheduleDate, toUtf8 c.scheduleTime⟩

structure Holds (zone : Int) (values : ScheduleFormValues) (start stop : Int) (cycle : ScheduleCycle) : Prop where
  start : parseDateTime zone values.startTime = some start
  stop : parseDateTime zone values.endTime = some stop
  cycle : values.cycle = some cycle

/-- The moment of day `n` is in the range and not in the past; `now` is in nanoseconds. -/
def Upcoming (zone start stop now : Int) (time : Utf16) (n : Int) : Prop :=
  start ≤ momentOf zone n (secsOf time) ∧ momentOf zone n (secsOf time) ≤ stop ∧ now ≤ momentOf zone n (secsOf time) * 1000000

/-- Day `n` is one of the form's days. -/
def Listed (cycle : ScheduleCycle) (days : List Utf16) (n : Int) : Prop := ∃ d ∈ entries cycle days, Names cycle d n

def Accepted (zone : Int) (values : ScheduleFormValues) (now : Int) : Prop := isScheduleValid (validateSchedule zone values (now / 1000000)) = true

/-- The payload's triggers are there, and on the dates that are listed and not in the past. -/
def Agree (zone : Int) (values : ScheduleFormValues) (ctx : Context) (now : Int) : Prop :=
  ∃ start stop cycle payload exprs triggers, Holds zone values start stop cycle ∧ buildSchedulePayload zone values ctx = some payload ∧
    Cronutil.Expand zone (configOf payload.cron) now = .ok (exprs, triggers) ∧ triggers ≠ [] ∧
    ∀ x, x ∈ triggers.map (fun t => ymd zone (t.time / 1000000)) ↔
      x ∈ getScheduledDatesWithinRange zone start stop cycle values.days values.time ∧ ∃ n, x = dateText n ∧ now ≤ momentOf zone n (secsOf values.time) * 1000000

def Plain (zone : Int) (values : ScheduleFormValues) (now : Int) : Prop :=
  ∃ start stop cycle, Holds zone values start stop cycle ∧ 1000 ≤ getFullYear zone start ∧ getFullYear zone stop ≤ 9999 ∧
    (∃ n, Upcoming zone start stop now values.time n ∧ Listed cycle values.days n) ∧
    ∀ n, Upcoming zone start stop now values.time n → (Listed cycle values.days n → n < localDay zone start + 7320) ∧
      (n < localDay zone start + 7320 → Fires cycle values.days n → Listed cycle values.days n)

variable {zone now start stop n : Int} {values : ScheduleFormValues} {ctx : Context} {cycle : ScheduleCycle}

theorem Holds.unique {start' stop' : Int} {cycle' : ScheduleCycle} (h : Holds zone values start stop cycle) (h' : Holds zone values start' stop' cycle') :
    start = start' ∧ stop = stop' ∧ cycle = cycle' :=
  ⟨Option.some_inj.1 (h.start.symm.trans h'.start), Option.some_inj.1 (h.stop.symm.trans h'.stop), Option.some_inj.1 (h.cycle.symm.trans h'.cycle)⟩

structure Good (zone : Int) (values : ScheduleFormValues) (start stop : Int) (cycle : ScheduleCycle) : Prop where
  holds : Holds zone values start stop cycle
  order : start ≤ stop
  days : daysError cycle values.days = none
  time : isValidTime values.time = true

theorem good_of_accepted (h : Accepted zone values now) : ∃ start stop cycle, Good zone values start stop cycle := by
  unfold Accepted validateSchedule at h
  by_cases hfields : isScheduleValid (fieldErrors zone values (now / 1000000)) = true
  · have hnone := beq_iff_eq.1 hfields
    have hs : (rangeErrors zone values (now / 1000000)).1 = none := congrArg ScheduleErrors.startTime hnone
    have hc : (if values.cycle = none then some (str "scheduleForm.errors.cycleRequired") else none) = none := congrArg ScheduleErrors.cycle hnone
    have hd : (values.cycle.bind fun c => daysError c values.days) = none := congrArg ScheduleErrors.days hnone
    have ht : (if values.time = [] then some (str "scheduleForm.errors.timeRequired")
        else if isValidTime values.time then none else some (str "scheduleForm.errors.timeInvalid")) = none := congrArg ScheduleErrors.time hnone
    unfold rangeErrors at hs
    cases hstart : parseDateTime zone values.startTime with
    | none => rw [hstart] at hs; cases hs
    | some start =>
      cases hstop : parseDateTime zone values.endTime with
      | none => rw [hstart, hstop] at hs; cases hs
      | some stop =>
        cases hcycle : values.cycle with
        | none => rw [hcycle] at hc; cases hc
        | some cycle =>
          rw [hcycle] at hd
          rw [hstart, hstop] at hs
          refine ⟨start, stop, cycle, ⟨hstart, hstop, hcycle⟩, ?_, hd, ?_⟩
          · by_contra hlt
            have hmin : SCHEDULE_MIN_RANGE_MS = 86400000 := rfl
            simp only [if_pos (show stop - start < SCHEDULE_MIN_RANGE_MS by omega)] at hs
            cases hs
          · split_ifs at ht with h1 h2
            exact h2
  · simp only [if_neg hfields] at h
    exact absurd h hfields

theorem momentOf_ns (zone n s : Int) : Cronutil.momentOf zone n s = momentOf zone n s * 1000000 := by
  unfold Cronutil.momentOf momentOf
  omega

theorem ymd_moment (hs : 0 ≤ secsOf values.time ∧ secsOf values.time < 86400) :
    ymd zone (momentOf zone n (secsOf values.time) * 1000000 / 1000000) = dateText n := by
  rw [Int.mul_ediv_cancel _ (by decide)]
  show dateText (localDay zone (momentOf zone n (secsOf values.time))) = dateText n
  rw [localDay_momentOf hs.1 hs.2]

theorem Good.secs (h : Good zone values start stop cycle) : 0 ≤ secsOf values.time ∧ secsOf values.time < 86400 := by
  obtain ⟨hour, minute, second, h1, h2, h3, htext⟩ := validTime h.time
  obtain ⟨e1, e2, e3⟩ := timePart_eq (by omega) (by omega) (by omega) htext
  unfold secsOf
  omega

theorem fires_of_listed (h : Listed cycle values.days n) : Fires cycle values.days n := by
  obtain ⟨d, hd, hn⟩ := h
  cases cycle with
  | D => trivial
  | W =>
    have hn : weekKey n = d := hn
    have hd : d ∈ values.days := hd
    exact show weekKey n ∈ values.days from hn ▸ hd
  | M =>
    refine ⟨d, hd, ?_⟩
    unfold Names at hn
    simp only at hn
    split_ifs at hn ⊢ with hlast
    · exact hn
    · exact ⟨dayOf n, hn, (min_eq_left (dayOf_bounds n).2).symm⟩

theorem getFullYear_mono (zone : Int) {d d' : Int} (h : d ≤ d') : getFullYear zone d ≤ getFullYear zone d' := by
  have hday : localDay zone d ≤ localDay zone d' := by
    unfold localDay
    omega
  have := monthOf_mono hday
  unfold getFullYear
  omega

def cronOf (zone start stop : Int) (cycle : ScheduleCycle) (values : ScheduleFormValues) : Cron :=
  ⟨formatDateTime zone start, formatDateTime zone stop, cycle.text, buildScheduleDate cycle values.days, toScheduleTime values.time⟩

theorem Holds.payload (h : Holds zone values start stop cycle) (ctx : Context) :
    ∃ payload, buildSchedulePayload zone values ctx = some payload ∧ payload.cron = cronOf zone start stop cycle values := by
  unfold buildSchedulePayload
  rw [h.start, h.stop, h.cycle]
  exact ⟨_, rfl, rfl⟩

/-- `t` is the moment of one of the form's days that comes up. -/
def Comes (zone start stop now : Int) (cycle : ScheduleCycle) (values : ScheduleFormValues) (t : Int) : Prop :=
  ∃ n, Listed cycle values.days n ∧ Upcoming zone start stop now values.time n ∧ t = momentOf zone n (secsOf values.time) * 1000000

theorem comes_of_expand (h : Good zone values start stop cycle) (hstart : 1000 ≤ getFullYear zone start ∧ getFullYear zone start ≤ 9999)
    (hstop : 1000 ≤ getFullYear zone stop ∧ getFullYear zone stop ≤ 9999) {res : Except Cronutil.ErrInvalidConfig (List Bytes × List Cronutil.Trigger)}
    (hres : Cronutil.Expand zone (configOf (cronOf zone start stop cycle values)) now = res) :
    Outcome res
      (fun r => ∀ t, t ∈ r.2.map Cronutil.Trigger.time ↔ Comes zone start stop now cycle values t)
      (fun _ => ∃ l : List Int, l.Nodup ∧ Cronutil.MaxTriggerTimes < l.length ∧ ∀ t ∈ l, Comes zone start stop now cycle values t) := by
  obtain ⟨hour, minute, second, h1, h2, h3, htext⟩ := validTime h.time
  obtain ⟨e1, e2, e3⟩ := timePart_eq (by omega) (by omega) (by omega) htext
  obtain ⟨rests, hrests⟩ := dateFields_spec h.days
  have hsecs : (hour : Int) * 3600 + minute * 60 + second = secsOf values.time := by rw [secsOf, e1, e2, e3]
  have hparse := parse_formatDateTime (whole_of_parse h.holds.start) hstart
  have hparse' := parse_formatDateTime (whole_of_parse h.holds.stop) hstop
  have htime : Cronutil.ParseScheduleTime (toUtf8 (toScheduleTime values.time)) = .ok ((hour : Int), (minute : Int), (second : Int)) := by
    rw [htext, toUtf8_ofBytes (Cronutil.isWord_timeText (by omega) (by omega) (by omega)).isAscii]
    exact Cronutil.parseScheduleTime_text h1 h2 h3
  have hbuild := Cronutil.build_eq hparse hparse' (by have := h.order; omega) htime hrests.fields
  have hday : Cronutil.TimeOfDay (hour : Int) minute second := ⟨by omega, by omega, by omega⟩
  have hrecurring := Cronutil.recurring_of_reads hday hrests.left hrests.back
  have hfired : ∀ t, Cronutil.Fired zone (start * 1000000) (stop * 1000000) now ((rests.map (Cronutil.exprText hour minute second)).eraseDups) t ↔
      Comes zone start stop now cycle values t := by
    intro t
    rw [Cronutil.fired_iff hday hrests.left hrests.right]
    unfold Comes Upcoming Listed
    simp only [hsecs, momentOf_ns]
    refine exists_congr fun n => and_congr_right fun _ => ?_
    rw [← and_assoc, ← and_assoc, ← and_assoc]
    refine and_congr_left fun _ => and_congr_left fun _ => ?_
    omega
  generalize (rests.map (Cronutil.exprText hour minute second)).eraseDups = exprs at hbuild hrecurring hfired
  have hspec := Cronutil.triggerTimes_spec zone (start * 1000000) (stop * 1000000) now hrecurring
  have hexpand : Cronutil.Expand zone (configOf (cronOf zone start stop cycle values)) now =
      (Cronutil.TriggerTimes zone exprs (start * 1000000) (stop * 1000000) now).map fun triggers => (exprs, triggers) := by
    unfold Cronutil.Expand configOf cronOf
    simp only [hbuild, hparse, hparse', bind, Except.bind]
    cases Cronutil.TriggerTimes zone exprs (start * 1000000) (stop * 1000000) now <;> rfl
  rw [← hres, hexpand]
  cases hrun : Cronutil.TriggerTimes zone exprs (start * 1000000) (stop * 1000000) now with
  | error err =>
    obtain ⟨l, hl, hlen, hin⟩ := hspec.of_error hrun
    exact ⟨l, hl, hlen, fun t ht => (hfired t).1 (hin t ht)⟩
  | ok triggers => exact fun t => (hspec.of_ok hrun t).trans (hfired t)

theorem years_of_expand {r : List Bytes × List Cronutil.Trigger} (h : Cronutil.Expand zone (configOf (cronOf zone start stop cycle values)) now = .ok r) :
    (1000 ≤ getFullYear zone start ∧ getFullYear zone start ≤ 9999) ∧ 1000 ≤ getFullYear zone stop ∧ getFullYear zone stop ≤ 9999 := by
  obtain ⟨⟨t, ht⟩, t', ht'⟩ := Cronutil.parse_of_expand h
  simp only [configOf, cronOf] at ht ht'
  constructor
  · by_contra hy
    rw [parse_formatDateTime_error hy] at ht
    cases ht
  · by_contra hy
    rw [parse_formatDateTime_error hy] at ht'
    cases ht'

theorem localDay_le (hs : secsOf values.time < 86400) (h : start ≤ momentOf zone n (secsOf values.time)) : localDay zone start ≤ n := by
  unfold momentOf at h
  unfold localDay
  omega

theorem mem_triggerDates (hs : 0 ≤ secsOf values.time ∧ secsOf values.time < 86400) {triggers : List Cronutil.Trigger}
    (hall : ∀ t, t ∈ triggers.map Cronutil.Trigger.time ↔ Comes zone start stop now cycle values t) (x : Utf16) :
    x ∈ triggers.map (fun t => ymd zone (t.time / 1000000)) ↔ ∃ n, Listed cycle values.days n ∧ Upcoming zone start stop now values.time n ∧ x = dateText n := by
  have hmap : triggers.map (fun t => ymd zone (t.time / 1000000)) = (triggers.map Cronutil.Trigger.time).map fun t => ymd zone (t / 1000000) := by
    rw [List.map_map]
    rfl
  rw [hmap, List.mem_map]
  constructor
  · rintro ⟨t, ht, rfl⟩
    obtain ⟨n, hn, hup, rfl⟩ := (hall t).1 ht
    exact ⟨n, hn, hup, ymd_moment hs⟩
  · rintro ⟨n, hn, hup, rfl⟩
    exact ⟨_, (hall _).2 ⟨n, hn, hup, rfl⟩, ymd_moment hs⟩

theorem mem_listedDates (hs : 0 ≤ secsOf values.time ∧ secsOf values.time < 86400) (hy : 100 ≤ getFullYear zone start) (x : Utf16) :
    (x ∈ getScheduledDatesWithinRange zone start stop cycle values.days values.time ∧
      ∃ n, x = dateText n ∧ now ≤ momentOf zone n (secsOf values.time) * 1000000) ↔
      ∃ n, n < localDay zone start + 7320 ∧ Fires cycle values.days n ∧ Upcoming zone start stop now values.time n ∧ x = dateText n := by
  rw [mem_scheduledDates hs.1 hy]
  constructor
  · rintro ⟨⟨k, h1, h2, hk, h3, h4, rfl⟩, n, hn, hnow⟩
    rw [← dateText_injective hn] at hnow
    exact ⟨k, h2, hk, ⟨h3, h4, hnow⟩, rfl⟩
  · rintro ⟨n, h2, hn, ⟨h3, h4, hnow⟩, rfl⟩
    exact ⟨⟨n, localDay_le hs.2 h3, h2, hn, h3, h4, rfl⟩, n, rfl, hnow⟩

theorem dates_iff :
    (∀ x, (∃ n, Listed cycle values.days n ∧ Upcoming zone start stop now values.time n ∧ x = dateText n) ↔
      ∃ n, n < localDay zone start + 7320 ∧ Fires cycle values.days n ∧ Upcoming zone start stop now values.time n ∧ x = dateText n) ↔
    ∀ n, Upcoming zone start stop now values.time n → (Listed cycle values.days n → n < localDay zone start + 7320) ∧
      (n < localDay zone start + 7320 → Fires cycle values.days n → Listed cycle values.days n) := by
  constructor
  · intro h n hup
    constructor
    · intro hn
      obtain ⟨k, hk, -, -, heq⟩ := (h (dateText n)).1 ⟨n, hn, hup, rfl⟩
      exact dateText_injective heq ▸ hk
    · intro hlt hn
      obtain ⟨k, hk, -, heq⟩ := (h (dateText n)).2 ⟨n, hlt, hn, hup, rfl⟩
      exact dateText_injective heq ▸ hk
  · intro h x
    constructor
    · rintro ⟨n, hn, hup, rfl⟩
      exact ⟨n, (h n hup).1 hn, fires_of_listed hn, hup, rfl⟩
    · rintro ⟨n, hlt, hn, hup, rfl⟩
      exact ⟨n, (h n hup).2 hlt hn, hup, rfl⟩

theorem plain_of_agree (g : Good zone values start stop cycle) (h : Agree zone values ctx now) : Plain zone values now := by
  obtain ⟨start', stop', cycle', payload, exprs, triggers, hholds, hpayload, hexpand, hne, hdates⟩ := h
  obtain ⟨rfl, rfl, rfl⟩ := g.holds.unique hholds
  obtain ⟨payload', hpayload', hcron⟩ := g.holds.payload ctx
  obtain rfl := Option.some_inj.1 (hpayload.symm.trans hpayload')
  rw [hcron] at hexpand
  obtain ⟨hstart, hstop⟩ := years_of_expand hexpand
  have hall : ∀ t, t ∈ triggers.map Cronutil.Trigger.time ↔ Comes zone start stop now cycle values t := comes_of_expand g hstart hstop hexpand
  refine ⟨start, stop, cycle, g.holds, hstart.1, hstop.2, ?_, dates_iff.1 fun x => ?_⟩
  · obtain ⟨t, ht⟩ := List.exists_mem_of_ne_nil triggers hne
    obtain ⟨n, hn, hup, -⟩ := (hall t.time).1 (List.mem_map_of_mem ht)
    exact ⟨n, hup, hn⟩
  · rw [← mem_triggerDates g.secs hall, hdates, mem_listedDates g.secs (by omega)]

theorem agree_of_plain (g : Good zone values start stop cycle) (ctx : Context) (h : Plain zone values now) : Agree zone values ctx now := by
  obtain ⟨start', stop', cycle', hholds, hstart, hstop, ⟨m, hm, hmlist⟩, hdays⟩ := h
  obtain ⟨rfl, rfl, rfl⟩ := g.holds.unique hholds
  have hyears := getFullYear_mono zone g.order
  obtain ⟨payload, hpayload, hcron⟩ := g.holds.payload ctx
  cases hexpand : Cronutil.Expand zone (configOf (cronOf zone start stop cycle values)) now with
  | error err =>
    obtain ⟨l, hl, hlen, hin⟩ : ∃ l : List Int, l.Nodup ∧ Cronutil.MaxTriggerTimes < l.length ∧ ∀ t ∈ l, Comes zone start stop now cycle values t :=
      comes_of_expand g ⟨hstart, by omega⟩ ⟨by omega, hstop⟩ hexpand
    have hmax : Cronutil.MaxTriggerTimes = 10000 := rfl
    have hle : l.length ≤ 7320 := Cronutil.length_le_of_days zone (secsOf values.time) (localDay zone start) hl fun t ht => by
      obtain ⟨n, hn, hup, rfl⟩ := hin t ht
      exact ⟨n, localDay_le g.secs.2 hup.1, (hdays n hup).1 hn, (momentOf_ns _ _ _).symm⟩
    omega
  | ok r =>
    have hall : ∀ t, t ∈ r.2.map Cronutil.Trigger.time ↔ Comes zone start stop now cycle values t :=
      comes_of_expand g ⟨hstart, by omega⟩ ⟨by omega, hstop⟩ hexpand
    refine ⟨start, stop, cycle, payload, r.1, r.2, g.holds, hpayload, hcron ▸ hexpand, ?_, fun x => ?_⟩
    · intro hnil
      have := (hall _).2 ⟨m, hmlist, hm, rfl⟩
      rw [hnil] at this
      exact List.not_mem_nil this
    · rw [mem_triggerDates g.secs hall, mem_listedDates g.secs (by omega)]
      exact dates_iff.2 hdays x

/-- An accepted form's triggers are on the dates it lists exactly when it is plain. -/
theorem agree_iff : (Accepted zone values now → Agree zone values ctx now) ↔ (Accepted zone values now → Plain zone values now) := by
  refine forall_congr' fun hacc => ?_
  obtain ⟨start, stop, cycle, g⟩ := good_of_accepted hacc
  exact ⟨plain_of_agree g, agree_of_plain g ctx⟩

def endOfMonth : ScheduleFormValues := ⟨lit "report", [], lit "2025-02-01 00:00", lit "2025-04-01 00:00", some .M, [lit "31"], lit "08:00"⟩

def graph : Context := ⟨lit "p", lit "g", []⟩

def triggerDates (zone : Int) (values : ScheduleFormValues) (ctx : Context) (now : Int) : Option (List Utf16) :=
  (buildSchedulePayload zone values ctx).bind fun payload => (Cronutil.Expand zone (configOf payload.cron) now).toOption.map fun r =>
    r.2.map fun t => ymd zone (t.time / 1000000)

/-- The form lists the 28th of February, eight hours ahead of UTC, and the back end leaves February out. -/
theorem february_left_out : Accepted 28800 endOfMonth 1738339200000000000 ∧ ¬Agree 28800 endOfMonth graph 1738339200000000000 := by
  constructor
  · show isScheduleValid _ = true
    decide +kernel
  · rintro ⟨start, stop, cycle, payload, exprs, triggers, ⟨hstart, hstop, hcycle⟩, hpayload, hexpand, -, hdates⟩
    have hmade : triggerDates 28800 endOfMonth graph 1738339200000000000 = some [lit "20250331"] := by decide +kernel
    unfold triggerDates at hmade
    rw [hpayload, Option.bind_some, hexpand] at hmade
    have hdate : triggers.map (fun t => ymd 28800 (t.time / 1000000)) = [lit "20250331"] := Option.some_inj.1 hmade
    have hin : lit "20250228" ∈ getScheduledDatesWithinRange 28800 start stop cycle endOfMonth.days endOfMonth.time := by
      have hs : parseDateTime 28800 endOfMonth.startTime = some 1738339200000 := by decide +kernel
      have he : parseDateTime 28800 endOfMonth.endTime = some 1743436800000 := by decide +kernel
      obtain rfl := Option.some_inj.1 (hstart.symm.trans hs)
      obtain rfl := Option.some_inj.1 (hstop.symm.trans he)
      obtain rfl := Option.some_inj.1 hcycle
      decide +kernel
    have hout : lit "20250228" ∈ triggers.map fun t => ymd 28800 (t.time / 1000000) := (hdates _).2 ⟨hin, 20147, by decide +kernel, by decide +kernel⟩
    rw [hdate] at hout
    exact absurd hout (by decide +kernel)

end Web.Schedule
