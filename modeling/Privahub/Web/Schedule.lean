import Privahub.Lib.Calendar
import Privahub.Lib.Utf16
import Mathlib.Data.List.Sort

/-!
# The schedule form

`features/schedule-form/schedule.ts`: the check of a form, the dates it would fire on and the payload it is sent as. A `Date` is its time value
in milliseconds and local time is `zone` seconds ahead of UTC; no date with a year of four digits leaves the range of `Date`.
-/

namespace Web.Schedule

open Calendar Utf16

inductive ScheduleCycle
  | D
  | W
  | M
  deriving DecidableEq

abbrev lit (s : String) : Utf16 := ofBytes (str s)

def SCHEDULE_MAX_DAYS : Nat := 5

def SCHEDULE_DESC_MAX : Nat := 200

def SCHEDULE_MIN_RANGE_MS : Int := 24 * 60 * 60 * 1000

def LAST_DAY_OF_MONTH : Utf16 := lit "-1"

def WEEK_DAY_KEYS : List Utf16 := (List.range 7).map fun i : Nat => ofInt (i + 1)

def MONTH_DAY_KEYS : List Utf16 := ((List.range 31).map fun i : Nat => ofInt (i + 1)) ++ [LAST_DAY_OF_MONTH]

structure ScheduleFormValues where
  scheduleId : Utf16
  scheduleDesc : Utf16
  startTime : Utf16
  endTime : Utf16
  cycle : Option ScheduleCycle
  days : List Utf16
  time : Utf16

structure ScheduleErrors where
  scheduleId : Option Bytes
  scheduleDesc : Option Bytes
  startTime : Option Bytes
  endTime : Option Bytes
  cycle : Option Bytes
  days : Option Bytes
  time : Option Bytes
  form : Option Bytes
  deriving DecidableEq

def pad (n : Int) : Utf16 :=
  let s := ofInt n
  if s.length < 2 then lit "0" ++ s else s

section Dates

variable (zone : Int)

def localDay (d : Int) : Int := (d + zone * 1000) / 86400000

def localSeconds (d : Int) : Int := (d + zone * 1000) / 1000 % 86400

def getFullYear (d : Int) : Int := monthOf (localDay zone d) / 12

def getMonth (d : Int) : Int := monthOf (localDay zone d) % 12

def getDate (d : Int) : Int := dayOf (localDay zone d)

def getDay (d : Int) : Int := weekday (localDay zone d)

def getHours (d : Int) : Int := localSeconds zone d / 3600

def getMinutes (d : Int) : Int := localSeconds zone d / 60 % 60

def getSeconds (d : Int) : Int := localSeconds zone d % 60

def makeDay (y mo d : Int) : Int := monthStart (12 * y + mo) + d - 1

/-- `new Date(y, mo, d, h, mi, s)`, where a year below 100 is one of the twentieth century. -/
def newDate (y mo d h mi s : Int) : Int :=
  (makeDay (if 0 ≤ y ∧ y ≤ 99 then 1900 + y else y) mo d * 86400 + h * 3600 + mi * 60 + s - zone) * 1000

def setDate (d k : Int) : Int := d + (makeDay (getFullYear zone d) (getMonth zone d) k - localDay zone d) * 86400000

def formatDateTime (d : Int) : Utf16 :=
  ofInt (getFullYear zone d) ++ lit "-" ++ pad (getMonth zone d + 1) ++ lit "-" ++ pad (getDate zone d) ++ lit " " ++ pad (getHours zone d) ++
    lit ":" ++ pad (getMinutes zone d) ++ lit ":" ++ pad (getSeconds zone d)

/-- One position of a regular expression: `d` stands for `\d`, `5` for `[0-5]` and `T` for `[T ]`. -/
def fitsChar (r : UInt8) (c : UInt16) : Bool :=
  if r = 100 then isDigit c else if r = 53 then 48 ≤ c && c ≤ 53 else if r = 84 then c == 84 || c == 32 else c == r.toUInt16

def fits : Bytes → Utf16 → Bool
  | [], [] => true
  | r :: re, c :: v => fitsChar r c && fits re v
  | _, _ => false

/-- The group of `k` digits at `i`; one that did not take part counts as 0. -/
def group (v : Utf16) (i k : Nat) : Int := digitsVal ((v.drop i).take k)

def parseDateTime (value : Utf16) : Option Int :=
  let v := trim value
  if fits (str "dddd-dd-ddTdd:dd") v || fits (str "dddd-dd-ddTdd:dd:dd") v then
    some (newDate zone (group v 0 4) (group v 5 2 - 1) (group v 8 2) (group v 11 2) (group v 14 2) (group v 17 2))
  else none

/-- The expression's `[01]\d|2[0-3]` is two digits below 24. -/
def isValidTime (value : Utf16) : Bool :=
  let v := trim value
  (fits (str "dd:5d") v || fits (str "dd:5d:5d") v) && decide (group v 0 2 < 24)

def toScheduleTime (value : Utf16) : Utf16 :=
  let v := trim value
  if v.length = 5 then v ++ lit ":00" else v

/-- `Number(s)` of digits with at most a minus sign, which every text is that passes the checks; `none` is what any other text gives. -/
def toNumber (s : Utf16) : Option Int :=
  match trim s with
  | 45 :: ds => if ds ≠ [] ∧ ds.all isDigit then some (-digitsVal ds) else none
  | ds => if ds.all isDigit then some (digitsVal ds) else none

def dayRank (d : Utf16) : Option Int := (toNumber d).map fun n => if n = -1 then 99 else n

def sortDays (days : List Utf16) : List Utf16 := days.eraseDups.mergeSort fun a b => match dayRank a, dayRank b with
  | some m, some n => decide (m ≤ n)
  | _, _ => true

def buildScheduleDate (cycle : ScheduleCycle) (days : List Utf16) : Utf16 :=
  if cycle = .D then [] else [44].intercalate ((sortDays days).map fun d => if d = LAST_DAY_OF_MONTH then lit "end" else d)

def ymd (d : Int) : Utf16 := ofInt (getFullYear zone d) ++ pad (getMonth zone d + 1) ++ pad (getDate zone d)

/-- Whether the day of `cursor` is a candidate. -/
def candidate (cycle : ScheduleCycle) (days : List Utf16) (cursor : Int) : Bool := match cycle with
  | .D => true
  | .W => days.contains (ofInt (if getDay zone cursor = 0 then 7 else getDay zone cursor))
  | .M =>
    let lastDay := getDate zone (newDate zone (getFullYear zone cursor) (getMonth zone cursor + 1) 0 0 0 0)
    let target := days.map fun d => if d = LAST_DAY_OF_MONTH then some lastDay else (toNumber d).map fun n => min n lastDay
    target.contains (some (getDate zone cursor))

/-- The `i`-th part of a time of day, `x || 0`. -/
def timePart (time : Utf16) (i : Nat) : Int := ((((toScheduleTime time).splitOn 58)[i]?).bind toNumber).getD 0

def momentOn (time : Utf16) (c : Int) : Int :=
  newDate zone (getFullYear zone c) (getMonth zone c) (getDate zone c) (timePart time 0) (timePart time 1) (timePart time 2)

/-- `add` of a `Set`, whose elements are in the order of their insertion. -/
def setAdd (result : List Utf16) (x : Utf16) : List Utf16 := if x ∈ result then result else result ++ [x]

/-- The loop over the days, `guard` of them at most. -/
def datesFrom (start stop : Int) (cycle : ScheduleCycle) (days : List Utf16) (time : Utf16) : Nat → Int → List Utf16 → List Utf16
  | 0, _, result => result
  | guard + 1, cursor, result =>
    if cursor ≤ stop then
      let moment := momentOn zone time cursor
      datesFrom start stop cycle days time guard (setDate zone cursor (getDate zone cursor + 1))
        (if candidate zone cycle days cursor ∧ start ≤ moment ∧ moment ≤ stop then setAdd result (ymd zone cursor) else result)
    else result

def getScheduledDatesWithinRange (start stop : Int) (cycle : ScheduleCycle) (days : List Utf16) (time : Utf16) : List Utf16 :=
  datesFrom zone start stop cycle days time (366 * 20)
    (newDate zone (getFullYear zone start) (getMonth zone start) (getDate zone start) 0 0 0) []

def rangeErrors (values : ScheduleFormValues) (now : Int) : Option Bytes × Option Bytes :=
  match parseDateTime zone values.startTime, parseDateTime zone values.endTime with
  | some start, some stop =>
    if stop - start < SCHEDULE_MIN_RANGE_MS then (some (str "scheduleForm.errors.rangeTooShort"), none)
    else if stop < now then (none, some (str "scheduleForm.errors.endBeforeNow"))
    else (none, none)
  | _, _ => (some (str "scheduleForm.errors.rangeRequired"), none)

def daysError (cycle : ScheduleCycle) (days : List Utf16) : Option Bytes :=
  if cycle = .D then none
  else if days.length = 0 then some (str "scheduleForm.errors.daysRequired")
  else if SCHEDULE_MAX_DAYS < days.length then some (str "scheduleForm.errors.daysTooMany")
  else if days.any fun d => !(if cycle = .W then WEEK_DAY_KEYS else MONTH_DAY_KEYS).contains d then some (str "scheduleForm.errors.daysInvalid")
  else none

def fieldErrors (values : ScheduleFormValues) (now : Int) : ScheduleErrors where
  scheduleId := if values.scheduleId = [] then some (str "scheduleForm.errors.scheduleId") else none
  scheduleDesc := if SCHEDULE_DESC_MAX < values.scheduleDesc.length then some (str "scheduleForm.errors.descTooLong") else none
  startTime := (rangeErrors zone values now).1
  endTime := (rangeErrors zone values now).2
  cycle := if values.cycle = none then some (str "scheduleForm.errors.cycleRequired") else none
  days := values.cycle.bind fun c => daysError c values.days
  time :=
    if values.time = [] then some (str "scheduleForm.errors.timeRequired")
    else if isValidTime values.time then none else some (str "scheduleForm.errors.timeInvalid")
  form := none

def noErrors : ScheduleErrors := ⟨none, none, none, none, none, none, none, none⟩

def isScheduleValid (errors : ScheduleErrors) : Bool := errors == noErrors

def validateSchedule (values : ScheduleFormValues) (now : Int) : ScheduleErrors :=
  let errors := fieldErrors zone values now
  if isScheduleValid errors then
    match parseDateTime zone values.startTime, parseDateTime zone values.endTime, values.cycle with
    | some start, some stop, some cycle =>
      if getScheduledDatesWithinRange zone start stop cycle values.days values.time = [] then
        { errors with form := some (str "scheduleForm.errors.noSchedulableDate") }
      else errors
    | _, _, _ => errors
  else errors

structure Cron where
  startTime : Utf16
  endTime : Utf16
  scheduleCycle : Utf16
  scheduleDate : Utf16
  scheduleTime : Utf16

structure Context where
  projectId : Utf16
  graphId : Utf16
  nodes : List Utf16

structure ScheduledGraphCreateRequestJava where
  scheduleId : Utf16
  scheduleDesc : Option Utf16
  cron : Cron
  projectId : Utf16
  graphId : Utf16
  nodes : List Utf16

def ScheduleCycle.text : ScheduleCycle → Utf16
  | .D => lit "D"
  | .W => lit "W"
  | .M => lit "M"

/-- `none` is the error thrown for a form that does not hold a schedule. -/
def buildSchedulePayload (values : ScheduleFormValues) (ctx : Context) : Option ScheduledGraphCreateRequestJava :=
  match parseDateTime zone values.startTime, parseDateTime zone values.endTime, values.cycle with
  | some start, some stop, some cycle =>
    let desc := trim values.scheduleDesc
    some ⟨values.scheduleId, if desc = [] then none else some desc,
      ⟨formatDateTime zone start, formatDateTime zone stop, cycle.text, buildScheduleDate cycle values.days, toScheduleTime values.time⟩,
      ctx.projectId, ctx.graphId, ctx.nodes⟩
  | _, _, _ => none

end Dates

end Web.Schedule
