import Privahub.Lib.Calendar
import Privahub.Lib.Fields
import Privahub.Lib.Json
import Mathlib.Data.List.Sort

/-!
# Cron expressions

`pkg/cronutil`: a schedule's expressions, their reading, the search for the next trigger and the expansion into all of them. A time is in
nanoseconds since 1970 and shown in a location `zone` seconds ahead of UTC.
-/

namespace Cronutil

open Calendar Utf8

/-- `ErrInvalidConfig` with its message. -/
inductive ErrInvalidConfig
  /-- time %q must be yyyy-MM-dd HH:mm:ss -/
  | time (s : Bytes)
  /-- scheduleTime %q must be HH:mm -/
  | scheduleTime (s : Bytes)
  /-- end time must be greater than start time -/
  | endBeforeStart
  /-- scheduleDate is required for weekly cycle -/
  | weeklyRequired
  /-- weekly scheduleDate %q must be 1(Mon)..7(Sun) -/
  | weekly (it : Bytes)
  /-- scheduleDate is required for monthly cycle -/
  | monthlyRequired
  /-- monthly scheduleDate %q must be 1..31 or end -/
  | monthly (it : Bytes)
  /-- invalid schedule cycle: %q -/
  | cycle (c : Bytes)
  /-- cron %q must have 6 or 7 fields -/
  | fields (expr : Bytes)
  /-- cron %q second: %q must be 0..59, and so for the minute and the hour -/
  | fixed (expr : Bytes) (field : Bytes) (s : Bytes) (max : Int)
  /-- cron %q month must be * -/
  | month (expr : Bytes)
  /-- cron %q year must be * -/
  | year (expr : Bytes)
  /-- cron %q day-of-month %q -/
  | dayOfMonth (expr it : Bytes)
  /-- cron %q day-of-week %q -/
  | dayOfWeek (expr it : Bytes)
  /-- cron %q: day-of-month and day-of-week cannot both be ? -/
  | neitherDay (expr : Bytes)
  /-- cron %q: one of day-of-month / day-of-week must be ? -/
  | bothDays (expr : Bytes)
  /-- schedule expands to more than %d trigger times -/
  | tooMany
  deriving DecidableEq

def MaxTriggerTimes : Nat := 10000

def maxScanDays : Nat := 366 * 8

/-- `strconv.Atoi`. -/
def atoi (s : Bytes) : Option Int := match s with
  | 43 :: 45 :: _ => none
  | 43 :: ds => Json.parseInt64 ds
  | _ => Json.parseInt64 s

/-- `strings.EqualFold` against an ASCII text. -/
def equalFold (s lit : Bytes) : Bool := Json.foldName s == Json.foldName lit

/-- `strings.ToUpper` up to what compares with `D`, `W` and `M`: no rune beyond ASCII has one of them as its upper case. -/
def toUpper (s : Bytes) : Bytes := s.map fun b => if 97 ≤ b ∧ b ≤ 122 then b - 32 else b

/-- `strings.ToLower` up to what compares with ASCII: the dotted capital I and the Kelvin sign are the runes beyond it with an ASCII lower case. -/
def toLower (s : Bytes) : Bytes := (runes s).flatMap fun r =>
  if 65 ≤ r.1 ∧ r.1 ≤ 90 then encodeRune (r.1 + 32) else if r.1 = 0x130 then [105] else if r.1 = 0x212A then [107] else r.2

def splitList (s : Bytes) : List Bytes := ((s.splitOn 44).map trimSpace).filter fun p => !p.isEmpty

def localDay (zone : Int) (t : Int) : Int := (t / 1000000000 + zone) / 86400

/-- `time.Date` in the location, with days that need not be in range. -/
def date (zone y m d h mi s ns : Int) : Int := ((monthStart (12 * y + (m - 1)) + d - 1) * 86400 + h * 3600 + mi * 60 + s - zone) * 1000000000 + ns

def year (zone : Int) (t : Int) : Int := monthOf (localDay zone t) / 12

def month (zone : Int) (t : Int) : Int := monthOf (localDay zone t) % 12 + 1

def day (zone : Int) (t : Int) : Int := dayOf (localDay zone t)

def weekdayOf (zone : Int) (t : Int) : Int := weekday (localDay zone t)

/-- `t.AddDate(0, 0, 1)`. -/
def nextDate (zone : Int) (t : Int) : Int :=
  date zone (year zone t) (month zone t) (day zone t + 1) 0 0 0 ((t + zone * 1000000000) % 86400000000000)

def isDigitAt (v : Bytes) (i : Nat) : Bool := (v[i]?).any Bytes.isDigit

/-- `getnum`: two digits, or one if that is not `fixed`. -/
def getnum (v : Bytes) (fixed : Bool) : Option (Int × Bytes) :=
  if !isDigitAt v 0 then none
  else if isDigitAt v 1 then some (Json.digitsVal (v.take 2), v.drop 2)
  else if fixed then none
  else some (Json.digitsVal (v.take 1), v.drop 1)

/-- A number of two digits no greater than `max`. -/
def getnumMax (v : Bytes) (fixed : Bool) (min max : Int) : Option (Int × Bytes) :=
  (getnum v fixed).filter fun p => decide (min ≤ p.1 ∧ p.1 ≤ max)

def skip (c : UInt8) (v : Bytes) : Option Bytes := match v with
  | b :: t => if b = c then some t else none
  | [] => none

def skipSpace (v : Bytes) : Option Bytes := if v ≠ [] ∧ v.head? ≠ some 32 then none else some (v.dropWhile (· == 32))

def fraction (v : Bytes) : Int × Bytes := match v with
  | c :: t =>
    let ds := t.takeWhile Bytes.isDigit
    if (c = 46 ∨ c = 44) ∧ ds ≠ [] then (Json.digitsVal (ds.take 9) * 10 ^ (9 - ds.length), t.drop ds.length) else (0, v)
  | [] => (0, [])

/-- `time.ParseInLocation("2006-01-02 15:04:05", v, loc)`. -/
def parseInLocation (zone : Int) (v : Bytes) : Option Int := do
  let y ← if (v.take 4).length = 4 ∧ (v.take 4).all Bytes.isDigit then some (Json.digitsVal (v.take 4)) else none
  let (m, v) ← (skip 45 (v.drop 4)).bind fun v => getnumMax v true 1 12
  let (d, v) ← (skip 45 v).bind fun v => getnumMax v true 0 99
  let (h, v) ← (skipSpace v).bind fun v => getnumMax v false 0 23
  let (mi, v) ← (skip 58 v).bind fun v => getnumMax v true 0 59
  let (s, v) ← (skip 58 v).bind fun v => getnumMax v true 0 59
  let (ns, v) := fraction v
  if v = [] ∧ 1 ≤ d ∧ d ≤ monthLen (12 * y + (m - 1)) then some (date zone y m d h mi s ns) else none

def ParseDateTime (zone : Int) (s : Bytes) : Except ErrInvalidConfig Int := match parseInLocation zone (trimSpace s) with
  | some t => .ok t
  | none => .error (.time s)

def timePart (s p : Bytes) (limit : Int) : Except ErrInvalidConfig Int := match atoi (trimSpace p) with
  | some v => if v < 0 ∨ limit < v then .error (.scheduleTime s) else .ok v
  | none => .error (.scheduleTime s)

def ParseScheduleTime (s : Bytes) : Except ErrInvalidConfig (Int × Int × Int) := match (trimSpace s).splitOn 58 with
  | [h, m] => do return (← timePart s h 23, ← timePart s m 59, 0)
  | [h, m, sec] => do return (← timePart s h 23, ← timePart s m 59, ← timePart s sec 59)
  | _ => .error (.scheduleTime s)

def quartzWeekdayNames : List Bytes := [str "sun", str "mon", str "tue", str "wed", str "thu", str "fri", str "sat"]

def exprText (h m s : Int) (rest : Bytes) : Bytes :=
  Bytes.itoa s ++ [32] ++ Bytes.itoa m ++ [32] ++ Bytes.itoa h ++ [32] ++ rest

def weeklyFields (it : Bytes) : Except ErrInvalidConfig Bytes := match atoi it with
  | some d => if d < 1 ∨ 7 < d then .error (.weekly it) else .ok (str "? * " ++ quartzWeekdayNames.getD (d % 7).toNat [])
  | none => .error (.weekly it)

def monthlyFields (it : Bytes) : Except ErrInvalidConfig Bytes :=
  if equalFold it (str "end") || equalFold it (str "L") then .ok (str "L * ?")
  else match atoi it with
    | some d => if d < 1 ∨ 31 < d then .error (.monthly it) else .ok (Bytes.itoa d ++ str " * ?")
    | none => .error (.monthly it)

def dateFields (cycle scheduleDate : Bytes) : Except ErrInvalidConfig (List Bytes) :=
  let c := toUpper (trimSpace cycle)
  let items := splitList scheduleDate
  if c = str "D" then .ok [str "* * ?"]
  else if c = str "W" then if items = [] then .error .weeklyRequired else items.mapM weeklyFields
  else if c = str "M" then if items = [] then .error .monthlyRequired else items.mapM monthlyFields
  else .error (.cycle cycle)

def BuildCronExpressions (zone : Int) (cycle scheduleDate scheduleTime startTime endTime : Bytes) : Except ErrInvalidConfig (List Bytes) := do
  let start ← ParseDateTime zone startTime
  let stop ← ParseDateTime zone endTime
  if stop < start then .error .endBeforeStart
  else do
    let (h, m, s) ← ParseScheduleTime scheduleTime
    return ((← dateFields cycle scheduleDate).map (exprText h m s)).eraseDups

structure Expr where
  second : Int
  minute : Int
  hour : Int
  anyDOM : Bool
  noDOM : Bool
  doms : List Int
  lastDOM : Bool
  anyDOW : Bool
  noDOW : Bool
  dows : List Int
  deriving DecidableEq

def fixedField (expr field s : Bytes) (max : Int) : Except ErrInvalidConfig Int := match atoi s with
  | some v => if v < 0 ∨ max < v then .error (.fixed expr field s max) else .ok v
  | none => .error (.fixed expr field s max)

/-- `none` is the last day. -/
def monthDay (expr it : Bytes) : Except ErrInvalidConfig (Option Int) :=
  if equalFold it (str "L") then .ok none
  else match atoi it with
    | some d => if d < 1 ∨ 31 < d then .error (.dayOfMonth expr it) else .ok (some d)
    | none => .error (.dayOfMonth expr it)

def parseQuartzWeekday (s : Bytes) : Option Int :=
  if quartzWeekdayNames.contains (toLower s) then some (quartzWeekdayNames.idxOf (toLower s))
  else (atoi s).bind fun v => if 1 ≤ v ∧ v ≤ 7 then some (v - 1) else none

def weekDay (expr it : Bytes) : Except ErrInvalidConfig Int := match parseQuartzWeekday it with
  | some d => .ok d
  | none => .error (.dayOfWeek expr it)

def domField (expr f3 : Bytes) : Except ErrInvalidConfig (List (Option Int)) :=
  if f3 = str "*" ∨ f3 = str "?" then .ok [] else (splitList f3).mapM (monthDay expr)

def dowField (expr f5 : Bytes) : Except ErrInvalidConfig (List Int) :=
  if f5 = str "*" ∨ f5 = str "?" then .ok [] else (splitList f5).mapM (weekDay expr)

def Parse (expr : Bytes) : Except ErrInvalidConfig Expr := match fields expr with
  | f0 :: f1 :: f2 :: f3 :: f4 :: f5 :: rest =>
    if 1 < rest.length then .error (.fields expr)
    else do
      let second ← fixedField expr (str "second") f0 59
      let minute ← fixedField expr (str "minute") f1 59
      let hour ← fixedField expr (str "hour") f2 23
      if f4 ≠ str "*" then .error (.month expr)
      else if rest ≠ [] ∧ rest ≠ [str "*"] then .error (.year expr)
      else do
        let doms ← domField expr f3
        let dows ← dowField expr f5
        if f3 = str "?" ∧ f5 = str "?" then .error (.neitherDay expr)
        else if f3 ≠ str "?" ∧ f5 ≠ str "?" ∧ ¬(f3 = str "*" ∨ f5 = str "*") then .error (.bothDays expr)
        else .ok ⟨second, minute, hour, decide (f3 = str "*"), decide (f3 = str "?"), doms.filterMap id, doms.contains none,
          decide (f5 = str "*"), decide (f5 = str "?"), dows⟩
  | _ => .error (.fields expr)

section Triggers

variable (zone : Int)

def Expr.domOK (e : Expr) (day : Int) : Bool :=
  e.anyDOM || e.doms.contains (Cronutil.day zone day) || e.lastDOM && Cronutil.day zone (nextDate zone day) == 1

def Expr.dowOK (e : Expr) (day : Int) : Bool := e.anyDOW || e.dows.contains (weekdayOf zone day)

def Expr.matchDay (e : Expr) (day : Int) : Bool :=
  if e.noDOW then e.domOK zone day else if e.noDOM then e.dowOK zone day else e.domOK zone day && e.dowOK zone day

/-- The days from the `i`-th after `y`-`m`-`d`, as many as are left of the scan. -/
def Expr.scan (e : Expr) (after : Int) (y m d : Int) : Nat → Int → Option Int
  | 0, _ => none
  | left + 1, i =>
    let day := date zone y m (d + i) 0 0 0 0
    let cand := date zone (year zone day) (month zone day) (Cronutil.day zone day) e.hour e.minute e.second 0
    if e.matchDay zone day ∧ after < cand then some cand else e.scan after y m d left (i + 1)

/-- The first trigger after `after`. -/
def Expr.Next (e : Expr) (after : Int) : Option Int :=
  e.scan zone after (year zone after) (month zone after) (day zone after) maxScanDays 0

/-- The loop of `MatchingTimes`; each trigger is on a later day than the one before. -/
def matchingFrom (e : Expr) (stop now : Int) : Nat → Int → List Int → Except ErrInvalidConfig (List Int)
  | 0, _, out => .ok out
  | fuel + 1, cur, out => match e.Next zone cur with
    | none => .ok out
    | some next =>
      if stop < next then .ok out
      else if next < now then matchingFrom e stop now fuel next out
      else if MaxTriggerTimes < (out ++ [next]).length then .error .tooMany
      else matchingFrom e stop now fuel next (out ++ [next])

def MatchingTimes (expr : Bytes) (start stop now : Int) : Except ErrInvalidConfig (List Int) := do
  let e ← Parse expr
  matchingFrom zone e stop now (localDay zone stop - localDay zone (start - 1) + 1).toNat (start - 1) []

structure Trigger where
  time : Int
  cron : Bytes
  deriving DecidableEq

def addTimes (cron : Bytes) (out : List Trigger) (times : List Int) : List Trigger :=
  times.foldl (fun out t => if out.any fun o => o.time / 1000000000 == t / 1000000000 then out else out ++ [⟨t, cron⟩]) out

def triggersFrom (start stop now : Int) : List Bytes → List Trigger → Except ErrInvalidConfig (List Trigger)
  | [], out => .ok out
  | expr :: exprs, out => do
    let times ← MatchingTimes zone expr start stop now
    let out := addTimes expr out times
    if MaxTriggerTimes < out.length then .error .tooMany else triggersFrom start stop now exprs out

def TriggerTimes (exprs : List Bytes) (start stop now : Int) : Except ErrInvalidConfig (List Trigger) :=
  (triggersFrom zone start stop now exprs []).map fun out => out.mergeSort fun a b => decide (a.time ≤ b.time)

structure Config where
  startTime : Bytes
  endTime : Bytes
  scheduleCycle : Bytes
  scheduleDate : Bytes
  scheduleTime : Bytes

def Expand (cfg : Config) (now : Int) : Except ErrInvalidConfig (List Bytes × List Trigger) := do
  let exprs ← BuildCronExpressions zone cfg.scheduleCycle cfg.scheduleDate cfg.scheduleTime cfg.startTime cfg.endTime
  let start ← ParseDateTime zone cfg.startTime
  let stop ← ParseDateTime zone cfg.endTime
  return (exprs, ← TriggerTimes zone exprs start stop now)

end Triggers

end Cronutil
