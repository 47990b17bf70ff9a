import Mathlib.Data.List.DropRight
import Mathlib.Tactic.Ring
import Privahub.Sched.CronText

/-!
# Times in JSON

A `time.Time` as `MarshalJSON` writes it and as `UnmarshalJSON` and `ParseTime` of `codec.go` read it. The text keeps the nanoseconds but only the
minutes of the offset: what is read back is another instant if the offset has seconds (`read_marshal`). What is read is written and read again as it
is (`read_format`).
-/

namespace Sync

open Calendar
open Cronutil (getnumMax skip skipSpace fraction date getnumMax_twoDigits)
open Bytes (twoDigits)

/-- A `time.Time`: the instant, and the offset of its location then. -/
structure Timestamp where
  /-- Nanoseconds since 1970. -/
  ns : Int
  /-- Seconds ahead of UTC. -/
  offset : Int
  deriving DecidableEq

/-- `n` with `w` digits, of which the last are kept. -/
def padDigits : Nat → Nat → Bytes
  | 0, _ => []
  | w + 1, n => padDigits w (n / 10) ++ [UInt8.ofNat (48 + n % 10)]

/-- `appendInt` with a width: more digits where they are needed. -/
def appendInt (n : Int) (w : Nat) : Bytes :=
  (if n < 0 then [45] else []) ++ if n.natAbs < 10 ^ w then padDigits w n.natAbs else Bytes.digits n.natAbs

namespace Timestamp

variable (t : Timestamp)

def wall : Int := t.ns / 1000000000 + t.offset

def year : Int := monthOf (t.wall / 86400) / 12

def zone : Int := t.offset.tdiv 60

/-- `appendNano`: nothing of a full second, no zeros at the end. -/
def fracText : Bytes :=
  if t.ns % 1000000000 = 0 then [] else 46 :: (padDigits 9 (t.ns % 1000000000).toNat).rdropWhile (· == 48)

def zoneText : Bytes :=
  if t.offset = 0 then [90]
  else (if t.zone < 0 then 45 else 43) :: (appendInt (t.zone.natAbs / 60) 2 ++ 58 :: appendInt (t.zone.natAbs % 60) 2)

/-- `Format(time.RFC3339Nano)`. -/
def format : Bytes :=
  let month := monthOf (t.wall / 86400)
  appendInt (month / 12) 4 ++ 45 :: (appendInt (month % 12 + 1) 2 ++ 45 :: (appendInt (dayOf (t.wall / 86400)) 2 ++ 84 ::
    (appendInt (t.wall % 86400 / 3600) 2 ++ 58 :: (appendInt (t.wall % 3600 / 60) 2 ++ 58 :: (appendInt (t.wall % 60) 2 ++
      (t.fracText ++ t.zoneText))))))

/-- What `MarshalJSON` does not refuse: a year of four digits and an offset of less than a day. -/
def Written : Prop := 0 ≤ t.year ∧ t.year ≤ 9999 ∧ t.zone.natAbs / 60 < 24

instance : Decidable t.Written := inferInstanceAs (Decidable (_ ∧ _ ∧ _))

def MarshalJSON : Option Bytes := if t.Written then some t.format else none

def toMinutes : Timestamp := ⟨t.ns + (t.offset - t.zone * 60) * 1000000000, t.zone * 60⟩

end Timestamp

def readCivil (sep : Bytes → Option Bytes) (v : Bytes) : Option (Int × Bytes) := do
  let y ← if (v.take 4).length = 4 ∧ (v.take 4).all Bytes.isDigit then some (Json.digitsVal (v.take 4)) else none
  let (m, v) ← (skip 45 (v.drop 4)).bind fun v => getnumMax v true 1 12
  let (d, v) ← (skip 45 v).bind fun v => getnumMax v true 0 99
  let (h, v) ← (sep v).bind fun v => getnumMax v false 0 23
  let (mi, v) ← (skip 58 v).bind fun v => getnumMax v true 0 59
  let (s, v) ← (skip 58 v).bind fun v => getnumMax v true 0 59
  let (ns, v) := fraction v
  if 1 ≤ d ∧ d ≤ monthLen (12 * y + (m - 1)) then some (date 0 y m d h mi s ns, v) else none

/-- `Z07:00` at the end of the text, in seconds. -/
def readZone (v : Bytes) : Option Int := match v with
  | [] => none
  | [90] => some 0
  | sign :: v => do
    let (hr, v) ← getnumMax v true 0 24
    let (mm, v) ← (skip 58 v).bind fun v => getnumMax v true 0 60
    if v ≠ [] then none else if sign = 43 then some ((hr * 60 + mm) * 60) else if sign = 45 then some (-((hr * 60 + mm) * 60)) else none

/-- `time.Parse(time.RFC3339Nano, v)`, and `time.RFC3339` as well: a fraction may follow the seconds either way. -/
def readRFC3339 (v : Bytes) : Option Timestamp := do
  let (c, v) ← readCivil (skip 84) v
  let off ← readZone v
  return ⟨c - off * 1000000000, off⟩

/-- A clock time of a location; `localOffset` says how far it is ahead of UTC when its clocks show these seconds. -/
def atLocal (localOffset : Int → Int) (c : Int) : Timestamp :=
  ⟨c - localOffset (c / 1000000000) * 1000000000, localOffset (c / 1000000000)⟩

def readLocal (localOffset : Int → Int) (sep : Bytes → Option Bytes) (v : Bytes) : Option Timestamp := do
  let (c, v) ← readCivil sep v
  if v = [] then some (atLocal localOffset c) else none

/-- `ParseTime`. The last two of its layouts differ from those before them in the fraction, which may follow the seconds anyway. -/
def ParseTime (localOffset : Int → Int) (s : Bytes) : Option Timestamp :=
  let s := Utf8.trimSpace s
  (readRFC3339 s).or ((readLocal localOffset (skip 84) s).or (readLocal localOffset skipSpace s))

theorem isDigit_padDigits (w n : Nat) : ∀ b ∈ padDigits w n, Bytes.isDigit b = true := by
  induction w generalizing n with
  | zero => exact fun b hb => absurd hb List.not_mem_nil
  | succ w ih =>
    intro b hb
    rcases List.mem_append.1 hb with hb | hb
    · exact ih _ b hb
    · rw [List.mem_singleton.1 hb]
      exact Bytes.isDigit_ofNat (Nat.mod_lt _ (by omega))

theorem length_padDigits (w n : Nat) : (padDigits w n).length = w := by
  induction w generalizing n with
  | zero => rfl
  | succ w ih => rw [padDigits, List.length_append, ih, List.length_singleton]

theorem digitsVal_append (a b : Bytes) : Json.digitsVal (a ++ b) = Json.digitsVal a * 10 ^ b.length + Json.digitsVal b := by
  unfold Json.digitsVal
  rw [List.foldl_append]
  have key : ∀ (b : Bytes) (m : Nat), b.foldl (fun n d => n * 10 + (d.toNat - 48)) m =
      m * 10 ^ b.length + b.foldl (fun n d => n * 10 + (d.toNat - 48)) 0 := by
    intro b
    induction b with
    | nil => simp
    | cons x b ih =>
      intro m
      rw [List.foldl_cons, List.foldl_cons, ih, ih (0 * 10 + _), List.length_cons, pow_succ]
      ring
  exact key b _

theorem digitsVal_padDigits (w n : Nat) : Json.digitsVal (padDigits w n) = n % 10 ^ w := by
  induction w generalizing n with
  | zero => simp [padDigits, Json.digitsVal, Nat.mod_one]
  | succ w ih =>
    have hlast : Json.digitsVal [UInt8.ofNat (48 + n % 10)] = n % 10 := by
      show 0 * 10 + ((UInt8.ofNat (48 + n % 10)).toNat - 48) = n % 10
      rw [Utf8.toNat_ofNat (by omega)]
      omega
    rw [padDigits, digitsVal_append, ih, hlast, List.length_singleton, pow_one, pow_succ, Nat.mul_comm (10 ^ w), Nat.mod_mul]
    ring

theorem padDigits_two {n : Nat} (h : n < 100) : padDigits 2 n = twoDigits n := by
  have hmod : n / 10 % 10 = n / 10 := Nat.mod_eq_of_lt (by omega)
  show [UInt8.ofNat (48 + n / 10 % 10)] ++ [UInt8.ofNat (48 + n % 10)] = _
  rw [hmod]
  rfl

theorem appendInt_two {n : Int} (h0 : 0 ≤ n) (h : n < 100) : appendInt n 2 = twoDigits n.toNat := by
  have habs : n.natAbs = n.toNat := by omega
  rw [appendInt, if_neg (by omega), if_pos (by omega), habs, padDigits_two (by omega)]
  rfl

theorem appendInt_four {n : Int} (h0 : 0 ≤ n) (h : n ≤ 9999) : appendInt n 4 = padDigits 4 n.toNat := by
  have habs : n.natAbs = n.toNat := by omega
  rw [appendInt, if_neg (by omega), if_pos (by omega), habs]
  rfl

theorem fraction_rdropWhile {n : Nat} (h0 : 0 < n) (h : n < 1000000000) {rest : Bytes} (hrest : ∀ b ∈ rest.head?, Bytes.isDigit b = false) :
    fraction (46 :: ((padDigits 9 n).rdropWhile (· == 48) ++ rest)) = ((n : Int), rest) := by
  obtain ⟨zeros, hall, hsplit⟩ : ∃ zeros : Bytes, (∀ b ∈ zeros, b = 48) ∧ padDigits 9 n = (padDigits 9 n).rdropWhile (· == 48) ++ zeros := by
    refine ⟨((padDigits 9 n).reverse.takeWhile (· == 48)).reverse, fun b hb => ?_, ?_⟩
    · have hzero := List.mem_takeWhile_imp (List.mem_reverse.1 hb)
      exact eq_of_beq hzero
    · rw [List.rdropWhile, ← List.reverse_append, List.takeWhile_append_dropWhile, List.reverse_reverse]
  generalize hds : (padDigits 9 n).rdropWhile (· == 48) = ds at *
  have hzeros : zeros = List.replicate zeros.length 48 := List.eq_replicate_of_mem hall
  have hlen : ds.length + zeros.length = 9 := by
    rw [← List.length_append, ← hsplit, length_padDigits]
  have hdigits : ∀ b ∈ ds, Bytes.isDigit b = true := fun b hb =>
    isDigit_padDigits 9 n b (hsplit ▸ List.mem_append_left _ hb)
  have hval : Json.digitsVal ds * 10 ^ zeros.length = n := by
    have hz : ∀ k, Json.digitsVal (List.replicate k 48) = 0 := by
      intro k
      induction k with
      | zero => rfl
      | succ k ih => rw [List.replicate_succ', digitsVal_append, ih]; rfl
    have hn := digitsVal_padDigits 9 n
    rw [hsplit, digitsVal_append, hzeros, hz, List.length_replicate, Nat.add_zero, Nat.mod_eq_of_lt (by omega)] at hn
    exact hn
  have hne : ds ≠ [] := by
    rintro rfl
    rw [show Json.digitsVal [] = 0 from rfl] at hval
    omega
  have htake : (ds ++ rest).takeWhile Bytes.isDigit = ds := by
    rw [List.takeWhile_append_of_pos hdigits]
    cases rest with
    | nil => exact List.append_nil _
    | cons b rest => rw [List.takeWhile_cons_of_neg (by simp [hrest b rfl]), List.append_nil]
  have hexp : 9 - ds.length = zeros.length := by omega
  have hshort : ds.take 9 = ds := List.take_of_length_le (by omega)
  show (if _ then _ else _) = _
  rw [htake, if_pos ⟨Or.inl rfl, hne⟩, hshort, hexp, List.drop_left]
  have hcast : (Json.digitsVal ds : Int) * 10 ^ zeros.length = n := by exact_mod_cast hval
  exact Prod.ext hcast rfl

namespace Timestamp

variable {t : Timestamp}

theorem civil_bounds (t : Timestamp) : (0 ≤ t.wall % 86400 / 3600 ∧ t.wall % 86400 / 3600 ≤ 23) ∧ (0 ≤ t.wall % 3600 / 60 ∧ t.wall % 3600 / 60 ≤ 59) ∧
    (0 ≤ t.wall % 60 ∧ t.wall % 60 ≤ 59) := by
  omega

theorem isDigit_head_zoneText (t : Timestamp) : ∀ b ∈ t.zoneText.head?, Bytes.isDigit b = false := by
  intro b hb
  unfold zoneText at hb
  split_ifs at hb
  all_goals cases hb; rfl

theorem fraction_text (t : Timestamp) : fraction (t.fracText ++ t.zoneText) = (t.ns % 1000000000, t.zoneText) := by
  unfold fracText
  split_ifs with hfull
  · -- `Z` and the signs begin no fraction
    have hother : ∀ (c : UInt8) (v : Bytes), ¬(c = 46 ∨ c = 44) → fraction (c :: v) = (0, c :: v) := fun c v hc => if_neg fun h => hc h.1
    rw [hfull, List.nil_append]
    unfold zoneText
    split_ifs
    · exact hother _ _ (by decide)
    · exact hother _ _ (by decide)
    · exact hother _ _ (by decide)
  · have hns : ((t.ns % 1000000000).toNat : Int) = t.ns % 1000000000 := by omega
    have hread := fraction_rdropWhile (n := (t.ns % 1000000000).toNat) (by omega) (by omega) t.isDigit_head_zoneText
    rw [hns] at hread
    exact hread

theorem readZone_text (h : t.zone.natAbs / 60 < 24) : readZone t.zoneText = some (t.zone * 60) := by
  unfold zoneText
  by_cases h0 : t.offset = 0
  · have hz : t.zone = 0 := by rw [zone, h0]; rfl
    rw [if_pos h0, hz]
    rfl
  have hhours : appendInt (t.zone.natAbs / 60) 2 = twoDigits (t.zone.natAbs / 60) := appendInt_two (by omega) (by omega)
  have hminutes : appendInt (t.zone.natAbs % 60) 2 = twoDigits (t.zone.natAbs % 60) := appendInt_two (by omega) (by omega)
  have hskip : ∀ (c : UInt8) (v : Bytes), skip c (c :: v) = some v := fun c v => if_pos rfl
  have hlast := getnumMax_twoDigits (n := t.zone.natAbs % 60) (by omega) true 0 60 (by omega) (by omega) []
  rw [List.append_nil] at hlast
  have hread : ∀ sign : UInt8, sign ≠ 90 → readZone (sign :: (twoDigits (t.zone.natAbs / 60) ++ 58 :: twoDigits (t.zone.natAbs % 60))) =
      if sign = 43 then some ((((t.zone.natAbs / 60 : Nat) : Int) * 60 + ((t.zone.natAbs % 60 : Nat) : Int)) * 60)
      else if sign = 45 then some (-((((t.zone.natAbs / 60 : Nat) : Int) * 60 + ((t.zone.natAbs % 60 : Nat) : Int)) * 60)) else none := by
    intro sign hsign
    unfold readZone
    split
    · contradiction
    · rename_i heq
      exact absurd (List.cons.inj heq).1 hsign
    · rename_i heq
      obtain ⟨rfl, rfl⟩ := List.cons.inj heq
      simp only [Option.bind_eq_bind, Option.bind_some, getnumMax_twoDigits (show t.zone.natAbs / 60 < 100 by omega) true 0 24 (by omega) (by omega), hskip,
        hlast]
      rfl
  rw [if_neg h0, hhours, hminutes]
  by_cases hneg : t.zone < 0
  · rw [if_pos hneg, hread 45 (by decide), if_neg (by decide), if_pos rfl]
    exact congrArg some (by omega)
  · rw [if_neg hneg, hread 43 (by decide), if_pos rfl]
    exact congrArg some (by omega)

theorem readCivil_format (h0 : 0 ≤ t.year) (h1 : t.year ≤ 9999) : readCivil (skip 84) t.format = some (t.ns + t.offset * 1000000000, t.zoneText) := by
  obtain ⟨⟨hh0, hh⟩, ⟨hm0, hm⟩, ⟨hs0, hs⟩⟩ := civil_bounds t
  have hday := dayOf_bounds (t.wall / 86400)
  have hlen := monthLen_bounds (monthOf (t.wall / 86400))
  have hdate := monthStart_dayOf (t.wall / 86400)
  have hyear : appendInt (monthOf (t.wall / 86400) / 12) 4 = padDigits 4 t.year.toNat := appendInt_four h0 h1
  have hskip : ∀ (c : UInt8) (v : Bytes), skip c (c :: v) = some v := fun c v => if_pos rfl
  have hval : Json.digitsVal (padDigits 4 t.year.toNat) = t.year.toNat := by
    rw [digitsVal_padDigits]
    exact Nat.mod_eq_of_lt (by omega)
  have hmonth : (12 * ((t.year.toNat : Nat) : Int) + ((((monthOf (t.wall / 86400) % 12 + 1).toNat : Nat) : Int) - 1)) = monthOf (t.wall / 86400) := by
    unfold year at *
    omega
  unfold readCivil format
  simp only [hyear]
  rw [List.take_left' (length_padDigits 4 _), List.drop_left' (length_padDigits 4 _),
    if_pos ⟨length_padDigits 4 _, List.all_eq_true.2 (isDigit_padDigits 4 _)⟩]
  rw [appendInt_two (n := monthOf (t.wall / 86400) % 12 + 1) (by omega) (by omega), appendInt_two (n := dayOf (t.wall / 86400)) (by omega) (by omega),
    appendInt_two hh0 (by omega), appendInt_two hm0 (by omega), appendInt_two hs0 (by omega)]
  simp only [Option.bind_eq_bind, Option.bind_some, hskip, hval,
    getnumMax_twoDigits (show (monthOf (t.wall / 86400) % 12 + 1).toNat < 100 by omega) true 1 12 (by omega) (by omega),
    getnumMax_twoDigits (show (dayOf (t.wall / 86400)).toNat < 100 by omega) true 0 99 (by omega) (by omega),
    getnumMax_twoDigits (show (t.wall % 86400 / 3600).toNat < 100 by omega) false 0 23 (by omega) (by omega),
    getnumMax_twoDigits (show (t.wall % 3600 / 60).toNat < 100 by omega) true 0 59 (by omega) (by omega),
    getnumMax_twoDigits (show (t.wall % 60).toNat < 100 by omega) true 0 59 (by omega) (by omega), fraction_text, hmonth]
  rw [if_pos (by omega)]
  refine congrArg some (Prod.ext ?_ rfl)
  unfold date
  rw [hmonth]
  show _ = t.ns + t.offset * 1000000000
  unfold wall at *
  omega

theorem read_format (h : t.Written) : readRFC3339 t.format = some t.toMinutes := by
  obtain ⟨h0, h1, h2⟩ := h
  unfold readRFC3339
  rw [readCivil_format h0 h1]
  show (readZone t.zoneText).bind _ = _
  rw [readZone_text h2]
  refine congrArg some (Timestamp.mk.injEq .. ▸ ⟨?_, rfl⟩)
  rw [sub_mul]
  omega

theorem wall_toMinutes (t : Timestamp) : t.toMinutes.wall = t.wall := by
  show (t.ns + (t.offset - t.zone * 60) * 1000000000) / 1000000000 + t.zone * 60 = t.ns / 1000000000 + t.offset
  omega

theorem zone_toMinutes (t : Timestamp) : t.toMinutes.zone = t.zone := Int.mul_tdiv_cancel _ (by decide)

theorem toMinutes_toMinutes (t : Timestamp) : t.toMinutes.toMinutes = t.toMinutes := by
  have hz := zone_toMinutes t
  unfold toMinutes at *
  rw [hz]
  simp

theorem written_toMinutes (h : t.Written) : t.toMinutes.Written := by
  unfold Written year at *
  rwa [wall_toMinutes, zone_toMinutes]

theorem toMinutes_eq_iff : t.toMinutes = t ↔ 60 ∣ t.offset := by
  constructor
  · intro h
    exact ⟨t.zone, (congrArg offset h).symm.trans (Int.mul_comm _ _)⟩
  · intro h
    have hz : t.zone * 60 = t.offset := Int.tdiv_mul_cancel h
    unfold toMinutes
    rw [hz, sub_self, Int.zero_mul, Int.add_zero]

def isTimeByte (b : UInt8) : Bool := Bytes.isDigit b || [43, 45, 46, 58, 84, 90].contains b

def TimeBytes (s : Bytes) : Prop := ∀ b ∈ s, isTimeByte b = true

instance (s : Bytes) : Decidable (TimeBytes s) := inferInstanceAs (Decidable (∀ b ∈ s, isTimeByte b = true))

variable {a b s : Bytes}

theorem TimeBytes.append (ha : TimeBytes a) (hb : TimeBytes b) : TimeBytes (a ++ b) := by
  intro x hx
  rcases List.mem_append.1 hx with hx | hx
  · exact ha x hx
  · exact hb x hx

theorem timeBytes_cons {x : UInt8} (hx : TimeBytes [x]) (hs : TimeBytes s) : TimeBytes (x :: s) := hx.append hs

theorem timeBytes_digits (hs : ∀ b ∈ s, Bytes.isDigit b = true) : TimeBytes s := by
  intro b hb
  rw [isTimeByte, hs b hb, Bool.true_or]

theorem timeBytes_appendInt (n : Int) (w : Nat) : TimeBytes (appendInt n w) := by
  have hsign : TimeBytes (if n < 0 then [45] else []) := by split_ifs <;> decide
  refine hsign.append ?_
  split_ifs
  · exact timeBytes_digits (isDigit_padDigits _ _)
  · exact timeBytes_digits fun _ => Bytes.isDigit_of_mem_digits

theorem timeBytes_format (t : Timestamp) : TimeBytes t.format := by
  have hfrac : TimeBytes t.fracText := by
    unfold fracText
    split_ifs
    · decide
    · refine timeBytes_cons (by decide) (timeBytes_digits fun b hb => isDigit_padDigits 9 (t.ns % 1000000000).toNat b ?_)
      exact (List.rdropWhile_prefix _ _).subset hb
  have hoffset : ∀ sign : UInt8, TimeBytes [sign] →
      TimeBytes (sign :: (appendInt (t.zone.natAbs / 60) 2 ++ 58 :: appendInt (t.zone.natAbs % 60) 2)) := fun sign hs =>
    timeBytes_cons hs ((timeBytes_appendInt _ _).append (timeBytes_cons (by decide) (timeBytes_appendInt _ _)))
  have hzone : TimeBytes t.zoneText := by
    unfold zoneText
    split_ifs
    · decide
    · exact hoffset 45 (by decide)
    · exact hoffset 43 (by decide)
  have hpart : ∀ (n : Int) (c : UInt8) (rest : Bytes), TimeBytes [c] → TimeBytes rest → TimeBytes (appendInt n 2 ++ c :: rest) :=
    fun n c rest hc hrest => (timeBytes_appendInt n 2).append (timeBytes_cons hc hrest)
  exact (timeBytes_appendInt _ 4).append (timeBytes_cons (by decide) (hpart _ 45 _ (by decide) (hpart _ 84 _ (by decide) (hpart _ 58 _ (by decide)
    (hpart _ 58 _ (by decide) ((timeBytes_appendInt _ 2).append (hfrac.append hzone)))))))

theorem timeByte_facts : ∀ n < 256, isTimeByte (UInt8.ofNat n) = true →
    n < 128 ∧ Utf8.isSpaceByte (UInt8.ofNat n) = false ∧ Json.escapeRune (n, [UInt8.ofNat n]) = [UInt8.ofNat n] := by
  decide +kernel

theorem isTimeByte.facts {x : UInt8} (hx : isTimeByte x = true) :
    x.toNat < 128 ∧ Utf8.isSpaceByte x = false ∧ Json.escapeRune (x.toNat, [x]) = [x] := by
  have h := timeByte_facts x.toNat x.toNat_lt
  rw [UInt8.ofNat_toNat] at h
  exact h hx

theorem TimeBytes.word (hs : TimeBytes s) : Utf8.IsWord s := fun x hx => ⟨(isTimeByte.facts (hs x hx)).1, (isTimeByte.facts (hs x hx)).2.1⟩

theorem TimeBytes.escape (hs : TimeBytes s) : Json.escape s = s := by
  rw [Json.escape, Utf8.runes_ascii hs.word.isAscii, List.flatMap_map]
  calc s.flatMap (fun x => Json.escapeRune (x.toNat, [x])) = s.flatMap fun x => [x] :=
        List.flatMap_congr fun x hx => (isTimeByte.facts (hs x hx)).2.2
    _ = s := List.flatMap_singleton' s

theorem parseTime_format (localOffset : Int → Int) (h : t.Written) : ParseTime localOffset t.format = some t.toMinutes := by
  simp only [ParseTime, Utf8.trimSpace_word t.timeBytes_format.word, read_format h, Option.some_or]

end Timestamp

end Sync
