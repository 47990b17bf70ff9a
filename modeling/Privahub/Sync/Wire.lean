import Privahub.Lib.Float64
import Privahub.Lib.JsonInfix
import Privahub.Lib.JsonRead
import Privahub.Sync.Codec
import Privahub.Sync.Model

/-!
# Records as JSON and back

`json.Marshal` of a model, which `emit` sends, and `Decode` of `codec.go`. The JSON goes through a map of Go values on the way: its numbers are floats
there, and its strings valid UTF-8. A record arrives as it was sent exactly if its values survive that (`decode_marshal_iff`).
-/

namespace Sync

instance (f : Field) (v : Value) : Decidable (f.Has v) := by
  unfold Field.Has
  split <;> infer_instance

instance (m : Model) (e : Record) : Decidable (m.Typed e) := inferInstanceAs (Decidable (∀ f ∈ m.fields, f.Has (e f.column)))

/-- The value as `json.Marshal` writes it; a time must be `Written`. -/
def Value.toJson : Value → Json
  | .null => .null
  | .text s => .str (Json.escape s)
  | .int n => .num (Bytes.itoa n)
  | .bool b => .bool b
  | .time t => .str (Json.escape t.format)

def Field.member (e : Record) (f : Field) : Option (Bytes × Json) :=
  match f.json with
  | none => none
  | some key => if f.omitempty = true ∧ e f.column = .null then none else some (key, (e f.column).toJson)

/-- `MarshalJSON` refuses none of the times. -/
def Field.Written (e : Record) (f : Field) : Prop := match e f.column with
  | .time t => f.json = none ∨ t.Written
  | _ => True

instance (e : Record) (f : Field) : Decidable (f.Written e) := by
  unfold Field.Written
  split <;> infer_instance

namespace Model

def members (m : Model) (e : Record) : List (Bytes × Json) := m.fields.filterMap (Field.member e)

/-- The text that `emit` sends: nothing if a time cannot be written. -/
def marshal (m : Model) (e : Record) : Option Bytes :=
  if ∀ f ∈ m.fields, f.Written e then some (Json.render (.obj (m.members e))) else none

end Model

def integer (lit : Bytes) : Option Int := (Json.parseInt64 lit).filter fun n => decide (lit = Bytes.itoa n)

/-- `strconv.ParseBool`. -/
def parseBool (s : Bytes) : Option Bool :=
  if s ∈ [str "1", str "t", str "T", str "TRUE", str "true", str "True"] then some true
  else if s ∈ [str "0", str "f", str "F", str "FALSE", str "false", str "False"] then some false
  else none

/-- Where a message is decoded: in what order Go runs over its keys, the local time, and what becomes of the values that no model writes. -/
structure Decoder where
  unicode : CaseTables
  order : List (Bytes × Json) → Order
  order_of : ∀ m, (order m).Of unicode m
  localOffset : Int → Int
  /-- A number that is no 64-bit integer, as the JSON of the float it is read as; nothing if there is none. -/
  otherNumber : Bytes → Option Bytes
  /-- The same as `strconv.FormatFloat(f, 'f', -1, 64)`. -/
  otherDigits : Bytes → Bytes
  /-- `int(f)` of a float. -/
  truncated : Bytes → Int
  /-- `strconv.ParseFloat` of a string, and the JSON of the float: infinities and NaN have none. -/
  parseFloat : Bytes → Option (Option Bytes)
  /-- `json.Marshal` of a nested value; nothing if one of its numbers is no float. -/
  nested : Json → Option Bytes

inductive Coerced where
  | deleted
  | kept (v : Json)
  /-- `json.Marshal` refuses the float. -/
  | refused

def Kind.unmarshal : Kind → Json → Option Value
  | .time, .str lit => (readRFC3339 lit).map .time
  | .string, .str lit => some (.text (Json.unquote lit))
  | .int bits, .num lit => ((Json.parseInt lit).filter fun n => decide (-2 ^ (bits - 1) ≤ n ∧ n < 2 ^ (bits - 1))).map .int
  | .bool, .bool b => some (.bool b)
  | _, _ => none

def membersOf (data : Bytes) : Option (List (Bytes × Json)) := match Json.parse data with
  | some .null => some []
  | some (.obj ms) => some ms
  | _ => none

namespace Decoder

variable (d : Decoder)

def number (lit : Bytes) : Option Bytes := match integer lit with
  | some n => some (Bytes.itoa (Float64.viaFloat n))
  | none => d.otherNumber lit

def formatFloat (lit : Bytes) : Bytes := match integer lit with
  | some n => Bytes.itoa (Float64.viaFloat n)
  | none => d.otherDigits lit

def part (parts : List Json) (i : Nat) : Int := match parts[i]? with
  | some (.num lit) => match integer lit with
    | some n => if n.natAbs < 2 ^ 53 then n else d.truncated lit
    | none => d.truncated lit
  | _ => 0

/-- `json.Unmarshal` into the map takes the value. -/
def readable (v : Json) : Bool := match v with
  | .num lit => (d.number lit).isSome
  | .arr _ => (d.nested v).isSome
  | .obj _ => (d.nested v).isSome
  | _ => true

def coerceTime : Json → Coerced
  | .str lit => match ParseTime d.localOffset (Json.unquote lit) with
    | some t => .kept (.str (Json.escape t.format))
    | none => .deleted
  | .arr parts =>
    if 3 ≤ parts.length then
      let c := Cronutil.date 0 (d.part parts 0) (d.part parts 1) (d.part parts 2) (d.part parts 3) (d.part parts 4) (d.part parts 5) (d.part parts 6)
      .kept (.str (Json.escape (atLocal d.localOffset c).format))
    else .deleted
  | .obj ms => .kept (.obj ms)
  | _ => .deleted

def coerceString : Json → Coerced
  | .str lit => .kept (.str (Json.escape (Json.unquote lit)))
  | .num lit => .kept (.str (Json.escape (d.formatFloat lit)))
  | .bool b => .kept (.str (str (if b then "true" else "false")))
  | v => match d.nested v with
    | some b => .kept (.str (Json.escape b))
    | none => .deleted

def coerceInt : Json → Coerced
  | .num lit => match d.number lit with
    | some b => .kept (.num b)
    | none => .refused
  | .bool b => .kept (.num (str (if b then "1" else "0")))
  | .str lit => match d.parseFloat (Json.unquote lit) with
    | some (some b) => .kept (.num b)
    | some none => .refused
    | none => .deleted
  | _ => .deleted

def coerceBool : Json → Coerced
  | .bool b => .kept (.bool b)
  | .num lit => .kept (.bool (d.number lit ≠ some (str "0") ∧ d.number lit ≠ some (str "-0")))
  | .str lit => match parseBool (Json.unquote lit) with
    | some b => .kept (.bool b)
    | none => .deleted
  | _ => .deleted

/-- `coerce`, with what `json.Marshal` makes of the value afterwards. -/
def coerce : Kind → Json → Coerced
  | _, .null => .kept .null
  | .time, v => d.coerceTime v
  | .string, v => d.coerceString v
  | .int _, v => d.coerceInt v
  | .bool, v => d.coerceBool v

def fieldOf (f : Field) (v : Option Json) : Option Value := match v with
  | none => some f.zero
  | some v => match d.coerce f.kind v with
    | .deleted => some f.zero
    | .kept .null => some f.zero
    | .kept v => f.kind.unmarshal v
    | .refused => none

def valueOf (norm : Bytes → Option Json) (f : Field) : Option Value := match f.json with
  | none => some f.zero
  | some key => d.fieldOf f (norm key)

/-- `Decode`. -/
def Decode (table data : Bytes) : Option Record := do
  let m ← modelOf table
  if data = [] ∨ data = str "null" then none
  else do
    let ms ← membersOf data
    let norm := normalizeKeys d.unicode (d.order (goMap ms))
    if (∀ m ∈ ms, d.readable m.2 = true) ∧ ∀ f ∈ m.fields, (d.valueOf norm f).isSome = true then
      some fun c => ((m.fields.find? fun f => decide (f.column = c)).bind (d.valueOf norm)).getD .null
    else none

end Decoder

/-- A key that `normalizeKeys` leaves alone: lower-case ASCII, and none of those that stand for another. -/
def PlainKey (key : Bytes) : Prop :=
  (∀ b ∈ key, b.toNat < 128 ∧ (b.toNat < 65 ∨ 90 < b.toNat)) ∧ keyAliases.lookup key = none ∧ key ≠ str "upk" ∧ Json.StrLit key ∧ Json.unquote key = key

instance (key : Bytes) : Decidable (PlainKey key) := inferInstanceAs (Decidable (_ ∧ _))

theorem plainKeys : ∀ m ∈ syncModels, ∀ f ∈ m.fields, ∀ key ∈ f.json, PlainKey key := by decide +kernel

theorem nodup_keys : ∀ m ∈ syncModels, (m.fields.filterMap Field.json).Nodup := by decide +kernel

theorem nodup_columns : ∀ m ∈ syncModels, m.columns.Nodup := by decide +kernel

theorem bits_le : ∀ m ∈ syncModels, ∀ f ∈ m.fields, f.kind = .string ∨ f.kind = .bool ∨ f.kind = .time ∨ f.kind = .int 8 ∨ f.kind = .int 64 := by
  decide +kernel

variable {u : CaseTables} {o : Order} {key : Bytes} {ms : List (Bytes × Json)}

theorem PlainKey.toSnake (h : PlainKey key) : toSnake u key = key := by
  have hascii : Utf8.IsAscii key := fun b hb => (h.1 b hb).1
  refine if_neg ?_
  rw [Utf8.runes_ascii hascii]
  intro hany
  obtain ⟨r, hr, hupper⟩ := List.any_eq_true.1 hany
  obtain ⟨b, hb, rfl⟩ := List.mem_map.1 hr
  obtain ⟨hlt, hcase⟩ := h.1 b hb
  rw [u.isUpper_ascii _ hlt, Bool.and_eq_true, decide_eq_true_eq, decide_eq_true_eq] at hupper
  omega

theorem PlainKey.columnOf (h : PlainKey key) : columnOf u key = key := by
  rw [Sync.columnOf, h.toSnake, h.2.1]
  rfl

theorem goMap_plain (hplain : ∀ m ∈ ms, PlainKey m.1) (hnodup : (ms.map Prod.fst).Nodup) : goMap ms = ms := by
  have key : ∀ acc : List (Bytes × Json), ((acc ++ ms).map Prod.fst).Nodup → ms.foldl (fun m kv =>
      (m.filter fun e => decide (e.1 ≠ Json.unquote kv.1)) ++ [(Json.unquote kv.1, kv.2)]) acc = acc ++ ms := by
    clear hnodup
    induction ms with
    | nil => exact fun acc _ => (List.append_nil acc).symm
    | cons m ms ih =>
      intro acc hacc
      have hself : Json.unquote m.1 = m.1 := (hplain m List.mem_cons_self).2.2.2.2
      have hnew : acc.filter (fun e => decide (e.1 ≠ Json.unquote m.1)) = acc := by
        refine List.filter_eq_self.2 fun e he => decide_eq_true fun heq => ?_
        rw [List.map_append] at hacc
        exact (List.nodup_append.1 hacc).2.2 e.1 (List.mem_map_of_mem he) m.1 List.mem_cons_self (heq.trans hself)
      have happ : acc ++ m :: ms = acc ++ [m] ++ ms := by simp
      rw [List.foldl_cons, hnew, hself, happ]
      exact ih (fun m hm => hplain m (List.mem_cons_of_mem _ hm)) (acc ++ [m]) (happ ▸ hacc)
  exact key [] hnodup

theorem normalizeKeys_plain (hplain : ∀ m ∈ ms, PlainKey m.1) (hnodup : (ms.map Prod.fst).Nodup) (ho : o.Of u ms) (key : Bytes) :
    normalizeKeys u o key = (ms.find? fun m => decide (m.1 = key)).map Prod.snd := by
  have hsnake : snakeKeys u ms = ms := List.filter_eq_self.2 fun m hm => decide_eq_true ⟨(hplain m hm).2.2.1, (hplain m hm).toSnake.symm⟩
  have hcamel : camelKeys u ms = [] := List.filter_eq_nil_iff.2 fun m hm h => (of_decide_eq_true h).2 (hplain m hm).toSnake.symm
  have hupk : upkKeys ms = [] := by
    have hnone : ms.lookup (str "upk") = none := by
      refine List.lookup_eq_none_iff.2 fun m hm => ?_
      exact bne_iff_ne.2 (Ne.symm (hplain m hm).2.2.1)
    rw [upkKeys, hnone]
  have hperm := ho.snake
  have hcamel' := ho.camel
  have hupk' := ho.upk
  rw [hsnake] at hperm
  rw [hcamel] at hcamel'
  rw [hupk] at hupk'
  have hnodup' : (o.snake.map Prod.fst).Nodup := (hperm.map _).nodup_iff.2 hnodup
  rw [normalizeKeys, hcamel'.eq_nil, hupk'.eq_nil, List.foldl_nil, List.foldl_nil, foldl_put hnodup']
  have hcolumn : ∀ m ∈ o.snake, columnOf u m.1 = m.1 := fun m hm => (hplain m (hperm.subset hm)).columnOf
  have hfind : (o.snake.find? fun m => decide (m.1 = key)) = ms.find? fun m => decide (m.1 = key) := by
    refine List.find?_eq_find?_of_perm hperm fun a ha b hb => ?_
    exact List.inj_on_of_nodup_map hnodup' ha.1 hb.1 ((of_decide_eq_true ha.2).trans (of_decide_eq_true hb.2).symm)
  have hself : (o.snake.find? fun m => decide (m.1 = key ∧ columnOf u m.1 = key)) = ms.find? fun m => decide (m.1 = key) := by
    rw [← hfind]
    refine List.find?_congr fun m hm => decide_eq_decide.2 ?_
    rw [hcolumn m hm, and_self]
  have hcol : (o.snake.find? fun m => decide (columnOf u m.1 = key)) = ms.find? fun m => decide (m.1 = key) := by
    rw [← hfind]
    refine List.find?_congr fun m hm => ?_
    rw [hcolumn m hm]
  rw [hself, hcol, Option.or_none, Option.or_self]

theorem find?_filterMap {α κ β : Type} [DecidableEq κ] {name : α → Option κ} {g : α → Option (κ × β)} (hg : ∀ a kv, g a = some kv → name a = some kv.1) :
    ∀ {l : List α}, (l.filterMap name).Nodup → ∀ {a : α} {k : κ}, a ∈ l → name a = some k → (l.filterMap g).find? (fun kv => decide (kv.1 = k)) = g a
  | [], _, a, _, ha, _ => absurd ha List.not_mem_nil
  | b :: l, hnodup, a, k, ha, hk => by
    have hother : k ∉ l.filterMap name → (l.filterMap g).find? (fun kv => decide (kv.1 = k)) = none := by
      intro hk
      refine List.find?_eq_none.2 fun kv hkv heq => hk ?_
      obtain ⟨c, hc, hgc⟩ := List.mem_filterMap.1 hkv
      exact List.mem_filterMap.2 ⟨c, hc, (hg c kv hgc).trans (congrArg some (of_decide_eq_true heq))⟩
    have hrest : (l.filterMap name).Nodup := hnodup.sublist ((List.sublist_cons_self b l).filterMap name)
    have hhead : ∀ kb, name b = some kb → kb ∉ l.filterMap name := by
      intro kb hkb
      rw [List.filterMap_cons_some hkb] at hnodup
      exact (List.nodup_cons.1 hnodup).1
    rcases List.mem_cons.1 ha with rfl | ha
    · cases hga : g a with
      | none => rw [List.filterMap_cons_none hga, hother (hhead k hk)]
      | some kv =>
        have hkey : kv.1 = k := Option.some.inj ((hg a kv hga).symm.trans hk)
        rw [List.filterMap_cons_some hga, List.find?_cons_of_pos (by simpa using hkey)]
    · have hmem : k ∈ l.filterMap name := List.mem_filterMap.2 ⟨a, ha, hk⟩
      have ih := find?_filterMap hg hrest ha hk
      cases hgb : g b with
      | none => rwa [List.filterMap_cons_none hgb]
      | some kv =>
        have hne : kv.1 ≠ k := fun heq => hhead kv.1 (hg b kv hgb) (heq ▸ hmem)
        rw [List.filterMap_cons_some hgb, List.find?_cons_of_neg (by simpa using hne), ih]

/-- The value is the same after it has been a Go value of the map: a string is valid UTF-8, an integer has the fewest digits of those that are read
as its float, the offset of a time is in minutes. -/
def Value.Survives : Value → Prop
  | .text s => Utf8.validString s = true
  | .int n => Float64.viaFloat n = n
  | .time t => 60 ∣ t.offset
  | _ => True

instance : ∀ v : Value, Decidable v.Survives
  | .text s => inferInstanceAs (Decidable (Utf8.validString s = true))
  | .int n => inferInstanceAs (Decidable (Float64.viaFloat n = n))
  | .time t => inferInstanceAs (Decidable (60 ∣ t.offset))
  | .null => .isTrue trivial
  | .bool _ => .isTrue trivial

variable {d : Decoder} {f : Field} {v : Value} {e : Record} {m : Model} {data : Bytes}

theorem repair_repair (s : Bytes) : Json.repair (Json.repair s) = Json.repair s := by
  refine Json.repair_eq_self ?_
  rw [← Json.unquote_escape]
  exact Json.validString_unquote (Json.strLit_escape s)

theorem repair_format (t : Timestamp) : Json.repair t.format = t.format := by
  refine Json.repair_eq_self ?_
  rw [Utf8.validString, Utf8.runes_ascii t.timeBytes_format.word.isAscii, List.all_map]
  refine List.all_eq_true.2 fun b hb => ?_
  have hlt := (t.timeBytes_format.word b hb).1
  have hne : b.toNat ≠ Utf8.runeError := by
    have : Utf8.runeError = 65533 := rfl
    omega
  simp [Utf8.invalid, hne]

theorem integer_itoa {n : Int} (h1 : -2 ^ 63 ≤ n) (h2 : n < 2 ^ 63) : integer (Bytes.itoa n) = some n := by
  rw [integer, Json.parseInt64_itoa h1 h2, Option.filter_some, if_pos (decide_eq_true rfl)]

theorem fieldOf_text (hk : f.kind = .string) (s : Bytes) : d.fieldOf f (some (.str (Json.escape s))) = some (.text (Json.repair s)) := by
  have hread : Json.unquote (Json.escape (Json.repair s)) = Json.repair s := by rw [Json.unquote_escape, repair_repair]
  have hcoerce : d.coerce f.kind (.str (Json.escape s)) = .kept (.str (Json.escape (Json.repair s))) := by
    rw [hk, ← Json.unquote_escape]
    rfl
  simp only [Decoder.fieldOf, hcoerce]
  rw [hk, Kind.unmarshal, hread]

theorem fieldOf_time (hk : f.kind = .time) {t : Timestamp} (ht : t.Written) :
    d.fieldOf f (some (.str (Json.escape t.format))) = some (.time t.toMinutes) := by
  have hparse : ParseTime d.localOffset (Json.unquote (Json.escape t.format)) = some t.toMinutes := by
    rw [Json.unquote_escape, repair_format, Timestamp.parseTime_format _ ht]
  have hread : readRFC3339 (Json.escape t.toMinutes.format) = some t.toMinutes := by
    rw [t.toMinutes.timeBytes_format.escape, Timestamp.read_format (Timestamp.written_toMinutes ht), Timestamp.toMinutes_toMinutes]
  have hcoerce : d.coerce f.kind (.str (Json.escape t.format)) = .kept (.str (Json.escape t.toMinutes.format)) := by
    rw [hk]
    simp only [Decoder.coerce, Decoder.coerceTime, hparse]
  simp only [Decoder.fieldOf, hcoerce]
  rw [hk, Kind.unmarshal, hread]
  rfl

theorem fieldOf_int {bits : Nat} (hk : f.kind = .int bits) {n : Int} (h1 : -2 ^ 63 ≤ n) (h2 : n < 2 ^ 63) :
    d.fieldOf f (some (.num (Bytes.itoa n))) =
      ((some (Float64.viaFloat n)).filter fun n => decide (-2 ^ (bits - 1) ≤ n ∧ n < 2 ^ (bits - 1))).map .int := by
  have hnumber : d.number (Bytes.itoa n) = some (Bytes.itoa (Float64.viaFloat n)) := by
    rw [Decoder.number, integer_itoa h1 h2]
  have hcoerce : d.coerce f.kind (.num (Bytes.itoa n)) = .kept (.num (Bytes.itoa (Float64.viaFloat n))) := by
    rw [hk]
    simp only [Decoder.coerce, Decoder.coerceInt, hnumber]
  simp only [Decoder.fieldOf, hcoerce]
  rw [hk, Kind.unmarshal, Json.parseInt_itoa]

theorem fieldOf_bool (hk : f.kind = .bool) (b : Bool) : d.fieldOf f (some (.bool b)) = some (.bool b) := by
  have hcoerce : d.coerce f.kind (.bool b) = .kept (.bool b) := by rw [hk]; rfl
  simp only [Decoder.fieldOf, hcoerce]
  rw [hk, Kind.unmarshal]

theorem fieldOf_eq_iff (hf : f.Has v) (hkind : f.kind = .string ∨ f.kind = .bool ∨ f.kind = .time ∨ f.kind = .int 8 ∨ f.kind = .int 64)
    (hw : ∀ t, v = .time t → t.Written) : d.fieldOf f (some v.toJson) = some v ↔ v.Survives := by
  have hnone : v = .null → f.pointer = true := by
    rintro rfl
    unfold Field.Has at hf
    exact hf
  rcases v with _ | s | n | b | t
  · refine iff_of_true ?_ trivial
    show some f.zero = some .null
    rw [Field.zero, if_pos (hnone rfl)]
  · have hk : f.kind = .string := by
      rcases hkind with hk | hk | hk | hk | hk <;> simp_all [Field.Has]
    rw [Value.toJson, fieldOf_text hk, Option.some_inj, Value.text.injEq]
    exact Json.repair_eq_self_iff s
  · obtain ⟨bits, hk, hle, h1, h2⟩ : ∃ bits, f.kind = .int bits ∧ bits ≤ 64 ∧ -2 ^ (bits - 1) ≤ n ∧ n < 2 ^ (bits - 1) := by
      rcases hkind with hk | hk | hk | hk | hk
      · simp [Field.Has, hk] at hf
      · simp [Field.Has, hk] at hf
      · simp [Field.Has, hk] at hf
      · exact ⟨8, hk, by omega, by simpa [Field.Has, hk] using hf⟩
      · exact ⟨64, hk, by omega, by simpa [Field.Has, hk] using hf⟩
    have hpow : (2 : Int) ^ (bits - 1) ≤ 2 ^ 63 := pow_le_pow_right₀ (by decide) (by omega)
    rw [Value.toJson, fieldOf_int hk (by omega) (by omega), Option.map_eq_some_iff]
    constructor
    · rintro ⟨k, hfit, hkn⟩
      cases hkn
      exact (Option.filter_eq_some_iff.1 hfit).1 |> Option.some.inj
    · intro hs
      exact ⟨n, Option.filter_eq_some_iff.2 ⟨congrArg some hs, decide_eq_true ⟨h1, h2⟩⟩, rfl⟩
  · have hk : f.kind = .bool := by
      rcases hkind with hk | hk | hk | hk | hk <;> simp_all [Field.Has]
    exact iff_of_true (fieldOf_bool hk b) trivial
  · have hk : f.kind = .time := by
      rcases hkind with hk | hk | hk | hk | hk <;> simp_all [Field.Has]
    rw [Value.toJson, fieldOf_time hk (hw t rfl), Option.some_inj, Value.time.injEq]
    exact Timestamp.toMinutes_eq_iff

def Model.SameCarried (m : Model) (e e' : Record) : Prop := ∀ f ∈ m.fields, f.json ≠ none → e' f.column = e f.column

theorem member_key {kv : Bytes × Json} (h : f.member e = some kv) : f.json = some kv.1 := by
  unfold Field.member at h
  split at h
  · cases h
  · split_ifs at h
    cases h
    assumption

theorem scalar_toJson (v : Value) : Json.Wf v.toJson ∧ Json.depth v.toJson = 0 := by
  cases v with
  | null => exact ⟨trivial, rfl⟩
  | text s => exact ⟨Json.strLit_escape s, rfl⟩
  | int n => exact ⟨Json.numLit_itoa n, rfl⟩
  | bool b => exact ⟨trivial, rfl⟩
  | time t => exact ⟨Json.strLit_escape _, rfl⟩

theorem mem_members (h : ms = m.members e) {kv : Bytes × Json} (hkv : kv ∈ ms) : ∃ f ∈ m.fields, f.json = some kv.1 ∧ kv.2 = (e f.column).toJson := by
  subst h
  obtain ⟨f, hf, hmember⟩ := List.mem_filterMap.1 hkv
  refine ⟨f, hf, member_key hmember, ?_⟩
  unfold Field.member at hmember
  split at hmember
  · cases hmember
  · split_ifs at hmember
    cases hmember
    rfl

theorem map_filterMap_sublist {α κ β : Type} {name : α → Option κ} {g : α → Option (κ × β)} (hg : ∀ a kv, g a = some kv → name a = some kv.1) (l : List α) :
    ((l.filterMap g).map Prod.fst).Sublist (l.filterMap name) := by
  induction l with
  | nil => exact List.Sublist.refl _
  | cons a l ih =>
    cases hga : g a with
    | some kv =>
      rw [List.filterMap_cons_some hga, List.filterMap_cons_some (hg a kv hga), List.map_cons]
      exact ih.cons_cons _
    | none =>
      rw [List.filterMap_cons_none hga]
      exact ih.trans ((List.sublist_cons_self a l).filterMap name)

theorem nodup_members (hm : m ∈ syncModels) (e : Record) : ((m.members e).map Prod.fst).Nodup :=
  (nodup_keys m hm).sublist (map_filterMap_sublist (fun _ _ => member_key) m.fields)

theorem plainKey_members (hm : m ∈ syncModels) (e : Record) : ∀ kv ∈ m.members e, PlainKey kv.1 := by
  intro kv hkv
  obtain ⟨f, hf, hkey, -⟩ := mem_members rfl hkv
  exact plainKeys m hm f hf kv.1 hkey

theorem normalizeKeys_members (hm : m ∈ syncModels) (e : Record) (hf : f ∈ m.fields) (hkey : f.json = some key) :
    normalizeKeys d.unicode (d.order (m.members e)) key = (f.member e).map Prod.snd := by
  rw [normalizeKeys_plain (plainKey_members hm e) (nodup_members hm e) (d.order_of _) key, Model.members,
    find?_filterMap (fun _ _ => member_key) (nodup_keys m hm) hf hkey]

theorem find?_column (hm : m ∈ syncModels) (hf : f ∈ m.fields) : (m.fields.find? fun g => decide (g.column = f.column)) = some f := by
  have hsome : (m.fields.find? fun g => decide (g.column = f.column)).isSome = true := List.find?_isSome.2 ⟨f, hf, by simp⟩
  obtain ⟨g, hg⟩ := Option.isSome_iff_exists.1 hsome
  have hcolumn := List.find?_some hg
  rw [hg, List.inj_on_of_nodup_map (nodup_columns m hm) (List.mem_of_find?_eq_some hg) hf (of_decide_eq_true hcolumn)]

theorem membersOf_marshal (hm : m ∈ syncModels) (hdata : m.marshal e = some data) : membersOf data = some (m.members e) ∧ data ≠ [] ∧ data ≠ str "null" := by
  unfold Model.marshal at hdata
  split_ifs at hdata
  cases hdata
  have hwf : Json.Wf (.obj (m.members e)) := by
    refine (Json.wfMembers_iff _).2 fun kv hkv => ?_
    obtain ⟨f, -, -, hv⟩ := mem_members rfl hkv
    exact ⟨(plainKey_members hm e kv hkv).2.2.2.1, hv ▸ (scalar_toJson _).1⟩
  have hdepth : Json.depth (.obj (m.members e)) = 1 := by
    refine Json.depth_obj fun kv hkv => ?_
    obtain ⟨f, -, -, hv⟩ := mem_members rfl hkv
    exact hv ▸ (scalar_toJson _).2
  refine ⟨?_, List.cons_ne_nil _ _, fun hnull => ?_⟩
  · rw [membersOf, Json.parse_render hwf (by rw [hdepth]; decide)]
  · have hhead : some (123 : UInt8) = (str "null").head? := congrArg List.head? hnull
    exact absurd hhead (by decide)

variable (d) in
theorem valueOf_eq_iff (hm : m ∈ syncModels) (he : m.Typed e) (hw : ∀ f ∈ m.fields, f.Written e) (hf : f ∈ m.fields) (hcarried : f.json ≠ none) :
    d.valueOf (normalizeKeys d.unicode (d.order (m.members e))) f = some (e f.column) ↔ (e f.column).Survives := by
  obtain ⟨key, hkey⟩ := Option.ne_none_iff_exists'.1 hcarried
  have htime : ∀ t, e f.column = .time t → t.Written := by
    intro t ht
    have h := hw f hf
    rw [Field.Written, ht] at h
    exact h.resolve_left hcarried
  simp only [Decoder.valueOf, hkey, normalizeKeys_members hm e hf hkey]
  by_cases hnone : f.omitempty = true ∧ e f.column = .null
  · have hmember : f.member e = none := by simp [Field.member, hkey, hnone.1, hnone.2]
    have hzero : f.zero = .null := by
      have hp := he f hf
      rw [hnone.2] at hp
      unfold Field.Has at hp
      exact if_pos hp
    rw [hmember, hnone.2]
    exact iff_of_true (congrArg some hzero) trivial
  · have hmember : f.member e = some (key, (e f.column).toJson) := by simp [Field.member, hkey, hnone]
    rw [hmember]
    exact fieldOf_eq_iff (he f hf) (bits_le m hm f hf) htime

theorem readable_members (he : m.Typed e) (hm : m ∈ syncModels) : ∀ kv ∈ m.members e, d.readable kv.2 = true := by
  intro kv hkv
  obtain ⟨f, hf, -, hv⟩ := mem_members rfl hkv
  have hhas := he f hf
  rw [hv]
  cases hval : e f.column with
  | int n =>
    have hfit : -2 ^ 63 ≤ n ∧ n < 2 ^ 63 := by
      rw [hval] at hhas
      rcases bits_le m hm f hf with hk | hk | hk | hk | hk
      · simp [Field.Has, hk] at hhas
      · simp [Field.Has, hk] at hhas
      · simp [Field.Has, hk] at hhas
      · have h8 : -2 ^ 7 ≤ n ∧ n < 2 ^ 7 := by simpa [Field.Has, hk] using hhas
        omega
      · simpa [Field.Has, hk] using hhas
    show (d.number (Bytes.itoa n)).isSome = true
    rw [Decoder.number, integer_itoa hfit.1 hfit.2]
    rfl
  | _ => rfl

/-- A record arrives with the same values exactly if they all survive on the way. -/
theorem decode_marshal_iff (d : Decoder) (hm : m ∈ syncModels) (he : m.Typed e) (hdata : m.marshal e = some data) :
    (∃ e', d.Decode m.table data = some e' ∧ m.SameCarried e e') ↔ ∀ f ∈ m.fields, f.json ≠ none → (e f.column).Survives := by
  obtain ⟨hmembers, hne, hnull⟩ := membersOf_marshal hm hdata
  have hw : ∀ f ∈ m.fields, f.Written e := by
    by_contra hno
    rw [Model.marshal, if_neg hno] at hdata
    cases hdata
  have hvalue := fun f (hf : f ∈ m.fields) => valueOf_eq_iff d hm he hw hf
  generalize hnorm : normalizeKeys d.unicode (d.order (m.members e)) = norm at hvalue
  have hdecode : d.Decode m.table data = if ∀ f ∈ m.fields, (d.valueOf norm f).isSome = true then
      some (fun c => ((m.fields.find? fun f => decide (f.column = c)).bind (d.valueOf norm)).getD .null) else none := by
    have hgo : goMap (m.members e) = m.members e := goMap_plain (plainKey_members hm e) (nodup_members hm e)
    simp only [Decoder.Decode, modelOf_table m hm, hmembers, hne, hnull, or_self, if_false, Option.bind_eq_bind, Option.bind_some, hgo, hnorm]
    exact if_congr (and_iff_right (readable_members he hm)) rfl rfl
  rw [hdecode]
  have hat : ∀ f ∈ m.fields, ((m.fields.find? fun g => decide (g.column = f.column)).bind (d.valueOf norm)) = d.valueOf norm f := fun f hf => by
    rw [find?_column hm hf, Option.bind_some]
  constructor
  · rintro ⟨e', hrun, hsame⟩ f hf hcarried
    split_ifs at hrun with hall
    cases hrun
    obtain ⟨v, hv⟩ := Option.isSome_iff_exists.1 (hall f hf)
    have heq := hsame f hf hcarried
    simp only [hat f hf, hv, Option.getD_some] at heq
    exact (hvalue f hf hcarried).1 (hv.trans (congrArg some heq))
  · intro hs
    have hall : ∀ f ∈ m.fields, (d.valueOf norm f).isSome = true := by
      intro f hf
      by_cases hcarried : f.json = none
      · simp [Decoder.valueOf, hcarried]
      · rw [(hvalue f hf hcarried).2 (hs f hf hcarried)]
        rfl
    rw [if_pos hall]
    refine ⟨_, rfl, fun f hf hcarried => ?_⟩
    simp only [hat f hf, (hvalue f hf hcarried).2 (hs f hf hcarried), Option.getD_some]

def plainDecoder : Decoder where
  unicode := CaseTables.asciiCase
  order ms := ⟨snakeKeys .asciiCase ms, camelKeys .asciiCase ms, upkKeys ms⟩
  order_of _ := ⟨List.Perm.refl _, List.Perm.refl _, List.Perm.refl _⟩
  localOffset _ := 0
  otherNumber _ := none
  otherDigits _ := []
  truncated _ := 0
  parseFloat _ := none
  nested _ := none

def aliceInst (id : Int) : Record := fun c =>
  if c = str "id" then .int id
  else if c = str "is_deleted" then .int 0
  else if c = str "deleted_at" then .null
  else if c = str "gmt_create" ∨ c = str "gmt_modified" then .time ⟨1767225600000000001, 0⟩
  else .text (str "alice")

def aliceText (id : String) : Bytes :=
  str ("\x7b\"id\":" ++ id ++ ",\"gmt_create\":\"2026-01-01T00:00:00.000000001Z\",\"gmt_modified\":\"2026-01-01T00:00:00.000000001Z\"," ++
    "\"inst_id\":\"alice\",\"name\":\"alice\"\x7d")

/-- An id that no float has arrives as another one, and the largest id does not arrive. -/
theorem large_id_changed :
    InstDO.Typed (aliceInst (2 ^ 53 + 1)) ∧ InstDO.marshal (aliceInst (2 ^ 53 + 1)) = some (aliceText "9007199254740993") ∧
      (plainDecoder.Decode (str "inst") (aliceText "9007199254740993")).map (fun e => e (str "id")) = some (.int (2 ^ 53)) ∧
      InstDO.Typed (aliceInst (2 ^ 63 - 1)) ∧ InstDO.marshal (aliceInst (2 ^ 63 - 1)) = some (aliceText "9223372036854775807") ∧
      (plainDecoder.Decode (str "inst") (aliceText "9223372036854775807")).isNone = true := by
  decide +kernel

/-- A smaller id arrives, and the rest of the record with it. -/
theorem small_id_arrives : ∃ e', plainDecoder.Decode (str "inst") (aliceText "7") = some e' ∧ InstDO.SameCarried (aliceInst 7) e' := by
  have htyped : InstDO.Typed (aliceInst 7) := by decide +kernel
  have hdata : InstDO.marshal (aliceInst 7) = some (aliceText "7") := by decide +kernel
  refine (decode_marshal_iff plainDecoder (by decide +kernel) htyped hdata).2 ?_
  decide +kernel

end Sync
