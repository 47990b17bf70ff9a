import Privahub.Lib.JsonCompact
import Privahub.Lib.JsValue

/-!
# JSON as a page writes it

`JSON.stringify` escapes a quote, a backslash and what is below a blank, and nothing else; a member that is `undefined` is left out and a number without
a literal is `null`. A value that is put together of parts which are read back is read back (`Written`).
-/

namespace JsJson

open Json

/-- A byte as it stands in a literal. -/
def escapeByte (b : UInt8) : Bytes :=
  if b = 34 ∨ b = 92 then [92, b]
  else if b = 8 then [92, 98]
  else if b = 9 then [92, 116]
  else if b = 10 then [92, 110]
  else if b = 12 then [92, 102]
  else if b = 13 then [92, 114]
  else if b < 32 then escapeU b.toNat
  else [b]

def escape (s : Bytes) : Bytes := s.flatMap escapeByte

theorem escape_cons (b : UInt8) (s : Bytes) : escape (b :: s) = escapeByte b ++ escape s := List.flatMap_cons

theorem escape_high {u : Bytes} (h : ∀ b ∈ u, 0x80 ≤ b.toNat) : escape u = u := by
  have hbyte : ∀ n < 256, 0x80 ≤ n → escapeByte (UInt8.ofNat n) = [UInt8.ofNat n] := by decide +kernel
  induction u with
  | nil => rfl
  | cons b u ih =>
    have hb := hbyte b.toNat b.toNat_lt (h b List.mem_cons_self)
    rw [UInt8.ofNat_toNat] at hb
    rw [escape_cons, hb, ih fun x hx => h x (List.mem_cons_of_mem _ hx)]
    rfl

/-- A byte below `0x80` is spelled as itself or by an escape. -/
theorem spells_byte {b : UInt8} {t s : Bytes} (hb : b.toNat < 0x80) (h : Spells t s) : Spells (escapeByte b ++ t) (b :: s) := by
  unfold escapeByte
  split_ifs with h1 h2 h3 h4 h5 h6 h7
  · rcases h1 with rfl | rfl
    · exact .esc (c := 34) rfl h
    · exact .esc (c := 92) rfl h
  · obtain rfl := h2
    exact .esc (c := 98) rfl h
  · obtain rfl := h3
    exact .esc (c := 116) rfl h
  · obtain rfl := h4
    exact .esc (c := 110) rfl h
  · obtain rfl := h5
    exact .esc (c := 102) rfl h
  · obtain rfl := h6
    exact .esc (c := 114) rfl h
  · have hcode := h.escapeU (c := b.toNat) (.inl (by omega)) (by omega)
    rwa [Utf8.encodeRune, if_pos hb, UInt8.ofNat_toNat] at hcode
  · exact .plain hb (UInt8.not_lt.1 h7) (fun h => h1 (.inl h)) (fun h => h1 (.inr h)) h

theorem spells_escape {s : Bytes} (hs : Utf8.validString s = true) : Spells (escape s) s := by
  induction s using Utf8.rune_induction with
  | nil => exact .nil
  | bad a t h hx ih =>
    have hne : Utf8.validString (a :: t) = false := by
      rw [Utf8.validString, Utf8.runes_bad h, List.all_cons]
      rfl
    rw [hne] at hs
    cases hs
  | good c t hc ih =>
    rw [validString_encodeRune_append] at hs
    by_cases hlt : c < 0x80
    · have hbyte : (UInt8.ofNat c).toNat < 0x80 := by rwa [Utf8.toNat_ofNat (by omega)]
      rw [Utf8.encodeRune, if_pos hlt]
      exact spells_byte hbyte (ih hs)
    · have hhigh : ∀ b ∈ Utf8.encodeRune c, 0x80 ≤ b.toNat := fun b hb => high_of_mem_encodeRune (by omega) hc hb
      have hsplit : escape (Utf8.encodeRune c ++ t) = Utf8.encodeRune c ++ escape t := by
        rw [escape, List.flatMap_append]
        exact congrArg (· ++ escape t) (escape_high hhigh)
      rw [hsplit]
      exact .rune hc (by omega) (ih hs)

section
variable {ν α : Type}

/-- What numbers are written with. -/
def isNumeral (b : UInt8) : Bool := Bytes.isDigit b || [43, 45, 46, 101].contains b

/-- A number is written if it is finite, which is when its text is a literal. -/
def ofNumber [JsNumber ν] (n : ν) : Json := if NumLit (JsNumber.text n) then .num (JsNumber.text n) else .null

def ofText (s : Bytes) : Json := .str (escape s)

/-- The object with the members that are not `undefined`. -/
def ofMembers (ms : List (Bytes × Option Json)) : Json := .obj (ms.filterMap fun m => m.2.map fun v => (m.1, v))

def number? [JsNumber ν] : Json → Option ν
  | .num lit => some (JsNumber.ofString lit)
  | _ => none

def text? : Json → Option Bytes
  | .str lit => some (unquote lit)
  | _ => none

def bool? : Json → Option Bool
  | .bool b => some b
  | _ => none

def list? (read : Json → Option α) : Json → Option (List α)
  | .arr vs => vs.mapM read
  | _ => none

/-- The member of a name, of several the last. -/
def member? (name : Bytes) : Json → Option Json
  | .obj ms => ((ms.filter fun m => decide (unquote m.1 = name)).getLast?).map Prod.snd
  | _ => none

/-- A member that may be missing. -/
def optional? (read : Json → Option α) : Option Json → Option (Option α)
  | none => some none
  | some v => (read v).map some

/-- A value that can be written and is read as `a`, not more than `d` containers deep. -/
structure Written (read : Json → Option α) (d : Nat) (v : Json) (a : α) : Prop where
  wf : Wf v
  depth : v.depth ≤ d
  read : read v = some a

/-- A number that is written as a literal, with digits, signs, a point and an exponent, and is what the literal says. -/
structure Sent [JsNumber ν] (n : ν) : Prop where
  lit : NumLit (JsNumber.text n)
  numeral : ∀ b ∈ JsNumber.text n, isNumeral b = true
  back : JsNumber.ofString (JsNumber.text n) = n

variable {read : Json → Option α} {d : Nat} {v : Json} {a : α}

theorem Written.parse (h : Written read d v a) (hd : d ≤ maxNestingDepth) : (Json.parse (render v)).bind read = some a := by
  rw [parse_render h.wf (h.depth.trans hd), Option.bind_some, h.read]

theorem written_number [JsNumber ν] {n : ν} (h : Sent n) : Written number? 0 (ofNumber n) n := by
  rw [ofNumber, if_pos h.lit]
  exact ⟨h.lit, le_rfl, congrArg some h.back⟩

theorem written_text {s : Bytes} (h : Utf8.validString s = true) : Written text? 0 (ofText s) s :=
  ⟨(spells_escape h).strLit, le_rfl, congrArg some (spells_escape h).unquote_eq⟩

theorem written_bool (b : Bool) : Written bool? 0 (.bool b) b := ⟨trivial, le_rfl, rfl⟩

theorem written_list {β : Type} {l : List β} {write : β → Json} {f : β → α} (h : ∀ b ∈ l, Written read d (write b) (f b)) :
    Written (list? read) (d + 1) (.arr (l.map write)) (l.map f) := by
  refine ⟨(wfItems_iff _).2 fun v hv => ?_, Nat.succ_le_succ (depthItems_le.2 fun v hv => ?_), ?_⟩
  · obtain ⟨b, hb, rfl⟩ := List.mem_map.1 hv
    exact (h b hb).wf
  · obtain ⟨b, hb, rfl⟩ := List.mem_map.1 hv
    exact (h b hb).depth
  · rw [list?]
    induction l with
    | nil => rfl
    | cons b l ih =>
      rw [List.map_cons, List.mapM_cons, (h b List.mem_cons_self).read, ih fun x hx => h x (List.mem_cons_of_mem _ hx)]
      rfl

/-- A member that is read back if it is there. -/
theorem read_optional {o : Option α} {write : α → Json} (h : ∀ a ∈ o, Written read d (write a) a) : optional? read (o.map write) = some o := by
  cases o with
  | none => rfl
  | some a => exact congrArg (Option.map some) (h a rfl).read

theorem wf_optional {o : Option α} {write : α → Json} (h : ∀ a ∈ o, Written read d (write a) a) : ∀ v ∈ o.map write, Wf v ∧ v.depth ≤ d := by
  intro v hv
  obtain ⟨a, ha, rfl⟩ := Option.map_eq_some_iff.1 hv
  exact ⟨(h a ha).wf, (h a ha).depth⟩

theorem wf_some (h : Written read d v a) : ∀ x ∈ some v, Wf x ∧ x.depth ≤ d := by
  rintro x ⟨⟩
  exact ⟨h.wf, h.depth⟩

theorem Written.mono {d' : Nat} (h : Written read d v a) (hd : d ≤ d') : Written read d' v a := ⟨h.wf, h.depth.trans hd, h.read⟩

/-- Names that are written as they are, each only once. -/
def Names (names : List Bytes) : Prop := names.Nodup ∧ ∀ k ∈ names, StrLit k ∧ unquote k = k

instance (names : List Bytes) : Decidable (Names names) := inferInstanceAs (Decidable (_ ∧ _))

theorem member_ofMembers {ms : List (Bytes × Option Json)} {k : Bytes} {o : Option Json} (hn : Names (ms.map Prod.fst)) (h : (k, o) ∈ ms) :
    member? k (ofMembers ms) = o := by
  have hnone : ∀ {ms : List (Bytes × Option Json)}, Names (ms.map Prod.fst) → k ∉ ms.map Prod.fst →
      (ms.filterMap fun m => m.2.map fun v => (m.1, v)).filter (fun m => decide (unquote m.1 = k)) = [] := by
    intro ms hn hk
    refine List.filter_eq_nil_iff.2 fun m hm he => hk ?_
    obtain ⟨m', hm', hv⟩ := List.mem_filterMap.1 hm
    obtain ⟨v, _, rfl⟩ := Option.map_eq_some_iff.1 hv
    have hkey := List.mem_map_of_mem (f := Prod.fst) hm'
    have heq : m'.1 = k := (hn.2 _ hkey).2.symm.trans (of_decide_eq_true he)
    exact heq ▸ hkey
  rw [ofMembers, member?]
  induction ms with
  | nil => cases h
  | cons m ms ih =>
    obtain ⟨k', o'⟩ := m
    have htail : Names (ms.map Prod.fst) := ⟨(List.nodup_cons.1 hn.1).2, fun k hk => hn.2 k (List.mem_cons_of_mem _ hk)⟩
    have hkey : unquote k' = k' := (hn.2 k' List.mem_cons_self).2
    rcases List.mem_cons.1 h with he | hmem
    · obtain ⟨rfl, rfl⟩ := Prod.mk.inj he
      have hrest := hnone htail (List.nodup_cons.1 hn.1).1
      cases o with
      | none => exact congrArg (fun l => (List.getLast? l).map Prod.snd) hrest
      | some v =>
        simp only [List.filterMap_cons, Option.map_some]
        rw [List.filter_cons_of_pos (by simpa using hkey), hrest]
        rfl
    · have hne : k' ≠ k := by
        rintro rfl
        exact (List.nodup_cons.1 hn.1).1 (List.mem_map.2 ⟨_, hmem, rfl⟩)
      cases o' with
      | none => exact ih htail hmem
      | some v =>
        simp only [List.filterMap_cons, Option.map_some]
        rw [List.filter_cons_of_neg (by simpa [hkey] using hne)]
        exact ih htail hmem

theorem wf_ofMembers {ms : List (Bytes × Option Json)} (hn : Names (ms.map Prod.fst)) (h : ∀ m ∈ ms, ∀ v ∈ m.2, Wf v ∧ v.depth ≤ d) :
    Wf (ofMembers ms) ∧ (ofMembers ms).depth ≤ d + 1 := by
  have hmem : ∀ m ∈ ms.filterMap (fun m => m.2.map fun v => (m.1, v)), StrLit m.1 ∧ Wf m.2 ∧ m.2.depth ≤ d := by
    intro m hm
    obtain ⟨m', hm', hv⟩ := List.mem_filterMap.1 hm
    obtain ⟨v, hmv, rfl⟩ := Option.map_eq_some_iff.1 hv
    exact ⟨(hn.2 _ (List.mem_map_of_mem hm')).1, h m' hm' v hmv⟩
  exact ⟨(wfMembers_iff _).2 fun m hm => ⟨(hmem m hm).1, (hmem m hm).2.1⟩, Nat.succ_le_succ (depthMembers_le.2 fun m hm => (hmem m hm).2.2)⟩

/-- An object is read if what is said of its members is enough for it. -/
theorem written_members {ms : List (Bytes × Option Json)} (hn : Names (ms.map Prod.fst)) (h : ∀ m ∈ ms, ∀ v ∈ m.2, Wf v ∧ v.depth ≤ d)
    (hread : ∀ v, (∀ m ∈ ms, member? m.1 v = m.2) → read v = some a) : Written read (d + 1) (ofMembers ms) a :=
  ⟨(wf_ofMembers hn h).1, (wf_ofMembers hn h).2, hread _ fun _ hm => member_ofMembers hn hm⟩

/-- Lists that may be missing. -/
theorem written_lists {o : Option (List α)} {write : α → Json} (h : ∀ as ∈ o, ∀ a ∈ as, Written read d (write a) a) :
    ∀ as ∈ o, Written (list? read) (d + 1) (.arr (as.map write)) as := by
  intro as has
  simpa using written_list (f := fun a => a) (h as has)

end

end JsJson
