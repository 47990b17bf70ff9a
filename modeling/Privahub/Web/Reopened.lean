import Privahub.Web.Finished

/-!
# Opening a form and saving it

What becomes of a stored node whose form is opened and saved without an edit. `Kept` says it of one attribute: a value is kept as JavaScript reads it,
an empty one stays empty, and where nothing is stored the definition's own value is. `reopened_kept`: every attribute that is stored is kept so, and
a second time changes nothing but that empty texts are left out and custom messages are written by their class again.
-/

namespace Web.Reopened

open ComponentConfig AttributeForm Finished

variable {ν γ : Type} [JsNumber ν]

/-- Whether an element of `attrs` is marked as empty. -/
def isNaRaw (r : RawAttr ν) : Bool := (normalizeAttrValue r).is_na == some true

def openedValue (nodeDef : Option (NodeDef ν)) (d : AttributeDef ν) : Option (AttributeValue ν) :=
  match saved nodeDef (attrPathOf d) with
  | some r => if isNaRaw r then none else some (normalizeAttrValue r)
  | none => initialValue d

section
variable {registry : Bytes → Option (CustomSerializer ν γ)} {nodeDef : Option (NodeDef ν)} {st : FormState ν γ} {d : AttributeDef ν}
  {l : List (AttributeDef ν)} {tree : List (AttrTreeNode ν)}

theorem initNode_other (registry : Bytes → Option (CustomSerializer ν γ)) (nodeDef : Option (NodeDef ν)) (st : FormState ν γ) {p : Bytes}
    (hp : p ≠ attrPathOf d) :
    (initNode registry nodeDef st d).values p = st.values p ∧ (initNode registry nodeDef st d).custom p = st.custom p := by
  unfold initNode
  split_ifs with hcustom
  · simp [Function.update_of_ne hp]
  · cases initialValue d <;> cases hs : saved nodeDef (attrPathOf d) <;> simp [hs, Function.update_of_ne hp]

theorem initNode_value (hcustom : typeName d ≠ .customProtobuf) (hst : st.values (attrPathOf d) = none) :
    (initNode registry nodeDef st d).values (attrPathOf d) = openedValue nodeDef d := by
  unfold initNode openedValue
  rw [if_neg hcustom]
  cases initialValue d <;> cases saved nodeDef (attrPathOf d) <;> simp [hst, isNaRaw]

theorem initNode_custom (hcustom : typeName d = .customProtobuf) : (initNode registry nodeDef st d).custom (attrPathOf d) =
    (getCustomSerializer registry d.custom_protobuf_cls).bind fun ser => ser.unserializer (saved nodeDef (attrPathOf d)) := by
  rw [initNode, if_pos hcustom]
  exact Function.update_self ..

theorem foldl_other {p : Bytes} (hp : p ∉ l.map attrPathOf) : (l.foldl (initNode registry nodeDef) st).values p = st.values p ∧
    (l.foldl (initNode registry nodeDef) st).custom p = st.custom p := by
  induction l generalizing st with
  | nil => exact ⟨rfl, rfl⟩
  | cons d l ih =>
    rw [List.map_cons, List.mem_cons, not_or] at hp
    obtain ⟨hvalue, hcustom⟩ := initNode_other registry nodeDef st hp.1
    exact ⟨(ih hp.2).1.trans hvalue, (ih hp.2).2.trans hcustom⟩

theorem foldl_at (hpaths : (l.map attrPathOf).Nodup) (hd : d ∈ l) (hst : st.values (attrPathOf d) = none) :
    (typeName d ≠ .customProtobuf → (l.foldl (initNode registry nodeDef) st).values (attrPathOf d) = openedValue nodeDef d) ∧
      (typeName d = .customProtobuf → (l.foldl (initNode registry nodeDef) st).custom (attrPathOf d) =
        (getCustomSerializer registry d.custom_protobuf_cls).bind fun ser => ser.unserializer (saved nodeDef (attrPathOf d))) := by
  induction l generalizing st with
  | nil => exact absurd hd List.not_mem_nil
  | cons c l ih =>
    obtain ⟨hc, hpaths⟩ := List.nodup_cons.1 hpaths
    rw [List.foldl_cons]
    rcases List.mem_cons.1 hd with rfl | hd
    · exact ⟨fun h => (foldl_other hc).1.trans (initNode_value h hst), fun h => (foldl_other hc).2.trans (initNode_custom h)⟩
    · have hne : attrPathOf d ≠ attrPathOf c := fun h => hc (h ▸ List.mem_map_of_mem hd)
      exact ih hpaths hd ((initNode_other registry nodeDef st hne).1.trans hst)

theorem opened_value (hpaths : ((Rose.itemsAll tree).map attrPathOf).Nodup) (hd : d ∈ Rose.itemsAll tree) (hcustom : typeName d ≠ .customProtobuf) :
    (buildInitialState registry tree nodeDef).values (attrPathOf d) = openedValue nodeDef d :=
  (foldl_at hpaths hd rfl).1 hcustom

theorem opened_custom (hpaths : ((Rose.itemsAll tree).map attrPathOf).Nodup) (hd : d ∈ Rose.itemsAll tree) (hcustom : typeName d = .customProtobuf) :
    (buildInitialState registry tree nodeDef).custom (attrPathOf d) =
      (getCustomSerializer registry d.custom_protobuf_cls).bind fun ser => ser.unserializer (saved nodeDef (attrPathOf d)) :=
  (foldl_at hpaths hd rfl).2 hcustom
end

def Denotes (x : JsValue ν) (n : ν) : Prop :=
  JsNumber.isNaN n = false ∧ (x = .number n ∨ ∃ t, t ≠ [] ∧ x = .string t ∧ JsNumber.ofString t = n)

/-- The field holds a value of its type, and not an empty one. -/
def Exact (x : JsValue ν) : ValueField → Prop
  | .f | .i64 => ∃ n, Denotes x n
  | .s => ∃ t, t ≠ [] ∧ x = .string t
  | .b => ∃ b, x = .bool b
  | .fs | .i64s => ∃ l ns, l ≠ [] ∧ x = .array l ∧ List.Forall₂ Denotes l ns
  | .ss => ∃ l, l ≠ [] ∧ x = .array (l.map .string)
  | .bs => ∃ l, l ≠ [] ∧ x = .array (l.map .bool)

/-- `y` holds what `x` holds, its numbers as such. -/
def Same (x y : JsValue ν) : ValueField → Prop
  | .f | .i64 => ∃ n, Denotes x n ∧ y = .number n
  | .fs | .i64s => ∃ l ns, x = .array l ∧ y = .array (ns.map .number) ∧ List.Forall₂ Denotes l ns
  | _ => y = x

/-- The field holds nothing, and what may stand for it neither. -/
def Blank (r : RawAttr ν) : ValueField → Prop
  | .f => r.f = .undefined ∨ r.f = .null
  | .i64 => r.i64 = .undefined ∨ r.i64 = .null
  | .s => r.s = .undefined ∨ r.s = .string []
  | .b => r.b = .undefined ∨ r.b = .null
  | .fs => r.fs = .undefined ∨ r.fs = .null ∨ r.fs = .array []
  | .i64s => r.i64s = .undefined ∨ r.i64s = .null ∨ r.i64s = .array []
  | .ss => (r.ss = .undefined ∨ r.ss = .null ∨ r.ss = .array []) ∧ (r.s = .undefined ∨ r.s = .string [])
  | .bs => r.bs = .undefined ∨ r.bs = .null ∨ r.bs = .array []

section
variable {r : RawAttr ν} {d : AttributeDef ν} {v : AttributeValue ν} {key : ValueField} {x : JsValue ν} {n : ν}

theorem Denotes.toNum (h : Denotes x n) : toNum x = some n := by
  obtain ⟨hnan, rfl | ⟨t, hne, rfl, rfl⟩⟩ := h
  · simp [hnan]
  · simp [ComponentConfig.toNum, hne, JsValue.toNumber, hnan]

theorem map_readNumber {l : List (JsValue ν)} {ns : List ν} (h : List.Forall₂ Denotes l ns) : l.map readNumber = ns := by
  induction h with
  | nil => rfl
  | cons hx _ ih => rw [List.map_cons, ih, readNumber, hx.toNum]; rfl

theorem read_exact (h : Exact (rawField r key) key) : Same (rawField r key) (getField (normalizeAttrValue r) key) key ∧
    (getField (normalizeAttrValue r) key).isUndefined = false ∧ isEmptyField key (getField (normalizeAttrValue r) key) = false := by
  cases key with
  | f =>
    obtain ⟨n, hn⟩ := h
    have hread : toNum r.f = some n := hn.toNum
    simpa [normalizeAttrValue, hread, isEmptyField, Same] using hn
  | i64 =>
    obtain ⟨n, hn⟩ := h
    have hread : toNum r.i64 = some n := hn.toNum
    simpa [normalizeAttrValue, hread, isEmptyField, Same] using hn
  | s =>
    obtain ⟨t, ht, hx⟩ := h
    have hs : r.s = .string t := hx
    simp [normalizeAttrValue, hs, isEmptyField, Same, JsValue.toText, ht, rawField]
  | b =>
    obtain ⟨b, hx⟩ := h
    have hb : r.b = .bool b := hx
    simp [normalizeAttrValue, hb, isEmptyField, Same, rawField]
  | fs =>
    obtain ⟨l, ns, hl, hx, hns⟩ := h
    have hfs : r.fs = .array l := hx
    have hne : ns ≠ [] := fun h => hl (List.length_eq_zero_iff.1 (hns.length_eq.trans (List.length_eq_zero_iff.2 h)))
    have hfield : getField (normalizeAttrValue r) .fs = .array (ns.map .number) := by simp [normalizeAttrValue, hfs, map_readNumber hns]
    rw [hfield]
    exact ⟨⟨l, ns, hx, rfl, hns⟩, rfl, by simp [isEmptyField, hne]⟩
  | i64s =>
    obtain ⟨l, ns, hl, hx, hns⟩ := h
    have hfs : r.i64s = .array l := hx
    have hne : ns ≠ [] := fun h => hl (List.length_eq_zero_iff.1 (hns.length_eq.trans (List.length_eq_zero_iff.2 h)))
    have hfield : getField (normalizeAttrValue r) .i64s = .array (ns.map .number) := by simp [normalizeAttrValue, hfs, map_readNumber hns]
    rw [hfield]
    exact ⟨⟨l, ns, hx, rfl, hns⟩, rfl, by simp [isEmptyField, hne]⟩
  | ss =>
    obtain ⟨l, hl, hx⟩ := h
    have hss : r.ss = .array (l.map .string) := hx
    have hread : ∀ t, textOrNull (readText (.string t : JsValue ν)) = (.string t : JsValue ν) := fun _ => rfl
    simp [normalizeAttrValue, hss, isEmptyField, Same, rawField, hl, hread]
  | bs =>
    obtain ⟨l, hl, hx⟩ := h
    have hbs : r.bs = .array (l.map .bool) := hx
    simp [normalizeAttrValue, hbs, isEmptyField, Same, rawField, hl]

theorem leafEntry_exact (h : Exact (rawField r key) key) :
    leafEntry key (some (normalizeAttrValue r)) = setField { is_na := .bool false } key (getField (normalizeAttrValue r) key) := by
  obtain ⟨-, hdef, hne⟩ := read_exact h
  have hfield : fieldOrText key (some (normalizeAttrValue r)) = getField (normalizeAttrValue r) key := by
    rw [fieldOrText]
    exact if_neg fun h => Bool.noConfusion (hdef.symm.trans h.2.1)
  simp only [leafEntry, hfield, hdef, hne, Bool.false_and, Bool.false_eq_true, if_false]

def HasField (d : AttributeDef ν) (key : ValueField) : Prop := TYPES_MAP (typeName d) = some key ∨ TYPES_MAP (typeName d) = none

def EmptyRaw (d : AttributeDef ν) (r : RawAttr ν) : Prop :=
  isNaRaw r = true ∨
    match TYPES_MAP (typeName d) with
    | some key => Blank r key
    | none => isNaValue (some (normalizeAttrValue r)) = true

/-- The attribute is stored as `e` and means what it meant: what is set is the same, a text alone is the list of it, what is empty is empty, and what
is not stored is as it is defined. -/
structure Kept (nodeDef : Option (NodeDef ν)) (d : AttributeDef ν) (e : RawAttr ν) : Prop where
  set : ∀ r key, saved nodeDef (attrPathOf d) = some r → isNaRaw r = false → HasField d key → Exact (rawField r key) key →
    Same (rawField r key) (rawField e key) key ∧ isNaRaw e = false
  text : ∀ r t, saved nodeDef (attrPathOf d) = some r → isNaRaw r = false → TYPES_MAP (typeName d) = some .ss → r.ss = .undefined →
    r.s = .string t → t ≠ [] → e.ss = .array [.string t] ∧ isNaRaw e = false
  empty : ∀ r, saved nodeDef (attrPathOf d) = some r → EmptyRaw d r → isNaValue (some (normalizeAttrValue e)) = true
  fresh : saved nodeDef (attrPathOf d) = none → e = valueEntry d (initialValue d)

theorem isNaRaw_setField (key : ValueField) (x : JsValue ν) : isNaRaw (setField { is_na := .bool false } key x) = false := by
  cases key <;> rfl

theorem isNaRaw_spread : isNaRaw (spread v) = (v.is_na == some true) := by rw [isNaRaw, normalize_spread]

theorem valueEntry_set (hna : isNaRaw r = false) (hkey : HasField d key) (h : Exact (rawField r key) key) :
    Same (rawField r key) (rawField (valueEntry d (some (normalizeAttrValue r))) key) key ∧
      isNaRaw (valueEntry d (some (normalizeAttrValue r))) = false := by
  obtain ⟨hsame, -, -⟩ := read_exact h
  unfold valueEntry
  split_ifs with hunion
  · obtain rfl : .s = key := by simpa [HasField, hunion, TYPES_MAP] using hkey
    obtain ⟨t, ht, hx⟩ := h
    have hs : (normalizeAttrValue r).s = some t := by
      have hrs : r.s = .string t := hx
      simp [normalizeAttrValue, hrs, JsValue.toText]
    have hmark : ((normalizeAttrValue r).is_na != some true) = true := by simpa [isNaRaw] using hna
    simp only [selectedName, Option.filter, hmark, if_true, Option.bind_some, hs, Option.getD_some, unionEntry, if_neg ht]
    exact ⟨hx.symm, rfl⟩
  · rcases hkey with hkey | hkey <;> simp only [hkey]
    · rw [leafEntry_exact h, rawField_setField]
      exact ⟨hsame, isNaRaw_setField key _⟩
    · show Same _ (rawField (spread _) key) key ∧ isNaRaw (spread _) = false
      rw [rawField_spread, isNaRaw_spread]
      exact ⟨hsame, hna⟩

theorem blank_not_holds (h : Blank r key) : ¬ Holds (normalizeAttrValue r) key := by
  cases key with
  | f => rcases h with h | h <;> simp [Holds, normalizeAttrValue, h, toNum]
  | i64 => rcases h with h | h <;> simp [Holds, normalizeAttrValue, h, toNum]
  | b => rcases h with h | h <;> simp [Holds, normalizeAttrValue, h, ComponentConfig.toBool]
  | s => rcases h with h | h <;> simp [Holds, normalizeAttrValue, h, JsValue.toText]
  | fs => rcases h with h | h | h <;> simp [Holds, normalizeAttrValue, h]
  | i64s => rcases h with h | h | h <;> simp [Holds, normalizeAttrValue, h]
  | bs => rcases h with h | h | h <;> simp [Holds, normalizeAttrValue, h]
  | ss => rcases h with ⟨h | h | h, hs | hs⟩ <;> simp [Holds, normalizeAttrValue, h, hs, JsValue.toText]

theorem valueEntry_none : isNaValue (some (normalizeAttrValue (valueEntry d none))) = true := by
  unfold valueEntry
  split_ifs with hunion
  · rfl
  · cases hkey : TYPES_MAP (typeName d) with
    | some key =>
      refine Bool.eq_true_of_not_eq_false fun h => ?_
      obtain ⟨v, hv, -⟩ := (leafEntry_filled key none).1 h
      cases hv
    | none => rfl

theorem valueEntry_empty (h : EmptyRaw d r) :
    isNaValue (some (normalizeAttrValue (valueEntry d (if isNaRaw r then none else some (normalizeAttrValue r))))) = true := by
  split_ifs with hna
  · exact valueEntry_none
  · have h := h.resolve_left hna
    unfold valueEntry
    split_ifs with hunion
    · have hs : (normalizeAttrValue r).s.getD [] = [] := by
        rw [hunion] at h
        exact Decidable.not_not.1 (blank_not_holds h)
      have hname : selectedName (some (normalizeAttrValue r)) = [] := by
        unfold selectedName
        cases hfilter : (some (normalizeAttrValue r)).filter fun v => v.is_na != some true with
        | none => rfl
        | some v => rwa [Option.some.inj (Option.eq_some_of_filter_eq_some hfilter)] at hs
      rw [hname]
      rfl
    · cases hkey : TYPES_MAP (typeName d) with
      | some key =>
        rw [hkey] at h
        refine Bool.eq_true_of_not_eq_false fun hfilled => ?_
        obtain ⟨v, hv, hholds⟩ := (leafEntry_filled key _).1 hfilled
        obtain rfl := Option.some.inj hv
        exact blank_not_holds h hholds
      | none =>
        rw [hkey] at h
        simpa only [Option.elim, normalize_again] using h

theorem kept (nodeDef : Option (NodeDef ν)) (d : AttributeDef ν) : Kept nodeDef d (valueEntry d (openedValue nodeDef d)) where
  set r key hr hna hkey hex := by
    rw [openedValue, hr]
    simpa only [hna, Bool.false_eq_true, if_false] using valueEntry_set hna hkey hex
  text r t hr hna hkey hss hs ht := by
    have hvalue : valueEntry d (openedValue nodeDef d) = leafEntry .ss (some (normalizeAttrValue r)) := by
      rw [openedValue, hr, valueEntry, if_neg (fun h => by simp [h, TYPES_MAP] at hkey)]
      simp [hkey, hna]
    rw [hvalue, leafEntry_texts]
    simp [texts, normalizeAttrValue, hss, hs, ht, JsValue.toText, textOrNull, isNaRaw]
  empty r hr hempty := by
    rw [openedValue, hr]
    exact valueEntry_empty hempty
  fresh hnone := by rw [openedValue, hnone]
end

section
variable {d : AttributeDef ν} {v : Option (AttributeValue ν)} {w : AttributeValue ν} {e : RawAttr ν} {key : ValueField}

def settle (d : AttributeDef ν) (e : RawAttr ν) : RawAttr ν :=
  if TYPES_MAP (typeName d) = some .s ∧ isNaRaw e = true then { is_na := .bool true } else e

def Settled (v : Option (AttributeValue ν)) : Prop := ∀ w, v = some w → normalizeAttrValue (spread w) = w ∧ w.is_na ≠ some true

def reread (e : RawAttr ν) : Option (AttributeValue ν) := if isNaRaw e then none else some (normalizeAttrValue e)

theorem selectedName_again (name : Bytes) : selectedName (reread (unionEntry name : RawAttr ν)) = name := by
  by_cases hname : name = []
  · rw [unionEntry, if_pos hname, hname]
    rfl
  · rw [unionEntry, if_neg hname]
    rfl

theorem not_nan_of_filter {x : Option ν} {n : ν} (h : x.filter (fun n => !JsNumber.isNaN n) = x) (hx : x = some n) : JsNumber.isNaN n = false := by
  subst hx
  by_contra hnan
  simp [Option.filter, hnan] at h

theorem eq_of_map {x : Option (List ν)} {l : List ν} (h : x.map (fun l => l.map readAgain) = x) (hx : x = some l) : ∀ n ∈ l, readAgain n = n := by
  subst hx
  exact List.map_inj_left.1 ((Option.some.inj h).trans (List.map_id l).symm)

theorem leafEntry_again (hv : Settled v) :
    leafEntry key (reread (leafEntry key v)) = if key = .s ∧ isNaRaw (leafEntry key v) = true then { is_na := .bool true } else leafEntry key v := by
  cases v with
  | none => cases key <;> rfl
  | some w =>
    have hw := (hv w rfl).1
    rw [normalize_spread] at hw
    cases key with
    | f =>
      cases hf : w.f with
      | none => simp [leafEntry, fieldOrText, isEmptyField, hf, reread, isNaRaw, normalizeAttrValue]
      | some n =>
        have hnan := not_nan_of_filter (congrArg AttributeValue.f hw) hf
        simp [leafEntry, fieldOrText, isEmptyField, hf, reread, isNaRaw, normalizeAttrValue, hnan]
    | i64 =>
      cases hf : w.i64 with
      | none => simp [leafEntry, fieldOrText, isEmptyField, hf, reread, isNaRaw, normalizeAttrValue]
      | some n =>
        have hnan := not_nan_of_filter (congrArg AttributeValue.i64 hw) hf
        simp [leafEntry, fieldOrText, isEmptyField, hf, reread, isNaRaw, normalizeAttrValue, hnan]
    | s =>
      cases hs : w.s with
      | none => simp [leafEntry, fieldOrText, isEmptyField, hs, reread, isNaRaw, normalizeAttrValue]
      | some t => cases t <;> simp [leafEntry, fieldOrText, isEmptyField, hs, reread, isNaRaw, normalizeAttrValue, JsValue.toText]
    | b => cases hb : w.b <;> simp [leafEntry, fieldOrText, isEmptyField, hb, reread, isNaRaw, normalizeAttrValue]
    | fs =>
      cases hl : w.fs with
      | none => simp [leafEntry, fieldOrText, isEmptyField, hl, reread, isNaRaw, normalizeAttrValue]
      | some l =>
        have hread := eq_of_map (congrArg AttributeValue.fs hw) hl
        cases l <;> simp_all [leafEntry, fieldOrText, isEmptyField, reread, isNaRaw, normalizeAttrValue]
    | i64s =>
      cases hl : w.i64s with
      | none => simp [leafEntry, fieldOrText, isEmptyField, hl, reread, isNaRaw, normalizeAttrValue]
      | some l =>
        have hread := eq_of_map (congrArg AttributeValue.i64s hw) hl
        cases l <;> simp_all [leafEntry, fieldOrText, isEmptyField, reread, isNaRaw, normalizeAttrValue]
    | bs => cases hb : w.bs with
      | none => simp [leafEntry, fieldOrText, isEmptyField, hb, reread, isNaRaw, normalizeAttrValue]
      | some l => cases l <;> simp [leafEntry, fieldOrText, isEmptyField, hb, reread, isNaRaw, normalizeAttrValue]
    | ss =>
      rw [if_neg (fun h => absurd h.1 (by decide)), leafEntry_texts]
      cases hl : texts w with
      | nil => rfl
      | cons t l =>
        have hread : reread ({ is_na := .bool false, ss := .array ((t :: l).map textOrNull) } : RawAttr ν) =
            some { ss := some (t :: l), is_na := some false } := by
          simp [reread, isNaRaw, normalizeAttrValue]
        exact (congrArg (leafEntry .ss) hread).trans (leafEntry_texts _)

theorem valueEntry_again (hv : Settled v) : valueEntry d (reread (valueEntry d v)) = settle d (valueEntry d v) := by
  by_cases hunion : typeName d = .unionGroup
  · have hentry : ∀ v : Option (AttributeValue ν), valueEntry d v = unionEntry (selectedName v) := fun v => if_pos hunion
    rw [hentry, hentry, selectedName_again, settle]
    split_ifs with hna
    · by_cases hname : selectedName v = []
      · rw [unionEntry, if_pos hname]
      · rw [unionEntry, if_neg hname] at hna
        exact Bool.noConfusion hna.2
    · rfl
  · cases hkey : TYPES_MAP (typeName d) with
    | some key =>
      have hentry : ∀ v : Option (AttributeValue ν), valueEntry d v = leafEntry key v := fun v => by rw [valueEntry, if_neg hunion, hkey]
      rw [hentry, hentry, leafEntry_again hv]
      simp only [settle, hkey, Option.some.injEq]
    | none =>
      have hentry : ∀ v : Option (AttributeValue ν), valueEntry d v = v.elim { is_na := .bool true } spread := fun v => by
        rw [valueEntry, if_neg hunion, hkey]
      rw [hentry, hentry, settle, if_neg (by simp [hkey])]
      cases v with
      | none => rfl
      | some w =>
        obtain ⟨hread, hna⟩ := hv w rfl
        have hmark : isNaRaw (spread w) = false := by simpa [isNaRaw_spread] using hna
        show (reread (spread w)).elim _ spread = spread w
        rw [reread, if_neg (Bool.eq_false_iff.1 hmark), hread]
        rfl

end

/-- What is stored for the form of a node that is opened and saved without an edit. -/
def saveUnedited (R : Registry) (registry : Bytes → Option (CustomSerializer ν γ)) (o : FormOpts) (tree : List (AttrTreeNode ν))
    (nodeDef : Option (NodeDef ν)) : NodeDef ν :=
  serializeState R registry o nodeDef tree (buildInitialState registry tree nodeDef)

/-- What an attribute that is stored as `e` is stored as a second time; a custom message is read and written by its class again. -/
def again (registry : Bytes → Option (CustomSerializer ν γ)) (d : AttributeDef ν) (e : RawAttr ν) : Option (RawAttr ν) :=
  if typeName d = .customProtobuf then
    if DRAWER_EDITED_PROTOBUF_CLS.contains (d.custom_protobuf_cls.getD []) then some e
    else (getCustomSerializer registry d.custom_protobuf_cls).bind fun ser =>
      (ser.unserializer (some e)).map fun form => ser.serializer form (d.custom_protobuf_cls.getD [])
  else some (settle d e)

variable {R : Registry} {registry : Bytes → Option (CustomSerializer ν γ)} {o : FormOpts} {nodeDef : Option (NodeDef ν)}
  {tree : List (AttrTreeNode ν)} {d : AttributeDef ν}

theorem initialValue_settled (hdefault : ∀ v, d.atomic.bind (·.default_value) = some v → ∃ r, v = normalizeAttrValue r) :
    Settled (initialValue d) := by
  intro w hw
  unfold initialValue at hw
  split at hw
  · obtain rfl := Option.some.inj hw
    exact ⟨rfl, by simp⟩
  · obtain ⟨hsome, hna⟩ := Option.filter_eq_some_iff.1 hw
    obtain ⟨r, rfl⟩ := hdefault w hsome
    refine ⟨normalize_again r, fun h => ?_⟩
    simp [isNaValue, h] at hna

theorem openedValue_settled (hdefault : ∀ v, d.atomic.bind (·.default_value) = some v → ∃ r, v = normalizeAttrValue r) :
    Settled (openedValue nodeDef d) := by
  unfold openedValue
  cases saved nodeDef (attrPathOf d) with
  | none => exact initialValue_settled hdefault
  | some r =>
    intro w hw
    by_cases hna : isNaRaw r = true
    · simp [hna] at hw
    · obtain rfl : normalizeAttrValue r = w := by simpa [hna] using hw
      exact ⟨normalize_again r, fun h => hna (by rw [isNaRaw, h]; rfl)⟩

theorem openedValue_saved {e : RawAttr ν} (h : saved nodeDef (attrPathOf d) = some e) : openedValue nodeDef d = reread e := by
  rw [openedValue, h]
  rfl

theorem saved_again (hpaths : ((Rose.itemsAll tree).map attrPathOf).Nodup) (hd : d ∈ stored R o tree (buildInitialState registry tree nodeDef)) :
    saved (some (saveUnedited R registry o tree nodeDef)) (attrPathOf d) = entryOf registry nodeDef (buildInitialState registry tree nodeDef) d ∧
      savedFirst (some (saveUnedited R registry o tree nodeDef)) (attrPathOf d) =
        entryOf registry nodeDef (buildInitialState registry tree nodeDef) d := by
  have hnodup : ((stored R o tree (buildInitialState registry tree nodeDef)).map attrPathOf).Nodup := stored_nodup hpaths
  cases he : entryOf registry nodeDef (buildInitialState registry tree nodeDef) d with
  | some e =>
    have hmem : (attrPathOf d, e) ∈ entries R registry o nodeDef tree (buildInitialState registry tree nodeDef) := mem_entries.2 ⟨d, hd, rfl, he⟩
    exact ⟨saved_ofPairs (entries_nodup hnodup) hmem, savedFirst_ofPairs (entries_nodup hnodup) hmem⟩
  | none =>
    have hmem : attrPathOf d ∉ (entries R registry o nodeDef tree (buildInitialState registry tree nodeDef)).map Prod.fst := by
      intro hp
      obtain ⟨q, hq, hqp⟩ := List.mem_map.1 hp
      obtain ⟨c, hc, hcp, hce⟩ := mem_entries.1 hq
      obtain rfl := List.inj_on_of_nodup_map hnodup hc hd (hcp.trans hqp)
      exact absurd (he.symm.trans hce) (by simp)
    exact ⟨saved_none hmem, savedFirst_none hmem⟩

theorem selected_again (hpaths : ((Rose.itemsAll tree).map attrPathOf).Nodup)
    (hd : d ∈ stored R o tree (buildInitialState registry tree nodeDef)) (hunion : typeName d = .unionGroup) :
    selected (buildInitialState registry tree (some (saveUnedited R registry o tree nodeDef))) d =
      selected (buildInitialState registry tree nodeDef) d := by
  have hcustom : typeName d ≠ .customProtobuf := by rw [hunion]; decide
  have hentry : entryOf registry nodeDef (buildInitialState registry tree nodeDef) d =
      some (unionEntry (selected (buildInitialState registry tree nodeDef) d)) := by
    rw [entryOf, if_neg hcustom, valueEntry, if_pos hunion]
    rfl
  have hopened := openedValue_saved ((saved_again hpaths hd).1.trans hentry)
  rw [selected, opened_value hpaths (mem_shown hd) hcustom, hopened, selectedName_again]

theorem stored_again (hpaths : ((Rose.itemsAll tree).map attrPathOf).Nodup) :
    stored R o tree (buildInitialState registry tree (some (saveUnedited R registry o tree nodeDef))) =
      stored R o tree (buildInitialState registry tree nodeDef) :=
  shown_congr tree fun _ hd hunion => congrArg some (selected_again hpaths hd hunion)

theorem custom_again (hpaths : ((Rose.itemsAll tree).map attrPathOf).Nodup)
    (hforms : ∀ cls ser raw, registry cls = some ser → cls ∉ DRAWER_EDITED_PROTOBUF_CLS → (ser.unserializer raw).isSome = true)
    (hd : d ∈ stored R o tree (buildInitialState registry tree nodeDef)) (hcustom : typeName d = .customProtobuf) :
    customEntry registry (some (saveUnedited R registry o tree nodeDef))
        (buildInitialState registry tree (some (saveUnedited R registry o tree nodeDef))) d =
      (entryOf registry nodeDef (buildInitialState registry tree nodeDef) d).bind (again registry d) := by
  obtain ⟨hsaved, hfirst⟩ := saved_again hpaths hd
  have hentry : entryOf registry nodeDef (buildInitialState registry tree nodeDef) d =
      customEntry registry nodeDef (buildInitialState registry tree nodeDef) d := if_pos hcustom
  unfold customEntry
  by_cases hdrawer : DRAWER_EDITED_PROTOBUF_CLS.contains (d.custom_protobuf_cls.getD []) = true
  · rw [if_pos hdrawer, hfirst]
    cases entryOf registry nodeDef (buildInitialState registry tree nodeDef) d with
    | none => rfl
    | some e => rw [Option.bind_some, again, if_pos hcustom, if_pos hdrawer]
  · rw [if_neg hdrawer]
    have hcls : getCustomSerializer registry (some (d.custom_protobuf_cls.getD [])) = getCustomSerializer registry d.custom_protobuf_cls := rfl
    rw [hcls]
    cases hser : getCustomSerializer registry d.custom_protobuf_cls with
    | none => rw [hentry, customEntry, if_neg hdrawer, hcls, hser]; rfl
    | some ser =>
      have hreg : registry (d.custom_protobuf_cls.getD []) = some ser := by
        unfold getCustomSerializer at hser
        split_ifs at hser with hname
        exact hser
      have hnot : d.custom_protobuf_cls.getD [] ∉ DRAWER_EDITED_PROTOBUF_CLS := fun h => hdrawer (List.contains_iff_mem.2 h)
      obtain ⟨form, hform⟩ := Option.isSome_iff_exists.1 (hforms _ ser (saved nodeDef (attrPathOf d)) hreg hnot)
      have hfirstForm : (buildInitialState registry tree nodeDef).custom (attrPathOf d) = some form := by
        rw [opened_custom hpaths (mem_shown hd) hcustom, hser, Option.bind_some, hform]
      have hstored : entryOf registry nodeDef (buildInitialState registry tree nodeDef) d =
          some (ser.serializer form (d.custom_protobuf_cls.getD [])) := by
        rw [hentry, customEntry, if_neg hdrawer, hcls, hser, Option.bind_some, hfirstForm]
        rfl
      rw [hstored, Option.bind_some, Option.bind_some, again, if_pos hcustom, if_neg hdrawer, hser, Option.bind_some,
        opened_custom hpaths (mem_shown hd) hcustom, hser, Option.bind_some, hsaved, hstored]

theorem entry_again (hpaths : ((Rose.itemsAll tree).map attrPathOf).Nodup)
    (hdefaults : ∀ d ∈ Rose.itemsAll tree, ∀ v, d.atomic.bind (·.default_value) = some v → ∃ r, v = normalizeAttrValue r)
    (hforms : ∀ cls ser raw, registry cls = some ser → cls ∉ DRAWER_EDITED_PROTOBUF_CLS → (ser.unserializer raw).isSome = true)
    (hd : d ∈ stored R o tree (buildInitialState registry tree nodeDef)) :
    entryOf registry (some (saveUnedited R registry o tree nodeDef))
        (buildInitialState registry tree (some (saveUnedited R registry o tree nodeDef))) d =
      (entryOf registry nodeDef (buildInitialState registry tree nodeDef) d).bind (again registry d) := by
  by_cases hcustom : typeName d = .customProtobuf
  · exact (if_pos hcustom).trans (custom_again hpaths hforms hd hcustom)
  · have hmem := mem_shown hd
    have hentry : entryOf registry nodeDef (buildInitialState registry tree nodeDef) d = some (valueEntry d (openedValue nodeDef d)) := by
      rw [entryOf, if_neg hcustom, opened_value hpaths hmem hcustom]
    have hagain := openedValue_saved ((saved_again hpaths hd).1.trans hentry)
    rw [hentry, Option.bind_some, again, if_neg hcustom, entryOf, if_neg hcustom, opened_value hpaths hmem hcustom, hagain,
      valueEntry_again (openedValue_settled (hdefaults d hmem))]

theorem reopened_kept (hpaths : ((Rose.itemsAll tree).map attrPathOf).Nodup)
    (hdefaults : ∀ d ∈ Rose.itemsAll tree, ∀ v, d.atomic.bind (·.default_value) = some v → ∃ r, v = normalizeAttrValue r)
    (hforms : ∀ cls ser raw, registry cls = some ser → cls ∉ DRAWER_EDITED_PROTOBUF_CLS → (ser.unserializer raw).isSome = true) :
    (∀ d ∈ stored R o tree (buildInitialState registry tree nodeDef), typeName d ≠ .customProtobuf →
      ∃ e, entryOf registry nodeDef (buildInitialState registry tree nodeDef) d = some e ∧ Kept nodeDef d e) ∧
    saveUnedited R registry o tree (some (saveUnedited R registry o tree nodeDef)) =
      ofPairs ((stored R o tree (buildInitialState registry tree nodeDef)).filterMap fun d =>
        ((entryOf registry nodeDef (buildInitialState registry tree nodeDef) d).bind (again registry d)).map fun e => (attrPathOf d, e)) := by
  refine ⟨fun d hd hcustom => ?_, ?_⟩
  · refine ⟨_, if_neg hcustom, ?_⟩
    rw [opened_value hpaths (mem_shown hd) hcustom]
    exact kept nodeDef d
  · refine congrArg ofPairs ?_
    rw [entries, stored_again hpaths]
    refine List.filterMap_congr fun d hd => ?_
    rw [entry_again hpaths hdefaults hforms hd]

def limitDefs : List (AttributeDef WholeNumber) :=
  [{ name := some (str "limit"), type := .text (str "AT_INT") },
    { name := some (str "seed"), type := .text (str "AT_INT"), atomic := some { default_value := some { i64 := some (some 3) } } },
    { name := some (str "note"), type := .text (str "AT_STRING"), atomic := some { is_optional := some true } }]

def limitNode : NodeDef WholeNumber := ofPairs [(str "limit", { i64 := .string (str "9007199254740993") }), (str "note", { s := .string [] })]

def limitTree : List (AttrTreeNode WholeNumber) := buildAttrTree limitDefs

def noMessages (_ : Bytes) : Option (CustomSerializer WholeNumber Unit) := none

def limitForm : FormState WholeNumber Unit := buildInitialState noMessages limitTree (some limitNode)

def limitSaved (nodeDef : NodeDef WholeNumber) : NodeDef WholeNumber := saveUnedited initialRegistry noMessages {} limitTree (some nodeDef)

theorem reopened_kept_limit :
    (∀ d ∈ stored initialRegistry {} limitTree limitForm, typeName d ≠ .customProtobuf →
      ∃ e, entryOf noMessages (some limitNode) limitForm d = some e ∧ Kept (some limitNode) d e) ∧
    limitSaved (limitSaved limitNode) = ofPairs ((stored initialRegistry {} limitTree limitForm).filterMap fun d =>
      ((entryOf noMessages (some limitNode) limitForm d).bind (again noMessages d)).map fun e => (attrPathOf d, e)) := by
  refine reopened_kept (by decide +kernel) (fun d hd v hv => ?_) fun _ _ _ h => nomatch h
  have hdefs : d ∈ limitDefs := (mem_keptDefs (mem_buildAttrTree hd)).1
  simp only [limitDefs, List.mem_cons, List.not_mem_nil, or_false] at hdefs
  rcases hdefs with rfl | rfl | rfl
  · cases hv
  · obtain rfl := Option.some.inj hv
    exact ⟨{ i64 := .number (some 3) }, rfl⟩
  · cases hv

/-- The last digit of a number is lost, an attribute that is not stored gets its default, and a second time an empty text goes. -/
theorem reopened_changed :
    (saved (some limitNode) (str "limit")).map (·.i64.toText) = some (str "9007199254740993") ∧
      (saved (some (limitSaved limitNode)) (str "limit")).map (·.i64.toText) = some (str "9007199254740992") ∧
    (saved (some limitNode) (str "seed")).isNone = true ∧ (saved (some (limitSaved limitNode)) (str "seed")).map (·.i64.toText) = some (str "3") ∧
    (saved (some (limitSaved limitNode)) (str "note")).map (·.s.isUndefined) = some false ∧
      (saved (some (limitSaved (limitSaved limitNode))) (str "note")).map (·.s.isUndefined) = some true := by
  decide +kernel

end Web.Reopened
