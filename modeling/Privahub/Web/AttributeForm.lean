import Privahub.Lib.Forest
import Privahub.Web.ComponentConfig

/-!
# The form of a component's attributes

`packages/dag-next/src/attribute-form.tsx`: the tree of the definitions, the state of a form made of a stored node, the node a state is stored as and
the errors of the attributes in sight. What walks the tree walks `shown`.
-/

namespace Web.AttributeForm

open ComponentConfig

variable {ν γ : Type}

abbrev AttrTreeNode (ν : Type) := Rose (AttributeDef ν)

def parentPath (d : AttributeDef ν) : Option Bytes :=
  let path := List.intercalate [47] (d.prefixes.getD [])
  if path = [] then none else some path

def keptDefs : List (AttributeDef ν) → List (AttributeDef ν)
  | [] => []
  | d :: ds => if attrPathOf d = [] ∨ attrPathOf d ∈ ds.map attrPathOf then keptDefs ds else d :: keptDefs ds

def buildAttrTree (defs : List (AttributeDef ν)) : List (AttrTreeNode ν) := Forest.build attrPathOf parentPath (keptDefs defs)

section
variable {defs : List (AttributeDef ν)} {d e : AttributeDef ν}

theorem mem_keptDefs (h : d ∈ keptDefs defs) : d ∈ defs ∧ attrPathOf d ≠ [] := by
  induction defs with
  | nil => exact absurd h List.not_mem_nil
  | cons c defs ih =>
    rw [keptDefs] at h
    split_ifs at h with hc
    · exact ⟨List.mem_cons_of_mem _ (ih h).1, (ih h).2⟩
    · rcases List.mem_cons.1 h with rfl | h
      · exact ⟨List.mem_cons_self .., fun hd => hc (Or.inl hd)⟩
      · exact ⟨List.mem_cons_of_mem _ (ih h).1, (ih h).2⟩

theorem keptDefs_nodup (defs : List (AttributeDef ν)) : ((keptDefs defs).map attrPathOf).Nodup := by
  induction defs with
  | nil => exact List.nodup_nil
  | cons c defs ih =>
    rw [keptDefs]
    split_ifs with hc
    · exact ih
    · refine List.nodup_cons.2 ⟨fun hmem => ?_, ih⟩
      obtain ⟨e, he, hpath⟩ := List.mem_map.1 hmem
      exact hc (Or.inr (List.mem_map.2 ⟨e, (mem_keptDefs he).1, hpath⟩))

theorem mem_buildAttrTree (h : d ∈ Rose.itemsAll (buildAttrTree defs)) : d ∈ keptDefs defs := Forest.mem_build h

theorem eq_of_path (hd : d ∈ Rose.itemsAll (buildAttrTree defs)) (he : e ∈ Rose.itemsAll (buildAttrTree defs)) (h : attrPathOf d = attrPathOf e) :
    d = e :=
  List.inj_on_of_nodup_map (keptDefs_nodup defs) (mem_buildAttrTree hd) (mem_buildAttrTree he) h

theorem buildAttrTree_enough (defs : List (AttributeDef ν)) (k : Nat) :
    ((keptDefs defs).filter (Forest.isRoot attrPathOf parentPath (keptDefs defs))).map
      (Forest.grow attrPathOf parentPath (keptDefs defs) ((keptDefs defs).length + k)) = buildAttrTree defs :=
  Forest.build_enough (keptDefs_nodup defs) k
end

/-- The values and the values of custom messages, by path. -/
structure FormState (ν γ : Type) where
  values : Bytes → Option (AttributeValue ν)
  custom : Bytes → Option γ

structure CustomSerializer (ν γ : Type) where
  serializer : γ → Bytes → RawAttr ν
  unserializer : Option (RawAttr ν) → Option γ

/-- `registry[cls]`, of the classes that have a name. -/
def getCustomSerializer (registry : Bytes → Option (CustomSerializer ν γ)) (cls : Option Bytes) : Option (CustomSerializer ν γ) :=
  if cls.getD [] = [] then none else registry (cls.getD [])

def DRAWER_EDITED_PROTOBUF_CLS : List Bytes := [str "Binning_modifications", str "linear_model_pb2"]

def saved (nodeDef : Option (NodeDef ν)) (path : Bytes) : Option (RawAttr ν) :=
  (((pairsOf nodeDef).filter fun q => decide (q.1 = path)).getLast?).bind Prod.snd

def initialValue (d : AttributeDef ν) : Option (AttributeValue ν) :=
  match (d.union.bind (·.default_selection)).filter fun s => decide (typeName d = .unionGroup ∧ s ≠ []) with
  | some s => some { s := some s, is_na := some false }
  | none => (d.atomic.bind (·.default_value)).filter fun v => !isNaValue (some v)

def initNode [JsNumber ν] (registry : Bytes → Option (CustomSerializer ν γ)) (nodeDef : Option (NodeDef ν)) (st : FormState ν γ)
    (d : AttributeDef ν) : FormState ν γ :=
  let path := attrPathOf d
  if typeName d = .customProtobuf then
    let raw := saved nodeDef path
    { st with custom := Function.update st.custom path ((getCustomSerializer registry d.custom_protobuf_cls).bind fun ser => ser.unserializer raw) }
  else
    let st := match initialValue d with
      | some v => { st with values := Function.update st.values path (some v) }
      | none => st
    match (saved nodeDef path).map normalizeAttrValue with
    | some v => { st with values := Function.update st.values path (if v.is_na = some true then none else some v) }
    | none => st

def buildInitialState [JsNumber ν] (registry : Bytes → Option (CustomSerializer ν γ)) (tree : List (AttrTreeNode ν))
    (nodeDef : Option (NodeDef ν)) : FormState ν γ :=
  (Rose.itemsAll tree).foldl (initNode registry nodeDef) ⟨fun _ => none, fun _ => none⟩

mutual
/-- The attributes and unions a walk gets to: nothing below a hidden style, all that a group holds, and of a union what is selected. -/
def shownOf (hides : Bytes → Bool) (select : AttributeDef ν → Option Bytes) : AttrTreeNode ν → List (AttributeDef ν)
  | .node d cs =>
    if hides (attrPathOf d) then []
    else if typeName d = .structGroup ∨ typeName d = .unspecified then shown hides select cs
    else if typeName d = .unionGroup then d :: shownNamed hides select (select d) cs
    else [d]

def shown (hides : Bytes → Bool) (select : AttributeDef ν → Option Bytes) : List (AttrTreeNode ν) → List (AttributeDef ν)
  | [] => []
  | t :: ts => shownOf hides select t ++ shown hides select ts

def shownNamed (hides : Bytes → Bool) (select : AttributeDef ν → Option Bytes) (name : Option Bytes) :
    List (AttrTreeNode ν) → List (AttributeDef ν)
  | [] => []
  | t :: ts => if t.item.name = name then shownOf hides select t else shownNamed hides select name ts
end

section
variable {hides : Bytes → Bool} {select : AttributeDef ν → Option Bytes} {d : AttributeDef ν}

mutual
theorem shownOf_sublist : ∀ t : AttrTreeNode ν, (shownOf hides select t).Sublist t.items
  | .node c cs => by
    rw [Rose.items]
    unfold shownOf
    split_ifs
    · exact List.nil_sublist _
    · exact (shown_sublist cs).cons c
    · exact (shownNamed_sublist (select c) cs).cons_cons c
    · exact (List.nil_sublist _).cons_cons c

theorem shown_sublist : ∀ ts : List (AttrTreeNode ν), (shown hides select ts).Sublist (Rose.itemsAll ts)
  | [] => List.nil_sublist _
  | t :: ts => by
    rw [Rose.itemsAll, shown]
    exact (shownOf_sublist t).append (shown_sublist ts)

theorem shownNamed_sublist (name : Option Bytes) : ∀ ts : List (AttrTreeNode ν), (shownNamed hides select name ts).Sublist (Rose.itemsAll ts)
  | [] => List.nil_sublist _
  | t :: ts => by
    rw [Rose.itemsAll]
    unfold shownNamed
    split_ifs
    · exact (shownOf_sublist t).trans (List.sublist_append_left _ _)
    · exact (shownNamed_sublist name ts).trans (List.sublist_append_right _ _)
end

mutual
theorem shownOf_congr {select' : AttributeDef ν → Option Bytes} : ∀ t : AttrTreeNode ν,
    (∀ d ∈ shownOf hides select t, typeName d = .unionGroup → select' d = select d) → shownOf hides select' t = shownOf hides select t
  | .node c cs, h => by
    unfold shownOf at h ⊢
    by_cases hhide : hides (attrPathOf c) = true
    · rw [if_pos hhide, if_pos hhide]
    · rw [if_neg hhide] at h ⊢
      rw [if_neg hhide]
      by_cases hgroup : typeName c = .structGroup ∨ typeName c = .unspecified
      · rw [if_pos hgroup] at h ⊢
        rw [if_pos hgroup]
        exact shown_congr cs h
      · rw [if_neg hgroup] at h ⊢
        rw [if_neg hgroup]
        by_cases hunion : typeName c = .unionGroup
        · rw [if_pos hunion] at h ⊢
          rw [if_pos hunion, h c (List.mem_cons_self ..) hunion, shownNamed_congr (select c) cs fun d hd => h d (List.mem_cons_of_mem _ hd)]
        · rw [if_neg hunion, if_neg hunion]

theorem shown_congr {select' : AttributeDef ν → Option Bytes} : ∀ ts : List (AttrTreeNode ν),
    (∀ d ∈ shown hides select ts, typeName d = .unionGroup → select' d = select d) → shown hides select' ts = shown hides select ts
  | [], _ => rfl
  | t :: ts, h => by
    rw [shown] at h
    rw [shown, shown, shownOf_congr t fun d hd => h d (List.mem_append_left _ hd), shown_congr ts fun d hd => h d (List.mem_append_right _ hd)]

theorem shownNamed_congr {select' : AttributeDef ν → Option Bytes} (name : Option Bytes) : ∀ ts : List (AttrTreeNode ν),
    (∀ d ∈ shownNamed hides select name ts, typeName d = .unionGroup → select' d = select d) →
      shownNamed hides select' name ts = shownNamed hides select name ts
  | [], _ => rfl
  | t :: ts, h => by
    unfold shownNamed at h ⊢
    by_cases hname : t.item.name = name
    · rw [if_pos hname] at h ⊢
      rw [if_pos hname]
      exact shownOf_congr t h
    · rw [if_neg hname] at h ⊢
      rw [if_neg hname]
      exact shownNamed_congr name ts h
end

theorem mem_shown {ts : List (AttrTreeNode ν)} (h : d ∈ shown hides select ts) : d ∈ Rose.itemsAll ts := (shown_sublist ts).subset h
end

@[simp] def getField (v : AttributeValue ν) : ValueField → JsValue ν
  | .f => v.f.elim .undefined .number
  | .i64 => v.i64.elim .undefined .number
  | .s => v.s.elim .undefined .string
  | .b => v.b.elim .undefined .bool
  | .fs => v.fs.elim .undefined fun l => .array (l.map .number)
  | .i64s => v.i64s.elim .undefined fun l => .array (l.map .number)
  | .ss => v.ss.elim .undefined fun l => .array (l.map textOrNull)
  | .bs => v.bs.elim .undefined fun l => .array (l.map .bool)

@[simp] def setField (r : RawAttr ν) (key : ValueField) (x : JsValue ν) : RawAttr ν :=
  match key with
  | .f => { r with f := x }
  | .i64 => { r with i64 := x }
  | .s => { r with s := x }
  | .b => { r with b := x }
  | .fs => { r with fs := x }
  | .i64s => { r with i64s := x }
  | .ss => { r with ss := x }
  | .bs => { r with bs := x }

def rawField (r : RawAttr ν) : ValueField → JsValue ν
  | .f => r.f
  | .i64 => r.i64
  | .s => r.s
  | .b => r.b
  | .fs => r.fs
  | .i64s => r.i64s
  | .ss => r.ss
  | .bs => r.bs

/-- `{ ...value }`. -/
def spread (v : AttributeValue ν) : RawAttr ν where
  f := getField v .f
  i64 := getField v .i64
  s := getField v .s
  b := getField v .b
  fs := getField v .fs
  i64s := getField v .i64s
  ss := getField v .ss
  bs := getField v .bs
  is_na := v.is_na.elim .undefined .bool
  custom_protobuf_cls := v.custom_protobuf_cls.elim .undefined .string
  custom_value := v.custom_value

@[simp] theorem rawField_setField (r : RawAttr ν) (key : ValueField) (x : JsValue ν) : rawField (setField r key x) key = x := by
  cases key <;> rfl

@[simp] theorem rawField_spread (v : AttributeValue ν) (key : ValueField) : rawField (spread v) key = getField v key := by
  cases key <;> rfl

theorem normalize_spread [JsNumber ν] (v : AttributeValue ν) : normalizeAttrValue (spread v) =
    { v with f := v.f.filter fun n => !JsNumber.isNaN n
             i64 := v.i64.filter fun n => !JsNumber.isNaN n
             fs := v.fs.map fun l => l.map readAgain
             i64s := v.i64s.map fun l => l.map readAgain } := by
  obtain ⟨f, i64, s, b, fs, i64s, ss, bs, is_na, cls, value⟩ := v
  simp only [normalizeAttrValue, spread, getField, AttributeValue.mk.injEq]
  have hnum : ∀ x : Option ν, toNum (x.elim .undefined .number) = x.filter fun n => !JsNumber.isNaN n := by
    rintro (_ | n)
    · rfl
    · cases hn : JsNumber.isNaN n <;> simp [hn, Option.filter]
  refine ⟨hnum f, hnum i64, ?_, ?_, ?_, ?_, ?_, ?_, ?_, ?_, trivial⟩
  · cases s <;> simp [JsValue.toText]
  · cases b <;> simp
  · cases fs <;> simp
  · cases i64s <;> simp
  · cases ss <;> simp
  · cases bs <;> simp
  · cases is_na <;> simp
  · cases cls <;> simp [JsValue.toText]

theorem toNum_not_nan [JsNumber ν] {x : JsValue ν} {n : ν} (h : toNum x = some n) : JsNumber.isNaN n = false := by
  rw [toNum] at h
  by_cases hblank : x.isBlank = true
  · exact absurd h (by simp [hblank])
  · by_cases hnan : JsNumber.isNaN x.toNumber = true
    · exact absurd h (by simp [hblank, hnan])
    · obtain rfl : x.toNumber = n := by simpa [hblank, hnan] using h
      exact Bool.eq_false_iff.2 hnan

theorem normalize_again [JsNumber ν] (r : RawAttr ν) : normalizeAttrValue (spread (normalizeAttrValue r)) = normalizeAttrValue r := by
  have hnum : ∀ x : JsValue ν, (toNum x).filter (fun n => !JsNumber.isNaN n) = toNum x := by
    intro x
    cases hx : toNum x with
    | none => rfl
    | some n => simp [Option.filter, toNum_not_nan hx]
  have hread : ∀ x : JsValue ν, readAgain (readNumber x) = readNumber x := by
    intro x
    rw [readNumber]
    cases hx : toNum x with
    | none => exact ite_self _
    | some n => exact if_neg (Bool.eq_false_iff.1 (toNum_not_nan hx))
  have hlist : ∀ l : Option (List (JsValue ν)),
      (l.map fun l => l.map readNumber).map (fun l => l.map readAgain) = l.map fun l => l.map readNumber := by
    rintro (_ | l)
    · rfl
    · simp [Function.comp_def, hread]
  rw [normalize_spread]
  simp only [normalizeAttrValue, hnum, hlist]

@[simp] def isListField : ValueField → Bool
  | .ss | .fs | .i64s | .bs => true
  | .f | .i64 | .s | .b => false

def fieldOrText (key : ValueField) (value : Option (AttributeValue ν)) : JsValue ν :=
  let v := value.elim .undefined fun v => getField v key
  let text := (value.bind (·.s)).getD []
  if key = .ss ∧ v.isUndefined ∧ text ≠ [] then .array [.string text] else v

theorem fieldOrText_some {v : AttributeValue ν} {l : List (Option Bytes)} (h : v.ss = some l) :
    fieldOrText .ss (some v) = .array (l.map textOrNull) := by
  simp [fieldOrText, h]

theorem fieldOrText_none {v : AttributeValue ν} (h : v.ss = none) :
    fieldOrText .ss (some v) = if v.s.getD [] = [] then .undefined else .array [.string (v.s.getD [])] := by
  by_cases hs : v.s.getD [] = [] <;> simp [fieldOrText, h, hs]

def isEmptyField (key : ValueField) (v : JsValue ν) : Bool :=
  v.isNullish || (v.elems?.map (·.isEmpty)) == some true || (key = .s && v.isBlank)

def leafEntry (key : ValueField) (value : Option (AttributeValue ν)) : RawAttr ν :=
  let v := fieldOrText key value
  setField { is_na := .bool (isEmptyField key v) } key (if v.isUndefined && isListField key then .array [] else v)

def texts (w : AttributeValue ν) : List (Option Bytes) := w.ss.getD (if w.s.getD [] = [] then [] else [some (w.s.getD [])])

theorem leafEntry_texts (w : AttributeValue ν) :
    leafEntry .ss (some w) = { is_na := .bool (texts w).isEmpty, ss := .array ((texts w).map textOrNull) } := by
  cases hl : w.ss with
  | none =>
    by_cases hs : w.s.getD [] = [] <;> simp [leafEntry, fieldOrText_none hl, texts, hl, hs, isEmptyField, textOrNull]
  | some l => cases l <;> simp [leafEntry, fieldOrText_some hl, texts, hl, isEmptyField]

/-- What the value of a union selects, `''` for nothing. -/
def selectedName (v : Option (AttributeValue ν)) : Bytes := ((v.filter fun v => v.is_na != some true).bind (·.s)).getD []

def selected (st : FormState ν γ) (d : AttributeDef ν) : Bytes := selectedName (st.values (attrPathOf d))

def unionEntry (name : Bytes) : RawAttr ν := if name = [] then { is_na := .bool true } else { s := .string name, is_na := .bool false }

def savedFirst (nodeDef : Option (NodeDef ν)) (path : Bytes) : Option (RawAttr ν) :=
  ((pairsOf nodeDef).find? fun q => decide (q.1 = path)).bind Prod.snd

def customEntry (registry : Bytes → Option (CustomSerializer ν γ)) (nodeDef : Option (NodeDef ν)) (st : FormState ν γ) (d : AttributeDef ν) :
    Option (RawAttr ν) :=
  let cls := d.custom_protobuf_cls.getD []
  if DRAWER_EDITED_PROTOBUF_CLS.contains cls then savedFirst nodeDef (attrPathOf d)
  else (getCustomSerializer registry (some cls)).bind fun ser => (st.custom (attrPathOf d)).map fun form => ser.serializer form cls

def valueEntry (d : AttributeDef ν) (v : Option (AttributeValue ν)) : RawAttr ν :=
  if typeName d = .unionGroup then unionEntry (selectedName v)
  else
    match TYPES_MAP (typeName d) with
    | some key => leafEntry key v
    | none => v.elim { is_na := .bool true } spread

/-- What an attribute in sight is stored as; a custom message may not be. -/
def entryOf (registry : Bytes → Option (CustomSerializer ν γ)) (nodeDef : Option (NodeDef ν)) (st : FormState ν γ) (d : AttributeDef ν) :
    Option (RawAttr ν) :=
  if typeName d = .customProtobuf then customEntry registry nodeDef st d else some (valueEntry d (st.values (attrPathOf d)))

def ofPairs (out : List (Bytes × RawAttr ν)) : NodeDef ν := { attrPaths := some (out.map Prod.fst), attrs := some (out.map fun q => some q.2) }

theorem pairsOf_ofPairs (out : List (Bytes × RawAttr ν)) : pairsOf (some (ofPairs out)) = out.map fun q => (q.1, some q.2) := by
  show pairUp (out.map Prod.fst) (out.map fun q => some q.2) = _
  induction out with
  | nil => rfl
  | cons q out ih => rw [List.map_cons, List.map_cons, List.map_cons, pairUp, List.tail_cons, ih]; rfl

section
variable {out : List (Bytes × RawAttr ν)} {p : Bytes} {e : RawAttr ν}

theorem filter_path (hout : (out.map Prod.fst).Nodup) (he : (p, e) ∈ out) : out.filter (fun q => decide (q.1 = p)) = [(p, e)] := by
  induction out with
  | nil => exact absurd he List.not_mem_nil
  | cons q out ih =>
    obtain ⟨hq, hout⟩ := List.nodup_cons.1 hout
    rcases List.mem_cons.1 he with rfl | he
    · have hrest : out.filter (fun q => decide (q.1 = p)) = [] :=
        List.filter_eq_nil_iff.2 fun q hqo hqp => hq (List.mem_map.2 ⟨q, hqo, of_decide_eq_true hqp⟩)
      rw [List.filter_cons_of_pos (by simp), hrest]
    · have hne : q.1 ≠ p := fun h => hq (h ▸ List.mem_map_of_mem he)
      rw [List.filter_cons_of_neg (by simpa using hne), ih hout he]

theorem saved_ofPairs (hout : (out.map Prod.fst).Nodup) (he : (p, e) ∈ out) : saved (some (ofPairs out)) p = some e := by
  rw [saved, pairsOf_ofPairs, List.filter_map]
  exact congrArg (fun l : List (Bytes × RawAttr ν) => ((l.map fun q => (q.1, some q.2)).getLast?).bind Prod.snd) (filter_path hout he)

theorem savedFirst_ofPairs (hout : (out.map Prod.fst).Nodup) (he : (p, e) ∈ out) : savedFirst (some (ofPairs out)) p = some e := by
  rw [savedFirst, pairsOf_ofPairs, ← List.head?_filter, List.filter_map]
  exact congrArg (fun l : List (Bytes × RawAttr ν) => ((l.map fun q => (q.1, some q.2)).head?).bind Prod.snd) (filter_path hout he)

theorem filter_none (hp : p ∉ out.map Prod.fst) : (pairsOf (some (ofPairs out))).filter (fun q => decide (q.1 = p)) = [] := by
  rw [pairsOf_ofPairs]
  refine List.filter_eq_nil_iff.2 fun q hq hqp => hp ?_
  obtain ⟨q', hq', rfl⟩ := List.mem_map.1 hq
  exact List.mem_map.2 ⟨q', hq', of_decide_eq_true hqp⟩

theorem saved_none (hp : p ∉ out.map Prod.fst) : saved (some (ofPairs out)) p = none := by rw [saved, filter_none hp]; rfl

theorem savedFirst_none (hp : p ∉ out.map Prod.fst) : savedFirst (some (ofPairs out)) p = none := by
  rw [savedFirst, ← List.head?_filter, filter_none hp]; rfl
end

def stored (R : Registry) (o : FormOpts) (tree : List (AttrTreeNode ν)) (st : FormState ν γ) : List (AttributeDef ν) :=
  shown (panelHides R o) (fun d => some (selected st d)) tree

def entries (R : Registry) (registry : Bytes → Option (CustomSerializer ν γ)) (o : FormOpts) (nodeDef : Option (NodeDef ν))
    (tree : List (AttrTreeNode ν)) (st : FormState ν γ) : List (Bytes × RawAttr ν) :=
  (stored R o tree st).filterMap fun d => (entryOf registry nodeDef st d).map fun e => (attrPathOf d, e)

def serializeState (R : Registry) (registry : Bytes → Option (CustomSerializer ν γ)) (o : FormOpts) (nodeDef : Option (NodeDef ν))
    (tree : List (AttrTreeNode ν)) (st : FormState ν γ) : NodeDef ν :=
  ofPairs (entries R registry o nodeDef tree st)

section
variable {R : Registry} {registry : Bytes → Option (CustomSerializer ν γ)} {o : FormOpts} {nodeDef : Option (NodeDef ν)}
  {defs : List (AttributeDef ν)} {st : FormState ν γ} {d e : AttributeDef ν}

theorem mem_entries {tree : List (AttrTreeNode ν)} {p : Bytes} {r : RawAttr ν} : (p, r) ∈ entries R registry o nodeDef tree st ↔
    ∃ d ∈ stored R o tree st, attrPathOf d = p ∧ entryOf registry nodeDef st d = some r := by
  simp [entries, List.mem_filterMap, and_comm]

theorem stored_nodup {tree : List (AttrTreeNode ν)} (hpaths : ((Rose.itemsAll tree).map attrPathOf).Nodup) :
    ((stored R o tree st).map attrPathOf).Nodup :=
  hpaths.sublist ((shown_sublist tree).map attrPathOf)

theorem entries_nodup {tree : List (AttrTreeNode ν)} (hpaths : ((stored R o tree st).map attrPathOf).Nodup) :
    ((entries R registry o nodeDef tree st).map Prod.fst).Nodup := by
  refine List.pairwise_map.2 ((List.pairwise_map.1 hpaths).filterMap _ fun d d' hne q hq q' hq' => ?_)
  obtain ⟨e, -, rfl⟩ := Option.map_eq_some_iff.1 hq
  obtain ⟨e', -, rfl⟩ := Option.map_eq_some_iff.1 hq'
  exact hne

theorem path_ne (hd : d ∈ stored R o (buildAttrTree defs) st) : attrPathOf d ≠ [] := (mem_keptDefs (mem_buildAttrTree (mem_shown hd))).2

theorem stored_eq (hd : d ∈ stored R o (buildAttrTree defs) st) (he : e ∈ stored R o (buildAttrTree defs) st) (h : attrPathOf d = attrPathOf e) :
    d = e :=
  eq_of_path (mem_shown hd) (mem_shown he) h
end

variable [JsNumber ν]

/-- What the check takes a union to be set to; `none` where there is a value without a text. -/
def selection (st : FormState ν γ) (d : AttributeDef ν) : Option Bytes :=
  match (st.values (attrPathOf d)).filter fun v => v.is_na != some true with
  | some v => v.s
  | none => some []

def checked (R : Registry) (o : FormOpts) (tree : List (AttrTreeNode ν)) (st : FormState ν γ) : List (AttributeDef ν) :=
  shown (panelHides R o) (selection st) tree

def rendererOf (R : Registry) (o : FormOpts) (d : AttributeDef ν) : RendererKind :=
  resolveRenderer R { codeName := o.codeName, path := attrPathOf d, name := d.name.getD [], typeName := typeName d,
                      hasAllowedValues := !isNaValue (d.atomic.bind (·.allowed_values)) }

def errorOf (R : Registry) (o : FormOpts) (st : FormState ν γ) (d : AttributeDef ν) : Option (ValidationError ν) :=
  if typeName d = .unionGroup then
    if ((selection st d).getD []).isEmpty ∧ isOptional d = false then some { path := attrPathOf d, code := .REQUIRED } else none
  else if typeName d = .customProtobuf then none
  else if rendererOf R o d = .hidden then none
  else validateAttr d (st.values (attrPathOf d))

def collectErrors (R : Registry) (o : FormOpts) (tree : List (AttrTreeNode ν)) (st : FormState ν γ) : List (ValidationError ν) :=
  (checked R o tree st).filterMap (errorOf R o st)

end Web.AttributeForm
