import Privahub.Lib.WholeNumber
import Privahub.Web.AttributeForm
import Mathlib.Data.List.Induction

/-!
# Forms without errors and finished nodes

What the check of a form guarantees for the node it is stored as. `finished_iff`: where no error is reported, the node is finished if and only if each
required attribute that is stored is `Covered`: it is checked and its value has no field but that of its type, or the field has something in it
all the same.
-/

namespace Web.Finished

open ComponentConfig AttributeForm

variable {ν γ : Type} [JsNumber ν]

def Holds (v : AttributeValue ν) : ValueField → Prop
  | .f => ∃ n, v.f = some n ∧ JsNumber.isNaN n = false
  | .i64 => ∃ n, v.i64 = some n ∧ JsNumber.isNaN n = false
  | .s => v.s.getD [] ≠ []
  | .b => v.b.isSome = true
  | .fs => v.fs.getD [] ≠ []
  | .i64s => v.i64s.getD [] ≠ []
  | .ss => emptyList v.ss = false ∨ (v.ss = none ∧ v.s.getD [] ≠ [])
  | .bs => v.bs.getD [] ≠ []

def only (v : AttributeValue ν) : ValueField → AttributeValue ν
  | .f => { f := v.f, is_na := v.is_na }
  | .i64 => { i64 := v.i64, is_na := v.is_na }
  | .s => { s := v.s, is_na := v.is_na }
  | .b => { b := v.b, is_na := v.is_na }
  | .fs => { fs := v.fs, is_na := v.is_na }
  | .i64s => { i64s := v.i64s, is_na := v.is_na }
  | .ss => { ss := v.ss, is_na := v.is_na }
  | .bs => { bs := v.bs, is_na := v.is_na }

/-- The value has no field but that of the type; where a type has none, no number of its own. -/
def Plain (v : AttributeValue ν) : Option ValueField → Prop
  | some .ss => v = only v .ss ∨ v = only v .s
  | some key => v = only v key
  | none => v.f = none ∧ v.i64 = none

def Filled (v : AttributeValue ν) : Option ValueField → Prop
  | some key => Holds v key
  | none => isNaValue (some (normalizeAttrValue (spread v))) = false

section
attribute [local simp] leafEntry fieldOrText isEmptyField normalizeAttrValue isNaValue Holds

theorem leafEntry_filled (key : ValueField) (value : Option (AttributeValue ν)) :
    isNaValue (some (normalizeAttrValue (leafEntry key value))) = false ↔ ∃ v, value = some v ∧ Holds v key := by
  cases value with
  | none => cases key <;> simp
  | some v =>
    cases key with
    | f => cases hf : v.f <;> simp [hf]
    | i64 => cases hf : v.i64 <;> simp [hf]
    | s => cases hf : v.s <;> simp [hf, JsValue.toText]
    | b => cases hf : v.b <;> simp [hf]
    | fs => cases hf : v.fs <;> simp [hf]
    | i64s => cases hf : v.i64s <;> simp [hf]
    | bs => cases hf : v.bs <;> simp [hf]
    | ss =>
      cases hf : v.ss with
      | some l => cases l <;> simp [fieldOrText_some hf, -fieldOrText, hf]
      | none => by_cases hs : v.s.getD [] = [] <;> simp [fieldOrText_none hf, -fieldOrText, hs, hf, readText, JsValue.toText]

theorem holds_of_only {v : AttributeValue ν} {key : ValueField} (hna : isNaValue (some v) = false) (honly : v = only v key)
    (hnum : key = .f ∨ key = .i64 → ∀ n, scalarNumber (some v) = some n → JsNumber.isNaN n = false) : Holds v key := by
  have hna' := honly ▸ hna
  cases key with
  | f =>
    obtain ⟨n, hn⟩ : ∃ n, v.f = some n := by cases hf : v.f <;> simp [only, hf] at hna' ⊢
    have hi : v.i64 = none := congrArg AttributeValue.i64 honly
    exact ⟨n, hn, hnum (Or.inl rfl) n (by simp [scalarNumber, hi, hn])⟩
  | i64 =>
    obtain ⟨n, hn⟩ : ∃ n, v.i64 = some n := by cases hi : v.i64 <;> simp [only, hi] at hna' ⊢
    exact ⟨n, hn, hnum (Or.inr rfl) n (by simp [scalarNumber, hn])⟩
  | ss =>
    simp only [only] at hna'
    simp at hna'
    exact Or.inl hna'.2
  | _ =>
    simp [only] at hna' ⊢
    exact hna'.2

theorem holds_of_text {v : AttributeValue ν} (hna : isNaValue (some v) = false) (honly : v = only v .s) : Holds v .ss := by
  have hs : Holds v .s := holds_of_only hna honly fun h => h.elim (fun h => absurd h (by decide)) fun h => absurd h (by decide)
  exact Or.inr ⟨congrArg AttributeValue.ss honly, hs⟩

theorem spread_filled {v : AttributeValue ν} (hna : isNaValue (some v) = false) (hplain : Plain v none) : Filled v none := by
  obtain ⟨hf, hi⟩ := hplain
  rw [Filled, normalize_spread]
  cases hfs : v.fs <;> cases his : v.i64s <;> simpa [hf, hi, hfs, his] using hna

end

section
variable {d : AttributeDef ν} {value : Option (AttributeValue ν)} {v : AttributeValue ν}

theorem columns_held (hcol : isColumnType (typeName d) = true) (hreq : isRequired d = true) (hcheck : checkColumns d value = none) :
    listOf value ≠ [] := by
  intro hnil
  have htype : ¬ (typeName d = .structGroup ∨ typeName d = .unionGroup ∨ typeName d = .unspecified) := by
    rintro (h | h | h) <;> rw [h] at hcol <;> exact absurd hcol (by decide)
  have hmin : JsNumber.lt (JsNumber.ofNat 0) (d.col_min_cnt_inclusive.getD (JsNumber.ofNat 0)) = true := by
    rw [isRequired, if_neg htype, if_pos hcol] at hreq
    exact hreq
  rw [checkColumns, hnil] at hcheck
  simp [hmin] at hcheck

theorem listOf_texts (hlist : listOf (some v) ≠ []) (hplain : Plain v (some .ss)) : Holds v .ss := by
  rcases hplain with h | h
  · rw [h] at hlist
    cases hss : v.ss with
    | none => simp [listOf, anyList, only, hss] at hlist
    | some l =>
      refine Or.inl ?_
      rw [hss]
      simpa [listOf, anyList, only, hss] using hlist
  · rw [h] at hlist
    exact absurd (by simp [listOf, anyList, only]) hlist

theorem value_held (hstruct : typeName d ≠ .structGroup) (hcol : isColumnType (typeName d) = false) (hunion : typeName d ≠ .unionGroup)
    (hunspec : typeName d ≠ .unspecified) (hopt : isOptional d = false) (hcheck : validateAttr d value = none) : isNaValue value = false := by
  by_contra hna
  rw [Bool.not_eq_false] at hna
  unfold validateAttr at hcheck
  simp [hstruct, hcol, hunion, hunspec, hopt, hna] at hcheck

theorem numeric_of_key {t : AttrTypeName} {key : ValueField} (h : TYPES_MAP t = some key) (hkey : key = .f ∨ key = .i64) : t = .int ∨ t = .float := by
  rcases hkey with rfl | rfl <;> cases t <;> first | exact Or.inl rfl | exact Or.inr rfl | exact absurd h (by simp [TYPES_MAP])

theorem number_held (hnum : typeName d = .int ∨ typeName d = .float) (hcheck : validateAttr d value = none) (hna : isNaValue value = false) {n : ν}
    (hn : scalarNumber value = some n) : JsNumber.isNaN n = false := by
  by_contra hnan
  rw [Bool.not_eq_false] at hnan
  unfold validateAttr at hcheck
  rcases hnum with h | h <;> simp [h, hna, hn, hnan, isColumnType] at hcheck

theorem filled_of_valid (hreq : isRequired d = true) (hcheck : validateAttr d value = none)
    (hplain : ∀ v, value = some v → Plain v (TYPES_MAP (typeName d))) : ∃ v, value = some v ∧ Filled v (TYPES_MAP (typeName d)) := by
  have htype : ¬ (typeName d = .structGroup ∨ typeName d = .unionGroup ∨ typeName d = .unspecified) := fun h => by
    rw [isRequired, if_pos h] at hreq
    exact Bool.noConfusion hreq
  rw [not_or, not_or] at htype
  obtain ⟨hstruct, hunion, hunspec⟩ := htype
  by_cases hcol : isColumnType (typeName d) = true
  · have hlist : listOf value ≠ [] := by
      refine columns_held hcol hreq ?_
      unfold validateAttr at hcheck
      simpa [hstruct, hunspec, hcol] using hcheck
    cases value with
    | none => exact absurd rfl hlist
    | some v =>
      have hkey : TYPES_MAP (typeName d) = some .ss := by
        simp only [isColumnType, decide_eq_true_eq] at hcol
        rcases hcol with h | h <;> rw [h] <;> rfl
      rw [hkey] at hplain ⊢
      exact ⟨v, rfl, listOf_texts hlist (hplain v rfl)⟩
  · rw [Bool.not_eq_true] at hcol
    have hopt : isOptional d = false := by
      simp [isRequired, hstruct, hunion, hunspec, hcol] at hreq
      exact hreq.1
    have hna := value_held hstruct hcol hunion hunspec hopt hcheck
    cases value with
    | none => exact absurd hna (by simp [isNaValue])
    | some v =>
      refine ⟨v, rfl, ?_⟩
      have hp := hplain v rfl
      cases hkey : TYPES_MAP (typeName d) with
      | none => exact spread_filled hna (hkey ▸ hp)
      | some key =>
        rw [hkey] at hp
        have hnum : key = .f ∨ key = .i64 → ∀ n, scalarNumber (some v) = some n → JsNumber.isNaN n = false := fun h _ hn =>
          number_held (numeric_of_key hkey h) hcheck hna hn
        cases key with
        | ss => exact hp.elim (fun h => holds_of_only hna h hnum) fun h => holds_of_text hna h
        | _ => exact holds_of_only hna hp hnum

end

theorem valueMap_mem {out : List (Bytes × RawAttr ν)} {p : Bytes} (hp : p ≠ []) (hmem : p ∈ out.map Prod.fst) :
    ∃ e, (p, e) ∈ out ∧ nodeDefToValueMap (some (ofPairs out)) p = some (normalizeAttrValue e) := by
  rw [nodeDefToValueMap, pairsOf_ofPairs, List.foldl_map]
  induction out using List.reverseRecOn with
  | nil => exact absurd hmem List.not_mem_nil
  | append_singleton out q ih =>
    rw [List.foldl_append, List.foldl_cons, List.foldl_nil]
    by_cases hq : q.1 = p
    · refine ⟨q.2, List.mem_append_right _ (List.mem_singleton.2 (Prod.ext hq.symm rfl)), ?_⟩
      rw [if_pos ⟨hq, hp⟩]
      rfl
    · have hmem' : p ∈ out.map Prod.fst := by simpa [Ne.symm hq] using hmem
      obtain ⟨e, he, hval⟩ := ih hmem'
      exact ⟨e, List.mem_append_left _ he, by rw [if_neg fun h => hq h.1, hval]⟩

theorem isConfigFinished_iff {out : List (Bytes × RawAttr ν)} {defs : List (AttributeDef ν)} :
    isConfigFinished (some (ofPairs out)) defs = true ↔ ∀ d ∈ defs, isRequired d = true → attrPathOf d ∈ out.map Prod.fst →
      isNaValue (nodeDefToValueMap (some (ofPairs out)) (attrPathOf d)) = false := by
  have hall : isConfigFinished (some (ofPairs out)) defs = (defs.filter isRequired).all fun d =>
      !(out.map Prod.fst).contains (attrPathOf d) || !isNaValue (nodeDefToValueMap (some (ofPairs out)) (attrPathOf d)) := by
    cases hreq : defs.filter isRequired <;> simp [isConfigFinished, ofPairs, hreq]
  simp [hall, imp_iff_not_or]

variable {R : Registry} {registry : Bytes → Option (CustomSerializer ν γ)} {o : FormOpts} {nodeDef : Option (NodeDef ν)}
  {defs : List (AttributeDef ν)} {st : FormState ν γ} {n : AttributeDef ν}

def EntryFilled (registry : Bytes → Option (CustomSerializer ν γ)) (nodeDef : Option (NodeDef ν)) (st : FormState ν γ)
    (n : AttributeDef ν) : Prop :=
  if typeName n = .unionGroup then selected st n ≠ []
  else if typeName n = .customProtobuf then ∀ e, customEntry registry nodeDef st n = some e → isNaValue (some (normalizeAttrValue e)) = false
  else ∃ v, st.values (attrPathOf n) = some v ∧ Filled v (TYPES_MAP (typeName n))

theorem entryFilled_iff : EntryFilled registry nodeDef st n ↔
    ∀ e, entryOf registry nodeDef st n = some e → isNaValue (some (normalizeAttrValue e)) = false := by
  unfold EntryFilled entryOf valueEntry
  by_cases hunion : typeName n = .unionGroup
  · rw [if_pos hunion, if_neg (by rw [hunion]; decide), if_pos hunion, ← selected]
    by_cases hs : selected st n = [] <;> simp [unionEntry, hs, normalizeAttrValue, isNaValue, JsValue.toText]
  · rw [if_neg hunion, if_neg hunion]
    by_cases hcustom : typeName n = .customProtobuf
    · rw [if_pos hcustom, if_pos hcustom]
    · rw [if_neg hcustom, if_neg hcustom]
      cases hkey : TYPES_MAP (typeName n) with
      | some key => simpa [Filled] using (leafEntry_filled key (st.values (attrPathOf n))).symm
      | none => cases st.values (attrPathOf n) <;> simp [Filled, normalizeAttrValue, isNaValue]

/-- The attribute is checked as it is defined and its value has no field but that of its type, or it is not empty all the same. -/
def Covered (R : Registry) (registry : Bytes → Option (CustomSerializer ν γ)) (o : FormOpts) (nodeDef : Option (NodeDef ν))
    (tree : List (AttrTreeNode ν)) (st : FormState ν γ) (d n : AttributeDef ν) : Prop :=
  (n = d ∧ n ∈ checked R o tree st ∧ rendererOf R o n ≠ .hidden ∧
      ∀ v, st.values (attrPathOf n) = some v → Plain v (TYPES_MAP (typeName n))) ∨
    EntryFilled registry nodeDef st n

theorem covered_filled {d : AttributeDef ν} {tree : List (AttrTreeNode ν)} (herrors : collectErrors R o tree st = []) (hreq : isRequired d = true)
    (h : Covered R registry o nodeDef tree st d n) : EntryFilled registry nodeDef st n := by
  rcases h with ⟨rfl, hchecked, hrenderer, hplain⟩ | h
  · have hunion : typeName n ≠ .unionGroup := fun h => by simp [isRequired, h] at hreq
    have hcustom : typeName n ≠ .customProtobuf := fun h => by simp [isRequired, h, isColumnType] at hreq
    have hvalid : validateAttr n (st.values (attrPathOf n)) = none := by
      have herr := List.filterMap_eq_nil_iff.1 herrors n hchecked
      rwa [errorOf, if_neg hunion, if_neg hcustom, if_neg hrenderer] at herr
    rw [EntryFilled, if_neg hunion, if_neg hcustom]
    exact filled_of_valid hreq hvalid hplain
  · exact h

theorem finished_iff (herrors : collectErrors R o (buildAttrTree defs) st = []) :
    isConfigFinished (some (serializeState R registry o nodeDef (buildAttrTree defs) st)) defs = true ↔
      ∀ d ∈ defs, isRequired d = true → ∀ n ∈ stored R o (buildAttrTree defs) st, attrPathOf n = attrPathOf d →
        Covered R registry o nodeDef (buildAttrTree defs) st d n := by
  refine isConfigFinished_iff.trans ⟨fun h d hd hreq n hn hpath => ?_, fun h d hd hreq hmem => ?_⟩
  · refine Or.inr (entryFilled_iff.2 fun e he => ?_)
    have hmem : (attrPathOf n, e) ∈ entries R registry o nodeDef (buildAttrTree defs) st := mem_entries.2 ⟨n, hn, rfl, he⟩
    have hp : attrPathOf d ∈ (entries R registry o nodeDef (buildAttrTree defs) st).map Prod.fst := hpath ▸ List.mem_map_of_mem hmem
    obtain ⟨e', he', hval⟩ := valueMap_mem (hpath ▸ (path_ne hn)) hp
    obtain ⟨m, hm, hpm, hem⟩ := mem_entries.1 he'
    obtain rfl := stored_eq hn hm (hpath.trans hpm.symm)
    obtain rfl := Option.some.inj (he.symm.trans hem)
    have hna := h d hd hreq hp
    rwa [hval] at hna
  · obtain ⟨q, hq, hpq⟩ := List.mem_map.1 hmem
    obtain ⟨n, hn, hpath, -⟩ := mem_entries.1 hq
    obtain ⟨e, he, hval⟩ := valueMap_mem (hpq ▸ hpath ▸ path_ne hn) hmem
    obtain ⟨m, hm, hpm, hem⟩ := mem_entries.1 he
    rw [hval]
    exact entryFilled_iff.1 (covered_filled herrors hreq (h d hd hreq m hm hpm)) e hem

def stratify : List Bytes := [str "sample_algorithm", str "stratify"]

def sampleDefs : List (AttributeDef WholeNumber) :=
  [{ name := some (str "sample_algorithm"), type := .text (str "AT_UNION_GROUP"), union := some { default_selection := some (str "random") } },
    { prefixes := some [str "sample_algorithm"], name := some (str "stratify"), type := .text (str "AT_STRUCT_GROUP") },
    { prefixes := some stratify, name := some (str "replacements"), type := .text (str "AT_BOOLS"),
      atomic := some { list_max_length_inclusive := some (some (-1)) } },
    { prefixes := some stratify, name := some (str "quantiles"), type := .text (str "AT_FLOATS"),
      atomic := some { list_min_length_inclusive := some (some 1), list_max_length_inclusive := some (some 1000) } }]

def sampleOpts : FormOpts := { codeName := some (str "data_filter/sample") }

def sampleForm : FormState WholeNumber (JsValue WholeNumber) where
  values p :=
    if p = str "sample_algorithm" then some { s := some (str "stratify"), is_na := some false }
    else if p = str "sample_algorithm/stratify/quantiles" then some { fs := some [some 5], is_na := some false }
    else none
  custom _ := none

theorem finished_iff_sample :
    isConfigFinished (some (serializeState initialRegistry (fun _ => none) sampleOpts none (buildAttrTree sampleDefs) sampleForm)) sampleDefs = true ↔
      ∀ d ∈ sampleDefs, isRequired d = true → ∀ n ∈ stored initialRegistry sampleOpts (buildAttrTree sampleDefs) sampleForm,
        attrPathOf n = attrPathOf d → Covered initialRegistry (fun _ => none) sampleOpts none (buildAttrTree sampleDefs) sampleForm d n :=
  finished_iff rfl

def countDefs : List (AttributeDef WholeNumber) := [{ name := some (str "n"), type := .text (str "AT_INT") }]

def countForm : FormState WholeNumber (JsValue WholeNumber) where
  values p := if p = str "n" then some { f := some (some 5), is_na := some false } else none
  custom _ := none

/-- Two forms without an error that are stored as unfinished nodes. -/
theorem valid_unfinished :
    (collectErrors initialRegistry sampleOpts (buildAttrTree sampleDefs) sampleForm = [] ∧
      isConfigFinished (some (serializeState initialRegistry (fun _ => none) sampleOpts none (buildAttrTree sampleDefs) sampleForm)) sampleDefs =
        false) ∧
    collectErrors initialRegistry {} (buildAttrTree countDefs) countForm = [] ∧
      isConfigFinished (some (serializeState initialRegistry (fun _ => none) {} none (buildAttrTree countDefs) countForm)) countDefs = false :=
  ⟨⟨rfl, rfl⟩, rfl, rfl⟩

end Web.Finished
