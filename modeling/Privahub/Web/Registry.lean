import Privahub.Web.Lossless

/-!
# The registry of serializers

What the JSON texts of bins and models hold (`written_binning`, `written_linear`) and what a registered class loses on the way to an attribute and
back: nothing of what `Stored` and `Held` describe, but for the keys of rows (`serializers_lossless`).
-/

namespace Web.Serializers

open Json JsJson

section
variable {ν : Type} [JsNumber ν] {v : StringOrNumber ν}

theorem written_bound (h : BoundOk v) : Written bound? 0 v.toJson v := by
  cases v with
  | string s =>
    have hs : Utf8.validString s = true := by rcases h with rfl | rfl <;> decide
    exact ⟨(spells_escape hs).strLit, le_rfl,
      congrArg (fun s => some (StringOrNumber.string s)) (spells_escape hs).unquote_eq⟩
  | number n =>
    have hn := written_number h
    refine ⟨hn.wf, hn.depth, ?_⟩
    show bound? (ofNumber n) = _
    rw [ofNumber, if_pos h.lit]
    exact congrArg (fun n => some (StringOrNumber.number n)) h.back

theorem written_bin {b : RawBin ν} {ms : List (Bytes × Option Json)} (hn : Names (ms.map Prod.fst))
    (hms : ∀ m, m ∈ ms ↔ m ∈ b.members) (hl : BoundOk b.leftBound) (hr : BoundOk b.rightBound)
    (hf : ∀ n ∈ b.fillingValue, Sent n) (hc : ∀ n ∈ b.totalCount, Sent n) :
    Written bin? 1 (ofMembers ms) b := by
  have hmark : ∀ x ∈ b.markForMerge, Written bool? 0 (.bool x) x := fun x _ => written_bool x
  have hfilling : ∀ n ∈ b.fillingValue, Written number? 0 (ofNumber n) n := fun n h => written_number (hf n h)
  have hcount : ∀ n ∈ b.totalCount, Written number? 0 (ofNumber n) n := fun n h => written_number (hc n h)
  have hall : ∀ m ∈ b.members, ∀ x ∈ m.2, Wf x ∧ x.depth ≤ 0 := by
    simp only [RawBin.members, List.forall_mem_cons]
    exact ⟨wf_optional hmark, wf_some (written_bound hl), wf_some (written_bound hr), wf_optional hfilling, wf_optional hcount, nofun⟩
  refine written_members hn (fun m hm => hall m ((hms m).1 hm)) fun v hv => ?_
  have hmember : ∀ m ∈ b.members, member? m.1 v = m.2 := fun m hm => hv m ((hms m).2 hm)
  simp only [RawBin.members, List.forall_mem_cons] at hmember
  obtain ⟨h1, h2, h3, h4, h5, -⟩ := hmember
  rw [bin?, h1, h2, h3, h4, h5, read_optional hmark, read_optional hfilling, read_optional hcount, Option.bind_some, Option.bind_some,
    (written_bound hl).read, (written_bound hr).read]
  rfl

theorem written_record {r : RawRecord ν} (hsent : Sent (JsNumber.ofNat 0 : ν)) (h : StoredRecord r) : Written record? 3 (ofMembers r.members) r := by
  obtain ⟨e, he, helse⟩ := h.last
  have htexts := h.texts
  simp only [List.forall_mem_cons] at htexts
  obtain ⟨hfeature, htype, hparty, -⟩ := htexts
  have hn : Names (r.members.map Prod.fst) := by
    show Names [str "iv", str "isWoe", str "featureName", str "featureType", str "validBinCount", str "partyName", str "elseBin", str "validBins"]
    decide
  have hiv : ∀ n ∈ r.iv, Written number? 2 (ofNumber n) n := fun n hv => (written_number (h.numbers.2 n hv)).mono (Nat.zero_le _)
  have helseBin : ∀ b ∈ r.elseBin, Written bin? 2 (ofMembers b.elseMembers) b := by
    intro b hb
    obtain rfl := Option.some.inj (he.symm.trans hb)
    obtain ⟨n, hn, hsn⟩ := helse.count
    have hzero : BoundOk (.number (JsNumber.ofNat 0) : StringOrNumber ν) := hsent
    refine (written_bin
      (by show Names [str "fillingValue", str "totalCount", str "leftBound", str "rightBound", str "markForMerge"]; decide) (fun m => ?_)
      (helse.left ▸ hzero) (helse.right ▸ hzero) helse.filling fun x hx => ?_).mono (by decide)
    · simp only [RawBin.elseMembers, RawBin.members, List.mem_cons]
      tauto
    · obtain rfl := Option.some.inj (hn.symm.trans hx)
      exact hsn
  have hvalid : Written (list? bin?) 2 (.arr (r.validBins.map fun b => ofMembers b.members)) r.validBins := by
    have hbins : ∀ b ∈ r.validBins, Written bin? 1 (ofMembers b.members) b := by
      intro b hb
      obtain ⟨n, hn, hsn⟩ := (h.valid b hb).count
      refine written_bin
        (by show Names [str "markForMerge", str "leftBound", str "rightBound", str "fillingValue", str "totalCount"]; decide)
        (fun m => Iff.rfl) (h.valid b hb).bounds.left (h.valid b hb).bounds.right (h.valid b hb).filling fun x hx => ?_
      obtain rfl := Option.some.inj (hn.symm.trans hx)
      exact hsn
    simpa using written_list (f := fun b => b) hbins
  have hwoe := (written_bool r.isWoe).mono (Nat.zero_le 2)
  have hcount := (written_number h.numbers.1).mono (Nat.zero_le 2)
  have hf := (written_text hfeature).mono (Nat.zero_le 2)
  have ht := (written_text htype).mono (Nat.zero_le 2)
  have hp := (written_text hparty).mono (Nat.zero_le 2)
  have hall : ∀ m ∈ r.members, ∀ x ∈ m.2, Wf x ∧ x.depth ≤ 2 := by
    simp only [RawRecord.members, List.forall_mem_cons]
    exact ⟨wf_optional hiv, wf_some hwoe, wf_some hf, wf_some ht, wf_some hcount, wf_some hp, wf_optional helseBin, wf_some hvalid, List.forall_mem_nil _⟩
  refine written_members hn hall fun v hmember => ?_
  simp only [RawRecord.members, List.forall_mem_cons] at hmember
  obtain ⟨h1, h2, h3, h4, h5, h6, h7, h8, -⟩ := hmember
  rw [record?, h1, h2, h3, h4, h5, h6, h7, h8, read_optional hiv, read_optional helseBin]
  simp only [Option.bind_some, hf.read, hcount.read, ht.read, hvalid.read, hwoe.read, hp.read]
  rfl

/-- What is stored of bins: a text, and records if there are any. -/
def StoredBinning (d : Binning (RawRecord ν)) : Prop :=
  Utf8.validString d.modelHash = true ∧ ∀ rs ∈ d.variableBins, ∀ r ∈ rs, StoredRecord r

theorem written_binning {d : Binning (RawRecord ν)} (hsent : Sent (JsNumber.ofNat 0 : ν)) (h : StoredBinning d) :
    Written binning? 5 (ofMembers d.members) d := by
  have hn : Names (d.members.map Prod.fst) := by
    show Names [str "modelHash", str "variableBins"]
    decide
  have hhash := (written_text h.1).mono (Nat.zero_le 4)
  have hrecords := written_lists fun rs hrs r hr => written_record hsent (h.2 rs hrs r hr)
  have hall : ∀ m ∈ d.members, ∀ x ∈ m.2, Wf x ∧ x.depth ≤ 4 := by
    simp only [Binning.members, List.forall_mem_cons]
    exact ⟨wf_some hhash, wf_optional hrecords, nofun⟩
  refine written_members hn hall fun v hmember => ?_
  simp only [Binning.members, List.forall_mem_cons] at hmember
  obtain ⟨h1, h2, -⟩ := hmember
  rw [binning?, h1, h2, read_optional hrecords, Option.bind_some, hhash.read]
  rfl

/-- What is stored of a model has no keys. -/
structure StoredLinear (d : LinearModelData ν) : Prop where
  hash : Utf8.validString d.modelHash = true
  bias : Sent d.bias
  weights : ∀ ws ∈ d.featureWeights, ∀ w ∈ ws,
    w.key = none ∧ Utf8.validString w.featureName = true ∧ Utf8.validString w.party = true ∧ Sent w.featureWeight

theorem written_linear {d : LinearModelData ν} (h : StoredLinear d) : Written linear? 3 (ofMembers d.members) d := by
  have hn : Names (d.members.map Prod.fst) := by
    show Names [str "modelHash", str "featureWeights", str "bias"]
    decide
  have hhash := (written_text h.hash).mono (Nat.zero_le 2)
  have hbias := (written_number h.bias).mono (Nat.zero_le 2)
  have hdata : ∀ ws ∈ d.featureWeights, ∀ w ∈ ws, Written datum? 1 (ofMembers w.members) w := by
    intro ws hws w hw
    obtain ⟨hkey, hname, hparty, hweight⟩ := h.weights ws hws w hw
    have hn : Names (w.members.map Prod.fst) := by
      show Names [str "featureName", str "party", str "featureWeight"]
      decide
    have hall : ∀ m ∈ w.members, ∀ x ∈ m.2, Wf x ∧ x.depth ≤ 0 := by
      simp only [LinearModelDatum.members, List.forall_mem_cons]
      exact ⟨wf_some (written_text hname), wf_some (written_text hparty), wf_some (written_number hweight), nofun⟩
    refine written_members hn hall fun v hmember => ?_
    simp only [LinearModelDatum.members, List.forall_mem_cons] at hmember
    obtain ⟨h1, h2, h3, -⟩ := hmember
    rw [datum?, h1, h2, h3]
    simp only [Option.bind_some, (written_text hname).read, (written_text hparty).read, (written_number hweight).read]
    rw [← hkey]
    rfl
  have hweights := written_lists hdata
  have hall : ∀ m ∈ d.members, ∀ x ∈ m.2, Wf x ∧ x.depth ≤ 2 := by
    simp only [LinearModelData.members, List.forall_mem_cons]
    exact ⟨wf_some hhash, wf_optional hweights, wf_some hbias, nofun⟩
  refine written_members hn hall fun v hmember => ?_
  simp only [LinearModelData.members, List.forall_mem_cons] at hmember
  obtain ⟨h1, h2, h3, -⟩ := hmember
  rw [linear?, h1, h2, h3, read_optional hweights]
  simp only [Option.bind_some, hhash.read, hbias.read]
  rfl

def HeldBinning (d : Binning (BinningFormRecord ν)) : Prop :=
  Utf8.validString d.modelHash = true ∧ ∀ rs ∈ d.variableBins, ∀ r ∈ rs, HeldRecord r

def Binning.renew (d : Binning (BinningFormRecord ν)) : Binning (BinningFormRecord ν) :=
  { d with variableBins := d.variableBins.map (·.map BinningFormRecord.renew) }

structure HeldLinear (d : LinearModelData ν) : Prop where
  hash : Utf8.validString d.modelHash = true
  bias : Sent d.bias
  weights : ∀ ws ∈ d.featureWeights, ∀ w ∈ ws,
    Utf8.validString w.featureName = true ∧ Utf8.validString w.party = true ∧ Sent w.featureWeight

/-- The weights with the keys that they are read with. -/
def LinearModelData.renew (d : LinearModelData ν) : LinearModelData ν :=
  { d with featureWeights := d.featureWeights.map (·.map fun w => { w with key := some (w.featureName ++ 45 :: w.party) }) }

theorem convert_revertBinning (hzero : JsNumber.isZero (JsNumber.ofNat 0 : ν) = true) {d : Binning (RawRecord ν)} (h : StoredBinning d) :
    binModificationsSerializer (binModificationsUnSerializer d) = some d := by
  obtain ⟨hash, records⟩ := d
  cases records with
  | none => rfl
  | some rs =>
    have hrs : (rs.map revertRecord).mapM convertRecord = some rs := by
      have hall := h.2 rs rfl
      clear h
      induction rs with
      | nil => rfl
      | cons r rs ih =>
        obtain ⟨hr, hrs⟩ := List.forall_mem_cons.1 hall
        rw [List.map_cons, List.mapM_cons, convert_revertRecord hzero hr, ih hrs]
        rfl
    show Option.map _ (List.mapM convertRecord (rs.map revertRecord)) = _
    rw [hrs]
    rfl

theorem revert_convertBinning (hzero : JsNumber.isZero (JsNumber.ofNat 0 : ν) = true) {d : Binning (BinningFormRecord ν)} (h : HeldBinning d) :
    ∃ raw, binModificationsSerializer d = some raw ∧ StoredBinning raw ∧ binModificationsUnSerializer raw = d.renew := by
  obtain ⟨hash, records⟩ := d
  cases records with
  | none => exact ⟨⟨hash, none⟩, rfl, ⟨h.1, nofun⟩, rfl⟩
  | some rs =>
    obtain ⟨raws, hmapM, hall⟩ := exists_mapM fun r hr => revert_convertRecord hzero (h.2 rs rfl r hr)
    have hback : raws.map revertRecord = rs.map BinningFormRecord.renew := by
      clear hmapM h
      induction hall with
      | nil => rfl
      | cons hr _ ih => rw [List.map_cons, List.map_cons, hr.2, ih]
    refine ⟨⟨hash, some raws⟩, ?_, ⟨h.1, ?_⟩, ?_⟩
    · show Option.map _ (List.mapM convertRecord rs) = _
      rw [hmapM]
      rfl
    · rintro _ ⟨⟩ raw hraw
      obtain ⟨_, _, hstored, -⟩ := hall.exists_left raw hraw
      exact hstored
    · show Binning.mk hash (some (raws.map revertRecord)) = _
      rw [hback]
      rfl

theorem convert_revertLinear {d : LinearModelData ν} (h : StoredLinear d) :
    modelModificationsSerializer (modelModificationsUnSerializer d) = d := by
  obtain ⟨hash, weights, bias⟩ := d
  cases weights with
  | none => rfl
  | some ws =>
    have hws : ∀ w ∈ ws, w.key = none := fun w hw => (h.weights ws rfl w hw).1
    show LinearModelData.mk hash (some ((ws.map _).map _)) bias = _
    rw [List.map_map]
    refine congrArg (fun ws => LinearModelData.mk hash (some ws) bias) ((List.map_congr_left fun w hw => ?_).trans (List.map_id ws))
    exact congrArg (fun k => { w with key := k }) (hws w hw).symm

theorem stored_of_held {d : LinearModelData ν} (h : HeldLinear d) : StoredLinear (modelModificationsSerializer d) where
  hash := h.hash
  bias := h.bias
  weights := by
    rintro ws hws w hw
    obtain ⟨as, has, rfl⟩ := Option.map_eq_some_iff.1 hws
    obtain ⟨a, ha, rfl⟩ := List.mem_map.1 hw
    exact ⟨rfl, h.weights as has a ha⟩

end

theorem revert_convertLinear {ν : Type} (d : LinearModelData ν) : modelModificationsUnSerializer (modelModificationsSerializer d) = d.renew := by
  obtain ⟨hash, weights, bias⟩ := d
  cases weights with
  | none => rfl
  | some ws =>
    show LinearModelData.mk hash (some ((ws.map _).map _)) bias = _
    rw [List.map_map]
    rfl

/-- A class gives back what an attribute of it holds, and what its editor holds but for what is made anew. -/
structure Lossless {σ φ β : Type} (s : CustomSerializer σ φ) (clsName : Bytes) (content : σ → Option β) (Stored : β → Prop)
    (Held : φ → Prop) (renewed : φ → φ) : Prop where
  stored : ∀ a b, content a = some b → Stored b → ∃ a', s.serializer (s.unserializer (some a)) clsName = some a' ∧ content a' = some b
  held : ∀ f, Held f → ∃ a, s.serializer f clsName = some a ∧ s.unserializer (some a) = renewed f

/-- What an attribute holds for its class. -/
def CustomAttr.value {α : Type} (clsName : Bytes) (a : CustomAttr α) : Option α :=
  if a.custom_protobuf_cls = some clsName then a.custom_value else none

section
variable {φ β : Type} {clsName : Bytes} {Stored : β → Prop} {Held : φ → Prop}

theorem lossless_custom (store : φ → β) (load : β → φ) (un : Option (CustomAttr β) → φ)
    (hun : ∀ b cls, un (some ⟨some b, cls⟩) = load b)
    (hstored : ∀ b, Stored b → store (load b) = b) (hheld : ∀ f, Held f → load (store f) = f) :
    Lossless ⟨fun f cls => some ⟨some (store f), some cls⟩, un⟩ clsName (CustomAttr.value clsName) Stored Held id where
  stored := by
    rintro ⟨value, cls⟩ b hb hs
    unfold CustomAttr.value at hb
    split_ifs at hb with hcls
    obtain rfl : value = some b := hb
    refine ⟨_, rfl, ?_⟩
    show CustomAttr.value clsName ⟨some (store (un (some ⟨some b, cls⟩))), some clsName⟩ = _
    rw [hun, hstored b hs]
    exact if_pos rfl
  held := fun f hf => ⟨_, rfl, (hun _ _).trans (hheld f hf)⟩

theorem lossless_json {ser : φ → Option β} {members : β → List (Bytes × Option Json)} {unser : β → φ} {read : Json → Option β}
    {renew : φ → φ} {k : Nat} (hk : k ≤ maxNestingDepth) (hwritten : ∀ b, Stored b → Written read k (ofMembers (members b)) b)
    (hstored : ∀ b, Stored b → ser (unser b) = some b) (hheld : ∀ f, Held f → ∃ b, ser f = some b ∧ Stored b ∧ unser b = renew f) :
    Lossless (jsonStringSerializer ser members unser read) clsName (fun a => a.s.bind (parseAs read)) Stored (fun f => ∃ x ∈ f, Held x)
      (Option.map renew) where
  stored := by
    intro a b hb hs
    have hparse : parseAs read (render (ofMembers (members b))) = some b := (hwritten b hs).parse hk
    refine ⟨⟨some (render (ofMembers (members b)))⟩, ?_, hparse⟩
    show Option.map _ (Option.bind (Option.map unser (a.s.bind (parseAs read))) ser) = _
    rw [hb, Option.map_some, Option.bind_some, hstored b hs]
    rfl
  held := by
    rintro f ⟨x, hx, hheldx⟩
    obtain rfl : f = some x := hx
    obtain ⟨b, hser, hs, hunser⟩ := hheld x hheldx
    have hparse : parseAs read (render (ofMembers (members b))) = some b := (hwritten b hs).parse hk
    refine ⟨⟨some (render (ofMembers (members b)))⟩, ?_, ?_⟩
    · show Option.map _ (ser x) = _
      rw [hser]
      rfl
    · show Option.map unser (parseAs read _) = some (renew x)
      rw [hparse, Option.map_some, hunser]
end

namespace ProtobufCls

variable (ν : Type) [JsNumber ν]

def content : (c : ProtobufCls) → c.Attr ν → Option (c.Value ν)
  | binningModifications => fun a : JsonAttr => a.s.bind (parseAs binning?)
  | linearModel => fun a : JsonAttr => a.s.bind (parseAs linear?)
  | featureColumnConfig => CustomAttr.value featureColumnConfig.name
  | caseWhenRule => CustomAttr.value caseWhenRule.name
  | calculateOpRules => CustomAttr.value calculateOpRules.name
  | groupbyAggregationConfig => CustomAttr.value groupbyAggregationConfig.name

/-- What has to be there in a stored value. -/
def Stored : (c : ProtobufCls) → c.Value ν → Prop
  | featureColumnConfig => fun _ => True
  | caseWhenRule => fun r : CaseWhen ν (CaseWhenBranch ν) => ∃ ws, r.whens = some ws ∧ ∀ w ∈ ws, StoredBranch w
  | calculateOpRules => fun r : Calculate ν ColNames => ∀ n ∈ r.newColNames, StoredNames n
  | groupbyAggregationConfig => fun _ => True
  | binningModifications => StoredBinning
  | linearModel => StoredLinear

/-- And in what an editor holds. -/
def Held : (c : ProtobufCls) → c.Form ν → Prop
  | featureColumnConfig => fun _ => True
  | caseWhenRule => fun f : CaseWhen ν (CaseWhenFormWhen ν) => ∃ ws, f.whens = some ws ∧ ∀ w ∈ ws, HeldWhen w
  | calculateOpRules => fun f : Calculate ν Bytes => ∀ s ∈ f.newColNames, HeldNames s
  | groupbyAggregationConfig => fun _ => True
  | binningModifications => fun f : Option (Binning (BinningFormRecord ν)) => ∃ d ∈ f, HeldBinning d
  | linearModel => fun f : Option (LinearModelData ν) => ∃ d ∈ f, HeldLinear d

/-- Keys of rows are made of what the rows show. -/
def renewed : (c : ProtobufCls) → c.Form ν → c.Form ν
  | binningModifications => Option.map Binning.renew
  | linearModel => Option.map LinearModelData.renew
  | featureColumnConfig => id
  | caseWhenRule => id
  | calculateOpRules => id
  | groupbyAggregationConfig => id

end ProtobufCls

theorem map_back {α : Type} {P : α → Prop} {β : Type} {f : β → α} {g : α → β} (h : ∀ a, P a → f (g a) = a) {o : Option α}
    (ho : ∀ a ∈ o, P a) :
    (o.map g).map f = o := by
  cases o with
  | none => rfl
  | some a => exact congrArg some (h a (ho a rfl))

theorem maps_back {α : Type} {P : α → Prop} {β : Type} {f : β → α} {g : α → β} (h : ∀ a, P a → f (g a) = a) {l : List α}
    (hl : ∀ a ∈ l, P a) :
    (l.map g).map f = l := by
  rw [List.map_map]
  exact (List.map_congr_left fun a ha => h a (hl a ha)).trans (List.map_id l)

/-- Every registered class gives back what is stored and what the editor holds, where nothing is missing that the other side puts in: `Stored` and `Held`
say for each class what that is. -/
theorem serializers_lossless (ν : Type) [JsNumber ν] (hzero : JsNumber.isZero (JsNumber.ofNat 0 : ν) = true) (hsent : Sent (JsNumber.ofNat 0 : ν))
    (c : ProtobufCls) :
    Lossless (customSerializerRegistry ν c) c.name (c.content ν) (c.Stored ν) (c.Held ν) (c.renewed ν) := by
  cases c with
  | featureColumnConfig => exact lossless_custom id id upstreamOutputFeatureUnserializer (fun _ _ => rfl) (fun _ _ => rfl) fun _ _ => rfl
  | caseWhenRule =>
    refine lossless_custom (fun f : CaseWhen ν (CaseWhenFormWhen ν) => { f with whens := f.whens.map (·.map convertWhen) })
      (fun r : CaseWhen ν (CaseWhenBranch ν) => { r with whens := some ((r.whens.getD []).map revertWhen) }) caseWhenUnserializer (fun _ _ => rfl) ?_ ?_
    · rintro ⟨_, _, _, _, _⟩ ⟨ws, rfl, hws⟩
      exact congrArg (fun ws => CaseWhen.mk (some ws) _ _ _ _) (maps_back (fun _ => convert_revertWhen) hws)
    · rintro ⟨_, _, _, _, _⟩ ⟨ws, rfl, hws⟩
      exact congrArg (fun ws => CaseWhen.mk (some ws) _ _ _ _) (maps_back (fun _ => revert_convertWhen) hws)
  | calculateOpRules =>
    refine lossless_custom (fun f : Calculate ν Bytes => { f with newColNames := f.newColNames.map splitNames })
      (fun r : Calculate ν ColNames => { r with newColNames := r.newColNames.map ColNames.join }) calculateUnserializer (fun _ _ => rfl) ?_ ?_
    · rintro ⟨_, _, names⟩ hnames
      exact congrArg (Calculate.mk _ _) (map_back (fun _ => split_join) hnames)
    · rintro ⟨_, _, names⟩ hnames
      exact congrArg (Calculate.mk _ _) (map_back (fun _ => join_split) hnames)
  | groupbyAggregationConfig => exact lossless_custom id id groupbyUnserializer (fun _ _ => rfl) (fun _ _ => rfl) fun _ _ => rfl
  | binningModifications =>
    exact lossless_json (by decide) (fun _ h => written_binning hsent h) (fun _ h => convert_revertBinning hzero h)
      fun _ h => revert_convertBinning hzero h
  | linearModel =>
    exact lossless_json (by decide) (fun _ h => written_linear h) (fun _ h => congrArg some (convert_revertLinear h)) fun d h =>
      ⟨_, rfl, stored_of_held h, revert_convertLinear d⟩

/-- A weight of 3, held for a model whose weights have no keys yet. -/
theorem serializers_lossless_weight :
    let data : LinearModelData WholeNumber := ⟨str "m", some [⟨none, str "f1", str "alice", some 3⟩], some 0⟩
    ∃ a, (customSerializerRegistry WholeNumber .linearModel).serializer (some data) ProtobufCls.linearModel.name = some a ∧
      (customSerializerRegistry WholeNumber .linearModel).unserializer (some a) = some data.renew := by
  have hsent : ∀ n ∈ [0, 3], Sent (some n : WholeNumber) := by
    intro n hn
    have hall : ∀ n ∈ [(0 : Int), 3], NumLit (JsNumber.text (some n : WholeNumber)) ∧
        (∀ b ∈ JsNumber.text (some n : WholeNumber), isNumeral b = true) ∧
        JsNumber.ofString (JsNumber.text (some n : WholeNumber)) = (some n : WholeNumber) := by decide +kernel
    exact ⟨(hall n hn).1, (hall n hn).2.1, (hall n hn).2.2⟩
  intro data
  refine (serializers_lossless WholeNumber (by decide) (hsent 0 (by simp)) .linearModel).held (some data)
    ⟨data, rfl, by decide, hsent 0 (by simp), ?_⟩
  rintro _ ⟨⟩ w hw
  obtain rfl := List.mem_singleton.1 hw
  exact ⟨by decide, by decide, hsent 3 (by simp)⟩

/-- An empty name is taken out of the text of new columns. -/
theorem names_rewritten :
    let s := customSerializerRegistry WholeNumber .calculateOpRules
    let f : Calculate WholeNumber Bytes := ⟨str "UNARY", none, some (str ",a")⟩
    (s.serializer f ProtobufCls.calculateOpRules.name).map (fun a => (s.unserializer (some a)).newColNames) = some (some (str "a")) := by
  decide +kernel

end Web.Serializers
