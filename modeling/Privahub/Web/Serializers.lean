import Privahub.Lib.JsJson

/-!
# Serializers of custom configurations

`custom-serializers.ts`: how the value of a form is stored in a node's attributes and read from them, for each custom protobuf class. `none` is
`undefined`. Values have the types that the file gives them, and a text that does not parse to one of these is read as nothing.
-/

namespace Web.Serializers

open Json JsJson

structure CustomAttr (α : Type) where
  custom_value : Option α
  custom_protobuf_cls : Option Bytes

/-- `string | number`. -/
inductive StringOrNumber (ν : Type) where
  | string (s : Bytes)
  | number (n : ν)

structure Feature where
  tableName : Bytes
  tableFeatures : List Bytes
  nodeName : Bytes

def upstreamOutputFeatureSerializer (val : List Feature) (clsName : Bytes) : CustomAttr (List Feature) := ⟨some val, some clsName⟩

def upstreamOutputFeatureUnserializer (val : Option (CustomAttr (List Feature))) : List Feature := (val.bind (·.custom_value)).getD []

structure CaseWhenValue (ν : Type) where
  type : Option Bytes := none
  value : Option (StringOrNumber ν) := none
  i : Option ν := none
  f : Option ν := none
  s : Option Bytes := none
  column_name : Option Bytes := none

structure CaseWhenCond (ν : Type) where
  cond_column : Option Bytes := none
  op : Option Bytes := none
  cond_value : Option (CaseWhenValue ν) := none
  connection : Option Bytes := none

structure CaseWhenFormWhen (ν : Type) where
  when : Option (CaseWhenCond ν)
  conds : Option (List (CaseWhenCond ν))
  then' : Option (CaseWhenValue ν)

/-- A stored branch. Its first condition is missing where the form has no `when`. -/
structure CaseWhenBranch (ν : Type) where
  conds : Option (List (Option (CaseWhenCond ν)))
  then' : Option (CaseWhenValue ν)
  connections : Option (List Bytes)

/-- The form, over `CaseWhenFormWhen`, and what is stored, over `CaseWhenBranch`. -/
structure CaseWhen (ν ω : Type) where
  whens : Option (List ω)
  else_value : Option (CaseWhenValue ν)
  output_column : Option Bytes
  as_label : Option Bool
  float_epsilon : Option ν

section
variable {ν : Type}

/-- `const { connection, ...rest } = cond`. -/
def CaseWhenCond.rest (c : CaseWhenCond ν) : CaseWhenCond ν := { c with connection := none }

def convertWhen (w : CaseWhenFormWhen ν) : CaseWhenBranch ν where
  conds := some (w.when :: (w.conds.getD []).map fun c => some c.rest)
  then' := w.then'
  connections := some ((w.conds.getD []).filterMap fun c => c.connection.filter (· ≠ []))

/-- Without branches the form itself is stored, which then has nothing to convert. -/
def caseWhenSerializer (val : CaseWhen ν (CaseWhenFormWhen ν)) (clsName : Bytes) : CustomAttr (CaseWhen ν (CaseWhenBranch ν)) :=
  ⟨some { val with whens := val.whens.map (·.map convertWhen) }, some clsName⟩

/-- The connections go to the conditions of the same index. -/
def connect : List Bytes → List (CaseWhenCond ν) → List (CaseWhenCond ν)
  | k :: ks, c :: cs => { c with connection := some k } :: connect ks cs
  | _, cs => cs

theorem connect_nil (cs : List (CaseWhenCond ν)) : connect [] cs = cs := by cases cs <;> rfl

def revertWhen (w : CaseWhenBranch ν) : CaseWhenFormWhen ν :=
  let conds := (w.conds.getD []).map (·.getD {})
  { when := conds.head?, conds := some (connect (w.connections.getD []) conds.tail), then' := w.then' }

def caseWhenUnserializer [JsNumber ν] (val : Option (CustomAttr (CaseWhen ν (CaseWhenBranch ν)))) : CaseWhen ν (CaseWhenFormWhen ν) :=
  let constFloat : CaseWhenValue ν := { type := some (str "CONST_FLOAT") }
  match val.bind (·.custom_value) with
  | none =>
    { whens := some [{ when := some { cond_value := some constFloat, op := some (str "EQ") }, conds := none, then' := some constFloat }]
      else_value := some constFloat, output_column := none, as_label := some false, float_epsilon := some (JsNumber.ofString (str "10e-7")) }
  | some r => { r with whens := some ((r.whens.getD []).map revertWhen) }
end

/-- An operand; `none` is `null`. -/
abbrev Operand (ν : Type) : Type := Option (StringOrNumber ν)

/-- The names of new columns are a text in the form, and in what is stored a list or the text that was not split. -/
structure Calculate (ν χ : Type) where
  op : Bytes
  operands : Option (List (Operand ν)) := none
  newColNames : Option χ := none

inductive ColNames where
  | text (s : Bytes)
  | list (l : List Bytes)

section
variable {ν : Type}

def splitNames (s : Bytes) : ColNames := if s = [] then .text s else .list ((s.splitOn 44).filter (· ≠ []))

def ColNames.join : ColNames → Bytes
  | .text s => s
  | .list l => List.intercalate [44] l

def calculateSerializer (val : Calculate ν Bytes) (clsName : Bytes) : CustomAttr (Calculate ν ColNames) :=
  ⟨some { val with newColNames := val.newColNames.map splitNames }, some clsName⟩

def calculateUnserializer (val : Option (CustomAttr (Calculate ν ColNames))) : Calculate ν Bytes :=
  match val.bind (·.custom_value) with
  | none => { op := str "STANDARDIZE" }
  | some r => { r with newColNames := r.newColNames.map ColNames.join }
end

structure ColumnQuery where
  function : Option Bytes := none
  column_name : Option Bytes := none

structure GroupByConfig where
  column_queries : Option (List ColumnQuery) := none

def groupbySerializer (val : GroupByConfig) (clsName : Bytes) : CustomAttr GroupByConfig := ⟨some val, some clsName⟩

def groupbyUnserializer : Option (CustomAttr GroupByConfig) → GroupByConfig
  | none => ⟨some [{}, {}]⟩
  | some val => val.custom_value.getD {}

structure BinFormItem (ν : Type) where
  key : Bytes
  label : Bytes
  markForMerge : Bool
  totalCount : ν
  woe : Option ν
  order : Option ν

structure BinningFormRecord (ν : Type) where
  key : Bytes
  partyName : Bytes
  feature : Bytes
  type : Bytes
  isWoe : Bool
  binCount : ν
  iv : Option ν
  bins : List (BinFormItem ν)

structure RawBin (ν : Type) where
  markForMerge : Option Bool
  leftBound : StringOrNumber ν
  rightBound : StringOrNumber ν
  fillingValue : Option ν
  totalCount : Option ν

structure RawRecord (ν : Type) where
  featureName : Bytes
  validBinCount : ν
  iv : Option ν
  featureType : Bytes
  validBins : List (RawBin ν)
  isWoe : Bool
  elseBin : Option (RawBin ν)
  partyName : Bytes

/-- `BinningFormData` over `BinningFormRecord`, and what is stored over `RawRecord`. -/
structure Binning (ρ : Type) where
  modelHash : Bytes
  variableBins : Option (List ρ)

section
variable {ν : Type} [JsNumber ν]

/-- `${v}`. -/
def StringOrNumber.text : StringOrNumber ν → Bytes
  | .string s => s
  | .number n => JsNumber.text n

/-- `v === 0`. -/
def StringOrNumber.isZero : StringOrNumber ν → Bool
  | .string _ => false
  | .number n => JsNumber.isZero n

def isInfinity (s : Bytes) : Bool := decide (str "Infinity" <:+: s)

def rightBoundBracket : StringOrNumber ν → UInt8
  | .string s => if isInfinity s then 41 else 93
  | .number _ => 93

def getBinLabel (leftBound rightBound : StringOrNumber ν) : Bytes :=
  if leftBound.isZero ∧ rightBound.isZero then str "ELSE"
  else 40 :: leftBound.text ++ 44 :: 32 :: rightBound.text ++ [rightBoundBracket rightBound]

/-- White space that `trim` takes off. -/
def isSpace (r : Nat × Bytes) : Bool := Utf8.isSpaceRune r.1 && r.1 != 0x85 || r.1 == 0xFEFF

def trim (s : Bytes) : Bytes := ((((Utf8.runes s).dropWhile isSpace).reverse.dropWhile isSpace).reverse).flatMap Prod.snd

/-- `s.includes('Infinity') ? s : Number(s)`. -/
def boundOf (s : Bytes) : StringOrNumber ν := if isInfinity s then .string s else .number (JsNumber.ofString s)

/-- Throws where there is no comma. `replace` of a character takes its first occurrence out. -/
def getBinBoundValue (label : Bytes) : Option (StringOrNumber ν × StringOrNumber ν) :=
  if label = str "ELSE" then some (.number (JsNumber.ofNat 0), .number (JsNumber.ofNat 0))
  else match label.splitOn 44 with
    | left :: right :: _ => some (boundOf (trim (left.erase 40)), boundOf (trim ((right.erase 93).erase 41)))
    | _ => none

def convertBin (isWoe : Bool) (bin : BinFormItem ν) : Option (RawBin ν) :=
  (getBinBoundValue bin.label).map fun (leftBound, rightBound) =>
    { markForMerge := some bin.markForMerge, leftBound, rightBound, fillingValue := if isWoe then bin.woe else bin.order, totalCount := some bin.totalCount }

def convertRecord (r : BinningFormRecord ν) : Option (RawRecord ν) :=
  let elseBin := r.bins.find? (·.label = str "ELSE")
  ((r.bins.filter (·.label ≠ str "ELSE")).mapM (convertBin r.isWoe)).map fun validBins =>
    { iv := if r.isWoe then r.iv else none
      isWoe := r.isWoe
      featureName := r.feature
      featureType := if r.type = str "float" then str "numeric" else r.type
      validBinCount := r.binCount
      partyName := r.partyName
      elseBin := some {
        fillingValue := elseBin.bind fun b => if r.isWoe then b.woe else b.order
        totalCount := elseBin.map (·.totalCount)
        leftBound := .number (JsNumber.ofNat 0)
        rightBound := .number (JsNumber.ofNat 0)
        markForMerge := some false }
      validBins }

def binModificationsSerializer (data : Binning (BinningFormRecord ν)) : Option (Binning (RawRecord ν)) :=
  match data.variableBins with
  | none => some ⟨data.modelHash, none⟩
  | some records => (records.mapM convertRecord).map fun rs => ⟨data.modelHash, some rs⟩

/-- `${index}/${featureName}/${label}`. -/
def binKey (featureName : Bytes) (index : Nat) (label : Bytes) : Bytes := Bytes.itoa index ++ 47 :: featureName ++ 47 :: label

def revertBin (isWoe : Bool) (featureName : Bytes) (index : Nat) (bin : RawBin ν) : BinFormItem ν :=
  let label := getBinLabel bin.leftBound bin.rightBound
  { key := binKey featureName index label, label, markForMerge := bin.markForMerge.getD false, totalCount := bin.totalCount.getD (JsNumber.ofNat 0)
    woe := if isWoe then bin.fillingValue else none, order := if isWoe then none else bin.fillingValue }

def revertRecord (r : RawRecord ν) : BinningFormRecord ν where
  iv := if r.isWoe then r.iv else none
  key := r.featureName
  feature := r.featureName
  binCount := r.validBinCount
  type := if r.featureType = str "numeric" then str "float" else r.featureType
  isWoe := r.isWoe
  partyName := r.partyName
  bins := (r.validBins ++ r.elseBin.toList).mapIdx (revertBin r.isWoe r.featureName)

def binModificationsUnSerializer (origin : Binning (RawRecord ν)) : Binning (BinningFormRecord ν) :=
  ⟨origin.modelHash, origin.variableBins.map (·.map revertRecord)⟩
end

structure LinearModelDatum (ν : Type) where
  key : Option Bytes
  featureName : Bytes
  party : Bytes
  featureWeight : ν

structure LinearModelData (ν : Type) where
  modelHash : Bytes
  featureWeights : Option (List (LinearModelDatum ν))
  bias : ν

section
variable {ν : Type}

def modelModificationsSerializer (data : LinearModelData ν) : LinearModelData ν :=
  { data with featureWeights := data.featureWeights.map (·.map fun d => { d with key := none }) }

def modelModificationsUnSerializer (origin : LinearModelData ν) : LinearModelData ν :=
  { origin with featureWeights := origin.featureWeights.map (·.map fun d => { d with key := some (d.featureName ++ 45 :: d.party) }) }
end

section
variable {ν : Type} [JsNumber ν]

def StringOrNumber.toJson : StringOrNumber ν → Json
  | .string s => ofText s
  | .number n => ofNumber n

def bound? : Json → Option (StringOrNumber ν)
  | .str lit => some (.string (unquote lit))
  | .num lit => some (.number (JsNumber.ofString lit))
  | _ => none

/-- The members of a bin among the valid ones. -/
def RawBin.members (b : RawBin ν) : List (Bytes × Option Json) :=
  [(str "markForMerge", b.markForMerge.map .bool), (str "leftBound", some b.leftBound.toJson), (str "rightBound", some b.rightBound.toJson),
    (str "fillingValue", b.fillingValue.map ofNumber), (str "totalCount", b.totalCount.map ofNumber)]

/-- Those of the else bin. -/
def RawBin.elseMembers (b : RawBin ν) : List (Bytes × Option Json) :=
  [(str "fillingValue", b.fillingValue.map ofNumber), (str "totalCount", b.totalCount.map ofNumber), (str "leftBound", some b.leftBound.toJson),
    (str "rightBound", some b.rightBound.toJson), (str "markForMerge", b.markForMerge.map .bool)]

def bin? (v : Json) : Option (RawBin ν) := do
  let markForMerge ← optional? bool? (member? (str "markForMerge") v)
  let leftBound ← (member? (str "leftBound") v).bind bound?
  let rightBound ← (member? (str "rightBound") v).bind bound?
  let fillingValue ← optional? number? (member? (str "fillingValue") v)
  let totalCount ← optional? number? (member? (str "totalCount") v)
  return { markForMerge, leftBound, rightBound, fillingValue, totalCount }

def RawRecord.members (r : RawRecord ν) : List (Bytes × Option Json) :=
  [(str "iv", r.iv.map ofNumber), (str "isWoe", some (.bool r.isWoe)), (str "featureName", some (ofText r.featureName)),
    (str "featureType", some (ofText r.featureType)), (str "validBinCount", some (ofNumber r.validBinCount)), (str "partyName", some (ofText r.partyName)),
    (str "elseBin", r.elseBin.map fun b => ofMembers b.elseMembers), (str "validBins", some (.arr (r.validBins.map fun b => ofMembers b.members)))]

def record? (v : Json) : Option (RawRecord ν) := do
  let featureName ← (member? (str "featureName") v).bind text?
  let validBinCount ← (member? (str "validBinCount") v).bind number?
  let iv ← optional? number? (member? (str "iv") v)
  let featureType ← (member? (str "featureType") v).bind text?
  let validBins ← (member? (str "validBins") v).bind (list? bin?)
  let isWoe ← (member? (str "isWoe") v).bind bool?
  let elseBin ← optional? bin? (member? (str "elseBin") v)
  let partyName ← (member? (str "partyName") v).bind text?
  return { featureName, validBinCount, iv, featureType, validBins, isWoe, elseBin, partyName }

def Binning.members (d : Binning (RawRecord ν)) : List (Bytes × Option Json) :=
  [(str "modelHash", some (ofText d.modelHash)), (str "variableBins", d.variableBins.map fun rs => .arr (rs.map fun r => ofMembers r.members))]

def binning? (v : Json) : Option (Binning (RawRecord ν)) := do
  let modelHash ← (member? (str "modelHash") v).bind text?
  let variableBins ← optional? (list? record?) (member? (str "variableBins") v)
  return { modelHash, variableBins }

def LinearModelDatum.members (d : LinearModelDatum ν) : List (Bytes × Option Json) :=
  [(str "featureName", some (ofText d.featureName)), (str "party", some (ofText d.party)), (str "featureWeight", some (ofNumber d.featureWeight))]

/-- The key is not looked at. -/
def datum? (v : Json) : Option (LinearModelDatum ν) := do
  let featureName ← (member? (str "featureName") v).bind text?
  let party ← (member? (str "party") v).bind text?
  let featureWeight ← (member? (str "featureWeight") v).bind number?
  return { key := none, featureName, party, featureWeight }

def LinearModelData.members (d : LinearModelData ν) : List (Bytes × Option Json) :=
  [(str "modelHash", some (ofText d.modelHash)), (str "featureWeights", d.featureWeights.map fun ws => .arr (ws.map fun w => ofMembers w.members)),
    (str "bias", some (ofNumber d.bias))]

def linear? (v : Json) : Option (LinearModelData ν) := do
  let modelHash ← (member? (str "modelHash") v).bind text?
  let featureWeights ← optional? (list? datum?) (member? (str "featureWeights") v)
  let bias ← (member? (str "bias") v).bind number?
  return { modelHash, featureWeights, bias }
end

/-- How a class is stored and read; `none` where the serializer throws. -/
structure CustomSerializer (σ φ : Type) where
  serializer : φ → Bytes → Option σ
  unserializer : Option σ → φ

structure JsonAttr where
  s : Option Bytes

/-- `JSON.parse`, of a value of a type. -/
def parseAs {β : Type} (read : Json → Option β) (s : Bytes) : Option β := (parse s).bind read

def jsonStringSerializer {φ β : Type} (ser : φ → Option β) (members : β → List (Bytes × Option Json)) (unser : β → φ)
    (read : Json → Option β) :
    CustomSerializer JsonAttr (Option φ) where
  serializer val _ := (val.bind ser).map fun b => ⟨some (render (ofMembers (members b)))⟩
  unserializer attr := ((attr.bind (·.s)).bind (parseAs read)).map unser

inductive ProtobufCls where
  | featureColumnConfig
  | caseWhenRule
  | calculateOpRules
  | groupbyAggregationConfig
  | binningModifications
  | linearModel

namespace ProtobufCls

def name : ProtobufCls → Bytes
  | featureColumnConfig => str "feature_column_config_pb2.FeatureColumnConfig"
  | caseWhenRule => str "case_when_rules_pb2.CaseWhenRule"
  | calculateOpRules => str "calculate_rules_pb2.CalculateOpRules"
  | groupbyAggregationConfig => str "groupby_aggregation_config_pb2.GroupbyAggregationConfig"
  | binningModifications => str "Binning_modifications"
  | linearModel => str "linear_model_pb2"

/-- What the editor of a class holds. -/
def Form (ν : Type) : ProtobufCls → Type
  | featureColumnConfig => List Feature
  | caseWhenRule => CaseWhen ν (CaseWhenFormWhen ν)
  | calculateOpRules => Calculate ν Bytes
  | groupbyAggregationConfig => GroupByConfig
  | binningModifications => Option (Binning (BinningFormRecord ν))
  | linearModel => Option (LinearModelData ν)

/-- What is stored for it. -/
def Value (ν : Type) : ProtobufCls → Type
  | featureColumnConfig => List Feature
  | caseWhenRule => CaseWhen ν (CaseWhenBranch ν)
  | calculateOpRules => Calculate ν ColNames
  | groupbyAggregationConfig => GroupByConfig
  | binningModifications => Binning (RawRecord ν)
  | linearModel => LinearModelData ν

/-- The attribute that it is stored in. -/
def Attr (ν : Type) : ProtobufCls → Type
  | binningModifications => JsonAttr
  | linearModel => JsonAttr
  | c => CustomAttr (c.Value ν)

end ProtobufCls

def customSerializerRegistry (ν : Type) [JsNumber ν] : (c : ProtobufCls) → CustomSerializer (c.Attr ν) (c.Form ν)
  | .featureColumnConfig => ⟨fun v cls => some (upstreamOutputFeatureSerializer v cls), upstreamOutputFeatureUnserializer⟩
  | .caseWhenRule => ⟨fun v cls => some (caseWhenSerializer v cls), caseWhenUnserializer⟩
  | .calculateOpRules => ⟨fun v cls => some (calculateSerializer v cls), calculateUnserializer⟩
  | .groupbyAggregationConfig => ⟨fun v cls => some (groupbySerializer v cls), groupbyUnserializer⟩
  | .binningModifications => jsonStringSerializer binModificationsSerializer Binning.members binModificationsUnSerializer binning?
  | .linearModel => jsonStringSerializer (fun d => some (modelModificationsSerializer d)) LinearModelData.members modelModificationsUnSerializer linear?

end Web.Serializers
