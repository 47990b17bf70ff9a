import Privahub.Lib.Json
import Privahub.Lib.JsValue

/-!
# The configuration of components

`packages/dag-next/src/component-config.ts`: attributes and their values, which renderer an attribute gets, the check of a value and
`isConfigFinished`. The two tables that the host may extend are a parameter, `Registry`.
-/

namespace Web.ComponentConfig

variable {ν : Type}

inductive AttrTypeName where
  | unspecified
  | float
  | int
  | string
  | bool
  | floats
  | ints
  | strings
  | bools
  | structGroup
  | unionGroup
  | customProtobuf
  | party
  | colParams
  | sfTableCol
  | sfTable
  | model
  /-- A text that is not one of them, which `normalizeType` passes on. -/
  | other (name : Bytes)
  deriving DecidableEq

inductive TypeField where
  | absent
  | number (n : Int)
  | text (s : Bytes)
  deriving DecidableEq

def ATTR_TYPE_BY_NUMBER : Int → Option AttrTypeName
  | 0 => some .unspecified
  | 1 => some .float
  | 2 => some .int
  | 3 => some .string
  | 4 => some .bool
  | 5 => some .floats
  | 6 => some .ints
  | 7 => some .strings
  | 8 => some .bools
  | 9 => some .structGroup
  | 10 => some .unionGroup
  | 11 => some .customProtobuf
  | 12 => some .party
  | 13 => some .colParams
  | _ => none

def typeNames : List (Bytes × AttrTypeName) :=
  [(str "ATTR_TYPE_UNSPECIFIED", .unspecified), (str "AT_FLOAT", .float), (str "AT_INT", .int), (str "AT_STRING", .string), (str "AT_BOOL", .bool),
    (str "AT_FLOATS", .floats), (str "AT_INTS", .ints), (str "AT_STRINGS", .strings), (str "AT_BOOLS", .bools),
    (str "AT_STRUCT_GROUP", .structGroup), (str "AT_UNION_GROUP", .unionGroup), (str "AT_CUSTOM_PROTOBUF", .customProtobuf),
    (str "AT_PARTY", .party), (str "AT_COL_PARAMS", .colParams), (str "AT_SF_TABLE_COL", .sfTableCol), (str "AT_SF_TABLE", .sfTable),
    (str "AT_MODEL", .model)]

def typeOfName (s : Bytes) : AttrTypeName := (typeNames.lookup s).getD (.other s)

def normalizeType : TypeField → AttrTypeName
  | .absent => .unspecified
  | .number n => (ATTR_TYPE_BY_NUMBER n).getD .unspecified
  | .text s =>
    if s = [] then .unspecified
    else if s.all Bytes.isDigit then (ATTR_TYPE_BY_NUMBER (Json.digitsVal s)).getD .unspecified
    else typeOfName s

/-- A value of an attribute; of a list of texts an element may be `null`. -/
structure AttributeValue (ν : Type) where
  f : Option ν := none
  i64 : Option ν := none
  s : Option Bytes := none
  b : Option Bool := none
  fs : Option (List ν) := none
  i64s : Option (List ν) := none
  ss : Option (List (Option Bytes)) := none
  bs : Option (List Bool) := none
  is_na : Option Bool := none
  custom_protobuf_cls : Option Bytes := none
  custom_value : JsValue ν := .undefined

structure AtomicAttrDesc (ν : Type) where
  list_min_length_inclusive : Option ν := none
  list_max_length_inclusive : Option ν := none
  is_optional : Option Bool := none
  default_value : Option (AttributeValue ν) := none
  allowed_values : Option (AttributeValue ν) := none
  lower_bound_enabled : Option Bool := none
  lower_bound : Option (AttributeValue ν) := none
  lower_bound_inclusive : Option Bool := none
  upper_bound_enabled : Option Bool := none
  upper_bound : Option (AttributeValue ν) := none
  upper_bound_inclusive : Option Bool := none

structure UnionDesc where
  default_selection : Option Bytes := none

structure AttributeDef (ν : Type) where
  prefixes : Option (List Bytes) := none
  name : Option Bytes := none
  type : TypeField := .absent
  atomic : Option (AtomicAttrDesc ν) := none
  union : Option UnionDesc := none
  custom_protobuf_cls : Option Bytes := none
  col_min_cnt_inclusive : Option ν := none
  col_max_cnt_inclusive : Option ν := none

/-- The fields of a value that hold what an attribute is set to. -/
inductive ValueField where
  | f
  | i64
  | s
  | b
  | fs
  | i64s
  | ss
  | bs
  deriving DecidableEq

def TYPES_MAP : AttrTypeName → Option ValueField
  | .bool => some .b
  | .int => some .i64
  | .float => some .f
  | .string => some .s
  | .bools => some .bs
  | .floats => some .fs
  | .ints => some .i64s
  | .strings => some .ss
  | .party => some .ss
  | .sfTableCol => some .ss
  | .colParams => some .ss
  | .unionGroup => some .s
  | .sfTable => some .s
  | .model => some .s
  | _ => none

def attrPathOf (d : AttributeDef ν) : Bytes :=
  List.intercalate [47] ((d.prefixes.getD [] ++ [d.name.getD []]).filter fun p => !p.isEmpty)

def typeName (d : AttributeDef ν) : AttrTypeName := normalizeType d.type

/-- `def.atomic?.is_optional === true`. -/
def isOptional (d : AttributeDef ν) : Bool := d.atomic.bind (·.is_optional) == some true

def isColumnType (t : AttrTypeName) : Bool := t = .sfTableCol ∨ t = .colParams

/-- What is read of an element of `attrs`. -/
structure RawAttr (ν : Type) where
  f : JsValue ν := .undefined
  i64 : JsValue ν := .undefined
  s : JsValue ν := .undefined
  b : JsValue ν := .undefined
  fs : JsValue ν := .undefined
  i64s : JsValue ν := .undefined
  ss : JsValue ν := .undefined
  bs : JsValue ν := .undefined
  is_na : JsValue ν := .undefined
  isNa : JsValue ν := .undefined
  custom_protobuf_cls : JsValue ν := .undefined
  custom_value : JsValue ν := .undefined

section
variable [JsNumber ν]

def toNum (v : JsValue ν) : Option ν :=
  if v.isBlank then none
  else
    let n := v.toNumber
    if JsNumber.isNaN n then none else some n

def toBool : JsValue ν → Option Bool
  | .undefined => none
  | .null => none
  | .bool b => some b
  | .string s => some (if s = str "true" then true else if s = str "false" then false else !s.isEmpty)
  | v => some v.truthy

@[simp] theorem toNum_undefined : toNum (.undefined : JsValue ν) = none := rfl

@[simp] theorem toNum_number (n : ν) : toNum (.number n) = if JsNumber.isNaN n then none else some n := rfl

@[simp] theorem toBool_undefined : toBool (.undefined : JsValue ν) = none := rfl

@[simp] theorem toBool_bool (b : Bool) : toBool (.bool b : JsValue ν) = some b := rfl

def readNumber (v : JsValue ν) : ν := (toNum v).getD (JsNumber.ofNat 0)

def readAgain (n : ν) : ν := if JsNumber.isNaN n then JsNumber.ofNat 0 else n

@[simp] theorem readNumber_number (n : ν) : readNumber (.number n) = readAgain n := by
  cases hn : JsNumber.isNaN n <;> simp [readNumber, readAgain, hn]

def readText (v : JsValue ν) : Option Bytes := if v.isNullish then none else some v.toText

def readFlag (v : JsValue ν) : Bool := (toBool v).getD false

def normalizeAttrValue (r : RawAttr ν) : AttributeValue ν where
  f := toNum r.f
  i64 := toNum r.i64
  s := if r.s.isUndefined then none else some r.s.toText
  b := toBool r.b
  fs := r.fs.elems?.map fun l => l.map readNumber
  i64s := r.i64s.elems?.map fun l => l.map readNumber
  ss := r.ss.elems?.map fun l => l.map readText
  bs := r.bs.elems?.map fun l => l.map readFlag
  is_na := (if r.is_na.isNullish then if r.isNa.isNullish then none else some r.isNa else some r.is_na).map readFlag
  custom_protobuf_cls := if r.custom_protobuf_cls.isUndefined then none else some r.custom_protobuf_cls.toText
  custom_value := r.custom_value
end

def emptyList (l : Option (List (Option Bytes))) : Bool := (l.getD []).all fun e => (e.getD []).isEmpty

@[simp] theorem emptyList_none : emptyList none = true := rfl

@[simp] theorem emptyList_some (l : List (Option Bytes)) : emptyList (some l) = l.all fun e => (e.getD []).isEmpty := rfl

def isNaValue : Option (AttributeValue ν) → Bool
  | none => true
  | some v =>
    if v.is_na = some true then true
    else if v.custom_protobuf_cls.isSome || !v.custom_value.isUndefined then false
    else
      v.f.isNone && v.i64.isNone && (v.s.getD []).isEmpty && v.b.isNone && (v.fs.getD []).isEmpty && (v.i64s.getD []).isEmpty && emptyList v.ss &&
        (v.bs.getD []).isEmpty

def scalarNumber (v : Option (AttributeValue ν)) : Option ν := v.bind fun v => v.i64 <|> v.f

def textOrNull (e : Option Bytes) : JsValue ν := e.elim .null .string

@[simp] theorem isBlank_textOrNull (e : Option Bytes) : (textOrNull e : JsValue ν).isBlank = (e.getD []).isEmpty := by
  cases e <;> rfl

@[simp] theorem readText_textOrNull [JsNumber ν] (e : Option Bytes) : readText (textOrNull e : JsValue ν) = e := by
  cases e <;> rfl

@[simp] theorem readFlag_bool [JsNumber ν] (b : Bool) : readFlag (.bool b : JsValue ν) = b := rfl

@[simp] theorem map_readText [JsNumber ν] (l : List (Option Bytes)) : l.map (readText ∘ (textOrNull : Option Bytes → JsValue ν)) = l :=
  (List.map_congr_left fun e _ => readText_textOrNull e).trans (List.map_id l)

@[simp] theorem map_readFlag [JsNumber ν] (l : List Bool) : l.map (readFlag ∘ (JsValue.bool : Bool → JsValue ν)) = l :=
  List.map_id l

/-- `v.ss ?? v.i64s ?? v.fs ?? v.bs ?? []`. -/
def anyList (v : AttributeValue ν) : List (JsValue ν) :=
  match v.ss, v.i64s, v.fs, v.bs with
  | some l, _, _, _ => l.map textOrNull
  | none, some l, _, _ => l.map .number
  | none, none, some l, _ => l.map .number
  | none, none, none, some l => l.map .bool
  | none, none, none, none => []

def listOf (v : Option (AttributeValue ν)) : List (JsValue ν) := (v.elim [] anyList).filter fun x => !x.isBlank

def allowedList (d : AttributeDef ν) : List (JsValue ν) := (d.atomic.bind (·.allowed_values)).elim [] anyList

inductive ComputeMode where
  | MPC
  | TEE
  deriving DecidableEq

inductive RendererKind where
  | union
  | struct
  | custom
  | sql
  | taskInitiator
  | unionKeySelect
  | unbalanceColSelect
  | unbalanceReceiver
  | joinNodeSelect
  | nodeSelectSingle
  | tableSelect
  | modelSelect
  | select
  | featureSelect
  | switch
  | number
  | input
  | list
  | nodeSelect
  | quantiles
  | hidden
  | unspecified
  deriving DecidableEq

/-- The styles of panels and the renderers that are registered: whether a style has `isShow` for a path, and the kind of a key `codeName:path`. -/
structure Registry where
  isShow : ComputeMode → Bytes → Bytes → Option Bool
  overrides : Bytes → Option RendererKind

def initialRegistry : Registry where
  isShow mode codeName path :=
    if mode = .MPC ∧ codeName = str "data_prep/psi" ∧ path = str "allow_duplicate_keys/no/check_hash_digest" then some false
    else if mode = .MPC ∧ codeName = str "read_data/datatable" ∧ path = str "datatable_partition" then some false
    else none
  overrides _ := none

def CODE_NAME_RENDER_KEY : List (Bytes × Bytes) :=
  [(str "read_data/datatable", str "DATA_TABLE_SELECT"), (str "data_prep/psi", str "UNION_KEY_SELECT"),
    (str "preprocessing/psi", str "UNION_KEY_SELECT"), (str "data_prep/psi_tp", str "UNION_KEY_SELECT"), (str "preprocessing/sqlite", str "SQL"),
    (str "data_filter/sample", str "SAMPLE"), (str "ml.predict/read_model", str "MODEL_SELECT"), (str "stats/scql_analysis", str "SQL_ANALYSIS"),
    (str "data_prep/unbalance_psi", str "UNBALANCE_PSI"), (str "data_prep/unbalance_psi_cache", str "UNBALANCE_PSI_CACHE"),
    (str "preprocessing/sql_processor", str "SQL_PROCESSOR")]

/-- How an attribute is drawn and checked: the component's name and the mode of the project. -/
structure FormOpts where
  codeName : Option Bytes := none
  computeMode : ComputeMode := .MPC

/-- `codeName` unless it is empty. -/
def FormOpts.code (o : FormOpts) : Option Bytes := o.codeName.filter fun c => !c.isEmpty

/-- `getPanelStyle(…)?.isShow === false`. -/
def panelHides (R : Registry) (o : FormOpts) (path : Bytes) : Bool := o.code.bind (fun c => R.isShow o.computeMode c path) == some false

structure RenderContext where
  codeName : Option Bytes
  path : Bytes
  name : Bytes
  typeName : AttrTypeName
  hasAllowedValues : Bool
  customProtobufCls : Option Bytes := none

def RENDER_RULES (c : RenderContext) (k : Option Bytes) : List (RendererKind × Option Nat) :=
  let t := c.typeName
  let key (s : String) : Bool := k == some (str s)
  let when (p : Bool) (n : Nat) : Option Nat := if p then some n else none
  [(.union, when (t = .unionGroup) 1),
    (.struct, when (t = .structGroup) 1),
    (.custom, when (t = .customProtobuf ∧ c.customProtobufCls.getD [] ≠ []) 1),
    (.sql, when (t = .string ∧ c.name = str "script_input" ∧ key "SQL_ANALYSIS") 1),
    (.taskInitiator, when (t = .party ∧ c.name = str "task_initiator" ∧ key "SQL_ANALYSIS") 1),
    (.unionKeySelect, when (key "UNION_KEY_SELECT" && isColumnType t) 3),
    (.unbalanceColSelect, when (key "UNBALANCE_PSI" && isColumnType t) 1),
    (.unbalanceReceiver, when (key "UNBALANCE_PSI" && t = .party) 1),
    (.joinNodeSelect, when (t = .party && key "UNBALANCE_PSI_CACHE") 1),
    (.nodeSelectSingle, when (c.name = str "receiver") 3),
    (.tableSelect, if key "DATA_TABLE_SELECT" then some 3 else when (t = .sfTable) 1),
    (.modelSelect, if key "MODEL_SELECT" then some 3 else when (t = .model) 1),
    (.select, when c.hasAllowedValues 2),
    (.featureSelect, when (isColumnType t) 1),
    (.sql, when (t = .string && c.name = str "sql" && (key "SQL_PROCESSOR" || key "SQL")) 1),
    (.switch, when (t = .bool) 1),
    (.number, when (t = .int ∨ t = .float) 1),
    (.input, when (t = .string) 1),
    (.nodeSelect, when (t = .party) 1),
    (.quantiles, when (t = .floats ∧ c.name = str "quantiles" ∧ key "SAMPLE") 1),
    (.hidden, when (t = .bools ∧ c.name = str "replacements" ∧ key "SAMPLE") 1),
    (.hidden, when (t = .floats ∧ c.name = str "weights" ∧ key "SAMPLE") 1),
    (.list, when (t = .strings ∨ t = .ints ∨ t = .floats ∨ t = .bools) 1),
    (.unspecified, when (t = .unspecified) 1)]

def resolveRenderer (R : Registry) (c : RenderContext) : RendererKind :=
  let code := c.codeName.filter fun s => !s.isEmpty
  match code.bind fun s => R.overrides (s ++ [58] ++ c.path) with
  | some kind => kind
  | none =>
    let start : RendererKind := if c.typeName = .customProtobuf then .custom else .input
    ((RENDER_RULES c (code.bind fun s => CODE_NAME_RENDER_KEY.lookup s)).foldl (fun best rule =>
      if best.2 < rule.2.getD 0 then (rule.1, rule.2.getD 0) else best) (start, 0)).1

inductive ValidationErrorCode where
  | REQUIRED
  | MIN
  | MAX
  | NOT_INTEGER
  | NOT_NUMBER
  | NOT_ALLOWED
  | LIST_MIN
  | LIST_MAX
  | COL_MIN
  | COL_MAX
  deriving DecidableEq

structure ValidationError (ν : Type) where
  path : Bytes
  code : ValidationErrorCode
  limit : JsValue ν := .undefined

variable [JsNumber ν]

def bound (v : Option (AttributeValue ν)) : Option ν :=
  scalarNumber v <|> (v.bind (·.fs)).bind List.head? <|> (v.bind (·.i64s)).bind List.head?

def checkBounds (path : Bytes) (atomic : Option (AtomicAttrDesc ν)) (n : ν) : Option (ValidationError ν) :=
  atomic.bind fun a =>
    let low := (bound a.lower_bound).bind fun lower =>
      let inclusive := a.lower_bound_inclusive == some true
      if a.lower_bound_enabled = some true ∧ (if inclusive then JsNumber.lt n lower else JsNumber.le n lower) = true then
        some ⟨path, .MIN, .string ((if inclusive then str "≥" else str ">") ++ str " " ++ JsNumber.text lower)⟩
      else none
    let high := (bound a.upper_bound).bind fun upper =>
      let inclusive := a.upper_bound_inclusive == some true
      if a.upper_bound_enabled = some true ∧ (if inclusive then JsNumber.lt upper n else JsNumber.le upper n) = true then
        some ⟨path, .MAX, .string ((if inclusive then str "≤" else str "<") ++ str " " ++ JsNumber.text upper)⟩
      else none
    low <|> high

def checkColumns (d : AttributeDef ν) (value : Option (AttributeValue ν)) : Option (ValidationError ν) :=
  let count := (listOf value).length
  let min := d.col_min_cnt_inclusive.getD (JsNumber.ofNat 0)
  if count = 0 ∧ (JsNumber.lt (JsNumber.ofNat 0) min = true ∨ (isOptional d = false ∧ d.col_min_cnt_inclusive.isNone)) then
    some { path := attrPathOf d, code := .REQUIRED }
  else if 0 < count ∧ JsNumber.lt (JsNumber.ofNat count) min = true then some ⟨attrPathOf d, .COL_MIN, .number min⟩
  else
    match d.col_max_cnt_inclusive with
    | some max =>
      if JsNumber.lt (JsNumber.ofNat 0) max = true ∧ JsNumber.lt max (JsNumber.ofNat count) = true then some ⟨attrPathOf d, .COL_MAX, .number max⟩
      else none
    | none => none

def checkElement (d : AttributeDef ν) (t : AttrTypeName) (el : JsValue ν) : Option (ValidationError ν) :=
  let numeric :=
    if t = .ints ∨ t = .floats then
      if JsNumber.isNaN el.toNumber then some { path := attrPathOf d, code := .NOT_NUMBER }
      else if t = .ints ∧ JsNumber.isInteger el.toNumber = false then some { path := attrPathOf d, code := .NOT_INTEGER }
      else checkBounds (attrPathOf d) d.atomic el.toNumber
    else none
  numeric <|> if (allowedList d).isEmpty = false ∧ ((allowedList d).map JsValue.toText).contains el.toText = false then
    some { path := attrPathOf d, code := .NOT_ALLOWED } else none

def validateAttr (d : AttributeDef ν) (value : Option (AttributeValue ν)) : Option (ValidationError ν) :=
  let path := attrPathOf d
  let t := typeName d
  let error (code : ValidationErrorCode) : Option (ValidationError ν) := some { path := path, code := code }
  if t = .structGroup ∨ t = .unspecified then none
  else if isColumnType t then checkColumns d value
  else if isNaValue value then
    if isOptional d ∨ (t = .unionGroup ∧ ((d.union.bind (·.default_selection)).getD []).isEmpty = false) then none else error .REQUIRED
  else if t = .int ∨ t = .float then
    match scalarNumber value with
    | none => error .NOT_NUMBER
    | some n =>
      if JsNumber.isNaN n then error .NOT_NUMBER
      else if t = .int ∧ JsNumber.isInteger n = false then error .NOT_INTEGER
      else if (allowedList d).isEmpty = false ∧ ((allowedList d).map JsValue.toNumber).any (JsNumber.same n) = false then error .NOT_ALLOWED
      else checkBounds path d.atomic n
  else if t = .string then
    if (allowedList d).isEmpty = false ∧ ((allowedList d).map JsValue.toText).contains ((value.bind (·.s)).getD []) = false then
      error .NOT_ALLOWED
    else none
  else if t = .ints ∨ t = .floats ∨ t = .strings ∨ t = .bools ∨ t = .party then
    let list := listOf value
    match (d.atomic.bind (·.list_min_length_inclusive)).filter fun m => JsNumber.lt (JsNumber.ofNat list.length) m with
    | some min => some ⟨path, .LIST_MIN, .number min⟩
    | none =>
      match (d.atomic.bind (·.list_max_length_inclusive)).filter fun m =>
        JsNumber.le (JsNumber.ofNat 0) m && JsNumber.lt m (JsNumber.ofNat list.length) with
      | some max => some ⟨path, .LIST_MAX, .number max⟩
      | none => list.findSome? (checkElement d t)
  else none

/-- A node definition as it is stored: two parallel arrays, an element that is no object as `none`. -/
structure NodeDef (ν : Type) where
  attrPaths : Option (List Bytes) := none
  attrs : Option (List (Option (RawAttr ν))) := none

def pairUp : List Bytes → List (Option (RawAttr ν)) → List (Bytes × Option (RawAttr ν))
  | [], _ => []
  | p :: ps, as => (p, as.head?.join) :: pairUp ps as.tail

def pairsOf (nodeDef : Option (NodeDef ν)) : List (Bytes × Option (RawAttr ν)) :=
  pairUp ((nodeDef.bind (·.attrPaths)).getD []) ((nodeDef.bind (·.attrs)).getD [])

def nodeDefToValueMap (nodeDef : Option (NodeDef ν)) (p : Bytes) : Option (AttributeValue ν) :=
  (pairsOf nodeDef).foldl (fun out q => if q.1 = p ∧ p ≠ [] then q.2.map normalizeAttrValue <|> out else out) none

def isRequired (d : AttributeDef ν) : Bool :=
  let t := typeName d
  if t = .structGroup ∨ t = .unionGroup ∨ t = .unspecified then false
  else if isColumnType t then JsNumber.lt (JsNumber.ofNat 0) (d.col_min_cnt_inclusive.getD (JsNumber.ofNat 0))
  else !isOptional d && t != .customProtobuf

def isConfigFinished (nodeDef : Option (NodeDef ν)) (defs : List (AttributeDef ν)) : Bool :=
  let required := defs.filter isRequired
  if required.isEmpty then true
  else if (nodeDef.bind (·.attrPaths)).isNone || (nodeDef.bind (·.attrs)).isNone then false
  else required.all fun d =>
    !((nodeDef.bind (·.attrPaths)).getD []).contains (attrPathOf d) || !isNaValue (nodeDefToValueMap nodeDef (attrPathOf d))

end Web.ComponentConfig
