import Privahub.Lib.Bytes

/-!
# JavaScript values

What JSON and a page's own objects are made of, over a type of numbers of which only the operations are known, and how a value is read as a string or
as a number.
-/

/-- The operations on JavaScript's numbers: `lt` and `le` are `<` and `<=`, `same` is the comparison of `includes`, `ofString` is `Number(s)` and
`text` is `String(n)`. -/
class JsNumber (ν : Type) where
  nan : ν
  isNaN : ν → Bool
  isInteger : ν → Bool
  isZero : ν → Bool
  lt : ν → ν → Bool
  le : ν → ν → Bool
  same : ν → ν → Bool
  ofNat : Nat → ν
  ofString : Bytes → ν
  text : ν → Bytes

inductive JsValue (ν : Type) where
  | undefined
  | null
  | bool (b : Bool)
  | number (n : ν)
  | string (s : Bytes)
  | array (l : List (JsValue ν))
  | object (fields : List (Bytes × JsValue ν))

namespace JsValue

variable {ν : Type}

@[simp] def isUndefined : JsValue ν → Bool
  | .undefined => true
  | _ => false

/-- `undefined` or `null`, which `??` passes over. -/
@[simp] def isNullish : JsValue ν → Bool
  | .undefined => true
  | .null => true
  | _ => false

/-- The elements, if `Array.isArray(v)`. -/
@[simp] def elems? : JsValue ν → Option (List (JsValue ν))
  | .array l => some l
  | _ => none

/-- Whether nothing is filled in: `null`, `undefined` or an empty string. -/
def isBlank : JsValue ν → Bool
  | .undefined => true
  | .null => true
  | .string s => s.isEmpty
  | _ => false

@[simp] theorem isBlank_undefined : (undefined : JsValue ν).isBlank = true := rfl

@[simp] theorem isBlank_null : (null : JsValue ν).isBlank = true := rfl

@[simp] theorem isBlank_string (s : Bytes) : (string s : JsValue ν).isBlank = s.isEmpty := rfl

variable [JsNumber ν]

mutual
/-- `String(v)`, of objects without a method of their own. -/
def toText : JsValue ν → Bytes
  | .undefined => str "undefined"
  | .null => str "null"
  | .bool b => if b then str "true" else str "false"
  | .number n => JsNumber.text n
  | .string s => s
  | .array l => List.intercalate [44] (elemTexts l)
  | .object _ => str "[object Object]"

def elemTexts : List (JsValue ν) → List Bytes
  | [] => []
  | v :: l => (if v.isNullish then [] else toText v) :: elemTexts l
end

/-- `Number(v)`. -/
def toNumber : JsValue ν → ν
  | .undefined => JsNumber.nan
  | .null => JsNumber.ofNat 0
  | .bool b => JsNumber.ofNat b.toNat
  | .number n => n
  | .string s => JsNumber.ofString s
  | .array l => JsNumber.ofString (toText (.array l))
  | .object l => JsNumber.ofString (toText (.object l))

/-- `Boolean(v)`. -/
def truthy : JsValue ν → Bool
  | .undefined => false
  | .null => false
  | .bool b => b
  | .number n => !(JsNumber.isNaN n || JsNumber.isZero n)
  | .string s => !s.isEmpty
  | .array _ => true
  | .object _ => true

end JsValue
