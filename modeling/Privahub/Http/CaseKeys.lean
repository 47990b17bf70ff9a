import Privahub.Http.Context
import Privahub.Http.JsonKeys

/-!
# Twin keys in JSON request bodies

`CaseKeysRequest` (camelcase.go): a JSON body is checked for ambiguous keys, decoded, every object of it
given the other spelling of each key, and encoded again. A decoded value is a tree whose strings and keys
hold their content; its numbers hold the text `json.Marshal` writes for the `float64` they are decoded to
(`Floats`). The order in which the runtime iterates over a map is a parameter (`MapOrder`).
-/

namespace Http

open Json

structure Floats where
  text : Bytes → Option Bytes
  numLit : ∀ lit t, text lit = some t → NumLit t

def Floats.integers : Floats where
  text lit := (parseInt64 lit).map Bytes.itoa
  numLit lit t h := by
    obtain ⟨n, -, rfl⟩ := Option.map_eq_some_iff.1 h
    exact numLit_itoa n

structure MapOrder where
  order : List (Bytes × Json) → List (Bytes × Json)
  perm : ∀ l, (order l).Perm l

/-- `m[k] = v`, the keys of `m` distinct. -/
def mapPut (m : List (Bytes × Json)) (e : Bytes × Json) : List (Bytes × Json) := m.filter (fun x => x.1 ≠ e.1) ++ [e]

variable (fl : Floats) (u : CaseTables) (o : MapOrder)

mutual

/-- `json.Unmarshal` into an `interface{}`: the last of equal keys wins, a number out of range is an error. -/
def decodeAny : Json → Option Json
  | .null => some .null
  | .bool b => some (.bool b)
  | .num lit => (fl.text lit).map .num
  | .str lit => some (.str (unquote lit))
  | .arr items => (decodeItems items).map .arr
  | .obj ms => (decodeMembers ms).map fun ms => .obj (ms.foldl mapPut [])

def decodeItems : List Json → Option (List Json)
  | [] => some []
  | v :: vs => (decodeAny v).bind fun v => (decodeItems vs).map (v :: ·)

def decodeMembers : List (Bytes × Json) → Option (List (Bytes × Json))
  | [] => some []
  | (k, v) :: ms => (decodeAny v).bind fun v => (decodeMembers ms).map ((unquote k, v) :: ·)

end

def twins (e : Bytes × Json) : List (Bytes × Json) :=
  let ck := CanonicalJSONKey u e.1
  let snake := toSnakeCase u e.1
  let camel := toCamelCase u e.1
  (if snake ≠ e.1 ∧ CanonicalJSONKey u snake = ck then [(snake, e.2)] else []) ++
    if camel ≠ e.1 ∧ CanonicalJSONKey u camel = ck then [(camel, e.2)] else []

def addTwin (t : List (Bytes × Json)) (a : Bytes × Json) : List (Bytes × Json) :=
  if t.any fun e => decide (e.1 = a.1) then t else t ++ [a]

mutual

def expandKeys : Json → Json
  | .arr items => .arr (expandItems items)
  | .obj ms =>
    let t := expandMembers ms
    .obj (((o.order t).flatMap (twins u)).foldl addTwin t)
  | v => v

def expandItems : List Json → List Json
  | [] => []
  | v :: vs => expandKeys v :: expandItems vs

def expandMembers : List (Bytes × Json) → List (Bytes × Json)
  | [] => []
  | (k, v) :: ms => (k, expandKeys v) :: expandMembers ms

end

mutual

/-- The tree `json.Marshal` writes: literals escaped, the keys of an object sorted. -/
def encode : Json → Json
  | .str s => .str (escape s)
  | .arr items => .arr (encodeItems items)
  | .obj ms => .obj (((encodeMembers ms).insertionSort fun a b => Audit.bytesLe a.1 b.1).map fun e => (escape e.1, e.2))
  | v => v

def encodeItems : List Json → List Json
  | [] => []
  | v :: vs => encode v :: encodeItems vs

def encodeMembers : List (Bytes × Json) → List (Bytes × Json)
  | [] => []
  | (k, v) :: ms => (k, encode v) :: encodeMembers ms

end

def marshal (v : Json) : Bytes := render (encode v)

def isJSONContentType (ct : Bytes) : Bool := containsStr (toLowerAscii ct) (str "application/json")

def isFormContentType (ct : Bytes) : Bool :=
  hasPrefix (toLowerAscii ct) (str "multipart/") || hasPrefix (toLowerAscii ct) (str "application/x-www-form-urlencoded")

def looksLikeJSON (body : Bytes) : Bool :=
  (Utf8.trimSpace body).head? == some 123 || (Utf8.trimSpace body).head? == some 91

def expandBody (body : Bytes) : Bytes :=
  if (Utf8.trimSpace body).head? = some 123 then
    match (parse body).bind (decodeAny fl) with
    | some v => marshal (expandKeys u o v)
    | none => body
  else body

inductive CaseKeysResult where
  | next (req : Request)
  | tooLarge
  | reject (err : Option CheckError)

/-- What `CaseKeysRequest` makes of a request; `reject none` stands for a body that cannot be read. -/
def caseKeys (req : Request) : CaseKeysResult :=
  if isFormContentType (req.header contentTypeKey) then .next req
  else match req.body with
    | none => .next req
    | some b =>
      if req.contentLength = 0 then .next req
      else match b.ending with
        | .tooLarge => .tooLarge
        | .cut | .error => .reject none
        | .eof =>
          if Utf8.trimSpace b.content = [] ∨ (!isJSONContentType (req.header contentTypeKey) ∧ !looksLikeJSON b.content) then .next req
          else match CheckJSONKeys u b.content with
            | .error e => .reject (some e)
            | .ok _ =>
              let body := expandBody fl u o b.content
              .next { req with
                body := some ⟨body, .eof⟩
                contentLength := body.length
                header := Function.update req.header (str "Content-Length") (Bytes.digits body.length) }

/-- `errcode.ParamError`. -/
def paramErrorCode : Int := 202011100

/-- `rejectBody`; `message` renders the localized text of an argument. -/
def rejectBody (message : Bytes → Bytes) : Option CheckError → List Effect
  | some (.duplicate _ _) => abortWithStatusJSON 200 (statusBody paramErrorCode
      (message (str "duplicate or aliased keys (e.g. projectId and project_id) are not allowed")))
  | _ => abortWithStatusJSON 200 (statusBody paramErrorCode (message (str "invalid request body")))

def CaseKeysRequest (message : Bytes → Bytes) : Chain.Handler Ctx := .step fun c =>
  match caseKeys fl u o c.req with
  | .next req => .returned { c with req := req }
  | .tooLarge => .returned (applyAll c (abortWithStatusJSON 413 (statusBody 413 (str "request body too large"))))
  | .reject err => .returned (applyAll c (rejectBody message err))

end Http
