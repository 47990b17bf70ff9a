import Privahub.Audit.Model
import Privahub.Lib.Chain
import Mathlib.Data.List.DropRight

/-!
# Requests and what their handlers do to the response

The part of a gin context that the middlewares of this server read and write. A guard or a handler is
given as the effects it has (`Behaviour`), whatever it computes them from; `status` stands for the
status that remains, so a call that gin ignores because the header is out already is no effect.
The header maps are functions from canonical names, `[]` for an absent header.
-/

namespace Http

open Chain

def hasPrefix (s p : Bytes) : Bool := p.isPrefixOf s

def trimPrefix (s p : Bytes) : Bytes := if hasPrefix s p then s.drop p.length else s

def trimSuffix (s p : Bytes) : Bytes := if p.isSuffixOf s then s.take (s.length - p.length) else s

/-- `strings.TrimRight(s, "/")`. -/
def trimRightSlash (s : Bytes) : Bytes := s.rdropWhile (· == 47)

def containsStr (s sub : Bytes) : Bool := decide (sub <:+: s)

/-- `strings.ToLower` as far as a search for ASCII letters other than `i` and `k` can tell: no rune above
ASCII has any other ASCII letter as its lower case. -/
def toLowerAscii (s : Bytes) : Bytes := s.map fun b => if 65 ≤ b ∧ b ≤ 90 then b + 32 else b

/-- How reading a body ends. `cut` is `io.ErrUnexpectedEOF`. -/
inductive BodyEnd where
  | eof
  | cut
  | error
  | tooLarge
  deriving DecidableEq

structure Body where
  content : Bytes
  ending : BodyEnd
  deriving DecidableEq

/-- `body` is `none` for `nil` and `http.NoBody`. -/
structure Request where
  method : Bytes
  path : Bytes
  rawQuery : Bytes
  header : Bytes → Bytes
  body : Option Body
  contentLength : Int

structure UserContext where
  name : Bytes
  ownerId : Bytes
  virtualUserForNode : Bool
  deriving DecidableEq

/-- `head` is what `codeCaptureWriter` has kept, while it is in place; `trail` are the events `AuditTrail`
has recorded, `handled` the request the route's handler was run with, `recovered` whether `Recovery` has
caught a panic. -/
structure Ctx where
  req : Request
  fullPath : Bytes
  clientIP : Bytes
  status : Int
  header : Bytes → Bytes
  written : Bytes
  head : Option Bytes
  user : Option UserContext
  auditResource : Option (Bytes × Bytes)
  aborted : Bool
  trail : List Audit.Event
  handled : Option Request
  recovered : Bool

inductive Effect where
  | status (n : Int)
  | header (k v : Bytes)
  | contentType (v : Bytes)
  | write (b : Bytes)
  | user (u : UserContext)
  | auditResource (resourceType resourceID : Bytes)
  | abort

def contentTypeKey : Bytes := str "Content-Type"

def capture (head b : Bytes) : Bytes := head ++ b.take (512 - head.length)

def Effect.apply (c : Ctx) : Effect → Ctx
  | .status n => { c with status := n }
  | .header k v => { c with header := Function.update c.header k v }
  | .contentType v => if c.header contentTypeKey = [] then { c with header := Function.update c.header contentTypeKey v } else c
  | .write b => { c with written := c.written ++ b, head := c.head.map fun h => capture h b }
  | .user u => { c with user := some u }
  | .auditResource t id => { c with auditResource := some (t, id) }
  | .abort => { c with aborted := true }

def applyAll (c : Ctx) (es : List Effect) : Ctx := es.foldl Effect.apply c

structure Behaviour where
  effects : Ctx → List Effect
  panics : Ctx → Bool

def Behaviour.run (b : Behaviour) (c : Ctx) : End Ctx :=
  if b.panics c then .panicked (applyAll c (b.effects c)) else .returned (applyAll c (b.effects c))

/-- `AbortWithStatus`. -/
def abortWithStatus (n : Int) : List Effect := [.abort, .status n]

/-- `AbortWithStatusJSON`. -/
def abortWithStatusJSON (n : Int) (body : Bytes) : List Effect :=
  [.abort, .status n, .contentType (str "application/json; charset=utf-8"), .write body]

/-- The envelope `{"status":{"code":…,"msg":…}}`. -/
def statusBody (code : Int) (msg : Bytes) : Bytes :=
  Json.object [Json.member (str "status") (Json.object [Json.member (str "code") (Bytes.itoa code), Json.member (str "msg") (Json.quote msg)])]

/-- `c` is reached from `c₀`, where a `codeCaptureWriter` was put in place, by the rest of the chain: no
event is recorded there, and the head is the beginning of what was written. -/
structure Inside (c₀ c : Ctx) : Prop where
  fullPath : c.fullPath = c₀.fullPath
  trail : c.trail = c₀.trail
  recovered : c.recovered = c₀.recovered
  captured : ∃ b, c.written = c₀.written ++ b ∧ c.head = some (b.take 512)

variable {c₀ c : Ctx}

theorem Inside.refl (h : c₀.head = some []) : Inside c₀ c₀ := ⟨rfl, rfl, rfl, [], by simp, by simpa using h⟩

theorem capture_take (b x : Bytes) : capture (b.take 512) x = (b ++ x).take 512 := by
  rw [capture, List.take_append, List.length_take]
  congr 2
  omega

theorem Inside.effect (h : Inside c₀ c) (e : Effect) : Inside c₀ (e.apply c) := by
  obtain ⟨h1, h2, h3, b, hw, hb⟩ := h
  cases e with
  | write x => exact ⟨h1, h2, h3, b ++ x, by simp [Effect.apply, hw], by simp [Effect.apply, hb, capture_take]⟩
  | contentType v =>
    unfold Effect.apply
    split_ifs <;> exact ⟨h1, h2, h3, b, hw, hb⟩
  | _ => exact ⟨h1, h2, h3, b, hw, hb⟩

end Http
