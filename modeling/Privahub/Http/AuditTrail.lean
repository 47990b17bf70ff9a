import Privahub.Http.Context
import Privahub.Http.KeyNames
import Privahub.Lib.Regexp

/-!
# The audit trail middleware

`middleware/audit_trail.go`: which requests are recorded, the ids read from the body, and the event
made of the response. `redactQuery` is a parameter: nothing here depends on what it leaves of a query.
-/

namespace Http

open Chain

def readOnlyLastSegments : List Bytes :=
  [str "list", str "get", str "detail", str "page", str "info", str "status", str "logs", str "log", str "output",
    str "i18n", str "version", str "current", str "nodes", str "listNode", str "participants", str "max_index",
    str "pending", str "id", str "modelPartyPath", str "getOutTable", str "healthz", str "env", str "docs"]

def alwaysAuditPaths : List Bytes :=
  [str "/api/v1alpha1/audit/list", str "/api/v1alpha1/audit/verify", str "/api/v1alpha1/data/download",
    str "/api/v1alpha1/node/token", str "/api/v1alpha1/inst/node/token", str "/api/v1alpha1/edgeDataSync/log",
    str "/api/v1alpha1/user/list", str "/api/v1alpha1/nodeUser/list", str "/api/v1alpha1/inst/list",
    str "/api/v1alpha1/project/job/task/output"]

def loginPaths : List Bytes := [str "/api/login", str "/api/v1alpha1/user/login"]

def auditIDFields : List Bytes :=
  [str "graphId", str "jobId", str "taskId", str "datatableId", str "datasourceId", str "modelId", str "servingId",
    str "scheduleId", str "scheduleTaskId", str "routeId", str "nodeRouteId", str "voteId", str "voteParticipantId",
    str "instId", str "nodeId", str "projectId", str "ownerId", str "domainId", str "userId"]

def routeResourceField : List (Bytes × Bytes) :=
  [(str "project", str "projectId"), (str "graph", str "graphId"), (str "node", str "nodeId"),
    (str "datatable", str "datatableId"), (str "datasource", str "datasourceId"), (str "inst", str "instId"),
    (str "model", str "modelId"), (str "scheduled", str "scheduleId"), (str "nodeRoute", str "routeId"),
    (str "approval", str "voteId"), (str "message", str "voteId"), (str "featureTable", str "datatableId"),
    (str "graphDatasource", str "graphId"), (str "data", str "nodeId"), (str "nodeUser", str "nodeId")]

def shouldAudit (method path : Bytes) : Bool :=
  if !hasPrefix path (str "/api/") then false
  else if path ∈ alwaysAuditPaths then true
  else if method ∉ [str "POST", str "PUT", str "DELETE", str "PATCH"] then false
  else decide (path.rtakeWhile (· ≠ 47) ∉ readOnlyLastSegments)

def auditBodyPeek : Nat := 65536

def Body.complete (b : Body) : Bool := decide (b.content.length ≤ auditBodyPeek) && (b.ending == .eof || b.ending == .cut)

def lastValue (ms : List (Bytes × Json)) (key : Bytes) : Option Json :=
  (ms.reverse.find? fun m => decide (Json.unquote m.1 = key)).map Prod.snd

/-- A value read as a string, else as a `json.Number`. -/
def idText : Json → Option Bytes
  | .str lit => some (Utf8.trimSpace (Json.unquote lit))
  | .null => some []
  | .num lit => some lit
  | _ => none

variable (u : CaseTables)

def getID (ms : List (Bytes × Json)) (field : Bytes) : Bytes :=
  match (lastValue ms field).bind idText with
  | some v => v
  | none => (((lastValue ms (toSnakeCase u field)).bind idText)).getD []

def peekObject (req : Request) : Option (List (Bytes × Json)) :=
  match req.body with
  | none => none
  | some b =>
    let ct := req.header contentTypeKey
    if ct ≠ [] ∧ !containsStr (toLowerAscii ct) (str "json") then none
    else if !b.complete then none
    else
      let trimmed := Utf8.trimSpace b.content
      if trimmed.head? ≠ some 123 then none
      else match Json.parse trimmed with
        | some (.obj ms) => some ms
        | _ => none

def peekBodyIDs (req : Request) : List (Bytes × Bytes) :=
  match peekObject req with
  | none => []
  | some ms =>
    let ids := auditIDFields.filterMap fun f => let v := getID u ms f; if v ≠ [] then some (f, v) else none
    let names := [str "name", str "username", str "userName"].map (getID u ms)
    if req.path ∈ loginPaths then ids ++ ((names.find? (· ≠ [])).map fun v => (str "name", v)).toList else ids

/-- A map lookup, `""` for an absent key. -/
def lookup (m : List (Bytes × Bytes)) (k : Bytes) : Bytes := ((m.find? fun e => decide (e.1 = k)).map Prod.snd).getD []

def resultSuccess : Bytes := str "success"
def resultFailure : Bytes := str "failure"
def resultDenied : Bytes := str "denied"

/-- `errcode.AuthFailed`. -/
def authFailedCode : Int := 202011602

def auditResult (status : Int) (code : Option Int) : Bytes × Bytes :=
  if status = 401 ∨ status = 403 then (resultDenied, str "http " ++ Bytes.itoa status)
  else if 400 ≤ status then (resultFailure, str "http " ++ Bytes.itoa status)
  else match code with
    | none => (resultSuccess, [])
    | some n =>
      if n = 0 then (resultSuccess, [])
      else if n = authFailedCode then (resultDenied, str "code " ++ Bytes.itoa n)
      else (resultFailure, str "code " ++ Bytes.itoa n)

/-- `\s`. -/
def reSpace (b : UInt8) : Bool := b == 32 || b == 9 || b == 10 || b == 12 || b == 13

def reNotBrace (b : UInt8) : Bool := b != 123 && b != 125

open Regexp in
/-- `(-?\d+)` -/
def reNumber : List Piece := [.opt 45, .one Bytes.isDigit, .star Bytes.isDigit true]

open Regexp in
/-- `"status"\s*:\s*\{[^{}]*?"code"\s*:\s*(-?\d+)` -/
def statusCodeRe (head : Bytes) : Option Bytes :=
  find (literal (str "\"status\"") ++ ([.star reSpace true, .byte 58, .star reSpace true, .byte 123, .star reNotBrace false] ++
    (literal (str "\"code\"") ++ [.star reSpace true, .byte 58, .star reSpace true]))) reNumber head

open Regexp in
/-- `^\s*\{\s*"code"\s*:\s*(-?\d+)` -/
def topCodeRe (head : Bytes) : Option Bytes :=
  matchHere ([.star reSpace true, .byte 123, .star reSpace true] ++ (literal (str "\"code\"") ++
    [.star reSpace true, .byte 58, .star reSpace true])) reNumber head

/-- `codeCaptureWriter.code`. -/
def codeOf (contentType head : Bytes) : Option Int :=
  if !containsStr (toLowerAscii contentType) (str "json") then none
  else ((statusCodeRe head).orElse fun _ => topCodeRe head).bind Json.parseInt64

def auditResource (c : Ctx) (route : Bytes) (ids : List (Bytes × Bytes)) : Bytes × Bytes :=
  match c.auditResource with
  | some (t, id) => if id ≠ [] then (t, id) else fromBody
  | none => fromBody
where
  fromBody : Bytes × Bytes :=
    let seg := (trimPrefix (trimPrefix (trimPrefix route (str "/api/v1alpha1/")) (str "/api/")) (str "p2p/")).takeWhile (· ≠ 47)
    let f := lookup routeResourceField seg
    if f ≠ [] ∧ lookup ids f ≠ [] then (seg, lookup ids f)
    else match auditIDFields.find? fun f => lookup ids f ≠ [] with
      | some f => (trimSuffix f (str "Id"), lookup ids f)
      | none => (seg, [])

def actorUser : Bytes := str "user"
def actorNode : Bytes := str "node"
def actorAnonymous : Bytes := str "anonymous"

def auditEvent (redactQuery : Bytes → Bytes) (start : Int) (ids : List (Bytes × Bytes)) (route : Bytes) (c : Ctx) : Audit.Event :=
  let code := codeOf (c.header contentTypeKey) (c.head.getD [])
  let result := auditResult c.status code
  let tid := c.header (str "X-Trace-ID")
  let ids' := ids.filter fun e => decide (e.1 ≠ str "name")
  let resource := auditResource c route ids'
  let claimed := if c.user = none ∧ route ∈ loginPaths ∧ lookup ids (str "name") ≠ [] then
    [(str "claimedUser", lookup ids (str "name"))] else []
  let query := redactQuery c.req.rawQuery
  { time := start
    actor := (c.user.map UserContext.name).getD []
    actorType := match c.user with
      | some user => if user.virtualUserForNode then actorNode else actorUser
      | none => actorAnonymous
    ownerId := (c.user.map UserContext.ownerId).getD []
    ip := c.clientIP
    action := c.req.method ++ str " " ++ route
    resourceType := resource.1
    resourceId := resource.2
    result := result.1
    reason := result.2
    traceId := if tid ≠ [] then tid else c.req.header (str "X-Trace-ID")
    extra := [(str "status", Bytes.itoa c.status)] ++ claimed ++ ids' ++
      (if query ≠ [] then [(str "query", query)] else []) ++ (code.map fun n => (str "code", Bytes.itoa n)).toList }

/-- `AuditTrail` from the return of `c.Next()` on. -/
def record (redactQuery : Bytes → Bytes) (start : Int) (ids : List (Bytes × Bytes)) (c : Ctx) : Ctx :=
  if c.fullPath = [] ∧ c.status = 404 then { c with head := none }
  else
    let route := if c.fullPath = [] then c.req.path else c.fullPath
    { c with head := none, trail := c.trail ++ [auditEvent redactQuery start ids route c] }

def AuditTrail (redactQuery : Bytes → Bytes) (start : Int) : Handler Ctx := .around fun next c =>
  if c.req.method = str "OPTIONS" ∨ !shouldAudit c.req.method c.req.path then next c
  else match next { c with head := some [] } with
    | .panicked d => .panicked d
    | .returned d => .returned (record redactQuery start (peekBodyIDs u c.req) d)

end Http
