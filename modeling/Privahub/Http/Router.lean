import Privahub.Http.AuditTrail
import Privahub.Http.CaseKeys

/-!
# The routers

`router.go` and `inner_router.go`: the middlewares in the order in which the two ports run them around a
route. The guards and the handler of a route are arbitrary behaviours. The metrics and the twin keys of a
response (`written` is the body before them) leave the rest of a context as it is.
-/

namespace Http

open Chain

variable (u : CaseTables)

def effects (f : Ctx → List Effect) : Handler Ctx := .step fun c => .returned (applyAll c (f c))

def guard (b : Behaviour) : Handler Ctx := .step b.run

def handler (b : Behaviour) : Handler Ctx := .step fun c => b.run { c with handled := some c.req }

def CaseKeysResponse : Handler Ctx := .around fun next c => next c

def Metrics : Handler Ctx := .around fun next c => next c

/-- `fresh` is the identifier made where the request has none. -/
def traceID (fresh : Bytes) (c : Ctx) : Bytes :=
  if c.req.header (str "Trace-Id") ≠ [] then c.req.header (str "Trace-Id")
  else if c.req.header (str "X-Trace-ID") ≠ [] then c.req.header (str "X-Trace-ID") else fresh

def TraceID (fresh : Bytes) : Handler Ctx :=
  effects fun c => [.header (str "X-Trace-ID") (traceID fresh c), .header (str "Trace-Id") (traceID fresh c)]

/-- `errcode.SystemUnknownError`. -/
def systemUnknownErrorCode : Int := 202011101

def recoverWith (c : Ctx) : Ctx :=
  applyAll { c with recovered := true } (abortWithStatusJSON 200 (statusBody systemUnknownErrorCode (str "system unknown error")))

def Recovery : Handler Ctx := .around fun next c =>
  match next c with
  | .returned d => .returned d
  | .panicked d => .returned (recoverWith d)

def corsOrigins (allowed : List Bytes) : List Bytes :=
  (if allowed = [] then [str "http://localhost:8000", str "http://127.0.0.1:8000"] else allowed).map
    fun o => trimRightSlash (Utf8.trimSpace o)

def CORS (allowed : List Bytes) : Handler Ctx := effects fun c =>
  let origin := c.req.header (str "Origin")
  (if origin ≠ [] ∧ origin ∈ corsOrigins allowed then
      [.header (str "Access-Control-Allow-Origin") origin, .header (str "Access-Control-Allow-Credentials") (str "true")]
    else if origin ≠ [] ∧ str "*" ∈ corsOrigins allowed then [.header (str "Access-Control-Allow-Origin") origin]
    else []) ++
  [.header (str "Access-Control-Allow-Methods") (str "GET, POST, PUT, DELETE, OPTIONS"),
    .header (str "Access-Control-Allow-Headers") (str "Origin, Content-Type, Authorization, X-Trace-ID, Trace-Id, User-Token, token, Accept-Language, X-CSRF-Token, X-Privahub-Session"),
    .header (str "Access-Control-Max-Age") (str "86400")] ++
  (if c.req.method = str "OPTIONS" then abortWithStatus 204 else [])

/-- The headers of `SecurityHeadersWith` for a content security policy and with or without HSTS. -/
def SecurityHeaders (csp : Bytes) (hsts : Bool) : Handler Ctx := effects fun _ =>
  (if csp ≠ str "-" then [.header (str "Content-Security-Policy") csp] else []) ++
  [.header (str "X-Content-Type-Options") (str "nosniff"), .header (str "X-Frame-Options") (str "DENY"),
    .header (str "Referrer-Policy") (str "no-referrer"),
    .header (str "Permissions-Policy") (str "camera=(), microphone=(), geolocation=(), payment=(), usb=(), interest-cohort=()"),
    .header (str "Cross-Origin-Opener-Policy") (str "same-origin"), .header (str "Cache-Control") (str "no-store")] ++
  (if hsts then [.header (str "Strict-Transport-Security") (str "max-age=31536000; includeSubDomains")] else [])

def ExtraHeaders (headers : List (Bytes × Bytes)) : Handler Ctx := effects fun _ =>
  (headers.filter fun h => h.1 ≠ []).map fun h => .header h.1 h.2

def pathSet (paths : List Bytes) : List Bytes :=
  ((paths.map Utf8.trimSpace).filter (· ≠ [])).map trimRightSlash

def BlockInnerPaths (paths : List Bytes) : Handler Ctx := effects fun c =>
  if trimRightSlash c.req.path ∈ pathSet paths then abortWithStatus 404 ++ [.write (str "404")] else []

/-- `login` decides as `edgeCheckLogin` does and `denied` are its effects where it refuses, before it
aborts; `proxy` are the effects of the center's answer, or of the failure to get one. -/
structure EdgeForwardConfig where
  forward : List Bytes
  includes : List Bytes
  login : Ctx → Bool
  denied : Ctx → List Effect
  proxy : Ctx → List Effect

def EdgeForwardConfig.passes (cfg : EdgeForwardConfig) (path : Bytes) : Prop :=
  trimRightSlash path ∉ pathSet cfg.forward ∧
  (hasPrefix (trimRightSlash path) (str "/api/v1alpha1") = true → trimRightSlash path ∈ pathSet cfg.includes)

def EdgeForward (cfg : EdgeForwardConfig) : Handler Ctx := effects fun c =>
  let p := trimRightSlash c.req.path
  if p ∈ pathSet cfg.forward then
    if c.req.method = str "OPTIONS" then []
    else if !cfg.login c then cfg.denied c ++ [.abort]
    else cfg.proxy c ++ [.abort]
  else if hasPrefix p (str "/api/v1alpha1") ∧ p ∉ pathSet cfg.includes then abortWithStatus 404
  else []

/-- `exhausted` tells whether the bucket of the client is empty. -/
def RateLimiter (exhausted : Ctx → Bool) : Handler Ctx := effects fun c =>
  if exhausted c then
    .header (str "Retry-After") (str "1") :: abortWithStatusJSON 429 (statusBody 429 (str "too many requests"))
  else []

/-- `http.MaxBytesReader`. -/
def maxBytesReader (n : Nat) : Option Body → Body
  | none => ⟨[], .eof⟩
  | some b => if b.content.length ≤ n then b else ⟨b.content.take n, .tooLarge⟩

def BodyLimitWithOverrides (defaultMax : Int) (overrides : List (Bytes × Int)) : Handler Ctx := .step fun c =>
  let maxBytes := ((overrides.find? fun e => decide (e.1 = c.req.path)).map Prod.snd).getD defaultMax
  .returned (if maxBytes ≤ 0 then c
    else if maxBytes < c.req.contentLength then
      applyAll c (abortWithStatusJSON 413 (statusBody 413 (str "request body too large")))
    else { c with req := { c.req with body := some (maxBytesReader maxBytes.toNat c.req.body) } })

/-- A registered route: its guards in front of the body rewriting (on the inner port only), its guards
behind it, and its handler. -/
structure Route where
  early : List Behaviour
  guards : List Behaviour
  handler : Behaviour

structure RouterConfig where
  freshTrace : Bytes
  corsAllowedOrigins : List Bytes
  csp : Bytes
  hsts : Bool
  extraResponseHeaders : List (Bytes × Bytes)
  innerPortPaths : List Bytes
  edge : Option EdgeForwardConfig
  disabledRoutes : List Bytes
  redactQuery : Bytes → Bytes
  start : Int
  rateLimited : Ctx → Bool
  maxBodySize : Int
  uploadLimits : List (Bytes × Int)
  floats : Floats
  mapOrder : MapOrder
  message : Bytes → Bytes

/-- The middlewares in front of `AuditTrail` on the main port. -/
def RouterConfig.front (cfg : RouterConfig) : List (Handler Ctx) :=
  [Metrics, CORS cfg.corsAllowedOrigins, SecurityHeaders cfg.csp cfg.hsts, ExtraHeaders cfg.extraResponseHeaders,
    BlockInnerPaths cfg.innerPortPaths] ++ (cfg.edge.map EdgeForward).toList ++ [BlockInnerPaths cfg.disabledRoutes]

/-- What `AuditTrail` encloses. -/
def RouterConfig.audited (cfg : RouterConfig) (r : Route) : List (Handler Ctx) :=
  [RateLimiter cfg.rateLimited, BodyLimitWithOverrides cfg.maxBodySize cfg.uploadLimits,
    CaseKeysRequest cfg.floats u cfg.mapOrder cfg.message] ++ r.guards.map guard ++ [handler r.handler]

def NewRouter (cfg : RouterConfig) (r : Route) : List (Handler Ctx) :=
  [CaseKeysResponse, TraceID cfg.freshTrace, Recovery] ++ cfg.front ++ [AuditTrail u cfg.redactQuery cfg.start] ++
    cfg.audited u r

def NewInnerRouter (cfg : RouterConfig) (r : Route) : List (Handler Ctx) :=
  [TraceID cfg.freshTrace, Recovery, BodyLimitWithOverrides cfg.maxBodySize [], BlockInnerPaths cfg.disabledRoutes] ++
    r.guards.map guard ++ [handler r.handler]

def MountEdgeForwardTargets (cfg : RouterConfig) (r : Route) : List (Handler Ctx) :=
  [TraceID cfg.freshTrace, Recovery, BodyLimitWithOverrides cfg.maxBodySize [], BlockInnerPaths cfg.disabledRoutes,
    CaseKeysResponse] ++ r.early.map guard ++ [CaseKeysRequest cfg.floats u cfg.mapOrder cfg.message] ++
    r.guards.map guard ++ [handler r.handler]

/-- The context in which the chain of a route (`fullPath`) starts on a request. -/
def Ctx.start (req : Request) (fullPath clientIP : Bytes) : Ctx :=
  { req, fullPath, clientIP, status := 200, header := fun _ => [], written := [], head := none, user := none,
    auditResource := none, aborted := false, trail := [], handled := none, recovered := false }

/-- Answer a request whose route is registered as `fullPath`. -/
def answer (chain : List (Handler Ctx)) (req : Request) (fullPath clientIP : Bytes) : Ctx :=
  (serve Ctx.aborted chain (Ctx.start req fullPath clientIP)).state

end Http
