import Mathlib.Data.List.DropRight
import Privahub.Lib.Fields
import Privahub.Lib.Unicode

/-!
# Cookie sessions

How a request on the main port gets its identity (auth.go), what is asked of one that comes with the session cookie
(browser_session.go), and the forwarder of an edge in front of it (edge_forward.go), which sends what it forwards on as a POST.
`guarded_iff`: the cookie's identity comes with an allowed origin and the CSRF token, unless a path that is forwarded is asked for with a
method that counts as one that changes nothing.
-/

namespace Http.Session

open Utf8

/-- A request as net/http hands it on: header values by canonical name, cookies in their order. `sendable`: the body is read within the
limit of the forwarder. -/
structure Request where
  method : Bytes
  path : Bytes
  host : Bytes
  tls : Bool
  header : Bytes → List Bytes
  cookies : List (Bytes × Bytes)
  sendable : Bool

structure BrowserSessionConfig where
  secure : Option Bool
  allowedOrigins : List Bytes
  allowAnyOrigin : Bool

structure Claims where
  userID : Bytes
  pwdVer : Nat
  access : Bool

structure UserContext where
  userID : Bytes
  pwdVer : Nat
  mustChangePassword : Bool

/-- What the checks ask of elsewhere: the JWT manager, which may be missing, and the sessions. -/
structure Sessions where
  validateToken : Option (Bytes → Option Claims)
  validateSession : Bytes → Option UserContext

/-- The case tables, and the scheme and the host that `url.Parse` finds. -/
structure Std where
  tables : CaseTables
  urlParse : Bytes → Option (Bytes × Bytes)

structure EdgeForwardConfig where
  Forward : List Bytes
  Include : List Bytes

/-- The main port. `routes`: whether the route of a method and a path, if there is one, is behind `SessionAuth`. -/
structure Server where
  std : Std
  browser : BrowserSessionConfig
  edge : Option EdgeForwardConfig
  authEnabled : Bool
  routes : Bytes → Bytes → Option Bool

inductive Identity
  | anonymous
  | disabledAuth
  | session (u : UserContext) (fromCookie : Bool)

structure Rejection where
  status : Nat
  reason : Bytes
  deriving DecidableEq

/-- What becomes of a request: it is turned down, it runs a handler, or it is sent to the center. -/
inductive Outcome
  | rejected (r : Rejection)
  | notFound
  | handled (id : Identity)
  | forwarded (id : Identity)

def GET : Bytes := str "GET"
def POST : Bytes := str "POST"
def OPTIONS : Bytes := str "OPTIONS"

def trimRightSlash (s : Bytes) : Bytes := s.rdropWhile (· == 47)

/-- `strings.ToUpper` of a method, whose bytes are ASCII. -/
def toUpperAscii (s : Bytes) : Bytes := s.map fun b => if 97 ≤ b ∧ b ≤ 122 then b - 32 else b

/-- `strings.EqualFold`. -/
def equalFold (u : CaseTables) (a b : Bytes) : Bool :=
  decide ((runes a).map (fun r => u.foldRune r.1) = (runes b).map fun r => u.foldRune r.1)

/-- `strings.ToLower`. -/
def toLower (u : CaseTables) (s : Bytes) : Bytes := (runes s).flatMap fun r => encodeRune (u.toLower r.1)

def hexVal (b : UInt8) : Option UInt8 :=
  if 48 ≤ b ∧ b ≤ 57 then some (b - 48)
  else if 97 ≤ b ∧ b ≤ 102 then some (b - 87)
  else if 65 ≤ b ∧ b ≤ 70 then some (b - 55)
  else none

/-- `url.QueryUnescape`. -/
def queryUnescape : Bytes → Option Bytes
  | [] => some []
  | 37 :: a :: b :: s => match hexVal a, hexVal b with
    | some x, some y => (queryUnescape s).map fun t => (x * 16 + y) :: t
    | _, _ => none
  | c :: s => if c = 37 then none else (queryUnescape s).map fun t => (if c = 43 then 32 else c) :: t

namespace Request

variable (r : Request)

def getHeader (name : Bytes) : Bytes := (r.header name).headD []

/-- gin's `Cookie`: the first of the name; a value that is not escaped as it should be is empty. -/
def cookie (name : Bytes) : Option Bytes := (r.cookies.find? fun c => c.1 == name).map fun c => (queryUnescape c.2).getD []

end Request

def authorizationKey : Bytes := str "Authorization"

def credentialHeaders : List Bytes := [str "User-Token", authorizationKey, str "Token"]

def bearer (u : CaseTables) (value : Bytes) : Option Bytes := match fields value with
  | [scheme, token] => if equalFold u scheme (str "Bearer") then some token else none
  | _ => none

def extractHeaderToken (u : CaseTables) (r : Request) : Bytes :=
  let t := trimSpace (r.getHeader (str "User-Token"))
  if t ≠ [] then t
  else match bearer u (r.getHeader authorizationKey) with
    | some token => trimSpace token
    | none => trimSpace (r.getHeader (str "Token"))

/-- The value of one of the headers, `none` if it is no token. -/
def credential (u : CaseTables) (name value : Bytes) : Option Bytes :=
  let value := trimSpace value
  let token := if name = authorizationKey then bearer u value else some value
  token.filter fun t => !t.isEmpty && !t.any fun b => (str " \t\r\n,").contains b

def credentialsFrom (u : CaseTables) (r : Request) : List Bytes → Bytes → Bool
  | [], _ => true
  | name :: names, selected => match r.header name with
    | [] => credentialsFrom u r names selected
    | [value] => match credential u name value with
      | some token => if selected ≠ [] ∧ selected ≠ token then false else credentialsFrom u r names token
      | none => false
    | _ => false

def credentialHeadersValid (u : CaseTables) (r : Request) : Bool := credentialsFrom u r credentialHeaders []

structure CookieNames where
  session : Bytes
  csrf : Bytes

def cookieNames : Bool → CookieNames
  | true => ⟨str "__Host-privahub_session", str "__Host-privahub_csrf"⟩
  | false => ⟨str "privahub_session", str "privahub_csrf"⟩

def normalizeOrigin (u : CaseTables) (o : Bytes) : Bytes := trimRightSlash (toLower u (trimSpace o))

/-- `SetBrowserSessionConfig`. -/
def setBrowserSessionConfig (u : CaseTables) (cfg : BrowserSessionConfig) : BrowserSessionConfig :=
  { cfg with allowedOrigins := (cfg.allowedOrigins.map (normalizeOrigin u)).filter fun o => !o.isEmpty && o != str "*" }

def isStateChangingMethod (method : Bytes) : Bool := !([GET, str "HEAD", OPTIONS, str "TRACE"].contains (toUpperAscii method))

namespace Server

variable (s : Server) (e : Sessions) (r : Request)

def cfg : BrowserSessionConfig := setBrowserSessionConfig s.std.tables s.browser

def cookieSecure : Bool :=
  s.cfg.secure.getD (r.tls || equalFold s.std.tables (trimSpace (r.getHeader (str "X-Forwarded-Proto"))) (str "https"))

def sessionCookieToken : Bytes := ((r.cookie (cookieNames (s.cookieSecure r)).session).map trimSpace).getD []

def extractTokenWithSource : Bytes × Bool :=
  let t := extractHeaderToken s.std.tables r
  if t ≠ [] then (t, false)
  else if s.sessionCookieToken r ≠ [] then (s.sessionCookieToken r, true)
  else ([], false)

def requestOrigin : Bytes :=
  let o := trimSpace (r.getHeader (str "Origin"))
  if o ≠ [] ∧ o ≠ str "null" then normalizeOrigin s.std.tables o
  else
    let ref := trimSpace (r.getHeader (str "Referer"))
    if ref = [] then []
    else match s.std.urlParse ref with
      | some (scheme, host) => if scheme = [] ∨ host = [] then [] else normalizeOrigin s.std.tables (scheme ++ str "://" ++ host)
      | none => []

/-- The origin is one of those allowed, or its host is the one that is asked. -/
def originListed (origin : Bytes) : Bool :=
  s.cfg.allowedOrigins.contains origin ||
    (s.std.urlParse origin).any fun u => decide (u.2 ≠ []) && equalFold s.std.tables u.2 r.host

def originAllowed (origin : Bytes) : Bool := s.cfg.allowAnyOrigin || decide (origin ≠ []) && s.originListed r origin

def csrfCookie : Bytes := (r.cookie (cookieNames (s.cookieSecure r)).csrf).getD []

def csrfHeader : Bytes := trimSpace (r.getHeader (str "X-Csrf-Token"))

/-- `none` where there is nothing to object to. -/
def verifyBrowserRequest : Option Bytes :=
  if isStateChangingMethod r.method = false then none
  else if s.cfg.allowAnyOrigin = false ∧ s.requestOrigin r = [] then some (str "missing Origin")
  else if s.cfg.allowAnyOrigin = false ∧ s.originAllowed r (s.requestOrigin r) = false then some (str "origin not allowed")
  else if s.csrfCookie r = [] ∨ csrfHeader r = [] ∨ s.csrfCookie r ≠ csrfHeader r then some (str "invalid CSRF token")
  else none

def mustChangePasswordAllowed : List Bytes :=
  [str "/api/v1alpha1/user/get", str "/api/v1alpha1/user/current", str "/api/v1alpha1/user/updatePwd", str "/api/v1alpha1/user/logout",
    str "/api/logout"]

def authFailed (reason : Bytes) : Rejection := ⟨401, reason⟩

def claimsOf (token : Bytes) : Except Rejection (Option Claims) :=
  match e.validateToken with
  | some validate =>
    if token.count 46 = 2 then match validate token with
      | none => .error (authFailed (str "login is expire, please login again."))
      | some c => if c.access then .ok (some c) else .error (authFailed (str "invalid token type"))
    else .ok none
  | none => .ok none

def sessionOf (token : Bytes) : Except Rejection UserContext :=
  match claimsOf e token with
  | .error j => .error j
  | .ok claims => match e.validateSession token with
    | none => .error (authFailed (str "login is required"))
    | some u =>
      if claims.any fun c => c.pwdVer != u.pwdVer then .error (authFailed (str "login is expire, please login again."))
      else if u.mustChangePassword ∧ trimRightSlash r.path ∉ mustChangePasswordAllowed then .error ⟨403, []⟩
      else .ok { u with userID := if u.userID = [] then (claims.map Claims.userID).getD [] else u.userID }

def browserCheck : Option Bytes := if (s.extractTokenWithSource r).2 then s.verifyBrowserRequest r else none

def authenticateSession : Except Rejection Identity :=
  if credentialHeadersValid s.std.tables r = false then .error (authFailed (str "ambiguous or malformed authentication headers"))
  else if (s.extractTokenWithSource r).1 = [] then .error (authFailed (str "login is required"))
  else match s.browserCheck r with
    | some reason => .error ⟨403, reason⟩
    | none => match sessionOf e r (s.extractTokenWithSource r).1 with
      | .error j => .error j
      | .ok u => .ok (.session u (s.extractTokenWithSource r).2)

def sessionAuth : Outcome :=
  if r.method = OPTIONS then .handled .anonymous
  else if s.authEnabled = false then .handled .disabledAuth
  else match s.authenticateSession e r with
    | .error j => .rejected j
    | .ok id => .handled id

def serveLocal : Outcome := match s.routes r.method r.path with
  | none => .notFound
  | some false => .handled .anonymous
  | some true => s.sessionAuth e r

def pathSet (paths : List Bytes) : List Bytes := ((paths.map trimSpace).filter fun p => !p.isEmpty).map trimRightSlash

def edgeProxy (id : Identity) : Outcome :=
  if r.sendable then .forwarded id else .rejected ⟨413, str "request body too large or unreadable"⟩

/-- `sessions` is `none` where authentication is off: nothing is checked then. -/
def edgeForward (c : EdgeForwardConfig) (sessions : Option Sessions) (next : Outcome) : Outcome :=
  if (pathSet c.Forward).contains (trimRightSlash r.path) then
    if r.method = OPTIONS then next
    else match sessions with
      | none => edgeProxy r .anonymous
      | some e => match s.authenticateSession e r with
        | .error j => .rejected j
        | .ok id => edgeProxy r id
  else if (str "/api/v1alpha1").isPrefixOf (trimRightSlash r.path) ∧ (pathSet c.Include).contains (trimRightSlash r.path) = false then .notFound
  else next

def serve (edgeSessions : Option Sessions) : Outcome := match s.edge with
  | some c => s.edgeForward r c edgeSessions (s.serveLocal e r)
  | none => s.serveLocal e r

end Server

variable {s : Server} {e : Sessions} {edgeSessions : Option Sessions} {r : Request} {id : Identity} {u : UserContext}

/-- The origin of the request is an allowed one, or that of the host. -/
def AllowedOrigin (s : Server) (r : Request) : Prop := s.requestOrigin r ≠ [] ∧ s.originListed r (s.requestOrigin r) = true

def CsrfEcho (s : Server) (r : Request) : Prop := s.csrfCookie r ≠ [] ∧ Server.csrfHeader r = s.csrfCookie r

/-- A handler of a POST is run, or a write sent on, under the identity. -/
def Writes (s : Server) (e : Sessions) (edgeSessions : Option Sessions) (r : Request) (id : Identity) : Prop :=
  (r.method = POST ∧ s.serve e r edgeSessions = .handled id) ∨ s.serve e r edgeSessions = .forwarded id

structure Guarded (s : Server) (e : Sessions) (edgeSessions : Option Sessions) (r : Request) : Prop where
  checked : ∀ u, Writes s e edgeSessions r (.session u true) → AllowedOrigin s r ∧ CsrfEcho s r
  explicit : ∀ name ∈ credentialHeaders, r.header name ≠ [] → ∀ u, s.serve e r edgeSessions ≠ .handled (.session u true) ∧
    s.serve e r edgeSessions ≠ .forwarded (.session u true)

/-- The path is one that is forwarded, and the method not the one that is let through. -/
def Server.Forwards (s : Server) (r : Request) : Prop :=
  (∃ c, s.edge = some c ∧ (Server.pathSet c.Forward).contains (trimRightSlash r.path) = true) ∧ r.method ≠ OPTIONS ∧ r.sendable = true

/-- The token of the request is that of the session cookie. -/
def Server.TakesCookie (s : Server) (r : Request) : Prop :=
  credentialHeadersValid s.std.tables r = true ∧ extractHeaderToken s.std.tables r = [] ∧ s.sessionCookieToken r ≠ []

/-- The exception: what would be asked of the POST that the request is forwarded as is missing, and is not asked of the request. -/
def Server.Unasked (s : Server) (r : Request) : Prop :=
  s.Forwards r ∧ isStateChangingMethod r.method = false ∧ s.TakesCookie r ∧ s.verifyBrowserRequest { r with method := POST } ≠ none

variable {tables : CaseTables} {names : List Bytes} {name value token selected : Bytes}

theorem bearer_trimSpace : bearer tables (trimSpace value) = bearer tables value := by
  unfold bearer
  rw [fields_trimSpace]

theorem trimSpace_bearer (h : bearer tables value = some token) : trimSpace token ≠ [] := by
  unfold bearer at h
  split at h
  · rename_i scheme t hf
    split_ifs at h
    obtain rfl := Option.some.inj h
    exact trimSpace_field (s := value) (by simp [hf])
  · cases h

theorem header_of_valid (h : credentialsFrom tables r names selected = true) (hn : name ∈ names) (hpresent : r.header name ≠ []) :
    ∃ value token, r.header name = [value] ∧ credential tables name value = some token := by
  induction names generalizing selected with
  | nil => cases hn
  | cons n names ih =>
    simp only [credentialsFrom] at h
    split at h
    · rename_i hnil
      rcases List.mem_cons.1 hn with rfl | hn
      · exact absurd hnil hpresent
      · exact ih h hn
    · rename_i value hone
      split at h
      · rename_i token hc
        split_ifs at h
        rcases List.mem_cons.1 hn with rfl | hn
        · exact ⟨value, token, hone, hc⟩
        · exact ih h hn
      · cases h
    · cases h

theorem getHeader_of_one (h : r.header name = [value]) : r.getHeader name = value := by
  rw [Request.getHeader, h]
  rfl

theorem trimSpace_of_credential (hname : name ≠ authorizationKey) (h : credential tables name value = some token) : trimSpace value ≠ [] := by
  unfold credential at h
  simp only [if_neg hname] at h
  obtain ⟨hv, ht⟩ := Option.filter_eq_some_iff.1 h
  obtain rfl := Option.some.inj hv
  intro hnil
  rw [hnil] at ht
  cases ht

theorem bearer_of_credential (h : credential tables authorizationKey value = some token) : bearer tables value = some token := by
  unfold credential at h
  simp only [if_pos] at h
  rw [← bearer_trimSpace]
  exact (Option.filter_eq_some_iff.1 h).1

theorem extractHeaderToken_ne_nil (h : credentialHeadersValid tables r = true) (hn : name ∈ credentialHeaders) (hpresent : r.header name ≠ []) :
    extractHeaderToken tables r ≠ [] := by
  obtain ⟨value, token, hone, hc⟩ := header_of_valid h hn hpresent
  have hvalue := getHeader_of_one hone
  unfold extractHeaderToken
  simp only
  split_ifs with huser
  · exact huser
  · cases hb : bearer tables (r.getHeader authorizationKey) with
    | some t => exact trimSpace_bearer hb
    | none =>
      show trimSpace (r.getHeader (str "Token")) ≠ []
      rcases List.mem_cons.1 hn with rfl | hn
      · rw [hvalue] at huser
        exact absurd (trimSpace_of_credential (by decide) hc) huser
      rcases List.mem_cons.1 hn with rfl | hn
      · rw [hvalue, bearer_of_credential hc] at hb
        cases hb
      · obtain rfl := List.mem_singleton.1 hn
        rw [hvalue]
        exact trimSpace_of_credential (by decide) hc

theorem isStateChangingMethod_post : isStateChangingMethod POST = true := by decide

theorem asked_of_verify (hcfg : s.cfg.allowAnyOrigin = false) (hm : isStateChangingMethod r.method = true)
    (h : s.verifyBrowserRequest r = none) : AllowedOrigin s r ∧ CsrfEcho s r := by
  rw [Server.verifyBrowserRequest, if_neg (by simp [hm])] at h
  split_ifs at h with h1 h2 h3
  have horigin : s.requestOrigin r ≠ [] := fun he => h1 ⟨hcfg, he⟩
  have hallowed : s.originAllowed r (s.requestOrigin r) = true := by
    by_contra hn
    exact h2 ⟨hcfg, Bool.eq_false_iff.2 hn⟩
  rw [Server.originAllowed, hcfg, Bool.false_or, Bool.and_eq_true] at hallowed
  rw [not_or, not_or, not_not] at h3
  exact ⟨⟨horigin, hallowed.2⟩, h3.1, h3.2.2.symm⟩

theorem verify_of_asked (h : AllowedOrigin s r ∧ CsrfEcho s r) : s.verifyBrowserRequest r = none := by
  obtain ⟨⟨horigin, hlisted⟩, hcookie, hecho⟩ := h
  have hallowed : s.originAllowed r (s.requestOrigin r) = true := by
    rw [Server.originAllowed, hlisted, decide_eq_true horigin]
    simp
  unfold Server.verifyBrowserRequest
  rw [hecho]
  simp [horigin, hallowed, hcookie]

theorem cookie_of_authenticate (h : s.authenticateSession e r = .ok (.session u true)) :
    s.TakesCookie r ∧ s.verifyBrowserRequest r = none := by
  unfold Server.authenticateSession at h
  split_ifs at h with hvalid htoken
  split at h
  · cases h
  · rename_i hverify
    split at h
    · cases h
    · have hsource : (s.extractTokenWithSource r).2 = true := (Identity.session.inj (Except.ok.inj h)).2
      rw [Server.browserCheck, if_pos hsource] at hverify
      have hcookie : extractHeaderToken s.std.tables r = [] ∧ s.sessionCookieToken r ≠ [] := by
        unfold Server.extractTokenWithSource at hsource
        simp only at hsource
        split_ifs at hsource with hheader hcookie
        exact ⟨not_not.1 hheader, hcookie⟩
      exact ⟨⟨Bool.not_eq_false _ ▸ hvalid, hcookie⟩, hverify⟩

theorem authenticated_of_local (h : s.serveLocal e r = .handled (.session u true)) :
    s.authenticateSession e r = .ok (.session u true) ∧ r.method ≠ OPTIONS := by
  unfold Server.serveLocal at h
  split at h
  · cases h
  · cases h
  · unfold Server.sessionAuth at h
    split_ifs at h with hm hoff
    · cases h
    · cases h
    · split at h
      · cases h
      · rename_i id hid
        obtain rfl := Outcome.handled.inj h
        exact ⟨hid, hm⟩

theorem forwarded_local : s.serveLocal e r ≠ .forwarded id := by
  unfold Server.serveLocal Server.sessionAuth
  split
  · nofun
  · nofun
  · split_ifs
    · nofun
    · nofun
    · split <;> nofun

theorem edgeProxy_handled : Server.edgeProxy r id ≠ .handled (.session u true) := by
  unfold Server.edgeProxy
  split_ifs <;> nofun

theorem edgeProxy_forwarded {id' : Identity} (h : Server.edgeProxy r id = .forwarded id') : id = id' ∧ r.sendable = true := by
  unfold Server.edgeProxy at h
  split_ifs at h with hs
  exact ⟨Outcome.forwarded.inj h, hs⟩

theorem handled_cases (h : s.serve e r edgeSessions = .handled (.session u true)) :
    s.authenticateSession e r = .ok (.session u true) := by
  unfold Server.serve at h
  split at h
  · unfold Server.edgeForward at h
    split_ifs at h with hf hm hi
    · exact (authenticated_of_local h).1
    · split at h
      · exact absurd h edgeProxy_handled
      · split at h
        · cases h
        · exact absurd h edgeProxy_handled
    · exact (authenticated_of_local h).1
  · exact (authenticated_of_local h).1

theorem forwarded_cases (h : s.serve e r edgeSessions = .forwarded (.session u true)) :
    s.Forwards r ∧ ∃ e', edgeSessions = some e' ∧ s.authenticateSession e' r = .ok (.session u true) := by
  unfold Server.serve at h
  split at h
  · rename_i c hc
    unfold Server.edgeForward at h
    split_ifs at h with hf hm hi
    · exact absurd h forwarded_local
    · split at h
      · cases (edgeProxy_forwarded h).1
      · rename_i e'
        split at h
        · cases h
        · rename_i id hid
          obtain ⟨rfl, hs⟩ := edgeProxy_forwarded h
          exact ⟨⟨⟨c, hc, hf⟩, hm, hs⟩, e', rfl, hid⟩
    · exact absurd h forwarded_local
  · exact absurd h forwarded_local

theorem not_cookie_of_header (hn : name ∈ credentialHeaders) (hpresent : r.header name ≠ []) :
    s.authenticateSession e r ≠ .ok (.session u true) := by
  intro h
  obtain ⟨⟨hvalid, hnil, -⟩, -⟩ := cookie_of_authenticate h
  exact extractHeaderToken_ne_nil hvalid hn hpresent hnil

theorem guarded_of_asked (hcfg : s.cfg.allowAnyOrigin = false) (h : ¬s.Unasked r) : Guarded s e edgeSessions r where
  checked u hw := by
    rcases hw with ⟨hm, hh⟩ | hf
    · refine asked_of_verify hcfg ?_ (cookie_of_authenticate (handled_cases hh)).2
      rw [hm]
      exact isStateChangingMethod_post
    · obtain ⟨hforwards, e', -, hauth⟩ := forwarded_cases hf
      obtain ⟨htakes, hverify⟩ := cookie_of_authenticate hauth
      by_cases hm : isStateChangingMethod r.method = true
      · exact asked_of_verify hcfg hm hverify
      · have hpost : s.verifyBrowserRequest { r with method := POST } = none := by
          by_contra hne
          exact h ⟨hforwards, Bool.eq_false_iff.2 hm, htakes, hne⟩
        exact asked_of_verify (r := { r with method := POST }) hcfg isStateChangingMethod_post hpost
  explicit name hn hpresent u := by
    constructor
    · exact fun hh => not_cookie_of_header hn hpresent (handled_cases hh)
    · intro hf
      obtain ⟨-, e', -, hauth⟩ := forwarded_cases hf
      exact not_cookie_of_header hn hpresent hauth

def anySession (u : UserContext) : Sessions := ⟨none, fun _ => some u⟩

def alice : UserContext := ⟨str "alice", 1, false⟩

theorem forwarded_of_unasked (h : s.Unasked r) : s.serve e r (some (anySession alice)) = .forwarded (.session alice true) := by
  obtain ⟨⟨⟨c, hc, hf⟩, hm, hs⟩, hsafe, ⟨hvalid, hnil, hcookie⟩, -⟩ := h
  have htoken : s.extractTokenWithSource r = (s.sessionCookieToken r, true) := by
    unfold Server.extractTokenWithSource
    simp [hnil, hcookie]
  have hverify : s.verifyBrowserRequest r = none := by
    rw [Server.verifyBrowserRequest, if_pos hsafe]
  have hauth : s.authenticateSession (anySession alice) r = .ok (.session alice true) := by
    unfold Server.authenticateSession
    have hcheck : s.browserCheck r = none := by
      rw [Server.browserCheck, htoken]
      exact hverify
    rw [htoken, hvalid, hcheck]
    simp only [hcookie]
    rfl
  unfold Server.serve
  rw [hc]
  show s.edgeForward r c _ _ = _
  unfold Server.edgeForward
  rw [if_pos hf, if_neg hm]
  simp only [hauth, Server.edgeProxy, hs]
  rfl

/-- A write under the cookie's identity comes with an allowed origin and the CSRF token, and no request with a credential header has the
cookie's identity, whatever sessions there are: if and only if the request is not of the exception. -/
theorem guarded_iff (hcfg : s.cfg.allowAnyOrigin = false) : (∀ e edgeSessions, Guarded s e edgeSessions r) ↔ ¬s.Unasked r := by
  constructor
  · intro h hun
    have hasked := (h (anySession alice) (some (anySession alice))).checked alice (.inr (forwarded_of_unasked hun))
    exact hun.2.2.2 (verify_of_asked (r := { r with method := POST }) hasked)
  · exact fun h e edgeSessions => guarded_of_asked hcfg h

def edgeServer : Server :=
  ⟨⟨.asciiCase, fun _ => none⟩, ⟨some false, [str "https://console.example"], false⟩, some ⟨[str "/api/v1alpha1/node/update"], []⟩, true,
    fun _ _ => none⟩

def planted : Request :=
  ⟨GET, str "/api/v1alpha1/node/update", str "edge.example", false, fun _ => [],
    [(str "privahub_session", str "tok"), (str "privahub_csrf", str "c1")], true⟩

def console : Request :=
  ⟨POST, str "/api/v1alpha1/node/update", str "edge.example", false,
    fun k => if k = str "Origin" then [str "https://console.example"] else if k = str "X-Csrf-Token" then [str "c1"] else [],
    [(str "privahub_session", str "tok"), (str "privahub_csrf", str "c1")], true⟩

theorem unasked_planted : edgeServer.Unasked planted := by
  refine ⟨⟨⟨_, rfl, ?_⟩, ?_, rfl⟩, ?_, ⟨?_, ?_, ?_⟩, ?_⟩ <;> decide +kernel

theorem forwarded_planted : ∃ s r e edgeSessions, s.cfg.allowAnyOrigin = false ∧ s.serve e r edgeSessions = .forwarded (.session alice true) ∧
    ¬Guarded s e edgeSessions r := by
  have hf := forwarded_of_unasked (e := anySession alice) unasked_planted
  refine ⟨edgeServer, planted, anySession alice, some (anySession alice), rfl, hf, fun h => ?_⟩
  have horigin : edgeServer.requestOrigin planted ≠ [] := (h.checked alice (.inr hf)).1.1
  exact horigin (by decide +kernel)

theorem guarded_console : Guarded edgeServer (anySession alice) (some (anySession alice)) console :=
  (guarded_iff rfl).2 (fun h => absurd h.2.1 (by decide +kernel)) _ _

end Http.Session
