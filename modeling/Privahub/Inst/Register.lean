import Privahub.Lib.Calls
import Privahub.Lib.Table
import Privahub.Lib.Utf8

/-!
# Registration of institution nodes

`NewToken` and `RegisterNode`, one statement at a time. A registration reads the row of its node, checks the token it was given against
that row, writes files and registers a channel, and then marks the token of the row as used, whatever that token and its state are by
now. `registered_once`: as long as each of these writes finds the token and the state as its registration has read them, a token leads
to one registration at most and no other token is marked used.
-/

namespace Inst

inductive SigningKey
  | derived (instId : Bytes)
  | legacy (instId : Bytes)
  deriving DecidableEq

/-- A signed token; `signNonce` is a fresh UUID. Times in milliseconds, but for `exp`. -/
structure InstToken where
  key : SigningKey
  aud : Bytes
  timestamp : Nat
  signNonce : Nat
  exp : Nat
  kv : Bool
  deriving DecidableEq

structure NodeDO where
  id : Nat
  nodeId : Bytes
  name : Bytes
  instId : Bytes
  instToken : Option InstToken
  instTokenState : Bytes
  netAddress : Bytes
  protocol : Bytes
  deriving DecidableEq

structure NodeEndpoint where
  domainId : Bytes
  mode : Bytes
  host : Bytes
  port : Int
  protocol : Bytes
  certFile : Bytes
  keyFile : Bytes
  caFile : Bytes
  token : Bytes
  deriving DecidableEq

def InstTokenUnused : Bytes := str "UNUSED"
def InstTokenUsed : Bytes := str "USED"
def instTokenExpire : Nat := 30 * 60
def certFileMaxSize : Nat := 2 ^ 20
def instRegisterModeP2P : Bytes := str "p2p"

/-- The tables, with the pool of channels. Every signed token has a nonce below `fresh`. -/
structure Db where
  nodes : List NodeDO
  insts : List Bytes
  pool : List NodeEndpoint
  fresh : Nat
  ids : (nodes.map (·.id)).Nodup
  nodeIds : (nodes.map (·.nodeId)).Nodup
  signed : ∀ n ∈ nodes, ∀ t ∈ n.instToken, t.signNonce < fresh

structure Err where
  code : Nat
  key : Bytes
  msg : Bytes
  deriving DecidableEq

namespace Err

def AuthFailed (msg : Bytes) : Err := ⟨202011602, str "auth.AUTH_FAILED", msg⟩
def InstNotExists (msg : Bytes) : Err := ⟨202011200, str "inst.INST_NOT_EXISTS", msg⟩
def InstRegisterCheckFailed (msg : Bytes) : Err := ⟨202011204, str "inst.INST_REGISTER_CHECK_FAILED", msg⟩
def InstTokenMismatch (msg : Bytes) : Err := ⟨202011205, str "inst.INST_TOKEN_MISMATCH", msg⟩
def InstFileOperationFailed : Err := ⟨202011207, str "inst.INST_FILE_OPERATION_FAILED", []⟩
def InstTokenUsed (msg : Bytes) : Err := ⟨202011208, str "inst.INST_TOKEN_USED", msg⟩
def NodeNotExistError (msg : Bytes) : Err := ⟨202011403, str "node.NODE_NOT_EXIST_ERROR", msg⟩

end Err

/-- The text of a request's token: that of a signed one, or any other. -/
inductive Presented
  | signed (t : InstToken)
  | text (s : Bytes)
  deriving DecidableEq

structure InstRegisterRequest where
  instToken : Presented
  nodeId : Bytes
  host : Bytes
  port : Int
  httpPort : Int
  transPort : Int
  mode : Bytes
  protocol : Bytes
  certFile : Option Bytes
  keyFile : Option Bytes
  token : Option Bytes
  caFile : Bytes

/-- `requireTLS` in production; `secret`: a server secret is installed, since `legacyCutoff`; `validCert` says that the certificate and
the key of a request parse. -/
structure InstService where
  requireTLS : Bool
  secret : Bool
  legacyCutoff : Nat
  certsDir : Bytes
  defaultCAFile : Bytes
  pool : Bool
  validCert : Bytes → Bytes → Bool

/-- How a step goes: the clock, whether the files are written, and whether the pool takes the channel. -/
structure Ending where
  now : Nat
  files : Bool
  channel : Bool

inductive Call
  | newToken (owner nodeId : Bytes)
  | newTokenWrite (owner : Bytes) (n : NodeDO)
  | registerNode (req : InstRegisterRequest) (remoteHost : Bytes)
  | registerCheck (req : InstRegisterRequest) (remoteHost : Bytes) (node : NodeDO)
  | registerFiles (req : InstRegisterRequest) (remoteHost : Bytes) (node : NodeDO)
  | registerWrite (req : InstRegisterRequest) (remoteHost : Bytes) (node : NodeDO)

/-- `registered`: a registration with the token `presented` has succeeded, and has marked these tokens used. -/
inductive Event
  | issued (nodeId : Bytes) (t : InstToken)
  | registered (presented : Presented) (marked : List (Option InstToken))
  | refused (e : Err)

def Event.token : Event → Option Presented
  | .registered t _ => some t
  | _ => none

abbrev World := Calls.World Db Call Event
abbrev Action := Calls.Action Call Ending
abbrev Effect := Calls.Effect Db Call Event

namespace Db

variable (db : Db)

def findInstNode (instId nodeId : Bytes) : Option NodeDO := db.nodes.find? fun n => decide (n.instId = instId ∧ n.nodeId = nodeId)

def findNode (nodeId : Bytes) : Option NodeDO := db.nodes.find? fun n => decide (n.nodeId = nodeId)

/-- `UPDATE node SET inst_token, inst_token_state WHERE id`, with a token that has just been signed. -/
def setToken (id : Nat) (t : InstToken) (ht : t.signNonce = db.fresh) : Db :=
  { db with
    nodes := Table.updateWhere (fun n => decide (n.id = id)) (fun n => { n with instToken := some t, instTokenState := InstTokenUnused }) db.nodes
    fresh := db.fresh + 1
    ids := Table.nodup_updateWhere (fun _ => rfl) db.ids
    nodeIds := Table.nodup_updateWhere (fun _ => rfl) db.nodeIds
    signed := by
      intro n hn t' ht'
      obtain ⟨n₀, hn₀, rfl⟩ := Table.mem_updateWhere.1 hn
      split_ifs at ht' with h
      · obtain rfl := Option.some.inj ht'
        omega
      · exact (db.signed n₀ hn₀ t' ht').trans (Nat.lt_succ_self _) }

/-- `UPDATE node SET net_address, protocol, inst_token_state WHERE id`. -/
def setRegistered (id : Nat) (address protocol : Bytes) : Db :=
  { db with
    nodes := Table.updateWhere (fun n => decide (n.id = id))
      (fun n => { n with netAddress := address, protocol := protocol, instTokenState := InstTokenUsed }) db.nodes
    ids := Table.nodup_updateWhere (fun _ => rfl) db.ids
    nodeIds := Table.nodup_updateWhere (fun _ => rfl) db.nodeIds
    signed := by
      intro n hn t ht
      obtain ⟨n₀, hn₀, rfl⟩ := Table.mem_updateWhere.1 hn
      split_ifs at ht <;> exact db.signed n₀ hn₀ t ht }

def register (ep : NodeEndpoint) : Db := { db with pool := ep :: db.pool.filter fun e => !decide (e.domainId = ep.domainId) }

end Db

/-- `strings.ToLower` as far as the texts it is compared with go. -/
def lower (s : Bytes) : Bytes := s.map fun b => if 65 ≤ b && b ≤ 90 then b + 32 else b

def isAlnum (b : UInt8) : Bool := 97 ≤ b && b ≤ 122 || Bytes.isDigit b

/-- `^[a-z0-9]([a-z0-9.-]{0,61}[a-z0-9])?$` -/
def domainIDPattern (s : Bytes) : Bool :=
  decide (1 ≤ s.length ∧ s.length ≤ 63) && s.all (fun b => isAlnum b || b == 45 || b == 46) && s.head?.any isAlnum && s.getLast?.any isAlnum

def validPort (p : Int) : Bool := decide (0 ≤ p ∧ p ≤ 65535)

def isBlank : Presented → Bool
  | .signed _ => false
  | .text s => decide (Utf8.trimSpace s = [])

def files (req : InstRegisterRequest) : List (Bytes × Option Bytes) :=
  [(str "certFile", req.certFile), (str "keyFile", req.keyFile), (str "token", req.token)]

def validateFile (f : Bytes × Option Bytes) : Option Err :=
  match f.2 with
  | none => some (.InstRegisterCheckFailed (f.1 ++ str " is required"))
  | some b => if certFileMaxSize < b.length then some (.InstRegisterCheckFailed (f.1 ++ str " is too large")) else none

def validateRegisterRequest (req : InstRegisterRequest) : Option Err :=
  if isBlank req.instToken then some (.InstRegisterCheckFailed (str "token is required"))
  else if !domainIDPattern req.nodeId then some (.InstRegisterCheckFailed (str "domainId must be a valid domainId"))
  else if !(validPort req.port && validPort req.transPort && validPort req.httpPort) then some (.InstRegisterCheckFailed (str "invalid port"))
  else if lower req.mode ≠ instRegisterModeP2P then some (.InstRegisterCheckFailed (str "Invalid mode, only p2p supported"))
  else if lower req.protocol ∉ [str "tls", str "mtls", str "notls"] then
    some (.InstRegisterCheckFailed (str "protocol must be TLS or MTLS or NOTLS"))
  else (files req).findSome? validateFile

namespace InstService

variable (s : InstService)

def instTokenKey (instId : Bytes) : Option SigningKey := if s.secret then some (.derived instId) else none

def SignInstToken (instId nodeId : Bytes) (now nonce : Nat) : InstToken where
  key := (s.instTokenKey instId).getD (.legacy instId)
  aud := nodeId
  timestamp := now
  signNonce := nonce
  exp := now / 1000 + instTokenExpire
  kv := (s.instTokenKey instId).isSome

def VerifyInstToken (t : InstToken) (instId nodeId : Bytes) (now : Nat) : Bool :=
  decide (t.aud = nodeId ∧ now < t.exp * 1000) &&
    (decide (some t.key = s.instTokenKey instId) ||
      decide (t.key = .legacy instId) && !t.kv &&
        (!s.secret || decide (t.timestamp < s.legacyCutoff ∧ t.exp * 1000 ≤ t.timestamp + (instTokenExpire + 60) * 1000)))

def checkToken (req : InstRegisterRequest) (node : NodeDO) (now : Nat) : Option Err :=
  if node.instTokenState = InstTokenUsed then some (.InstTokenUsed (str "instToken is used"))
  else match node.instToken with
    | none => some (.InstTokenMismatch (str "token is expired"))
    | some t =>
      if req.instToken ≠ .signed t then some (.InstTokenMismatch (str "token is expired"))
      else if !s.VerifyInstToken t node.instId req.nodeId now then some (.InstTokenMismatch (str "instToken is invalid"))
      else none

def checkCert (req : InstRegisterRequest) : Option Err :=
  if !s.validCert (req.certFile.getD []) (req.keyFile.getD []) then some (.InstRegisterCheckFailed (str "cert is invalid"))
  else if s.requireTLS && decide (lower req.protocol ≠ str "tls" ∧ lower req.protocol ≠ str "mtls") then
    some (.InstRegisterCheckFailed (str "protocol must be TLS or MTLS in production"))
  else none

def path (node : NodeDO) (name : Bytes) : Bytes := s.certsDir ++ str "/" ++ node.instId ++ str "/" ++ node.nodeId ++ str "/" ++ name

def caPath (req : InstRegisterRequest) (node : NodeDO) : Bytes := if req.caFile = [] then s.defaultCAFile else s.path node (str "ca.crt")

def host (req : InstRegisterRequest) (remoteHost : Bytes) : Bytes := if remoteHost = [] then req.host else remoteHost

def httpPort (req : InstRegisterRequest) : Int :=
  if req.httpPort ≠ 0 then req.httpPort else if req.port = 8083 then 8082 else req.port

def endpoint (req : InstRegisterRequest) (remoteHost : Bytes) (node : NodeDO) : NodeEndpoint where
  domainId := req.nodeId
  mode := lower req.mode
  host := host req remoteHost
  port := httpPort req
  protocol := lower req.protocol
  certFile := s.path node (str "client.crt")
  keyFile := s.path node (str "client.pem")
  caFile := s.caPath req node
  token := s.path node (str "token")

def address (req : InstRegisterRequest) (remoteHost : Bytes) : Bytes := host req remoteHost ++ str ":" ++ Bytes.itoa req.transPort

def refuse (db : Db) (e : Err) : Effect := ⟨db, none, [.refused e]⟩

def exec (db : Db) (c : Call) (x : Ending) : Effect :=
  match c with
  | .newToken owner nodeId =>
    if owner = [] then refuse db (.AuthFailed (str "no login user"))
    else match db.findInstNode owner nodeId with
      | none => refuse db (.NodeNotExistError (str "node not found"))
      | some n => ⟨db, some (.newTokenWrite owner n), []⟩
  | .newTokenWrite owner n =>
    let t := s.SignInstToken owner n.nodeId x.now db.fresh
    ⟨db.setToken n.id t rfl, none, [.issued n.nodeId t]⟩
  | .registerNode req remoteHost =>
    match validateRegisterRequest req with
    | some e => refuse db e
    | none => match db.findNode req.nodeId with
      | none => refuse db (.NodeNotExistError (str "node is invalid"))
      | some node => ⟨db, some (.registerCheck req remoteHost node), []⟩
  | .registerCheck req remoteHost node =>
    if node.instId = [] ∨ node.instId ∉ db.insts then refuse db (.InstNotExists (str "inst is invalid"))
    else match s.checkToken req node x.now <|> s.checkCert req with
      | some e => refuse db e
      | none => ⟨db, some (.registerFiles req remoteHost node), []⟩
  | .registerFiles req remoteHost node =>
    if !x.files then refuse db .InstFileOperationFailed
    else if (lower req.protocol = str "tls" ∨ lower req.protocol = str "mtls") ∧ s.caPath req node = [] then
      refuse db (.InstRegisterCheckFailed (str "caFile cannot be null when protocol is TLS or MTLS"))
    else if !s.pool then refuse db (.InstRegisterCheckFailed (str "kuscia client pool not configured"))
    else if !x.channel then refuse db (.InstRegisterCheckFailed (str "channel not exist"))
    else ⟨db.register (s.endpoint req remoteHost node), some (.registerWrite req remoteHost node), []⟩
  | .registerWrite req remoteHost node =>
    ⟨db.setRegistered node.id (address req remoteHost) (lower req.protocol), none,
      [.registered req.instToken ((db.nodes.filter fun n => decide (n.id = node.id)).map (·.instToken))]⟩

def first : Call → Bool
  | .newToken .. | .registerNode .. => true
  | _ => false

def step : World → Action → Option World := Calls.step first s.exec

end InstService

variable {s : InstService} {db db' : Db} {c d : Call} {x : Ending} {w w' : World} {a : Action} {n node : NodeDO}
  {req : InstRegisterRequest} {host : Bytes} {t : InstToken} {e : Err}

/-- The condition: the row is as the registration has read it when the registration writes it. -/
def Unchanged (w : World) (a : Action) : Prop :=
  ∀ i x req host node, a = .exec i x → w.calls i = some (.registerWrite req host node) →
    ∀ n ∈ w.db.nodes, n.id = node.id → n.instToken = node.instToken ∧ n.instTokenState = node.instTokenState

structure Accepted (req : InstRegisterRequest) (node : NodeDO) : Prop where
  unused : node.instTokenState ≠ InstTokenUsed
  token : ∃ t, node.instToken = some t ∧ req.instToken = .signed t ∧ t.aud = node.nodeId

structure Keeps (db db' : Db) : Prop where
  rows : db'.nodes.map (fun n => (n.id, n.nodeId)) = db.nodes.map fun n => (n.id, n.nodeId)
  fresh : db.fresh ≤ db'.fresh

theorem Keeps.mem (h : Keeps db db') (hn : n ∈ db.nodes) : ∃ n' ∈ db'.nodes, n'.id = n.id ∧ n'.nodeId = n.nodeId := by
  have hmem : (n.id, n.nodeId) ∈ db'.nodes.map fun n => (n.id, n.nodeId) := by
    rw [h.rows]
    exact List.mem_map_of_mem hn
  obtain ⟨n', hn', he⟩ := List.mem_map.1 hmem
  exact ⟨n', hn', (Prod.mk.inj he).1, (Prod.mk.inj he).2⟩

def Call.Knows (db : Db) : Call → Prop
  | .registerCheck req _ node => node.nodeId = req.nodeId ∧ ∃ n ∈ db.nodes, n.id = node.id ∧ n.nodeId = node.nodeId
  | .registerFiles req _ node | .registerWrite req _ node => Accepted req node ∧ ∃ n ∈ db.nodes, n.id = node.id ∧ n.nodeId = node.nodeId
  | _ => True

theorem Call.Knows.keeps (h : Keeps db db') (hk : d.Knows db) : d.Knows db' := by
  have hrow : ∀ node : NodeDO, (∃ n ∈ db.nodes, n.id = node.id ∧ n.nodeId = node.nodeId) →
      ∃ n ∈ db'.nodes, n.id = node.id ∧ n.nodeId = node.nodeId := by
    rintro node ⟨n, hn, hid, hnode⟩
    obtain ⟨n', hn', hid', hnode'⟩ := h.mem hn
    exact ⟨n', hn', hid'.trans hid, hnode'.trans hnode⟩
  cases d with
  | registerCheck | registerFiles | registerWrite => exact ⟨hk.1, hrow _ hk.2⟩
  | _ => trivial

theorem keeps_exec : Keeps db (s.exec db c x).db := by
  cases c with
  | newTokenWrite => exact ⟨Table.map_updateWhere _ fun _ => rfl, Nat.le_succ _⟩
  | registerWrite => exact ⟨Table.map_updateWhere _ fun _ => rfl, le_rfl⟩
  | newToken | registerNode | registerCheck | registerFiles =>
    simp only [InstService.exec, InstService.refuse]
    repeat' split
    all_goals exact ⟨rfl, le_rfl⟩

theorem accepted_of_check {now : Nat} (hnode : node.nodeId = req.nodeId) (h : s.checkToken req node now = none) : Accepted req node := by
  unfold InstService.checkToken at h
  split_ifs at h with hused
  cases ht : node.instToken with
  | none => simp [ht] at h
  | some t =>
    simp only [ht] at h
    split_ifs at h with hreq hver
    refine ⟨hused, t, ht, not_not.1 hreq, ?_⟩
    have hv : s.VerifyInstToken t node.instId req.nodeId now = true := by simpa using hver
    have haud : t.aud = req.nodeId := (of_decide_eq_true (Bool.and_eq_true_iff.1 hv).1).1
    exact haud.trans hnode.symm

theorem orElse_none {e f : Option Err} (h : (e <|> f) = none) : e = none := by
  cases e with
  | none => rfl
  | some => cases h

theorem mem_findNode {nodeId : Bytes} (h : db.findNode nodeId = some n) : n ∈ db.nodes ∧ n.nodeId = nodeId :=
  ⟨List.mem_of_find?_eq_some h, by simpa using List.find?_some h⟩

theorem knows_next (hk : c.Knows db) (h : (s.exec db c x).next = some d) : d.Knows (s.exec db c x).db := by
  refine Call.Knows.keeps keeps_exec ?_
  cases c with
  | newToken owner nodeId =>
    simp only [InstService.exec, InstService.refuse] at h
    split_ifs at h
    split at h
    · cases h
    · obtain rfl := Option.some.inj h
      trivial
  | registerNode req host =>
    simp only [InstService.exec, InstService.refuse] at h
    split at h
    · cases h
    · split at h
      · cases h
      · rename_i node hf
        obtain rfl := Option.some.inj h
        obtain ⟨hmem, hid⟩ := mem_findNode hf
        exact ⟨hid, node, hmem, rfl, rfl⟩
  | registerCheck req host node =>
    simp only [InstService.exec, InstService.refuse] at h
    split_ifs at h
    split at h
    · cases h
    · rename_i hnone
      obtain rfl := Option.some.inj h
      exact ⟨accepted_of_check hk.1 (orElse_none hnone), hk.2⟩
  | registerFiles req host node =>
    simp only [InstService.exec, InstService.refuse] at h
    split_ifs at h
    obtain rfl := Option.some.inj h
    exact hk
  | newTokenWrite | registerWrite => cases h

theorem registered_of_mem {p : Presented} {ms : List (Option InstToken)} (h : .registered p ms ∈ (s.exec db c x).events) :
    ∃ req host node, c = .registerWrite req host node ∧ p = req.instToken ∧
      ms = (db.nodes.filter fun n => decide (n.id = node.id)).map (·.instToken) := by
  cases c with
  | registerWrite req host node =>
    obtain ⟨rfl, rfl⟩ := Event.registered.inj (List.mem_singleton.1 h)
    exact ⟨req, host, node, rfl, rfl, rfl⟩
  | newTokenWrite => cases List.mem_singleton.1 h
  | newToken | registerNode | registerCheck | registerFiles =>
    simp only [InstService.exec, InstService.refuse] at h
    repeat' split at h
    all_goals simp at h

theorem nodes_cases (hn : n ∈ (s.exec db c x).db.nodes) : n ∈ db.nodes ∨
    (n.instTokenState = InstTokenUnused ∧ ∃ t, n.instToken = some t ∧ t.signNonce = db.fresh) ∨
    n.instTokenState = InstTokenUsed := by
  cases c with
  | newTokenWrite owner m =>
    obtain ⟨n₀, hn₀, rfl⟩ := Table.mem_updateWhere.1 hn
    split_ifs
    · exact .inr (.inl ⟨rfl, _, rfl, rfl⟩)
    · exact .inl hn₀
  | registerWrite req host node =>
    obtain ⟨n₀, hn₀, rfl⟩ := Table.mem_updateWhere.1 hn
    split_ifs
    · exact .inr (.inr rfl)
    · exact .inl hn₀
  | newToken | registerNode | registerCheck | registerFiles =>
    refine .inl ?_
    simp only [InstService.exec, InstService.refuse] at hn
    repeat' split at hn
    all_goals exact hn

structure Spent (db : Db) (t : InstToken) : Prop where
  old : t.signNonce < db.fresh
  used : ∀ n ∈ db.nodes, n.nodeId = t.aud → n.instToken = some t → n.instTokenState = InstTokenUsed

theorem Spent.exec (h : Spent db t) : Spent (s.exec db c x).db t := by
  refine ⟨h.old.trans_le keeps_exec.fresh, fun n hn hnode ht => ?_⟩
  rcases nodes_cases hn with hn | ⟨-, t', ht', hfresh⟩ | hused
  · exact h.used n hn hnode ht
  · obtain rfl := Option.some.inj (ht'.symm.trans ht)
    exact absurd h.old (by omega)
  · exact hused

structure Inv (w : World) : Prop where
  calls : w.All (Call.Knows w.db)
  spent : ∀ p ms, .registered p ms ∈ w.log → ∃ t, p = .signed t ∧ Spent w.db t ∧ ∀ m ∈ ms, m = some t
  once : (w.log.filterMap Event.token).Nodup

theorem Inv.idle : Inv (.idle db) := ⟨Calls.World.idle_all _ _, fun _ _ h => absurd h List.not_mem_nil, .nil⟩

theorem registered_now (s : InstService) (x : Ending) (host : Bytes) (hi : Inv w) (hacc : Accepted req node) (hrow : ∃ n ∈ w.db.nodes, n.id = node.id ∧ n.nodeId = node.nodeId)
    (hu : ∀ n ∈ w.db.nodes, n.id = node.id → n.instToken = node.instToken ∧ n.instTokenState = node.instTokenState) :
    ∃ t, req.instToken = .signed t ∧ node.instToken = some t ∧ Spent (s.exec w.db (.registerWrite req host node) x).db t ∧
      ∀ ms, .registered (.signed t) ms ∉ w.log := by
  obtain ⟨t, ht, hreq, haud⟩ := hacc.token
  obtain ⟨n, hn, hid, hnode⟩ := hrow
  obtain ⟨htok, hstate⟩ := hu n hn hid
  refine ⟨t, hreq, ht, ⟨?_, ?_⟩, ?_⟩
  · show t.signNonce < w.db.fresh
    exact w.db.signed n hn t (htok.trans ht)
  · intro n' hn' hnode' _
    obtain ⟨n₀, hn₀, rfl⟩ := Table.mem_updateWhere.1 hn'
    split_ifs at hnode' ⊢ with h
    · rfl
    · -- the row of the token's node is the one that was written
      have heq : n₀ = n := Table.eq_of_col_eq w.db.nodeIds hn₀ hn (hnode'.trans (haud.trans hnode.symm))
      exact absurd (decide_eq_true (heq ▸ hid)) h
  · intro ms hmem
    obtain ⟨t', he, hspent, -⟩ := hi.spent _ ms hmem
    obtain rfl := Presented.signed.inj he
    have hused := hspent.used n hn (hnode.trans haud.symm) (htok.trans ht)
    exact hacc.unused (hstate.symm.trans hused)

theorem filterMap_token (h : ∀ p ms, .registered p ms ∉ (s.exec db c x).events) : (s.exec db c x).events.filterMap Event.token = [] := by
  refine List.filterMap_eq_nil_iff.2 fun e he => ?_
  cases e with
  | registered p ms => exact absurd he (h p ms)
  | _ => rfl

theorem inv_step (hi : Inv w) (hu : Unchanged w a) (hs : s.step w a = some w') : Inv w' := by
  obtain ⟨i, c, rfl, hf, _, rfl⟩ | ⟨i, c, x, rfl, hc, rfl⟩ | ⟨i, c, rfl, hc, rfl⟩ := Calls.step_cases hs
  · refine ⟨hi.calls.begin ?_, hi.spent, hi.once⟩
    cases c <;> trivial
  · have hknow := hi.calls i c hc
    have hcalls : (w.after s.exec i c x).All (Call.Knows (s.exec w.db c x).db) := by
      intro j d hd
      by_cases hj : j = i
      · subst hj
        exact knows_next hknow (by simpa [Calls.World.after] using hd)
      · exact Call.Knows.keeps keeps_exec (hi.calls j d (by simpa [Calls.World.after, hj] using hd))
    have hold : ∀ p ms, .registered p ms ∈ w.log → ∃ t, p = .signed t ∧ Spent (s.exec w.db c x).db t ∧ ∀ m ∈ ms, m = some t := by
      intro p ms hmem
      obtain ⟨t, hp, hspent, hms⟩ := hi.spent p ms hmem
      exact ⟨t, hp, hspent.exec, hms⟩
    by_cases hreg : ∃ p ms, .registered p ms ∈ (s.exec w.db c x).events
    · obtain ⟨p, ms, hmem⟩ := hreg
      obtain ⟨req, host, node, rfl, rfl, rfl⟩ := registered_of_mem hmem
      have hsame := hu i x req host node rfl hc
      obtain ⟨t, hreq, ht, hspent, hnew⟩ := registered_now s x host hi hknow.1 hknow.2 hsame
      refine ⟨hcalls, fun p ms hmem => ?_, ?_⟩
      · rcases List.mem_append.1 hmem with hmem | hmem
        · exact hold p ms hmem
        · obtain ⟨rfl, rfl⟩ := Event.registered.inj (List.mem_singleton.1 hmem)
          refine ⟨t, hreq, hspent, fun m hm => ?_⟩
          obtain ⟨n, hn, rfl⟩ := List.mem_map.1 hm
          obtain ⟨hn, hid⟩ := List.mem_filter.1 hn
          exact (hsame n hn (of_decide_eq_true hid)).1.trans ht
      · show ((w.log ++ (s.exec w.db (.registerWrite req host node) x).events).filterMap Event.token).Nodup
        rw [List.filterMap_append, List.nodup_append]
        refine ⟨hi.once, List.nodup_singleton _, ?_⟩
        intro p hp q hq hpq
        obtain ⟨ev, hev, hevp⟩ := List.mem_filterMap.1 hp
        cases ev with
        | registered p' ms =>
          obtain rfl := Option.some.inj hevp
          have hq' : q = req.instToken := List.mem_singleton.1 hq
          exact hnew ms (by rw [← hreq, ← hq', ← hpq]; exact hev)
        | _ => cases hevp
    · have hnone : ∀ p ms, .registered p ms ∉ (s.exec w.db c x).events := fun p ms hmem => hreg ⟨p, ms, hmem⟩
      refine ⟨hcalls, fun p ms hmem => ?_, ?_⟩
      · exact hold p ms ((List.mem_append.1 hmem).resolve_right (hnone p ms))
      · show ((w.log ++ (s.exec w.db c x).events).filterMap Event.token).Nodup
        rw [List.filterMap_append, filterMap_token hnone, List.append_nil]
        exact hi.once
  · exact ⟨hi.calls.drop, hi.spent, hi.once⟩

/-- In every run in which each registration finds its row unchanged when it writes it, a token leads to one registration at most, and a
registration marks only the token that it has presented. -/
theorem registered_once {as : List Action} (h : Lts.RunAll s.step Unchanged (.idle db) as) (hr : Lts.run s.step (.idle db) as = some w) :
    (w.log.filterMap Event.token).Nodup ∧
      ∀ p ms, .registered p ms ∈ w.log → ∀ m ∈ ms, ∃ t, m = some t ∧ p = .signed t := by
  have hi : Inv w := Lts.run_invariant (fun _ _ _ hi hu hs => inv_step hi hu hs) Inv.idle h hr
  refine ⟨hi.once, fun p ms hmem m hm => ?_⟩
  obtain ⟨t, hp, -, hms⟩ := hi.spent p ms hmem
  exact ⟨t, hms m hm, hp⟩

def platform : InstService := ⟨false, false, 0, str "certs", [], true, fun _ _ => true⟩

def firstToken : InstToken := platform.SignInstToken (str "inst1") (str "node1") 0 0

def oneNode : Db where
  nodes := [⟨1, str "node1", str "n1", str "inst1", some firstToken, InstTokenUnused, str "node1:1080", []⟩]
  insts := [str "inst1"]
  pool := []
  fresh := 1
  ids := by decide
  nodeIds := by decide
  signed := by decide

def request (t : InstToken) (host : Bytes) : Call :=
  .registerNode ⟨.signed t, str "node1", host, 8083, 0, 1080, str "p2p", str "notls", some [], some [], some (str "kt"), []⟩ []

def steps (i n : Nat) : List Action := List.replicate n (.exec i ⟨0, true, true⟩)

def twice : List Action :=
  [.start 0 (request firstToken (str "10.0.0.1")), .start 1 (request firstToken (str "10.0.0.2"))] ++ steps 0 2 ++ steps 1 4 ++ steps 0 2

def reissued : List Action :=
  [.start 0 (request firstToken (str "10.0.0.1")), .start 1 (.newToken (str "inst1") (str "node1"))] ++ steps 0 2 ++ steps 1 2 ++ steps 0 2

def marksOther : Event → Bool
  | .registered p ms => ms.any fun m => m.any fun t => decide (p ≠ .signed t)
  | _ => false

theorem registered_twice :
    (Lts.run platform.step (.idle oneNode) twice).any (fun w => decide (¬ (w.log.filterMap Event.token).Nodup)) = true ∧
      (Lts.run platform.step (.idle oneNode) reissued).any (fun w => w.log.any marksOther) = true := by decide +kernel

def inOrder : List Action :=
  [.start 0 (request firstToken (str "10.0.0.1"))] ++ steps 0 4 ++ [.start 0 (request firstToken (str "10.0.0.2"))] ++ steps 0 2 ++
    [.start 0 (.newToken (str "inst1") (str "node1"))] ++ steps 0 2 ++
    [.start 0 (request (platform.SignInstToken (str "inst1") (str "node1") 0 1) (str "10.0.0.2"))] ++ steps 0 4

def unchanged (w : World) : Action → Bool
  | .exec i _ => match w.calls i with
    | some (.registerWrite _ _ node) => w.db.nodes.all fun n => decide (n.id = node.id →
        n.instToken = node.instToken ∧ n.instTokenState = node.instTokenState)
    | _ => true
  | _ => true

theorem registered_once_inOrder : ∃ w, Lts.run platform.step (.idle oneNode) inOrder = some w ∧
    (w.log.filterMap Event.token).length = 2 ∧ (w.log.filterMap Event.token).Nodup := by
  have hrun : (Lts.run platform.step (.idle oneNode) inOrder).any (fun w => decide ((w.log.filterMap Event.token).length = 2)) = true := by
    decide +kernel
  have hun : Lts.RunAll platform.step (fun w a => unchanged w a = true) (.idle oneNode) inOrder := by decide +kernel
  obtain ⟨w, hw, hlen⟩ := (Option.any_eq_true _ _).1 hrun
  refine ⟨w, hw, of_decide_eq_true hlen, (registered_once (hun.imp fun w a ha => ?_) hw).1⟩
  rintro i x req host node rfl hc n hn hid
  simp only [unchanged, hc] at ha
  exact of_decide_eq_true (List.all_eq_true.1 ha n hn) hid

end Inst
