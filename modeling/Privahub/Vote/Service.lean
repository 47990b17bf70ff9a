import Privahub.Lib.Calls
import Privahub.Lib.Table
import Privahub.Lib.Unicode

/-!
# Vote requests and their invites

The rows of `vote_request` and `vote_invite`, and who writes them: the pass of the monitor
(`SyncInvites` with `verifyInvites`), `Reply`, and rows that arrive from other parties. Each is a call
with one statement a step. What Kuscia, the certificates and the tables of nodes and projects say is in
the parameters of the service, in the request, or, where a reply is verified, in the step itself.
-/

namespace Vote

inductive Status
  | reviewing
  | approved
  | rejected
  | other (code : Int)
  deriving DecidableEq

inductive Action
  | reviewing
  | approved
  | rejected
  | other (text : Bytes)
  deriving DecidableEq

structure PartyVoteInfo where
  partyId : Bytes
  action : Action
  reason : Bytes
  deriving DecidableEq

/-- `executors` and `partyVoteInfo` are the lists in the JSON of their columns. -/
structure VoteRequestDO where
  voteId : Bytes
  initiator : Bytes
  type : Bytes
  executors : List Bytes
  requestMsg : Bytes
  status : Status
  msg : Bytes
  partyVoteInfo : List PartyVoteInfo
  deriving DecidableEq

structure VoteInviteDO where
  id : Int
  voteId : Bytes
  initiator : Bytes
  voteParticipantId : Bytes
  type : Bytes
  voteMsg : Bytes
  action : Action
  reason : Bytes
  deriving DecidableEq

def VoteInviteDO.key (i : VoteInviteDO) : Bytes × Bytes := (i.voteId, i.voteParticipantId)

structure Db where
  requests : List VoteRequestDO
  invites : List VoteInviteDO
  vote_ids : (requests.map (·.voteId)).Nodup
  invite_ids : (invites.map (·.id)).Nodup
  invite_keys : (invites.map (·.key)).Nodup

namespace Db

variable (db : Db)

def findByStatus (s : Status) : List VoteRequestDO := db.requests.filter fun r => decide (r.status = s)

def findRequest (voteId : Bytes) : Option VoteRequestDO := db.requests.find? fun r => decide (r.voteId = voteId)

def invitesOf (voteId : Bytes) : List VoteInviteDO := db.invites.filter fun i => decide (i.voteId = voteId)

def findInvite (voteId participant : Bytes) : Option VoteInviteDO := db.invites.find? fun i => decide (i.key = (voteId, participant))

def updateRequests (p : VoteRequestDO → Bool) (f : VoteRequestDO → VoteRequestDO) (hf : ∀ r, (f r).voteId = r.voteId) : Db :=
  { db with
    requests := Table.updateWhere p f db.requests
    vote_ids := Table.nodup_updateWhere hf db.vote_ids }

/-- An update of the columns `action` and `reason`. -/
def updateInvites (p : VoteInviteDO → Bool) (action : Action) (reason : Bytes) : Db :=
  { db with
    invites := Table.updateWhere p (fun i => { i with action := action, reason := reason }) db.invites
    invite_ids := Table.nodup_updateWhere (fun _ => rfl) db.invite_ids
    invite_keys := Table.nodup_updateWhere (fun _ => rfl) db.invite_keys }

def setInvites (is : List VoteInviteDO) : Option Db :=
  if h : (is.map (·.id)).Nodup ∧ (is.map (·.key)).Nodup then
    some { db with invites := is, invite_ids := h.1, invite_keys := h.2 }
  else none

def setRequests (rs : List VoteRequestDO) : Option Db :=
  if h : (rs.map (·.voteId)).Nodup then some { db with requests := rs, vote_ids := h } else none

/-- `Save` of an invite: the row with its primary key, or a new one. -/
def saveInvite (inv : VoteInviteDO) : Option Db :=
  if db.invites.any fun i => decide (i.id = inv.id) then
    db.setInvites (Table.updateWhere (fun i => decide (i.id = inv.id)) (fun _ => inv) db.invites)
  else db.setInvites (db.invites ++ [inv])

def upsertInvite (inv : VoteInviteDO) : Option Db :=
  if db.invites.any fun i => decide (i.key = inv.key) then
    db.setInvites (Table.updateWhere (fun i => decide (i.key = inv.key)) (fun i => { inv with id := i.id }) db.invites)
  else db.setInvites (db.invites ++ [inv])

def upsertRequest (vr : VoteRequestDO) : Option Db :=
  if db.requests.any fun r => decide (r.voteId = vr.voteId) then
    db.setRequests (Table.updateWhere (fun r => decide (r.voteId = vr.voteId)) (fun _ => vr) db.requests)
  else db.setRequests (db.requests ++ [vr])

end Db

structure Err where
  code : Nat
  key : Bytes
  msg : Bytes
  deriving DecidableEq

namespace Err

def ParamError (msg : Bytes) : Err := ⟨202011100, str "system.VALIDATION_ERROR", msg⟩
def VoteNotExists : Err := ⟨202012201, str "vote.VOTE_NOT_EXISTS", []⟩
def VoteCheckFailed (msg : Bytes) : Err := ⟨202012202, str "vote.VOTE_CHECK_FAILED", msg⟩
def VoteSignatureSynchronizing : Err := ⟨202012203, str "vote.VOTE_SIGNATURE_SYNCHRONIZING", []⟩

end Err

inductive Platform
  | center
  | edge
  | autonomy
  deriving DecidableEq

def VoteTypeTeeDownload : Bytes := str "TEE_DOWNLOAD"
def VoteTypeNodeRoute : Bytes := str "NODE_ROUTE"
def VoteTypeProjectCreate : Bytes := str "PROJECT_CREATE"
def VoteTypeProjectArchive : Bytes := str "PROJECT_ARCHIVE"
def VoteTypeProjectNodeAdd : Bytes := str "PROJECT_NODE_ADD"

def autonomyVoteTypes : List Bytes := [VoteTypeProjectCreate, VoteTypeProjectArchive]

def centerVoteTypes : List Bytes := [VoteTypeTeeDownload, VoteTypeNodeRoute]

def teeExecutor : Bytes := str "tee"

/-- `nodeIds` are the nodes of an institution, `parseRequest` gives the signature and the voters of a
request message. -/
structure Service where
  platform : Platform
  hasKuscia : Bool
  strictSignatures : Bool
  currentInstID : Bytes
  nodeIds : Bytes → List Bytes
  parseRequest : Bytes → Except Err (Bytes × List Bytes)
  unicode : CaseTables

/-- What is asked of a reply: the caller's own institution, the route to the initiator, the signed message,
the sync to the center and the flush of the project's status. -/
structure ReplyRequest where
  action : Action
  reason : Bytes
  participantId : Bytes
  voteId : Bytes
  userOwner : Option Bytes
  route : Except Err Unit
  sign : Except Err Bytes
  sendToCenter : Except Err Unit
  flushVoteStatus : Except Err Unit

/-- The monitor: `vr` is its copy of the request at hand, `rest` are those that follow. -/
inductive SyncInvites
  | findByStatus
  | invites (vr : VoteRequestDO) (rest : List VoteRequestDO)
  | verify (vr : VoteRequestDO) (invites : List VoteInviteDO) (inv : VoteInviteDO) (todo : List VoteInviteDO) (rest : List VoteRequestDO)
  | rejectRequest (vr : VoteRequestDO) (invites : List VoteInviteDO) (inv : VoteInviteDO) (rest : List VoteRequestDO)
  | rejectInvite (vr : VoteRequestDO) (invites : List VoteInviteDO) (inv : VoteInviteDO) (rest : List VoteRequestDO)
  | reread (vr : VoteRequestDO) (invites : List VoteInviteDO) (rest : List VoteRequestDO)
  | update (vr : VoteRequestDO) (status : Status) (rest : List VoteRequestDO)

inductive Reply
  | findInvite (req : ReplyRequest)
  | findRequest (req : ReplyRequest) (inv : VoteInviteDO)
  | save (req : ReplyRequest) (inv : VoteInviteDO) (vr : VoteRequestDO)

inductive Call
  | syncInvites (pc : SyncInvites)
  | reply (pc : Reply)
  | syncInvite (inv : VoteInviteDO)
  | syncRequest (vr : VoteRequestDO)

def Call.first : Call → Bool
  | .syncInvites .findByStatus | .reply (.findInvite _) | .syncInvite _ | .syncRequest _ => true
  | _ => false

/-- How a step ends: its statement fails or not, and what verifying the reply at hand says. -/
structure Ending where
  error : Bool
  verdict : Bool

structure Next where
  db : Db
  call : Option Call
  result : Option (Except Err Unit) := none

namespace SyncInvites

def nextRequest : List VoteRequestDO → Option Call
  | [] => none
  | vr :: rest => some (.syncInvites (.invites vr rest))

/-- The head of the loop of `verifyInvites`: the invites without a reply are passed over. -/
def nextInvite (vr : VoteRequestDO) (all : List VoteInviteDO) (rest : List VoteRequestDO) : List VoteInviteDO → Call
  | [] => .syncInvites (.reread vr all rest)
  | inv :: todo => if inv.action = .reviewing then nextInvite vr all rest todo else .syncInvites (.verify vr all inv todo rest)

theorem nextRequest_cases {rest : List VoteRequestDO} {c : Call} (h : nextRequest rest = some c) :
    ∃ vr rest', rest = vr :: rest' ∧ c = .syncInvites (.invites vr rest') := by
  cases rest with
  | nil => cases h
  | cons vr rest => exact ⟨vr, rest, rfl, (Option.some.inj h).symm⟩

theorem nextInvite_cases (vr : VoteRequestDO) (all : List VoteInviteDO) (rest : List VoteRequestDO) (todo : List VoteInviteDO) :
    nextInvite vr all rest todo = .syncInvites (.reread vr all rest) ∧ (∀ i ∈ todo, i.action = .reviewing) ∨
    ∃ passed i todo', todo = passed ++ i :: todo' ∧ (∀ j ∈ passed, j.action = .reviewing) ∧
      nextInvite vr all rest todo = .syncInvites (.verify vr all i todo' rest) := by
  induction todo with
  | nil => exact .inl ⟨rfl, nofun⟩
  | cons i todo ih =>
    rw [nextInvite]
    split_ifs with hi
    · rcases ih with ⟨hn, hpassed⟩ | ⟨passed, j, todo', rfl, hpassed, hn⟩
      · exact .inl ⟨hn, List.forall_mem_cons.2 ⟨hi, hpassed⟩⟩
      · exact .inr ⟨i :: passed, j, todo', rfl, List.forall_mem_cons.2 ⟨hi, hpassed⟩, hn⟩
    · exact .inr ⟨[], i, todo, rfl, nofun, rfl⟩

/-- Whether the replies of the request are verified here. -/
def verifies (s : Service) (vr : VoteRequestDO) : Bool :=
  (if vr.type ∈ centerVoteTypes then !decide (vr.type = VoteTypeNodeRoute ∧ teeExecutor ∈ vr.executors)
   else decide (vr.type ∈ autonomyVoteTypes) && decide (vr.initiator ≠ [] ∧ vr.initiator = s.currentInstID) &&
     vr.executors.any fun e => decide (e ∈ s.nodeIds vr.initiator)) &&
  (s.hasKuscia || s.strictSignatures)

def rejected (inv : VoteInviteDO) : VoteInviteDO :=
  { inv with action := .rejected, reason := str "verify fail-> " ++ inv.voteParticipantId }

def upsertPartyVoteInfo (infos : List PartyVoteInfo) (info : PartyVoteInfo) : List PartyVoteInfo :=
  infos.filter (fun i => decide (i.partyId ≠ info.partyId)) ++ [info]

/-- The copy of the request once the reply `inv` did not verify. -/
def rejectedRequest (vr : VoteRequestDO) (inv : VoteInviteDO) : VoteRequestDO :=
  { vr with
    status := .rejected
    msg := str "in voteID-> " ++ inv.voteId ++ str ",voteInvite participant " ++ inv.voteParticipantId ++ str " verify fail"
    partyVoteInfo := upsertPartyVoteInfo vr.partyVoteInfo ⟨inv.voteParticipantId, .rejected, (rejected inv).reason⟩ }

def tally (invites : List VoteInviteDO) (status : Status) : Status :=
  if invites.any fun i => decide (i.action = .rejected) then .rejected
  else if invites.all fun i => decide (i.action = .approved) then .approved
  else status

def decide_ (vr : VoteRequestDO) (invites : List VoteInviteDO) (rest : List VoteRequestDO) : Option Call :=
  if tally invites vr.status = vr.status then nextRequest rest else some (.syncInvites (.update vr (tally invites vr.status) rest))

def run (s : Service) (db : Db) (x : Ending) : SyncInvites → Next
  | findByStatus => ⟨db, if x.error then none else nextRequest (db.findByStatus .reviewing), none⟩
  | invites vr rest =>
    let is := if x.error then [] else db.invitesOf vr.voteId
    ⟨db, if is = [] then nextRequest rest
      else if verifies s vr then some (nextInvite vr is rest is) else some (.syncInvites (.reread vr is rest)), none⟩
  | verify vr all inv todo rest =>
    ⟨db, if x.verdict then some (nextInvite vr all rest todo) else some (.syncInvites (.rejectRequest vr all inv rest)), none⟩
  | rejectRequest vr all inv rest =>
    let vr' := rejectedRequest vr inv
    ⟨if x.error then db else db.updateRequests (fun r => decide (r.voteId = vr.voteId))
        (fun r => { r with status := .rejected, msg := vr'.msg, partyVoteInfo := vr'.partyVoteInfo }) (fun _ => rfl),
      some (.syncInvites (.rejectInvite vr' (Table.updateWhere (fun i => decide (i.id = inv.id)) rejected all) inv rest)), none⟩
  | rejectInvite vr all inv rest =>
    ⟨if x.error then db else db.updateInvites (fun i => decide (i.key = inv.key)) .rejected (rejected inv).reason,
      some (.syncInvites (.reread vr all rest)), none⟩
  | reread vr all rest => ⟨db, decide_ vr (if x.error then all else db.invitesOf vr.voteId) rest, none⟩
  | update vr status rest =>
    ⟨if x.error then db else db.updateRequests (fun r => decide (r.voteId = vr.voteId ∧ r.status = .reviewing))
        (fun r => { r with status := status }) (fun _ => rfl), nextRequest rest, none⟩

end SyncInvites

namespace Reply

/-- `Handler`: one of the five vote types, in any letter case. -/
def hasHandler (s : Service) (type : Bytes) : Bool :=
  decide ((Utf8.runes (Utf8.trimSpace type)).flatMap (fun r => Utf8.encodeRune (s.unicode.toUpper r.1)) ∈
    [VoteTypeTeeDownload, VoteTypeNodeRoute, VoteTypeProjectCreate, VoteTypeProjectArchive, VoteTypeProjectNodeAdd])

def identityVerification (s : Service) (req : ReplyRequest) : Bool :=
  decide (s.platform ≠ .autonomy ∨ req.userOwner = some req.participantId)

def prepare (s : Service) (req : ReplyRequest) (inv : VoteInviteDO) (vr : VoteRequestDO) : Except Err VoteInviteDO := do
  req.route
  let (signature, voters) ← s.parseRequest vr.requestMsg
  let signing := !decide (vr.type = VoteTypeNodeRoute ∧ teeExecutor ∈ vr.executors) && s.hasKuscia
  if signing ∧ Utf8.trimSpace signature = [] then throw .VoteSignatureSynchronizing
  if req.participantId ∉ voters then throw (.VoteCheckFailed [])
  let voteMsg ← if signing then req.sign else pure inv.voteMsg
  pure { inv with voteMsg := voteMsg, action := req.action, reason := req.reason }

def fail (db : Db) (e : Err) : Next := ⟨db, none, some (.error e)⟩

def saved (db : Db) (db' : Option Db) (r : Except Err Unit) : Next :=
  ⟨db'.getD db, none, some (if db'.isSome then r else .error ⟨0, [], str "constraint failed"⟩)⟩

def infos (inv : VoteInviteDO) (vr : VoteRequestDO) : List PartyVoteInfo :=
  SyncInvites.upsertPartyVoteInfo vr.partyVoteInfo ⟨inv.voteParticipantId, inv.action, inv.reason⟩

def setInfos (voteId : Bytes) (infos : List PartyVoteInfo) (db : Db) : Db :=
  db.updateRequests (fun r => decide (r.voteId = voteId)) (fun r => { r with partyVoteInfo := infos }) fun _ => rfl

/-- The invite is written: sent to the center by an edge, together with the party's entry of the request in
AUTONOMY, by itself otherwise. -/
def write (s : Service) (db : Db) (req : ReplyRequest) (inv : VoteInviteDO) (vr : VoteRequestDO) : Next :=
  match s.platform with
  | .edge => ⟨db, none, some req.sendToCenter⟩
  | .autonomy => saved db ((db.saveInvite inv).map (setInfos req.voteId (infos inv vr)))
      (if (infos inv vr).all fun i => decide (i.action = .approved) then req.flushVoteStatus else .ok ())
  | .center => saved db (db.saveInvite inv) (.ok ())

def run (s : Service) (db : Db) (x : Ending) : Reply → Next
  | findInvite req =>
    if req.action ≠ .approved ∧ req.action ≠ .rejected then fail db (.ParamError (str "action must be APPROVED or REJECTED"))
    else if !identityVerification s req then fail db (.VoteCheckFailed [])
    else match if x.error then none else db.findInvite req.voteId req.participantId with
      | none => fail db .VoteNotExists
      | some inv =>
        if hasHandler s inv.type then ⟨db, some (.reply (.findRequest req inv)), none⟩
        else fail db (.ParamError (str "unsupported vote type: " ++ inv.type))
  | findRequest req inv => match if x.error then none else db.findRequest req.voteId with
    | none => fail db .VoteNotExists
    | some vr => match prepare s req inv vr with
      | .error e => fail db e
      | .ok inv => ⟨db, some (.reply (.save req inv vr)), none⟩
  | save req inv vr => if x.error then fail db ⟨0, [], str "database error"⟩ else write s db req inv vr

end Reply

/-- A request leaves `REVIEWING`. -/
inductive Event
  | left (voteId : Bytes)
  | returned (r : Except Err Unit)

def Event.isLeft (v : Bytes) : Event → Bool
  | left w => decide (w = v)
  | returned _ => false

/-- The requests that have left `REVIEWING` from `db` to `db'`. -/
def leaving (db db' : Db) : List Event :=
  (db.findByStatus .reviewing).filterMap fun r =>
    if (db'.findRequest r.voteId).any fun r' => decide (r'.status = .reviewing) then none else some (.left r.voteId)

namespace Service

variable (s : Service)

def run (db : Db) (x : Ending) : Call → Next
  | .syncInvites pc => pc.run s db x
  | .reply pc => pc.run s db x
  | .syncInvite inv => ⟨if x.error then db else (db.upsertInvite inv).getD db, none, none⟩
  | .syncRequest vr => ⟨if x.error then db else (db.upsertRequest vr).getD db, none, none⟩

def exec (db : Db) (c : Call) (x : Ending) : Calls.Effect Db Call Event :=
  ⟨(s.run db x c).db, (s.run db x c).call, leaving db (s.run db x c).db ++ (s.run db x c).result.toList.map .returned⟩

end Service

abbrev World := Calls.World Db Call Event

abbrev Act := Calls.Action Call Ending

def Service.step (s : Service) (w : World) (a : Act) : Option World := Calls.step Call.first s.exec w a

end Vote
