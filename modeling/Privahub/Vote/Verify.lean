import Privahub.Vote.Service

/-!
# Verifying a reply

`VerifyReply` and what it asks of others: the codecs of the messages, the signatures and the certificates
(`Crypto`), and at each verification the answers of Kuscia and of the table of nodes, beside what they hold (`Look`).
`Service.examine` is the step of a call whose verification is `VerifyReply`.
-/

namespace Vote

structure SignMeta where
  signedAt : Int
  nonce : Bytes
  deriving DecidableEq

def SignMeta.timestamped (m : SignMeta) : Bool := decide (0 < m.signedAt ∧ m.nonce ≠ [])

structure VoteReplyMessage where
  body : Bytes
  certChain : List Bytes
  signature : Bytes
  deriving DecidableEq

structure VoteReplyBody where
  voteRequestId : Bytes
  voter : Bytes
  action : Bytes
  signMeta : SignMeta
  deriving DecidableEq

structure Certificate where
  rawSubject : Bytes
  rawIssuer : Bytes
  rawSubjectPublicKeyInfo : Bytes
  notBefore : Int
  notAfter : Int
  digitalSignature : Bool
  deriving DecidableEq

/-- The JSON of the messages, the signatures and the certificates, and what is configured. -/
structure Crypto where
  reply : Bytes → Option VoteReplyMessage
  requestSignature : Bytes → Option Bytes
  requestMeta : Bytes → Option SignMeta
  replyBody : Bytes → Option VoteReplyBody
  verifySHA256withRSA : Bytes → Bytes → Bytes → Bool
  parseCertificate : Bytes → Option Certificate
  checkSignatureFrom : Certificate → Certificate → Bool
  legacySignatureWindow : Int
  platformNodeId : Bytes
  isEmbeddedNode : Bytes → Bool

/-- What a verification meets: the answer to `BatchQueryDomain` for the voter (`none`: an error), the row of the voter's node (`none`: no row, or an
error), the clock and the word of the nonce cache; `cert` and `inst` are the voter's as Kuscia and the table hold them. -/
structure Look where
  domains : Option (List Bytes)
  node : Option Bytes
  now : Int
  nonce : Bool
  cert : Bytes
  inst : Option Bytes

def Look.DomainCert (q : Look) : Bytes := ((q.domains.getD []).head?).getD []

def Look.real (q : Look) : Look := { q with domains := some [q.cert], node := q.inst }

def maxClockSkew : Int := 300000

namespace Crypto

variable (k : Crypto)

def verifySignerChain (chain : List Bytes) (trustedDomainCert : Bytes) (m : SignMeta) (fresh : Bool) (now : Int) : Bool :=
  match chain with
  | leafText :: presentedText :: _ =>
    decide (trustedDomainCert ≠ []) &&
    match k.parseCertificate trustedDomainCert, k.parseCertificate presentedText, k.parseCertificate leafText with
    | some anchor, some presented, some leaf =>
      decide (anchor.rawSubjectPublicKeyInfo = presented.rawSubjectPublicKeyInfo) && decide (leaf.rawIssuer = anchor.rawSubject) &&
      k.checkSignatureFrom leaf anchor && leaf.digitalSignature &&
      if m.timestamped then
        decide (leaf.notBefore - maxClockSkew ≤ m.signedAt ∧ m.signedAt ≤ leaf.notAfter + maxClockSkew) &&
        decide (anchor.notBefore - maxClockSkew ≤ m.signedAt ∧ m.signedAt ≤ anchor.notAfter + maxClockSkew) &&
        !(fresh && decide (now + maxClockSkew < m.signedAt))
      else !fresh || decide (leaf.notBefore - maxClockSkew ≤ now ∧ now ≤ leaf.notAfter + k.legacySignatureWindow)
    | _, _, _ => false
  | _ => false

def replyActionMatches (signed : Bytes) (action : Action) : Bool :=
  if signed = str "APPROVE" then decide (action = .approved)
  else if signed = str "REJECT" then decide (action = .rejected)
  else false

/-- The reply and its body, once the signature is the one over the stored request and the body is about this invite. -/
def spoken (inv : VoteInviteDO) (vr : VoteRequestDO) : Option (VoteReplyMessage × VoteReplyBody) := do
  let reply ← k.reply inv.voteMsg
  let leaf ← if 2 ≤ reply.certChain.length then reply.certChain.head? else none
  let signature ← k.requestSignature vr.requestMsg
  let body ← if k.verifySHA256withRSA (reply.body ++ signature) leaf reply.signature then k.replyBody reply.body else none
  if body.voteRequestId = vr.voteId ∧ replyActionMatches body.action inv.action then some (reply, body) else none

def voterSpeaksFor (s : Service) (q : Look) (voter participant : Bytes) : Bool :=
  decide (voter ≠ []) && (decide (voter = participant) ||
    (decide (s.platform = .center ∧ voter = k.platformNodeId) && k.isEmbeddedNode participant) ||
    q.node.any fun i => decide (i ≠ [] ∧ i = participant))

def predates (body : VoteReplyBody) (vr : VoteRequestDO) : Bool :=
  body.signMeta.timestamped && (k.requestMeta vr.requestMsg).any fun m =>
    m.timestamped && decide (body.signMeta.signedAt < m.signedAt - maxClockSkew)

def VerifyReply (s : Service) (q : Look) (inv : VoteInviteDO) (vr : VoteRequestDO) : Bool :=
  !(!s.hasKuscia && s.strictSignatures) && (k.spoken inv vr).any fun (reply, body) =>
    k.voterSpeaksFor s q body.voter inv.voteParticipantId &&
    (!s.hasKuscia || (!k.predates body vr && k.verifySignerChain reply.certChain q.DomainCert body.signMeta true q.now &&
      (!body.signMeta.timestamped || q.nonce)))

end Crypto

/-- A step of a call: whether its statement fails, and what a verification meets. -/
structure Meeting where
  error : Bool
  look : Look

def Call.verdict (s : Service) (k : Crypto) (q : Look) : Call → Bool
  | .syncInvites (.verify vr _ inv _ _) => k.VerifyReply s q inv vr
  | _ => true

def Service.meets (s : Service) (k : Crypto) (c : Call) (a : Meeting) : Ending := ⟨a.error, c.verdict s k a.look⟩

/-- The step of a call, with the events `log` says. -/
def Service.examine {ε : Type} (s : Service) (k : Crypto) (log : Db → Call → Meeting → List ε) (db : Db) (c : Call) (a : Meeting) :
    Calls.Effect Db Call ε :=
  ⟨(s.run db (s.meets k c a) c).db, (s.run db (s.meets k c a) c).call, log db c a⟩

def bobsBody : Bytes := str "eyJ2b3RlX3JlcXVlc3RfaWQiOiJ2MSIsInZvdGVyIjoiYm9iIiwiYWN0aW9uIjoiQVBQUk9WRSJ9"

def bobsText : Bytes :=
  str "\x7b\"cert_chain\":[\"leaf of bob\",\"cert of bob\"],\"body\":\"" ++ bobsBody ++ str "\",\"voter_signature\":\"c2ln\"\x7d"

def requestText : Bytes := str "\x7b\"cert_chain\":[\"leaf of carol\",\"cert of carol\"],\"body\":\"e30=\",\"vote_request_signature\":\"cmVx\"\x7d"

def bobs : Crypto where
  reply t := if t = bobsText then some ⟨bobsBody, [str "leaf of bob", str "cert of bob"], str "c2ln"⟩ else none
  requestSignature t := if t = requestText then some (str "cmVx") else none
  requestMeta t := if t = requestText then some ⟨0, []⟩ else none
  replyBody b := if b = bobsBody then some ⟨str "v1", str "bob", str "APPROVE", ⟨0, []⟩⟩ else none
  verifySHA256withRSA data cert signature := decide (data = bobsBody ++ str "cmVx" ∧ cert = str "leaf of bob" ∧ signature = str "c2ln")
  parseCertificate t :=
    if t = str "cert of bob" then some ⟨str "bob", str "bob", str "key of bob", 0, 4102444800000, true⟩
    else if t = str "leaf of bob" then some ⟨str "vote", str "bob", str "vote key", 0, 4102444800000, true⟩
    else none
  checkSignatureFrom leaf anchor := decide (leaf.rawIssuer = anchor.rawSubject)
  legacySignatureWindow := 2592000000
  platformNodeId := str "carol"
  isEmbeddedNode _ := false

def strict : Service where
  platform := .center
  hasKuscia := true
  strictSignatures := true
  currentInstID := []
  nodeIds _ := []
  parseRequest _ := .ok (str "cmVx", [str "bob"])
  unicode := .asciiCase

def bobsRequest : VoteRequestDO := ⟨str "v1", str "carol", VoteTypeNodeRoute, [str "bob"], requestText, .reviewing, [], []⟩

def bobsInvite : VoteInviteDO := ⟨1, str "v1", str "carol", str "bob", VoteTypeNodeRoute, bobsText, .approved, []⟩

def bobsDb (inv : VoteInviteDO) : Db where
  requests := [bobsRequest]
  invites := [inv]
  vote_ids := List.nodup_singleton _
  invite_ids := List.nodup_singleton _
  invite_keys := List.nodup_singleton _

def asked (answers : Bool) : Meeting := ⟨false, if answers then some [str "cert of bob"] else none, none, 1700000000000, true, str "cert of bob", none⟩

def pass (i : Nat) (ms : List Meeting) : List (Calls.Action Call Meeting) := .start i (.syncInvites .findByStatus) :: ms.map (.exec i)

end Vote
