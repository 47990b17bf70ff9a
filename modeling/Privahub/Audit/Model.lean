import Privahub.Lib.HashChain
import Privahub.Lib.Json
import Privahub.Sm3
import Mathlib.Data.List.Sort

/-!
# Audit records and their hashes

The rows of `internal/dao/model/audit.go` and `internal/audit/hash.go`: the canonical pre-image, the
hash of a record and of an archived segment, and the row an event becomes. `int64` columns are
integers without a bound; strings are byte strings. `chain` is the record chain as a `HashChain.Scheme`,
and `hashed_eq_of_payload` says that the pre-image fixes every field it covers.
-/

namespace Audit

structure AuditLogDO where
  id : Int
  seq : Int
  eventId : Bytes
  tsMicro : Int
  actor : Bytes
  actorType : Bytes
  ownerId : Bytes
  ip : Bytes
  action : Bytes
  resourceType : Bytes
  resourceId : Bytes
  result : Bytes
  reason : Bytes
  traceId : Bytes
  extra : Bytes
  prevHash : Bytes
  hash : Bytes
deriving DecidableEq

structure AuditChainTailDO where
  seq : Int
  hash : Bytes
deriving DecidableEq

structure AuditSegmentDO where
  segSeq : Int
  firstSeq : Int
  lastSeq : Int
  recordCount : Int
  firstPrevHash : Bytes
  lastHash : Bytes
  fileName : Bytes
  fileSm3 : Bytes
  archiveMicro : Int
  prevSegHash : Bytes
  segHash : Bytes
deriving DecidableEq

def hashAlgorithm : Bytes := str "SM3:privahub-audit:v1"

def segmentAlgorithm : Bytes := str "SM3:privahub-audit-segment:v1"

def genesisHash : Bytes := List.replicate 64 48

def canonicalJoin (fields : List Bytes) : Bytes := Bytes.lenPrefixJoin fields

/-- No content of a field moves across its boundary. -/
theorem canonicalJoin_eq_iff (fields others : List Bytes) : canonicalJoin fields = canonicalJoin others ↔ fields = others :=
  ⟨fun h => Bytes.lenPrefixJoin_injective h, congrArg canonicalJoin⟩

def payloadFields (r : AuditLogDO) : List Bytes :=
  [hashAlgorithm, Bytes.itoa r.seq, r.eventId, Bytes.itoa r.tsMicro, r.actor, r.actorType, r.ownerId, r.ip, r.action,
    r.resourceType, r.resourceId, r.result, r.reason, r.traceId, r.extra, r.prevHash]

def payload (r : AuditLogDO) : Bytes := canonicalJoin (payloadFields r)

def computeHash (r : AuditLogDO) : Bytes := Sm3.sumHex (payload r)

def segmentPayload (s : AuditSegmentDO) : Bytes :=
  canonicalJoin [segmentAlgorithm, Bytes.itoa s.segSeq, Bytes.itoa s.firstSeq, Bytes.itoa s.lastSeq,
    Bytes.itoa s.recordCount, s.firstPrevHash, s.lastHash, s.fileName, s.fileSm3, Bytes.itoa s.archiveMicro,
    s.prevSegHash]

def computeSegmentHash (s : AuditSegmentDO) : Bytes := Sm3.sumHex (segmentPayload s)

/-- The chain of records: numbers, links and hashes of the rows of `audit_log`. -/
def chain : HashChain.Scheme AuditLogDO Bytes where
  seq := AuditLogDO.seq
  prev := AuditLogDO.prevHash
  hash := AuditLogDO.hash
  digest := computeHash

/-- The fields `ComputeHash` covers: all but the surrogate key and the hash itself. -/
def hashed (r : AuditLogDO) : AuditLogDO := { r with id := 0, hash := [] }

theorem hashed_eq_of_payload {r s : AuditLogDO} (h : payload r = payload s) : hashed r = hashed s := by
  have hf := Bytes.lenPrefixJoin_injective h
  simp only [payloadFields, List.cons.injEq, and_true, true_and] at hf
  obtain ⟨hseq, he, ht, h1, h2, h3, h4, h5, h6, h7, h8, h9, h10, h11, h12⟩ := hf
  simp only [hashed, Bytes.itoa_injective hseq, he, Bytes.itoa_injective ht, h1, h2, h3, h4, h5, h6, h7, h8, h9, h10,
    h11, h12]

@[simp] theorem computeHash_hash (r : AuditLogDO) (h : Bytes) : computeHash { r with hash := h } = computeHash r := rfl

/-- The longest prefix of `s[:n]` that is valid UTF-8, by dropping bytes off its end. -/
def trimInvalid : Nat → Bytes → Bytes
  | 0, s => s
  | k + 1, s => if s ≠ [] ∧ !Utf8.validString s then trimInvalid k (s.take (s.length - 1)) else s

def truncate (s : Bytes) (n : Nat) : Bytes :=
  if s.length ≤ n then s else trimInvalid n (s.take n)

def maxActor : Nat := 128
def maxActorType : Nat := 16
def maxOwnerID : Nat := 64
def maxIP : Nat := 64
def maxAction : Nat := 255
def maxResourceType : Nat := 64
def maxResourceID : Nat := 255
def maxResult : Nat := 16
def maxReason : Nat := 512
def maxTraceID : Nat := 128
def maxExtraKey : Nat := 64
def maxExtraValue : Nat := 512
def maxExtraEntries : Nat := 32

/-- Byte order, the order `sort.Strings` and `json.Marshal` put keys in. -/
def bytesLe : Bytes → Bytes → Bool
  | [], _ => true
  | _ :: _, [] => false
  | a :: as, b :: bs => a < b || (a == b && bytesLe as bs)

def put (m : List (Bytes × Bytes)) (k v : Bytes) : List (Bytes × Bytes) := m.filter (fun e => e.1 ≠ k) ++ [(k, v)]

/-- `Extra` is a map: an association list with the last entry of a key winning. -/
def canonicalExtra (m : List (Bytes × Bytes)) : Bytes :=
  if m = [] then []
  else
    let m := m.foldl (fun m e => put m e.1 e.2) []
    let entries := (m.insertionSort fun a b => bytesLe a.1 b.1).take maxExtraEntries
    let out := entries.foldl (fun m e => put m (truncate e.1 maxExtraKey) (truncate e.2 maxExtraValue)) []
    Json.object ((out.insertionSort fun a b => bytesLe a.1 b.1).map fun e => Json.quote e.1 ++ 58 :: Json.quote e.2)

/-- `time` is in nanoseconds since the Unix epoch. -/
structure Event where
  time : Int
  actor : Bytes
  actorType : Bytes
  ownerId : Bytes
  ip : Bytes
  action : Bytes
  resourceType : Bytes
  resourceId : Bytes
  result : Bytes
  reason : Bytes
  traceId : Bytes
  extra : List (Bytes × Bytes)
deriving DecidableEq

/-- `TruncateTime(t).UnixMicro()`, an `int64`. -/
def truncateTime (t : Int) : Int := (t / 1000).bmod (2 ^ 64)

def rowFromEvent (id : Bytes) (e : Event) : AuditLogDO where
  id := 0
  seq := 0
  eventId := truncate id 64
  tsMicro := truncateTime e.time
  actor := truncate e.actor maxActor
  actorType := truncate e.actorType maxActorType
  ownerId := truncate e.ownerId maxOwnerID
  ip := truncate e.ip maxIP
  action := truncate e.action maxAction
  resourceType := truncate e.resourceType maxResourceType
  resourceId := truncate e.resourceId maxResourceID
  result := truncate e.result maxResult
  reason := truncate e.reason maxReason
  traceId := truncate e.traceId maxTraceID
  extra := canonicalExtra e.extra
  prevHash := []
  hash := []

namespace AuditLogDO

def zero : AuditLogDO := ⟨0, 0, [], 0, [], [], [], [], [], [], [], [], [], [], [], [], []⟩

def fieldNames : List Bytes :=
  [str "id", str "seq", str "eventId", str "tsMicro", str "actor", str "actorType", str "ownerId", str "ip",
    str "action", str "resourceType", str "resourceId", str "result", str "reason", str "traceId", str "extra",
    str "prevHash", str "hash"]

def marshal (r : AuditLogDO) : Bytes :=
  Json.object [Json.member (str "id") (Bytes.itoa r.id), Json.member (str "seq") (Bytes.itoa r.seq),
    Json.member (str "eventId") (Json.quote r.eventId), Json.member (str "tsMicro") (Bytes.itoa r.tsMicro),
    Json.member (str "actor") (Json.quote r.actor), Json.member (str "actorType") (Json.quote r.actorType),
    Json.member (str "ownerId") (Json.quote r.ownerId), Json.member (str "ip") (Json.quote r.ip),
    Json.member (str "action") (Json.quote r.action), Json.member (str "resourceType") (Json.quote r.resourceType),
    Json.member (str "resourceId") (Json.quote r.resourceId), Json.member (str "result") (Json.quote r.result),
    Json.member (str "reason") (Json.quote r.reason), Json.member (str "traceId") (Json.quote r.traceId),
    Json.member (str "extra") (Json.quote r.extra), Json.member (str "prevHash") (Json.quote r.prevHash),
    Json.member (str "hash") (Json.quote r.hash)]

def setField (r : AuditLogDO) (f : Bytes) (v : Json) : Option AuditLogDO :=
  if f = str "id" then (Json.decodeInt r.id v).map fun x => { r with id := x }
  else if f = str "seq" then (Json.decodeInt r.seq v).map fun x => { r with seq := x }
  else if f = str "eventId" then (Json.decodeStr r.eventId v).map fun x => { r with eventId := x }
  else if f = str "tsMicro" then (Json.decodeInt r.tsMicro v).map fun x => { r with tsMicro := x }
  else if f = str "actor" then (Json.decodeStr r.actor v).map fun x => { r with actor := x }
  else if f = str "actorType" then (Json.decodeStr r.actorType v).map fun x => { r with actorType := x }
  else if f = str "ownerId" then (Json.decodeStr r.ownerId v).map fun x => { r with ownerId := x }
  else if f = str "ip" then (Json.decodeStr r.ip v).map fun x => { r with ip := x }
  else if f = str "action" then (Json.decodeStr r.action v).map fun x => { r with action := x }
  else if f = str "resourceType" then (Json.decodeStr r.resourceType v).map fun x => { r with resourceType := x }
  else if f = str "resourceId" then (Json.decodeStr r.resourceId v).map fun x => { r with resourceId := x }
  else if f = str "result" then (Json.decodeStr r.result v).map fun x => { r with result := x }
  else if f = str "reason" then (Json.decodeStr r.reason v).map fun x => { r with reason := x }
  else if f = str "traceId" then (Json.decodeStr r.traceId v).map fun x => { r with traceId := x }
  else if f = str "extra" then (Json.decodeStr r.extra v).map fun x => { r with extra := x }
  else if f = str "prevHash" then (Json.decodeStr r.prevHash v).map fun x => { r with prevHash := x }
  else if f = str "hash" then (Json.decodeStr r.hash v).map fun x => { r with hash := x }
  else some r

def unmarshal (s : Bytes) : Option AuditLogDO := Json.decodeStruct fieldNames setField zero s

end AuditLogDO

end Audit
