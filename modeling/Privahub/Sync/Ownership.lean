import Privahub.Graph.Service
import Privahub.Sync.Center

/-!
# Rows that peers own

What an institution sends to another, and what the other accepts from it: the filter of the P2P producer with the
destinations of a row (`sentTo`), and the ownership check of the consumer (`checkPeerOwnership`). Both look up nodes,
projects and graphs in their own database; the producer also keeps owners it has seen before. The party information
that a sent invite adds to its vote request is a change of its own.
-/

namespace Sync

open Graph (EqualFold)

structure Held where
  row : Entity
  isDeleted : Bool
  deriving DecidableEq

def Keyed (rows : List Held) : Prop := rows.Pairwise fun h h' => ¬h.row.SameKey h'.row

instance (rows : List Held) : Decidable (Keyed rows) := inferInstanceAs (Decidable (rows.Pairwise _))

def isRow (table : Bytes) (cols : List (String × Bytes)) (h : Held) : Bool :=
  decide (h.row.table = table) && cols.all fun c => decide (h.row.fieldString c.1 = c.2)

def firstField (rows : List Held) (p : Held → Bool) (col : String) : Bytes := ((rows.find? p).map (·.row.fieldString col)).getD []

def instOf (rows : List Held) (nodeID : Bytes) : Bytes :=
  firstField rows (fun h => !h.isDeleted && isRow TableNode [("node_id", nodeID)] h) "inst_id"

def projectOwner (rows : List Held) (projectID : Bytes) : Bytes := firstField rows (isRow TableProject [("project_id", projectID)]) "owner_id"

def graphOwner (rows : List Held) (projectID graphID : Bytes) : Bytes :=
  firstField rows (isRow TableProjectGraph [("project_id", projectID), ("graph_id", graphID)]) "owner_id"

/-- `ownerOf`: soft-deleted rows included. -/
def ownerOf (rows : List Held) (projectID graphID : Bytes) : Bytes :=
  if projectID = [] then [] else if graphID ≠ [] then graphOwner rows projectID graphID else projectOwner rows projectID

def nodesOf (rows : List Held) (inst : Bytes) : List Bytes :=
  (rows.filter fun h => !h.isDeleted && isRow TableNode [("inst_id", inst)] h).map (·.row.fieldString "node_id")

/-- `peer`: the sending node, with its institution when that is known. -/
structure PeerID where
  node : Bytes
  inst : Bytes

structure Consumer where
  unicode : CaseTables
  /-- Every table without a list. -/
  allowed : Option (List Bytes)
  localNodeID : Bytes
  identity : Option LocalIdentity
  rows : List Held
  keyed : Keyed rows

namespace Consumer

variable (c : Consumer) (p : PeerID)

def isPeer (id : Bytes) : Bool :=
  decide (id ≠ []) && (EqualFold c.unicode id p.node || decide (p.inst ≠ []) && EqualFold c.unicode id p.inst)

def peerOf (origin : Bytes) : PeerID := ⟨origin, instOf c.rows origin⟩

/-- The node is the sending one or one of its institution. -/
def peerNode (nodeID : Bytes) : Bool :=
  c.isPeer p nodeID ||
    decide (nodeID ≠ [] ∧ p.inst ≠ []) && c.rows.any fun h => !h.isDeleted && isRow TableNode [("node_id", nodeID), ("inst_id", p.inst)] h

def isLocalNode (nodeID : Bytes) : Bool :=
  EqualFold c.unicode nodeID c.localNodeID || match c.identity with
    | none => false
    | some id => decide (nodeID ∈ id.nodeIDs)

def localParty (id : Bytes) : Bool :=
  decide (id ≠ []) && ((match c.identity with
    | none => false
    | some i => EqualFold c.unicode id i.instID) || c.isLocalNode id)

/-- `peerOwns`: the rule of the table, none for a table without one. -/
def peerOwns (action : SyncAction) (e : Entity) : Bool :=
  let f := e.fieldString
  if e.table = TableProject ∨ e.table = TableProjectGraph then c.isPeer p (f "owner_id")
  else if e.table = TableProjectGraphNode ∨ e.table = TableProjectGraphNodeKuscia ∨ e.table = TableProjectJob then
    c.isPeer p (ownerOf c.rows (f "project_id") (f "graph_id"))
  else if e.table = TableProjectNode ∨ e.table = TableProjectInst then c.isPeer p (ownerOf c.rows (f "project_id") [])
  else if e.table = TableProjectDatatable ∨ e.table = TableProjectFeatureTable then c.peerNode p (f "node_id")
  else if e.table = TableProjectGraphDomainDs then c.peerNode p (f "domain_id")
  else if e.table = TableProjectModelServing ∨ e.table = TableProjectModelPack then c.peerNode p (f "initiator")
  else if e.table = TableVoteRequest ∨ e.table = TableProjectApprovalConfig then c.isPeer p (f "initiator")
  else if e.table = TableVoteInvite then
    -- an invitee answers its own invite of a vote of this platform
    c.isPeer p (f "initiator") ||
      decide (action = .update) && c.localParty (f "initiator") && c.peerNode p (f "vote_participant_id")
  else if e.table = TableProjectSchedule ∨ e.table = TableProjectScheduleJob ∨ e.table = TableProjectScheduleTask then c.isPeer p (f "owner")
  else false

/-- The local row that would be overwritten or deleted. -/
def existingRow (e : Entity) : Option Held := c.rows.find? fun h => decide (h.row.SameKey e)

def checkPeerOwnership (action : SyncAction) (e : Entity) : Bool :=
  (decide (action = .remove) || c.peerOwns p action e) && e.keyed &&
    match c.existingRow e with
    | none => true
    | some h => c.peerOwns p action h.row

end Consumer

/-- `owners` are the owners that have been seen. -/
structure P2PProducer where
  unicode : CaseTables
  sync : P2PSync
  tables : List Bytes
  rows : List Held
  owners : Bytes → Option Bytes

namespace P2PProducer

variable (s : P2PProducer)

def ownerKey (projectID graphID : Bytes) : Bytes := if graphID ≠ [] then projectID ++ str "_" ++ graphID else projectID

def setOwner (k owner : Bytes) : P2PProducer := { s with owners := Function.update s.owners k (some owner) }

/-- `owner`: the database is asked on a miss. -/
def owner (projectID graphID : Bytes) : Bytes :=
  match s.owners (ownerKey projectID graphID) with
  | some o => o
  | none => if graphID ≠ [] then graphOwner s.rows projectID graphID else projectOwner s.rows projectID

def isStopped (status : Bytes) : Bool := decide (Center.toUpper s.unicode (Utf8.trimSpace status) ∈ [str "STOPPED", str "CANCELLED"])

/-- `Filter`, which says false: the row is sent by this route. -/
def route (action : SyncAction) (e : Entity) : Option Route :=
  let f := e.fieldString
  let inst := s.sync.instID
  let own (b : Bool) : Option Route := if b then some (RouteOf e) else none
  if e.table = TableProject ∨ e.table = TableProjectGraph then own (decide (f "owner_id" = inst))
  else if e.table = TableProjectGraphNode ∨ e.table = TableProjectGraphNodeKuscia then own (decide (s.owner (f "project_id") (f "graph_id") = inst))
  else if e.table = TableProjectJob then
    own ((decide (action ≠ .update) || s.isStopped (f "status")) && decide (s.owner (f "project_id") (f "graph_id") = inst))
  else if e.table = TableProjectDatatable ∨ e.table = TableProjectFeatureTable then own (s.sync.isLocalNode (f "node_id"))
  else if e.table = TableProjectGraphDomainDs then own (s.sync.isLocalNode (f "domain_id"))
  else if e.table = TableProjectModelServing ∨ e.table = TableProjectModelPack then own (s.sync.isLocalNode (f "initiator"))
  else if e.table = TableVoteRequest ∨ e.table = TableProjectApprovalConfig then own (decide (f "initiator" = inst))
  else if e.table = TableVoteInvite then
    if f "initiator" = inst then own (decide (action = .create))
    else if action = .update then some { RouteOf e with nodeIDs := [f "initiator"] }
    else none
  else if e.table = TableProjectNode ∨ e.table = TableProjectInst then own (decide (s.owner (f "project_id") [] = inst))
  else if e.table = TableProjectSchedule ∨ e.table = TableProjectScheduleJob ∨ e.table = TableProjectScheduleTask then own (decide (f "owner" = inst))
  else some (RouteOf e)

def seen (e : Entity) : P2PProducer :=
  let f := e.fieldString
  let cached (projectID graphID : Bytes) : P2PProducer :=
    if s.owner projectID graphID = [] then s else s.setOwner (ownerKey projectID graphID) (s.owner projectID graphID)
  if e.table = TableProject then s.setOwner (f "project_id") (f "owner_id")
  else if e.table = TableProjectGraph then s.setOwner (f "project_id" ++ str "_" ++ f "graph_id") (f "owner_id")
  else if e.table = TableProjectGraphNode ∨ e.table = TableProjectGraphNodeKuscia ∨ e.table = TableProjectJob then cached (f "project_id") (f "graph_id")
  else if e.table = TableProjectNode ∨ e.table = TableProjectInst then cached (f "project_id") []
  else s

/-- `pad`: the parties of a vote, the institutions of the project and the parties of its approval. -/
def pad (e : Entity) (r : Route) : List Bytes :=
  let parties := match s.rows.find? fun h => !h.isDeleted && isRow TableProjectApprovalConfig [("project_id", r.projectID), ("type", str "PROJECT_CREATE")] h with
    | some h => ParseIDList (h.row.fieldString "parties") ++ [h.row.fieldString "invite_node_id"]
    | none => []
  let insts := (s.rows.filter fun h => !h.isDeleted && isRow TableProjectInst [("project_id", r.projectID)] h).map (·.row.fieldString "inst_id")
  compact ((if e.table = TableVoteRequest ∨ e.table = TableVoteInvite then r.nodeIDs else []) ++ if r.projectID ≠ [] then insts ++ parties else [])

/-- `Push` up to the queues: the destinations of a change. -/
def sentTo (action : SyncAction) (e : Entity) : List Bytes :=
  if e.table ∉ s.tables then [] else
  match s.route action e with
  | none => []
  | some r => (s.pad e r).filter fun dst => !decide (dst = [] ∨ dst = s.sync.instID ∨ s.sync.isLocalNode dst = true)

end P2PProducer

end Sync
