import Privahub.Lib.Unicode
import Privahub.Sync.P2P
import Privahub.Sync.Registry

/-!
# Synchronisation from the center to its edges

A change of a row is put into the queue of the center within the transaction that makes it. `Flush`
takes the whole queue and writes each change to the open sessions of the nodes it concerns; a change
that could not be written is put back in front of the queue for that node. An edge that connects
reports how far its tables are (`Checkpoints`), and `InitialSync` writes the rows modified since to the
session the node has at that time, while changes are flushed to the same session.

Every look-up of a session and every write to one is a step of its own. What has been written
to a stream and not been read is lost when the edge leaves it; a session may also stand for a request
the edge has given up (`openOther`). `ver` is the place of a change
among all changes.
-/

namespace Sync

namespace Center

structure Stored where
  row : Entity
  isDeleted : Bool
  ver : Nat
  deriving DecidableEq

/-- `SyncData`: a version of a row on its way to an edge. -/
structure Message where
  action : SyncAction
  row : Entity
  ver : Nat
  deriving DecidableEq

structure Change where
  tx : Nat
  msg : Message
  isDeleted : Bool
  hard : Bool
  deriving DecidableEq

structure ChangeEvent where
  msg : Message
  dstNode : Option Bytes
  retries : Int
  deriving DecidableEq

def keep (rows : List Stored) (r : Entity) : List Stored := rows.filter fun s => !decide (s.row.SameKey r)

def upsert (rows : List Stored) (s : Stored) : List Stored := keep rows s.row ++ [s]

def softDelete (rows : List Stored) (r : Entity) (ver : Nat) : List Stored :=
  rows.map fun s => if s.row.SameKey r ∧ s.isDeleted = false then ⟨s.row, true, ver⟩ else s

def Change.apply (c : Change) (rows : List Stored) : List Stored :=
  if c.msg.action = .remove then if c.hard then keep rows c.msg.row else softDelete rows c.msg.row c.msg.ver
  else upsert rows ⟨c.msg.row, c.isDeleted, c.msg.ver⟩

/-- `projectNodeIDs`. -/
def projectNodeIDs (rows : List Stored) (projectID : Bytes) : List Bytes :=
  if projectID = [] then [] else
  (rows.filter fun s => decide (s.row.table = TableProjectNode ∧ s.isDeleted = false ∧
    s.row.fieldString "project_id" = projectID)).map fun s => s.row.fieldString "node_id"

def routeNodes (rows : List Stored) (r : Route) : List Bytes :=
  if r.nodeIDs = [] then projectNodeIDs rows r.projectID else r.nodeIDs

/-- `Visible`: the node may receive the row. -/
def Visible (rows : List Stored) (r : Entity) (n : Bytes) : Prop :=
  (RouteOf r).broadcast = true ∨ n ∈ routeNodes rows (RouteOf r)

instance (rows : List Stored) (r : Entity) (n : Bytes) : Decidable (Visible rows r n) := inferInstanceAs (Decidable (_ ∨ _))

structure Edge where
  tables : List Bytes
  rows : List Stored
  conn : Option Nat
  applied : List Message

/-- `strings.ToUpper`. -/
def toUpper (u : CaseTables) (s : Bytes) : Bytes := (Utf8.runes s).flatMap fun r => Utf8.encodeRune (u.toUpper r.1)

/-- `ignoreEdge`: executed and observer vote requests are not applied. -/
def ignoreEdge (u : CaseTables) (r : Entity) : Bool :=
  decide (r.table = TableVoteRequest) &&
    (decide (toUpper u (r.fieldString "execute_status") = str "SUCCESS") ||
      decide (toUpper u (r.fieldString "execute_status") = str "OBSERVER"))

/-- `Upsert`: the row takes the place of the one with its key and is not deleted; a row without a
modification time gets the local one. -/
def Upsert (now : Int) (rows : List Stored) (m : Message) : List Stored :=
  if m.row.keyed then
    upsert rows ⟨if m.row.gmtModified = 0 then { m.row with gmtModified := now } else m.row, false, m.ver⟩
  else rows

/-- `Delete`: only rows that are not deleted match. -/
def Delete (rows : List Stored) (m : Message) : List Stored :=
  if m.row.keyed then softDelete rows m.row m.ver else rows

/-- `Apply` on an edge. -/
def Apply (u : CaseTables) (tables : List Bytes) (now : Int) (rows : List Stored) (m : Message) : List Stored :=
  if m.row.table ∉ tables ∨ ignoreEdge u m.row then rows
  else if m.action = .remove then Delete rows m
  else Upsert now rows m

/-- A subscription with the checkpoint of its table, `none` for "0". -/
structure Subscription where
  table : Bytes
  lastUpdateTime : Option Int
  deriving DecidableEq

/-- The checkpoint is written without the fraction of its second. -/
def truncate (t : Int) : Int := t / 1000000000 * 1000000000

def times (rows : List Stored) (table : Bytes) : List Int :=
  (rows.filter fun s => decide (s.row.table = table)).map fun s => s.row.gmtModified

/-- `lastUpdateTime`: the greatest modification time of the table. -/
def lastUpdateTime (rows : List Stored) (table : Bytes) : Option Int :=
  match (times rows table).max? with
  | none => none
  | some t => if t = 0 then none else some (truncate t)

/-- The mark an edge reports for a table; nodes are always sent in full. -/
def Edge.checkpoint (e : Edge) (table : Bytes) : Option Int := if table = TableNode then none else lastUpdateTime e.rows table

/-- `Checkpoints`. -/
def Edge.Checkpoints (e : Edge) : List Subscription := e.tables.map fun t => ⟨t, e.checkpoint t⟩

/-- `SseSession`, with what has been written to it and not been read. -/
structure Session where
  node : Bytes
  tables : List Subscription
  done : Bool
  stream : List Message

def Session.Subscribed (s : Session) (table : Bytes) : Prop := ∃ t ∈ s.tables, t.table = table

instance (s : Session) (table : Bytes) : Decidable (s.Subscribed table) := inferInstanceAs (Decidable (∃ _ ∈ _, _))

def streamOf (sessions : List Session) (sid : Nat) : List Message := ((sessions[sid]?).map Session.stream).getD []

/-- A call of `InitialSync` for the node of session `sid`: the subscriptions and rows still to come, and the message about to be written. -/
structure Catchup where
  sid : Nat
  node : Bytes
  subs : List Subscription
  rows : List Stored
  held : Option (Message × Nat)
  failed : Bool

/-- A row as `InitialSync` sends it. -/
def Stored.snapshot (s : Stored) : Message := ⟨.create, s.row, s.ver⟩

def Catchup.aborted (c : Catchup) : Catchup := { c with subs := [], rows := [], held := none, failed := true }

/-- `deliver` of one event: the nodes left, and the session it is about to be written to. -/
structure Delivery where
  ev : ChangeEvent
  targets : List Bytes
  held : Option Nat

structure Flush where
  batch : List ChangeEvent
  current : Option Delivery
  retry : List ChangeEvent

structure World where
  unicode : CaseTables
  tables : List Bytes
  maxRetries : Int
  rows : List Stored
  uncommitted : List Change
  queue : List ChangeEvent
  flush : Option Flush
  sessions : List Session
  current : Bytes → Option Nat
  syncs : List Catchup
  edges : Bytes → Edge
  next : Nat
  written : List Message

inductive Action
  | change (tx : Nat) (action : SyncAction) (row : Entity) (isDeleted hard : Bool)
  | commit (tx : Nat)
  | rollback (tx : Nat)
  | flush
  | deliver (order : List Bytes)
  | target (lost : Bool)
  | send (ok : Bool)
  | delivered
  | flushed
  | connect (n : Bytes)
  | openOther (n : Bytes) (subs : List Subscription)
  | close (sid : Nat)
  | hangup (n : Bytes)
  | apply (n : Bytes) (now : Int)
  | readTable (i : Nat) (ok : Bool) (order : List Stored)
  | nextRow (i : Nat)
  | sendRow (i : Nat) (ok : Bool)

namespace World

variable (w : World)

/-- `filtered`: only configured tables; jobs and tasks only on update. -/
def filtered (m : Message) : Prop :=
  m.row.table ∉ w.tables ∨ ((m.row.table = TableProjectJob ∨ m.row.table = TableProjectJobTask) ∧ m.action ≠ .update)

instance (m : Message) : Decidable (w.filtered m) := inferInstanceAs (Decidable (_ ∨ _))

/-- `Push`. -/
def push (m : Message) : List ChangeEvent := if w.filtered m then w.queue else w.queue ++ [⟨m, none, 0⟩]

/-- `NodeIDs`: the nodes with a session. -/
def NodeIDs : List Bytes :=
  ((List.range w.sessions.length).filterMap fun sid =>
    (w.sessions[sid]?).bind fun s => if w.current s.node = some sid then some s.node else none)

/-- `targets`; a broadcast goes to the connected nodes in the order in which the map yields them. -/
def targets (ev : ChangeEvent) (order : List Bytes) : List Bytes :=
  match ev.dstNode with
  | some n => [n]
  | none => if (RouteOf ev.msg.row).broadcast then order else routeNodes w.rows (RouteOf ev.msg.row)

def write (sid : Nat) (m : Message) : List Session :=
  w.sessions.modify sid fun s => { s with stream := s.stream ++ [m] }

/-- `closeSession`: the session is done, and no longer that of its node. -/
def closeSession (sid : Nat) : World :=
  { w with
    sessions := w.sessions.modify sid fun s => { s with done := true }
    current := fun n => if w.current n = some sid then none else w.current n }

def writable (sid : Nat) : Prop := ∃ s ∈ w.sessions[sid]?, s.done = false

instance (sid : Nat) : Decidable (w.writable sid) := inferInstanceAs (Decidable (∃ _ ∈ _, _))

/-- `Open`: the new session is that of the node, and the previous one is closed. -/
def openSession (n : Bytes) (subs : List Subscription) : World :=
  let sid := w.sessions.length
  let sessions := match w.current n with
    | none => w.sessions
    | some old => w.sessions.modify old fun s => { s with done := true }
  { w with
    sessions := sessions ++ [⟨n, subs, false, []⟩]
    current := Function.update w.current n (some sid)
    syncs := w.syncs ++ [⟨sid, n, subs, [], none, false⟩] }

def retried (ev : ChangeEvent) (n : Bytes) : List ChangeEvent :=
  let cp := { ev with dstNode := some n, retries := ev.retries + 1 }
  if cp.retries < w.maxRetries then [cp] else []

/-- `rowsSince`: the rows of the table modified after the checkpoint, deleted ones excluded. -/
def rowsSince (sub : Subscription) : List Stored :=
  w.rows.filter fun s => decide (s.row.table = sub.table ∧ s.isDeleted = false) &&
    match sub.lastUpdateTime with
    | none => true
    | some t => decide (t < s.row.gmtModified)

/-- What is left of the stream the edge of `n` reads. -/
def stream (n : Bytes) : List Message := (w.edges n).conn.elim [] (streamOf w.sessions)

def setEdge (n : Bytes) (e : Edge) : Bytes → Edge := Function.update w.edges n e

def step (w : World) : Action → Option World
  | .change tx action row isDeleted hard =>
    -- a row changed in a transaction is locked until it ends; a row that is written has a modification time
    if (∃ c ∈ w.uncommitted, c.tx ≠ tx ∧ c.msg.row.SameKey row) ∨ (action ≠ .remove ∧ row.gmtModified = 0) then none
    else
      let m : Message := ⟨action, row, w.next⟩
      some { w with
        uncommitted := w.uncommitted ++ [⟨tx, m, isDeleted, hard⟩]
        queue := w.push m
        next := w.next + 1
        written := if action = .remove then w.written else w.written ++ [m] }
  | .commit tx => some { w with
      rows := (w.uncommitted.filter fun c => decide (c.tx = tx)).foldl (fun rows c => c.apply rows) w.rows
      uncommitted := w.uncommitted.filter fun c => !decide (c.tx = tx) }
  | .rollback tx => some { w with uncommitted := w.uncommitted.filter fun c => !decide (c.tx = tx) }
  | .flush => match w.flush with
    | some _ => none
    | none => some { w with queue := [], flush := some ⟨w.queue, none, []⟩ }
  | .deliver order => match w.flush with
    | some ⟨ev :: batch, none, retry⟩ =>
      if order.Perm w.NodeIDs then some { w with flush := some ⟨batch, some ⟨ev, w.targets ev order, none⟩, retry⟩ }
      else none
    | _ => none
  | .target lost => match w.flush with
    | some ⟨batch, some ⟨ev, n :: ts, none⟩, retry⟩ =>
      let broadcast := (RouteOf ev.msg.row).broadcast
      match w.current n with
      | none =>
        -- without a session the node is skipped, unless the session was lost after it had been looked up
        some { w with flush := some ⟨batch, some ⟨ev, ts, none⟩, if broadcast ∨ lost then retry ++ w.retried ev n else retry⟩ }
      | some sid =>
        if broadcast ∨ ∃ s ∈ w.sessions[sid]?, s.Subscribed ev.msg.row.table then
          some { w with flush := some ⟨batch, some ⟨ev, n :: ts, some sid⟩, retry⟩ }
        else some { w with flush := some ⟨batch, some ⟨ev, ts, none⟩, retry⟩ }
    | _ => none
  | .send ok => match w.flush with
    | some ⟨batch, some ⟨ev, n :: ts, some sid⟩, retry⟩ =>
      if ok then
        if w.writable sid then
          some { w with sessions := w.write sid ev.msg, flush := some ⟨batch, some ⟨ev, ts, none⟩, retry⟩ }
        else none
      else some { w.closeSession sid with flush := some ⟨batch, some ⟨ev, ts, none⟩, retry ++ w.retried ev n⟩ }
    | _ => none
  | .delivered => match w.flush with
    | some ⟨batch, some ⟨_, [], none⟩, retry⟩ => some { w with flush := some ⟨batch, none, retry⟩ }
    | _ => none
  | .flushed => match w.flush with
    | some ⟨[], none, retry⟩ => some { w with queue := retry ++ w.queue, flush := none }
    | _ => none
  | .connect n =>
    if n ≠ [] ∧ (w.edges n).conn = none then
      let w' := w.openSession n ((w.edges n).Checkpoints.filter fun s => decide (s.table ∈ w.tables))
      some { w' with edges := w.setEdge n { w.edges n with conn := some w.sessions.length } }
    else none
  | .openOther n subs => if n ≠ [] then some (w.openSession n subs) else none
  | .close sid => some (w.closeSession sid)
  | .hangup n => some { w with edges := w.setEdge n { w.edges n with conn := none } }
  | .apply n now => match (w.edges n).conn with
    | none => none
    | some sid => match w.stream n with
      | [] => none
      | m :: ms =>
        let e := w.edges n
        some { w with
          sessions := w.sessions.modify sid fun s => { s with stream := ms }
          edges := w.setEdge n { e with rows := Apply w.unicode e.tables now e.rows m, applied := e.applied ++ [m] } }
  | .readTable i ok order => match w.syncs[i]? with
    | some ⟨sid, n, sub :: subs, [], none, failed⟩ =>
      if order.Perm (w.rowsSince sub) then
        some { w with syncs := w.syncs.set i ⟨sid, n, subs, if sub.table ∈ w.tables ∧ ok then order else [], none, failed⟩ }
      else none
    | _ => none
  | .nextRow i => match w.syncs[i]? with
    | some ⟨sid, n, subs, s :: rows, none, failed⟩ =>
      if Visible w.rows s.row n then
        match w.current n with
        | none => some { w with syncs := w.syncs.modify i Catchup.aborted }
        | some cur => some { w with syncs := w.syncs.set i ⟨sid, n, subs, rows, some (s.snapshot, cur), failed⟩ }
      else some { w with syncs := w.syncs.set i ⟨sid, n, subs, rows, none, failed⟩ }
    | _ => none
  | .sendRow i ok => match w.syncs[i]? with
    | some ⟨sid, n, subs, rows, some (m, cur), failed⟩ =>
      if ok then
        if w.writable cur then
          some { w with sessions := w.write cur m, syncs := w.syncs.set i ⟨sid, n, subs, rows, none, failed⟩ }
        else none
      else some { w.closeSession cur with syncs := w.syncs.modify i Catchup.aborted }
    | _ => none

/-- Before the first change and the first connection: an empty center and empty edges. -/
def init (u : CaseTables) (tables : List Bytes) (maxRetries : Int) (edgeTables : Bytes → List Bytes) : World where
  unicode := u
  tables := tables
  maxRetries := if maxRetries ≤ 0 then 3 else maxRetries
  rows := []
  uncommitted := []
  queue := []
  flush := none
  sessions := []
  current _ := none
  syncs := []
  edges n := ⟨edgeTables n, [], none, []⟩
  next := 0
  written := []

end World

end Center

end Sync
