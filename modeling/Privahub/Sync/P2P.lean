import Privahub.Lib.Bytes
import Privahub.Lib.Run
import Privahub.Lib.Versions

/-!
# Peer-to-peer row synchronisation

A change of a row is copied into the queue of every destination (`enqueue`); one worker per
destination sends the head of its queue and looks at the queue again when the attempt has ended
(`Drain`). Changes may be queued while an attempt is under way, and a request may reach the peer
although the attempt is reported to have failed, even after the sender has given it up.

The place of a copy among the copies made for its destination (`seq`) stands for the pointer the
sender compares, and for the version of the row that the copy carries.
-/

namespace Sync

inductive SyncAction
  | create
  | update
  | remove
  deriving DecidableEq

/-- `ChangeEvent`: the copy queued for one destination. -/
structure ChangeEvent where
  table : Bytes
  action : SyncAction
  data : Bytes
  key : Bytes
  dstNode : Bytes
  retries : Int
  seq : Nat
  deriving DecidableEq

structure Row where
  data : Bytes
  isDeleted : Bool
  deriving DecidableEq

/-- `Upsert` restores a soft-deleted row. -/
def Upsert (ev : ChangeEvent) (_ : Option Row) : Option Row := some ⟨ev.data, false⟩

def Delete (_ : ChangeEvent) (r : Option Row) : Option Row := r.map fun r => { r with isDeleted := true }

/-- What `Apply` does to the row of the event. -/
def write (ev : ChangeEvent) : Option Row → Option Row :=
  if ev.action = .remove then Delete ev else Upsert ev

structure Peer where
  rows : Bytes → Option Row
  applied : List ChangeEvent

def Peer.apply (p : Peer) (ev : ChangeEvent) : Peer :=
  ⟨Function.update p.rows ev.key (write ev (p.rows ev.key)), p.applied ++ [ev]⟩

/-- The queue of one destination, the event being sent to it, and the peer at the other end.
`givenUp` are the events of failed attempts whose requests the network may still hold. -/
structure Link where
  queue : List ChangeEvent
  sending : Option ChangeEvent
  givenUp : List ChangeEvent
  next : Nat
  peer : Peer

def supersede (cp : ChangeEvent) (q : List ChangeEvent) : List ChangeEvent :=
  if cp.action = .update ∧ cp.key ≠ [] then q.filter fun old => !(decide (old.action = .update) && decide (old.key = cp.key))
  else q

namespace Link

def enqueue (l : Link) (dst : Bytes) (ev : ChangeEvent) : Link :=
  let cp := { ev with dstNode := dst, seq := l.next }
  { l with queue := supersede cp l.queue ++ [cp], next := l.next + 1 }

/-- `Drain` up to `PostDataSync`: the head of the queue is sent and stays queued. -/
def drainHead (l : Link) : Option Link :=
  match l.sending, l.queue with
  | none, ev :: _ => some { l with sending := some ev }
  | _, _ => none

def dropHead (ev : ChangeEvent) : List ChangeEvent → List ChangeEvent
  | [] => []
  | a :: q => if a.seq = ev.seq then q else a :: q

/-- `Drain` after `PostDataSync`: a failed event goes to the tail, up to `maxRetries`. -/
def drainDone (l : Link) (maxRetries : Int) (failed : Bool) : Option Link :=
  match l.sending with
  | none => none
  | some ev =>
    let q := dropHead ev l.queue
    if failed then
      let ev' := { ev with retries := ev.retries + 1 }
      some { l with
        queue := if ev'.retries < maxRetries then q ++ [ev'] else q
        sending := none
        givenUp := l.givenUp ++ [ev] }
    else some { l with queue := q, sending := none }

def arrive (l : Link) : Option Link := l.sending.map fun ev => { l with peer := l.peer.apply ev }

def arriveLate (l : Link) (i : Nat) : Option Link := l.givenUp[i]?.map fun ev => { l with peer := l.peer.apply ev }

end Link

structure LocalIdentity where
  instID : Bytes
  nodeIDs : List Bytes

/-- `P2PSync` with its peers. -/
structure P2PSync where
  id : Option LocalIdentity
  maxRetries : Int
  links : Bytes → Link

inductive Action
  | enqueue (ev : ChangeEvent)
  | drainHead
  | arrive
  | drainDone (failed : Bool)
  | arriveLate (i : Nat)

namespace P2PSync

variable (p : P2PSync) (dst : Bytes)

def instID : Bytes := match p.id with
  | none => []
  | some id => id.instID

def isLocalNode (n : Bytes) : Bool := match p.id with
  | none => false
  | some id => decide (n ≠ [] ∧ n ∈ id.nodeIDs)

def NewP2PSync (id : Option LocalIdentity) (maxRetries : Int) : P2PSync where
  id := id
  maxRetries := if maxRetries ≤ 0 then 3 else maxRetries
  links _ := ⟨[], none, [], 0, fun _ => none, []⟩

/-- What the action does to the queue of `dst` and to the peer there. -/
def stepLink (l : Link) : Action → Option Link
  | .enqueue ev => some (if dst = [] ∨ dst = p.instID ∨ p.isLocalNode dst then l else l.enqueue dst ev)
  | .drainHead => l.drainHead
  | .arrive => l.arrive
  | .drainDone failed => l.drainDone p.maxRetries failed
  | .arriveLate i => l.arriveLate i

/-- Every critical section of the sender and every arrival at a peer concerns one destination. -/
def step (p : P2PSync) (a : Bytes × Action) : Option P2PSync :=
  (p.stepLink a.1 (p.links a.1) a.2).map fun l => { p with links := Function.update p.links a.1 l }

end P2PSync

end Sync
