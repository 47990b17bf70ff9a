import Privahub.Audit.Spool
import Privahub.Audit.World

/-!
# The recorder

`internal/audit/service.go`: concurrent `Record` calls, the writer goroutine (`run`) and `Close` over
one bounded queue, one spool and one database, whose calls are those of a `World`. Every receive,
push, flag access, spool operation and database call is a step of its own. `Host` adds crashes: the
process loses its memory and starts again on the same database and spool directory.
-/

namespace Audit

structure Options where
  queueSize : Int
  batchSize : Int
  spoolMaxBytes : Int

/-- The options after `normalize`. -/
structure Limits where
  queueSize : Nat
  batchSize : Nat
  spoolMaxBytes : Int
  queueSize_pos : 0 < queueSize
  batchSize_pos : 0 < batchSize

def Options.normalize (o : Options) : Limits where
  queueSize := if o.queueSize ≤ 0 then 4096 else o.queueSize.toNat
  batchSize := if o.batchSize ≤ 0 then 128 else o.batchSize.toNat
  spoolMaxBytes := if o.spoolMaxBytes ≤ 0 then 256 * 2 ^ 20 else o.spoolMaxBytes
  queueSize_pos := by split_ifs <;> omega
  batchSize_pos := by split_ifs <;> omega

/-- A `Record` call: the row is built, the closed flag was read as unset, the row goes to the spool. -/
inductive RecordPc where
  | start (row : AuditLogDO)
  | pushing (row : AuditLogDO)
  | spooling (row : AuditLogDO)
  | returned (row : AuditLogDO)
deriving DecidableEq

def RecordPc.row : RecordPc → AuditLogDO
  | start row | pushing row | spooling row | returned row => row

/-- What the writer goes on with after a batch: its `select`, or `drainAll` (for a flush or before it returns). -/
inductive After where
  | select
  | drainAll (flush : Bool)
deriving DecidableEq

inductive WriterPc where
  | notStarted
  | select
  | draining (batch : List AuditLogDO) (next : After)
  | persisting (batch : List AuditLogDO) (call : Nat) (next : After)
  | spooling (batch : List AuditLogDO) (next : After)
  | replay
  | nextFile (files : List Nat)
  | replayRows (file : Nat) (files : List Nat) (rows : List AuditLogDO)
  | replaying (file : Nat) (files : List Nat) (batch rows : List AuditLogDO) (call : Nat)
  | removing (file : Nat) (files : List Nat)
  | returned
deriving DecidableEq

def After.pc : After → WriterPc
  | select => .select
  | drainAll flush => .draining [] (.drainAll flush)

inductive CloserPc where
  | notCalled
  | closing
  | waiting
  | draining (late : List AuditLogDO)
  | spooling (late : List AuditLogDO)
  | returned
deriving DecidableEq

structure Service where
  world : World
  spool : Option Spool
  queue : List AuditLogDO
  closed : Bool
  stopped : Bool
  writer : WriterPc
  closer : CloserPc
  recorders : List RecordPc
  dropped : List AuditLogDO

namespace Service

/-- A service as `New` leaves it. -/
def fresh (w : World) (sp : Option Spool) : Service := ⟨w, sp, [], false, false, .notStarted, .notCalled, [], []⟩

variable (lim : Limits)

def spoolOrDrop (s : Service) (rows : List AuditLogDO) (io : Io) : Service :=
  match s.spool with
  | none => { s with dropped := s.dropped ++ rows }
  | some sp =>
    let (sp, ok) := sp.append lim.spoolMaxBytes rows io
    { s with spool := some sp, dropped := if ok then s.dropped else s.dropped ++ rows }

section spoolOrDrop

variable (s : Service) (rows : List AuditLogDO) (io : Io)

@[simp] theorem spoolOrDrop_world : (s.spoolOrDrop lim rows io).world = s.world := by unfold spoolOrDrop; split <;> rfl

@[simp] theorem spoolOrDrop_queue : (s.spoolOrDrop lim rows io).queue = s.queue := by unfold spoolOrDrop; split <;> rfl

@[simp] theorem spoolOrDrop_writer : (s.spoolOrDrop lim rows io).writer = s.writer := by unfold spoolOrDrop; split <;> rfl

@[simp] theorem spoolOrDrop_closer : (s.spoolOrDrop lim rows io).closer = s.closer := by unfold spoolOrDrop; split <;> rfl

@[simp] theorem spoolOrDrop_recorders : (s.spoolOrDrop lim rows io).recorders = s.recorders := by
  unfold spoolOrDrop; split <;> rfl

end spoolOrDrop

def stepRecord (s : Service) (io : Io) : RecordPc → Option (Service × RecordPc)
  | .start row => some (s, if s.closed then .spooling row else .pushing row)
  | .pushing row =>
    if s.queue.length < lim.queueSize then some ({ s with queue := s.queue ++ [row] }, .returned row)
    else some (s, .spooling row)
  | .spooling row => some (s.spoolOrDrop lim [row] io, .returned row)
  | .returned _ => none

/-- Whether a database call has succeeded or failed, `none` while it runs. -/
def callResult (w : World) (call : Nat) : Option Bool :=
  match w.procs[call]? with
  | some (.append _ _ (.returned n)) => some n.isSome
  | some .dead => some false
  | _ => none

def append (s : Service) (rows : List AuditLogDO) : World :=
  { s.world with procs := s.world.procs ++ [(Call.append rows).proc] }

/-- What may be ready in the writer's `select`. -/
inductive Ready where
  | queue
  | tick
  | flush
  | stop

def stepSelect (s : Service) : Ready → Option Service
  | .queue =>
    match s.queue with
    | r :: q => some { s with queue := q, writer := .draining [r] .select }
    | [] => none
  | .tick => some { s with writer := .replay }
  | .flush => some { s with writer := .draining [] (.drainAll true) }
  | .stop => if s.stopped then some { s with writer := .draining [] (.drainAll false) } else none

/-- The end of a `drain`: an empty batch ends `drainAll`. -/
def drained (s : Service) (batch : List AuditLogDO) (next : After) : Service :=
  if batch = [] then
    { s with writer := match next with
      | .select => .select
      | .drainAll true => .replay
      | .drainAll false => .returned }
  else { s with world := s.append batch, writer := .persisting batch s.world.procs.length next }

def stepWriter (s : Service) (io : Io) (now : Nat) : Option Service :=
  match s.writer with
  | .draining batch next =>
    match s.queue with
    | r :: q =>
      if batch.length < lim.batchSize then some { s with queue := q, writer := .draining (batch ++ [r]) next }
      else some (s.drained batch next)
    | [] => some (s.drained batch next)
  | .persisting batch call next =>
    (callResult s.world call).map fun ok => { s with writer := if ok then next.pc else .spooling batch next }
  | .spooling batch next => some { s.spoolOrDrop lim batch io with writer := next.pc }
  | .replay =>
    match s.spool, io with
    | some sp, .done => (sp.rotate now).map fun sp => { s with spool := some sp, writer := .nextFile sp.files }
    | _, _ => some { s with writer := .select }
  | .nextFile [] => some { s with writer := .select }
  | .nextFile (file :: files) =>
    if io = .done then
      let read := readSpoolFile ((s.spool.bind fun sp => sp.content file).getD [])
      some { s with writer := if read.err then .select else .replayRows file files read.rows }
    else some { s with writer := .select }
  | .replayRows file files rows =>
    if rows = [] then some { s with writer := .removing file files }
    else some { s with
      world := s.append (rows.take lim.batchSize)
      writer := .replaying file files (rows.take lim.batchSize) (rows.drop lim.batchSize) s.world.procs.length }
  | .replaying file files _ rows call =>
    (callResult s.world call).map fun ok => { s with writer := if ok then .replayRows file files rows else .select }
  | .removing file files =>
    some { s with spool := if io = .done then s.spool.map fun sp => sp.remove file else s.spool, writer := .nextFile files }
  | .notStarted | .select | .returned => none

def stepClose (s : Service) (io : Io) : Option Service :=
  match s.closer with
  | .notCalled => some { s with closed := true, closer := .closing }
  | .closing =>
    some { s with
      stopped := true
      closer := match s.writer with
        | .notStarted => .returned
        | _ => .waiting }
  | .waiting =>
    match s.writer with
    | .returned => some { s with closer := .draining [] }
    | _ => none
  | .draining late =>
    match s.queue with
    | r :: q =>
      if late.length < lim.queueSize then some { s with queue := q, closer := .draining (late ++ [r]) }
      else some { s with closer := .spooling late }
    | [] => some { s with closer := if late = [] then .returned else .spooling late }
  | .spooling late => some { s.spoolOrDrop lim late io with closer := .returned }
  | .returned => none

/-- `timeout`: the context of `Close` ends while it waits for the writer. -/
inductive Action where
  | start
  | world (a : World.Action)
  | record (id : Uuid) (e : Event)
  | recorder (i : Nat) (io : Io)
  | select (r : Ready)
  | writer (io : Io) (now : Nat)
  | close (io : Io)
  | timeout

def step (s : Service) : Action → Option Service
  | .start =>
    match s.writer with
    | .notStarted => some { s with writer := .replay }
    | _ => none
  | .world a => (s.world.step a).map fun w => { s with world := w }
  | .record id e => some { s with recorders := s.recorders ++ [.start (rowFromEvent id.text e)] }
  | .recorder i io => do
    let p ← s.recorders[i]?
    let (s', p') ← s.stepRecord lim io p
    some { s' with recorders := s.recorders.set i p' }
  | .select r =>
    match s.writer with
    | .select => s.stepSelect r
    | _ => none
  | .writer io now => s.stepWriter lim io now
  | .close io => s.stepClose lim io
  | .timeout =>
    match s.closer with
    | .waiting => some { s with closer := .returned }
    | _ => none

end Service

namespace Host

inductive Action where
  | service (a : Service.Action)
  | crash

/-- After a crash a new process starts on the database and the spool as they are. -/
def step (lim : Limits) (s : Service) : Action → Option Service
  | .service a => s.step lim a
  | .crash => some (.fresh s.world s.spool)

end Host

end Audit
