import Privahub.Audit.Retention
import Privahub.Lib.Run

/-!
# Writers and archivers over one database

Any number of `EnsureTail`, `Append` and `ArchiveExpired` calls run over one `Store`. A step of the
world is one database access of one call, so calls interleave between any two of their reads and
commits; `kill` ends a call at any point (a crash, an error of the database, a cancelled context).
`archived` remembers the rows the archive transactions have deleted, oldest first, and `files` what
was written to the archive directories.
-/

namespace Audit

def maxAttempts : Nat := 10

inductive EnsurePc where
  | start
  | absent
  | empty
  | derived (t : AuditChainTailDO)
  | returned

inductive AppendPc where
  | start
  | gotTail (t : AuditChainTailDO)
  | gotIDs (t : AuditChainTailDO) (existing : List Bytes)
  | returned (inserted : Option Nat)

inductive ArchivePc where
  | start
  | gotLast (p : ArchivePlan)
  | gotTail (p : ArchivePlan) (tailSeq : Int)
  | gotEnd (p : ArchivePlan) (last : Int)
  | gotRows (p : ArchivePlan) (last : Int) (rows : List AuditLogDO)
  | exported (p : ArchivePlan) (rows : List AuditLogDO) (sg : AuditSegmentDO)
  | returned (err : Option Bytes)

inductive Proc where
  | ensureTail (pc : EnsurePc)
  | append (rows : List AuditLogDO) (attempt : Nat) (pc : AppendPc)
  | archive (dir : Bytes) (cutoff total : Int) (pc : ArchivePc)
  | dead

inductive Call where
  | ensureTail
  | append (rows : List AuditLogDO)
  | archiveExpired (dir : Bytes) (cutoff : Int)

def Call.proc : Call → Proc
  | ensureTail => .ensureTail .start
  | append rows => .append rows 0 .start
  | archiveExpired dir cutoff => .archive dir cutoff 0 .start

structure World where
  db : Store
  archived : List AuditLogDO
  files : List ((Bytes × Bytes) × Bytes)
  procs : List Proc

namespace World

def init : World := ⟨Store.empty, [], [], []⟩

/-- The records of the chain: the archived ones, then the live rows. -/
def full (w : World) : List AuditLogDO := w.archived ++ w.db.log

/-- The archive directory of a path: the last file written under a name. -/
def dirAt (w : World) (path : Bytes) : Dir := fun name =>
  match w.files.reverse.find? fun f => f.1 = (path, name) with
  | some f => .data f.2
  | none => .missing

def stepEnsure (w : World) : EnsurePc → Option (World × EnsurePc)
  | .start => some (w, if w.db.tail.isSome then .returned else .absent)
  | .absent =>
    match w.db.log.getLast? with
    | some r => some (w, .derived (Store.initialTail (some r) none))
    | none => some (w, .empty)
  | .empty => some (w, .derived (Store.initialTail none w.db.lastSegment))
  | .derived t => some ({ w with db := w.db.createTail t }, .returned)
  | .returned => none

/-- A failed attempt is repeated until `maxAttempts` were made. -/
def retry (attempt : Nat) : Nat × AppendPc :=
  if attempt + 1 < maxAttempts then (attempt + 1, .start) else (attempt, .returned none)

def stepAppend (w : World) (rows : List AuditLogDO) (attempt : Nat) : AppendPc → Option (World × Nat × AppendPc)
  | .start =>
    if rows = [] then some (w, attempt, .returned (some 0))
    else match w.db.tail with
      | some t => some (w, attempt, .gotTail t)
      | none => some (w, retry attempt)
  | .gotTail t => some (w, attempt, .gotIDs t (w.db.existingIDs rows))
  | .gotIDs t existing =>
    match w.db.appendCommit rows t existing with
    | some (db, n) => some ({ w with db := db }, attempt, .returned (some n))
    | none => some (w, retry attempt)
  | .returned _ => none

def stepArchive (w : World) (now : Int) (dir : Bytes) (cutoff total : Int) :
    ArchivePc → Option (World × Int × ArchivePc)
  | .start => some (w, total, .gotLast (planFrom w.db.lastSegment))
  | .gotLast p =>
    match w.db.tail with
    | some t => some (w, total, .gotTail p t.seq)
    | none => some (w, total, .returned (some (str "record not found")))
  | .gotTail p tailSeq =>
    let last := archiveEnd p.start tailSeq (firstKeep w.db p.start cutoff)
    some (w, total, if last < p.start then .returned none else .gotEnd p last)
  | .gotEnd p last => some (w, total, .gotRows p last (Table.between AuditLogDO.seq p.start last w.db.log))
  | .gotRows p last rows =>
    match exportSegment p last rows now with
    | .ok (sg, file) => some ({ w with files := w.files ++ [((dir, sg.fileName), file)] }, total, .exported p rows sg)
    | .error err => some (w, total, .returned (some err))
  | .exported _ _ sg =>
    match archiveCommit w.db sg with
    | some db =>
      some ({ w with
        db := db
        archived := w.archived ++ Table.between AuditLogDO.seq sg.firstSeq sg.lastSeq w.db.log },
        total + sg.recordCount, .start)
    | none => some (w, total, .returned (some (str "audit: segment not committed")))
  | .returned _ => none

def stepProc (w : World) (now : Int) : Proc → Option (World × Proc)
  | .ensureTail pc => (stepEnsure w pc).map fun r => (r.1, .ensureTail r.2)
  | .append rows attempt pc => (stepAppend w rows attempt pc).map fun r => (r.1, .append rows r.2.1 r.2.2)
  | .archive dir cutoff total pc =>
    (stepArchive w now dir cutoff total pc).map fun r => (r.1, .archive dir cutoff r.2.1 r.2.2)
  | .dead => none

inductive Action where
  | spawn (c : Call)
  | step (i : Nat) (now : Int)
  | kill (i : Nat)

def step (w : World) : Action → Option World
  | .spawn c => some { w with procs := w.procs ++ [c.proc] }
  | .step i now => do
    let p ← w.procs[i]?
    let (w', p') ← stepProc w now p
    some { w' with procs := w.procs.set i p' }
  | .kill i => some { w with procs := w.procs.set i .dead }

abbrev Reachable (w : World) : Prop := Lts.Reachable step init w

end World

end Audit
