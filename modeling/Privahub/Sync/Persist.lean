import Privahub.Sync.P2P
import Mathlib.Data.List.Sort

/-!
# The persisted queues of the peer-to-peer sender

Every change of a queue is written to the file of its destination (`persistLocked`): the whole queue
into a temporary file, then renamed. A process that starts has empty queues; `Load` puts the events of
each file it finds in front of what has been queued meanwhile. The process may stop at any point, also
between the two halves of a write, and the network outlives it.

The histories say which copies have been made for a destination, which were written to its file, and
which have been superseded, delivered or dropped. A copy is known by its place among the copies made
for its destination, which a restart does not change.
-/

namespace Sync

/-- The files of the queue directory; a content that is no queue reads as `none`. -/
structure Directory where
  entries : List (Bytes × Option (List ChangeEvent))
  deriving DecidableEq

namespace Directory

def read (d : Directory) (f : Bytes) : Option (Option (List ChangeEvent)) :=
  (d.entries.find? fun e => decide (e.1 = f)).map Prod.snd

def remove (d : Directory) (f : Bytes) : Directory := ⟨d.entries.filter fun e => !decide (e.1 = f)⟩

def write (d : Directory) (f : Bytes) (c : Option (List ChangeEvent)) : Directory := ⟨(f, c) :: (d.remove f).entries⟩

/-- `os.ReadDir` lists by name. -/
def names (d : Directory) : List Bytes := (d.entries.map Prod.fst).mergeSort fun a b => decide (a ≤ b)

variable {d : Directory} {f g : Bytes} {c : Option (List ChangeEvent)}

@[simp] theorem read_remove_self : (d.remove f).read f = none := by
  rw [read, Option.map_eq_none_iff, List.find?_eq_none]
  intro e he
  have := (List.mem_filter.1 he).2
  simpa using this

theorem read_remove_of_ne (h : g ≠ f) : (d.remove f).read g = d.read g := by
  simp only [read, remove]
  congr 1
  induction d.entries with
  | nil => rfl
  | cons e l ih =>
    by_cases hf : e.1 = f
    · have hg : ¬ e.1 = g := fun h' => h (h'.symm.trans hf)
      simpa [hf, List.find?_cons, Ne.symm h] using ih
    · by_cases hg : e.1 = g
      · simp [hg, h]
      · simpa [hf, hg, List.find?_cons] using ih

@[simp] theorem read_write_self : (d.write f c).read f = some c := by simp [read, write]

theorem read_write_of_ne (h : g ≠ f) : (d.write f c).read g = d.read g := by
  have hstep : (d.write f c).read g = (d.remove f).read g := by simp [read, write, Ne.symm h]
  rw [hstep, read_remove_of_ne h]

theorem mem_names : f ∈ d.names ↔ d.read f ≠ none := by
  simp only [names, List.mem_mergeSort, List.mem_map, read, ne_eq, Option.map_eq_none_iff, List.find?_eq_none]
  constructor
  · rintro ⟨e, he, rfl⟩ h
    simpa using h e he
  · intro h
    simp only [decide_eq_true_eq, not_forall, not_not] at h
    obtain ⟨e, he, hf⟩ := h
    exact ⟨e, he, hf⟩

end Directory

/-- `queueFile`: the name of the queue file; `.` and `..` are not files of the directory. -/
def queueFile (dst : Bytes) : Option Bytes :=
  let name := dst.map fun c => if c = 47 then 95 else c
  if name = str "." ∨ name = str ".." then none else some name

def tmpSuffix : Bytes := str ".tmp"

/-- A name that `Load` passes over. -/
def isTmp (f : Bytes) : Bool := tmpSuffix.isSuffixOf f

theorem isTmp_append (f : Bytes) : isTmp (f ++ tmpSuffix) := List.isSuffixOf_iff_suffix.2 (List.suffix_append ..)

inductive Write
  | renamed
  | torn (left : Option (List ChangeEvent))
  | refused
  deriving DecidableEq

/-- `Load`, between its steps. -/
inductive Loader
  | waiting
  | reading (names : List Bytes)
  | holding (name : Bytes) (q : List ChangeEvent) (names : List Bytes)
  | loaded
  deriving DecidableEq

/-- The sender with its queue directory. `loader` is `none` while no process runs; `unrestored` are
the queue files that were there when it started and that `Load` has not restored. -/
structure P2PHost where
  sync : P2PSync
  dir : Bytes
  files : Directory
  loader : Option Loader
  unrestored : List Bytes
  issued : Bytes → List ChangeEvent
  persisted : List ChangeEvent
  superseded : List (ChangeEvent × ChangeEvent)
  delivered : List ChangeEvent
  dropped : List ChangeEvent

inductive HostAction
  | p2p (dst : Bytes) (a : Action) (w : Write)
  | stop
  | start
  | load (listed : Bool)
  | readFile (ok : Bool)
  | restore

namespace Link

/-- The queued updates that `supersede cp` removes. -/
def supersededBy (cp : ChangeEvent) (q : List ChangeEvent) : List ChangeEvent :=
  if cp.action = .update ∧ cp.key ≠ [] then q.filter fun old => decide (old.action = .update) && decide (old.key = cp.key)
  else []

def stopped (l : Link) : Link := { l with queue := [], sending := none, givenUp := l.givenUp ++ l.sending.toList }

end Link

namespace P2PHost

variable (h : P2PHost)

def queue (dst : Bytes) : List ChangeEvent := (h.sync.links dst).queue

def sending (dst : Bytes) : Option ChangeEvent := (h.sync.links dst).sending

/-- `enqueue` passes over the destinations of this platform. -/
def skips (dst : Bytes) : Prop := dst = [] ∨ dst = h.sync.instID ∨ h.sync.isLocalNode dst

instance (dst : Bytes) : Decidable (h.skips dst) := inferInstanceAs (Decidable (_ ∨ _ ∨ _))

/-- `persistLocked`. -/
def persistLocked (dst : Bytes) (w : Write) : P2PHost :=
  if h.dir = [] then h else
  match queueFile dst, w with
  | none, _ => h
  | some f, .renamed =>
    if h.queue dst = [] then { h with files := h.files.remove f }
    else { h with
      files := (h.files.remove (f ++ tmpSuffix)).write f (some (h.queue dst))
      persisted := h.persisted ++ h.queue dst }
  | some f, .torn left => if h.queue dst = [] then h else { h with files := h.files.write (f ++ tmpSuffix) left }
  | some _, .refused => h

/-- What becomes of the copies of `dst` in the critical section `a`. -/
def note (dst : Bytes) : Action → P2PHost
  | .enqueue ev =>
    if h.skips dst then h else
    let cp := { ev with dstNode := dst, seq := (h.sync.links dst).next }
    { h with
      issued := Function.update h.issued dst (h.issued dst ++ [cp])
      superseded := h.superseded ++ (Link.supersededBy cp (h.queue dst)).map fun old => (old, cp) }
  | .drainDone failed =>
    match h.sending dst with
    | none => h
    | some ev =>
      if failed then
        let ev' := { ev with retries := ev.retries + 1 }
        if ev'.retries < h.sync.maxRetries then h else { h with dropped := h.dropped ++ [ev'] }
      else { h with delivered := h.delivered ++ [ev] }
  | _ => h

/-- The critical section `a` ends with `persistLocked`. -/
def persists (dst : Bytes) : Action → Prop
  | .enqueue _ => ¬ h.skips dst
  | .drainDone _ => True
  | _ => False

instance (dst : Bytes) (a : Action) : Decidable (h.persists dst a) := by
  cases a <;> simp only [persists] <;> infer_instance

/-- Before `Start` has loaded the queues, nothing is drained. The network needs no process. -/
def runs : Action → Prop
  | .drainHead => h.loader = some .loaded
  | .arriveLate _ => True
  | _ => h.loader ≠ none

instance (a : Action) : Decidable (h.runs a) := by
  cases a <;> simp only [runs] <;> infer_instance

def step (h : P2PHost) : HostAction → Option P2PHost
  | .p2p dst a w =>
    if h.runs a then
      (h.sync.step (dst, a)).map fun s =>
        let h' := { h.note dst a with sync := s }
        if h.persists dst a then h'.persistLocked dst w else h'
    else none
  | .stop =>
    if h.loader = none then none
    else some { h with
      sync := { h.sync with links := fun dst => (h.sync.links dst).stopped }
      loader := none
      unrestored := [] }
  | .start =>
    if h.loader = none then
      some { h with
        loader := some .waiting
        unrestored := if h.dir = [] then [] else h.files.names.filter fun f => !isTmp f }
    else none
  | .load listed =>
    if h.loader = some .waiting then
      some { h with loader := some (if h.dir ≠ [] ∧ listed then .reading h.files.names else .loaded) }
    else none
  | .readFile ok =>
    match h.loader with
    | some (.reading []) => some { h with loader := some .loaded }
    | some (.reading (f :: names)) =>
      match h.files.read f with
      | some (some q) =>
        some { h with loader := some (if isTmp f = false ∧ ok then .holding f q names else .reading names) }
      | _ => some { h with loader := some (.reading names) }
    | _ => none
  | .restore =>
    match h.loader with
    | some (.holding f q names) =>
      let l := h.sync.links f
      some { h with
        sync := { h.sync with links := Function.update h.sync.links f { l with queue := q ++ l.queue } }
        loader := some (.reading names)
        unrestored := h.unrestored.filter fun g => !decide (g = f) }
    | _ => none

def install (id : Option LocalIdentity) (maxRetries : Int) (dir : Bytes) : P2PHost :=
  ⟨P2PSync.NewP2PSync id maxRetries, dir, ⟨[]⟩, none, [], fun _ => [], [], [], [], []⟩

end P2PHost

end Sync
