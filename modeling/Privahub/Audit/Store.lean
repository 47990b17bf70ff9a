import Privahub.Audit.Model
import Privahub.Lib.Table

/-!
# The database side of the chain

`internal/audit/store.go`. A `Store` is the content of the three audit tables. The rows of
`audit_log` are listed by `seq` and those of `audit_segment` by `seg_seq`, their unique keys; the
other unique columns are fields, so a store that violates an index cannot be built, and an insert
that would is refused. `Append`'s transaction is cut at its reads: the tail (`readTail`), the event
ids already stored (`existingIDs`) and everything that is written when it commits (`appendCommit`).
-/

namespace Audit

structure Store where
  log : List AuditLogDO
  segs : List AuditSegmentDO
  tail : Option AuditChainTailDO
  nextID : Int
  log_seq : Table.Sorted AuditLogDO.seq log
  log_eventId : log.Pairwise fun a b => a.eventId ≠ b.eventId
  segs_segSeq : Table.Sorted AuditSegmentDO.segSeq segs
  segs_firstSeq : segs.Pairwise fun a b => a.firstSeq ≠ b.firstSeq

namespace Store

def empty : Store := ⟨[], [], none, 1, .nil, .nil, .nil, .nil⟩

/-- The row gets the next surrogate key; a taken `seq` or `event_id` is an error. -/
def insertLog (s : Store) (r : AuditLogDO) : Option Store :=
  if h : ∀ x ∈ s.log, x.seq ≠ r.seq ∧ x.eventId ≠ r.eventId then
    some { s with
      log := Table.insertBy AuditLogDO.seq { r with id := s.nextID } s.log
      nextID := s.nextID + 1
      log_seq := Table.sorted_insertBy s.log_seq fun x hx => (h x hx).1
      log_eventId := Table.perm_insertBy.symm.pairwise
        (List.pairwise_cons.2 ⟨fun x hx => (h x hx).2.symm, s.log_eventId⟩) fun hab => hab.symm }
  else none

def createInBatches (s : Store) (rows : List AuditLogDO) : Option Store := rows.foldlM insertLog s

def insertSegment (s : Store) (sg : AuditSegmentDO) : Option Store :=
  if h : ∀ x ∈ s.segs, x.segSeq ≠ sg.segSeq ∧ x.firstSeq ≠ sg.firstSeq then
    some { s with
      segs := Table.insertBy AuditSegmentDO.segSeq sg s.segs
      segs_segSeq := Table.sorted_insertBy s.segs_segSeq fun x hx => (h x hx).1
      segs_firstSeq := Table.perm_insertBy.symm.pairwise
        (List.pairwise_cons.2 ⟨fun x hx => (h x hx).2.symm, s.segs_firstSeq⟩) fun hab => hab.symm }
  else none

/-- `DELETE FROM audit_log WHERE seq BETWEEN lo AND hi`. -/
def deleteBetween (s : Store) (lo hi : Int) : Store :=
  { s with
    log := s.log.filter fun r => !(decide (lo ≤ r.seq) && decide (r.seq ≤ hi))
    log_seq := s.log_seq.filter _
    log_eventId := s.log_eventId.filter _ }

def lastSegment (s : Store) : Option AuditSegmentDO := s.segs.getLast?

/-- The tail `EnsureTail` creates, from the last row and the last segment it read. -/
def initialTail (last : Option AuditLogDO) (seg : Option AuditSegmentDO) : AuditChainTailDO :=
  match last, seg with
  | some r, _ => ⟨r.seq, r.hash⟩
  | none, some sg => ⟨sg.lastSeq, sg.lastHash⟩
  | none, none => ⟨0, genesisHash⟩

/-- `INSERT … ON CONFLICT DO NOTHING` of the single tail row. -/
def createTail (s : Store) (t : AuditChainTailDO) : Store :=
  match s.tail with
  | some _ => s
  | none => { s with tail := some t }

/-- `UPDATE audit_chain_tail … WHERE id = 1 AND seq = ? AND hash = ?`, refused when no row matches. -/
def casTail (s : Store) (old new : AuditChainTailDO) : Option Store :=
  if s.tail = some old then some { s with tail := some new } else none

def existingIDs (s : Store) (rows : List AuditLogDO) : List Bytes :=
  (s.log.filter fun r => rows.any fun q => q.eventId == r.eventId).map AuditLogDO.eventId

/-- The row as the chain's next record after number `seq` and hash `prev`. -/
def linkRow (r : AuditLogDO) (seq : Int) (prev : Bytes) : AuditLogDO :=
  let r := { r with id := 0, seq := seq + 1, prevHash := prev }
  { r with hash := computeHash r }

@[simp] theorem linkRow_hash (r : AuditLogDO) (seq : Int) (prev : Bytes) :
    (linkRow r seq prev).hash = computeHash (linkRow r seq prev) := rfl

@[simp] theorem linkRow_eventId (r : AuditLogDO) (seq : Int) (prev : Bytes) : (linkRow r seq prev).eventId = r.eventId := rfl

/-- The loop of `appendOnce`: rows whose id was seen are skipped, the others numbered and linked. -/
def chainRows : List Bytes → Int → Bytes → List AuditLogDO → List AuditLogDO × Int × Bytes
  | _, seq, prev, [] => ([], seq, prev)
  | seen, seq, prev, r :: rs =>
    if r.eventId ∈ seen then chainRows seen seq prev rs
    else
      let r := linkRow r seq prev
      let rest := chainRows (r.eventId :: seen) (seq + 1) r.hash rs
      (r :: rest.1, rest.2)

/-- The writes of one attempt and the number of inserted rows, `none` when it rolls back. -/
def appendCommit (s : Store) (rows : List AuditLogDO) (tail : AuditChainTailDO) (existing : List Bytes) :
    Option (Store × Nat) :=
  let (out, seq, prev) := chainRows existing tail.seq tail.hash rows
  if out = [] then some (s, 0)
  else do
    let s ← s.createInBatches out
    let s ← s.casTail tail ⟨seq, prev⟩
    some (s, out.length)

def appendOnce (s : Store) (rows : List AuditLogDO) : Option (Store × Nat) :=
  s.tail.bind fun t => s.appendCommit rows t (s.existingIDs rows)

/-- Rows numbered with consecutive surrogate keys from `n`. -/
def withIDs : Int → List AuditLogDO → List AuditLogDO
  | _, [] => []
  | n, r :: rs => { r with id := n } :: withIDs (n + 1) rs

@[simp] theorem length_withIDs (n : Int) (rs : List AuditLogDO) : (withIDs n rs).length = rs.length := by
  induction rs generalizing n with
  | nil => rfl
  | cons r rs ih => simp [withIDs, ih]

theorem map_withIDs {β : Type} {f : AuditLogDO → β} (hf : ∀ r i, f { r with id := i } = f r) (n : Int)
    (rs : List AuditLogDO) : (withIDs n rs).map f = rs.map f := by
  induction rs generalizing n with
  | nil => rfl
  | cons r rs ih => simp [withIDs, hf, ih]

theorem linked_withIDs {m n : Int} {h : Bytes} {rs : List AuditLogDO} (hl : HashChain.Linked chain m h rs) :
    HashChain.Linked chain m h (withIDs n rs) := by
  induction rs generalizing m n h with
  | nil => trivial
  | cons r rs ih => exact ⟨hl.1, hl.2.1, hl.2.2.1, ih hl.2.2.2⟩

@[simp] theorem lastHash_withIDs (n : Int) (h : Bytes) (rs : List AuditLogDO) :
    HashChain.lastHash chain h (withIDs n rs) = HashChain.lastHash chain h rs := by
  induction rs generalizing n h with
  | nil => rfl
  | cons r rs ih => exact ih (n + 1) r.hash

variable {s s' : Store}

theorem insertLog_spec {r : AuditLogDO} (h : s.insertLog r = some s') (hlt : ∀ x ∈ s.log, x.seq < r.seq) :
    s'.log = s.log ++ [{ r with id := s.nextID }] ∧ s'.nextID = s.nextID + 1 ∧ s'.segs = s.segs ∧ s'.tail = s.tail := by
  unfold insertLog at h
  split_ifs at h
  obtain rfl := Option.some.inj h
  exact ⟨Table.insertBy_of_lt hlt, rfl, rfl, rfl⟩

theorem createInBatches_spec {out : List AuditLogDO} (h : s.createInBatches out = some s')
    (hlt : Table.Sorted AuditLogDO.seq (s.log ++ out)) :
    s'.log = s.log ++ withIDs s.nextID out ∧ s'.segs = s.segs ∧ s'.tail = s.tail := by
  induction out generalizing s with
  | nil =>
    obtain rfl := Option.some.inj h
    exact ⟨(List.append_nil _).symm, rfl, rfl⟩
  | cons r out ih =>
    obtain ⟨t, ht, h⟩ := Option.bind_eq_some_iff.1 h
    have hr : ∀ x ∈ s.log, x.seq < r.seq := fun x hx =>
      (List.pairwise_append.1 hlt).2.2 x hx r (List.mem_cons_self ..)
    obtain ⟨hlog, hid, hsegs, htail⟩ := insertLog_spec ht hr
    have hs : Table.Sorted AuditLogDO.seq (t.log ++ out) := by
      rw [hlog, List.append_assoc]
      simpa [Table.Sorted, List.pairwise_append, List.pairwise_cons] using hlt
    obtain ⟨h1, h2, h3⟩ := ih h hs
    refine ⟨?_, h2.trans hsegs, h3.trans htail⟩
    rw [h1, hlog, hid, List.append_assoc]; rfl

theorem createInBatches_tail {out : List AuditLogDO} (h : s.createInBatches out = some s') : s'.tail = s.tail := by
  induction out generalizing s with
  | nil => rw [← Option.some.inj h]
  | cons r out ih =>
    obtain ⟨t, ht, h⟩ := Option.bind_eq_some_iff.1 h
    unfold insertLog at ht
    split_ifs at ht
    rw [ih h, ← Option.some.inj ht]

theorem casTail_spec {old new : AuditChainTailDO} (h : s.casTail old new = some s') :
    s.tail = some old ∧ s'.tail = some new ∧ s'.log = s.log ∧ s'.segs = s.segs := by
  unfold casTail at h
  split_ifs at h with ht
  obtain rfl := Option.some.inj h
  exact ⟨ht, rfl, rfl, rfl⟩

section chainRows

variable (seen : List Bytes) (seq : Int) (prev : Bytes) (rows : List AuditLogDO)

theorem chainRows_linked : HashChain.Linked chain seq prev (chainRows seen seq prev rows).1 ∧
    (chainRows seen seq prev rows).2.1 = seq + (chainRows seen seq prev rows).1.length ∧
    (chainRows seen seq prev rows).2.2 = HashChain.lastHash chain prev (chainRows seen seq prev rows).1 := by
  induction rows generalizing seen seq prev with
  | nil => simp [chainRows]
  | cons r rs ih =>
    rw [chainRows]
    split_ifs with h
    · exact ih _ _ _
    · obtain ⟨h1, h2, h3⟩ := ih (r.eventId :: seen) (seq + 1) (linkRow r seq prev).hash
      refine ⟨⟨rfl, rfl, rfl, h1⟩, ?_, h3⟩
      simp only [linkRow_eventId, h2, List.length_cons]; push_cast; ring

theorem chainRows_fresh : ∀ r ∈ (chainRows seen seq prev rows).1, r.eventId ∉ seen := by
  induction rows generalizing seen seq prev with
  | nil => simp [chainRows]
  | cons r rs ih =>
    rw [chainRows]
    split_ifs with h
    · exact ih _ _ _
    · intro x hx
      rcases List.mem_cons.1 hx with rfl | hx
      · exact h
      · exact fun hm => ih _ _ _ x hx (.tail _ hm)

theorem chainRows_nodup : (chainRows seen seq prev rows).1.Pairwise fun a b => a.eventId ≠ b.eventId := by
  induction rows generalizing seen seq prev with
  | nil => simp [chainRows]
  | cons r rs ih =>
    rw [chainRows]
    split_ifs with h
    · exact ih _ _ _
    · exact List.pairwise_cons.2 ⟨fun x hx he => chainRows_fresh _ _ _ _ x hx (he ▸ List.mem_cons_self ..), ih ..⟩

theorem chainRows_content : ∀ r ∈ (chainRows seen seq prev rows).1, ∃ q ∈ rows,
    r = { q with id := 0, seq := r.seq, prevHash := r.prevHash, hash := r.hash } := by
  induction rows generalizing seen seq prev with
  | nil => simp [chainRows]
  | cons r rs ih =>
    rw [chainRows]
    split_ifs with h
    · exact fun x hx => let ⟨q, hq, he⟩ := ih _ _ _ x hx; ⟨q, .tail _ hq, he⟩
    · intro x hx
      rcases List.mem_cons.1 hx with rfl | hx
      · exact ⟨r, List.mem_cons_self .., rfl⟩
      · obtain ⟨q, hq, he⟩ := ih _ _ _ x hx
        exact ⟨q, .tail _ hq, he⟩

theorem chainRows_complete : ∀ q ∈ rows, q.eventId ∈ seen ∨
    ∃ r ∈ (chainRows seen seq prev rows).1, r.eventId = q.eventId := by
  induction rows generalizing seen seq prev with
  | nil => simp
  | cons r rs ih =>
    intro q hq
    rw [chainRows]
    split_ifs with h
    · rcases List.mem_cons.1 hq with rfl | hq
      · exact .inl h
      · exact ih _ _ _ q hq
    · rcases List.mem_cons.1 hq with rfl | hq
      · exact .inr ⟨_, List.mem_cons_self .., rfl⟩
      · rcases ih (r.eventId :: seen) (seq + 1) (linkRow r seq prev).hash q hq with hs | ⟨x, hx, he⟩
        · rcases List.mem_cons.1 hs with he | hs
          · exact .inr ⟨_, List.mem_cons_self .., he.symm⟩
          · exact .inl hs
        · exact .inr ⟨x, .tail _ hx, he⟩

end chainRows

/-- A committed attempt either found nothing to insert or extends the log and the tail by `out`. -/
structure Appended (s s' : Store) (t : AuditChainTailDO) (existing : List Bytes) (rows out : List AuditLogDO) : Prop where
  rows : out = withIDs s.nextID (chainRows existing t.seq t.hash rows).1
  tail : s.tail = some t
  log' : s'.log = s.log ++ out
  tail' : s'.tail = some ⟨t.seq + out.length, HashChain.lastHash chain t.hash out⟩
  segs' : s'.segs = s.segs

theorem appendCommit_spec {rows : List AuditLogDO} {t : AuditChainTailDO} {existing : List Bytes} {n : Nat}
    (h : s.appendCommit rows t existing = some (s', n)) (hle : s.tail = some t → ∀ x ∈ s.log, x.seq ≤ t.seq) :
    s' = s ∧ (chainRows existing t.seq t.hash rows).1 = [] ∨ ∃ out, Appended s s' t existing rows out := by
  obtain ⟨hl, hseq, hprev⟩ := chainRows_linked existing t.seq t.hash rows
  unfold appendCommit at h
  simp only at h
  split_ifs at h with hout
  · exact .inl ⟨(Prod.mk.inj (Option.some.inj h)).1.symm, hout⟩
  right
  obtain ⟨s₁, h1, h⟩ := Option.bind_eq_some_iff.1 h
  obtain ⟨s₂, h2, h⟩ := Option.bind_eq_some_iff.1 h
  obtain rfl := (Prod.mk.inj (Option.some.inj h)).1
  obtain ⟨c1, c2, c3, c4⟩ := casTail_spec h2
  have htail : s.tail = some t := (createInBatches_tail h1).symm.trans c1
  have hs : Table.Sorted AuditLogDO.seq (s.log ++ (chainRows existing t.seq t.hash rows).1) :=
    List.pairwise_append.2 ⟨s.log_seq, hl.pairwise_seq, fun x hx y hy =>
      Int.lt_of_le_of_lt (hle htail x hx) (hl.seq_of_mem hy).1⟩
  obtain ⟨hlog, hsegs, -⟩ := createInBatches_spec h1 hs
  exact ⟨_, rfl, htail, c3.trans hlog, by simp [c2, hseq, hprev], c4.trans hsegs⟩

structure Query where
  startMicro : Int
  endMicro : Int
  actor : Bytes
  action : Bytes
  result : Bytes
  resourceType : Bytes
  resourceId : Bytes
  ip : Bytes
  traceId : Bytes
  page : Int
  size : Int

def asciiLower (b : UInt8) : UInt8 := if 65 ≤ b && b ≤ 90 then b + 32 else b

/-- `action LIKE '%…%'` with the pattern's wildcards escaped: substring up to ASCII case. -/
def likeContains (a s : Bytes) : Bool := decide (a.map asciiLower <:+: s.map asciiLower)

def exactFilter (col : AuditLogDO → Bytes) (v : Bytes) (r : AuditLogDO) : Bool :=
  let v := Utf8.trimSpace v
  v == [] || col r == v

namespace Query

def sizeOf (q : Query) : Nat := if q.size ≤ 0 then 20 else if q.size > 200 then 200 else q.size.toNat

def pageOf (q : Query) : Nat := if q.page < 1 then 1 else q.page.toNat

/-- The `WHERE` clause. -/
def selects (q : Query) (r : AuditLogDO) : Bool :=
  (!decide (q.startMicro > 0) || decide (r.tsMicro ≥ q.startMicro)) &&
  (!decide (q.endMicro > 0) || decide (r.tsMicro < q.endMicro)) &&
  exactFilter AuditLogDO.actor q.actor r && exactFilter AuditLogDO.result q.result r &&
  exactFilter AuditLogDO.resourceType q.resourceType r && exactFilter AuditLogDO.resourceId q.resourceId r &&
  exactFilter AuditLogDO.ip q.ip r && exactFilter AuditLogDO.traceId q.traceId r &&
  (Utf8.trimSpace q.action == [] || likeContains (Utf8.trimSpace q.action) r.action)

end Query

/-- One page of records, newest first, and the total count. -/
def list (s : Store) (q : Query) : List AuditLogDO × Nat :=
  let found := s.log.filter q.selects
  ((found.reverse.drop ((q.pageOf - 1) * q.sizeOf)).take q.sizeOf, found.length)

end Store

end Audit
