import Privahub.Audit.Retention

/-!
# Verification

`internal/audit/verify.go`. A run of `Verify` is a machine over its separate reads (`verifyStep`):
the tail, then the segments (with the archive files and the anchors, which need no further read of
the database), then one page of rows after another. `verify` is that machine on a database that
stays as it is; `verify_eq` says that it ends, and that paging makes no difference
(`verifyAll`). `VerifiedAt` is left out.
-/

namespace Audit

inductive BreakKind where
  | segment | archive | gap | prevHash | hash | tail | anchor | anchorTrunc
deriving DecidableEq

structure Anchor where
  time : Bytes
  seq : Int
  hash : Bytes
deriving DecidableEq

structure VerifyOptions where
  anchors : List Anchor
  archiveDir : Bytes
  requireArchives : Bool
  batchSize : Int

structure VerifyResult where
  valid : Bool
  algorithm : Bytes
  checked : Int
  firstSeq : Int
  lastSeq : Int
  tailSeq : Int
  tailHash : Bytes
  segments : Int
  archivedThrough : Int
  archivesVerified : Int
  archivesMissing : Int
  anchorsChecked : Int
  brokenSeq : Int
  brokenId : Int
  breakKind : Option BreakKind
  reason : Bytes
deriving DecidableEq

namespace VerifyResult

def init (t : AuditChainTailDO) (segments : Int) : VerifyResult :=
  ⟨true, hashAlgorithm, 0, 0, 0, t.seq, t.hash, segments, 0, 0, 0, 0, 0, 0, none, []⟩

def fail (r : VerifyResult) (kind : BreakKind) (seq id : Int) (reason : Bytes) : VerifyResult :=
  { r with valid := false, breakKind := some kind, brokenSeq := seq, brokenId := id, reason := reason }

/-- `FirstSeq` is that of the first row checked. -/
def noteFirst (r : VerifyResult) (seq : Int) : VerifyResult := if r.checked = 0 then { r with firstSeq := seq } else r

@[simp] theorem noteFirst_valid (r : VerifyResult) (seq : Int) : (r.noteFirst seq).valid = r.valid := by
  unfold noteFirst; split_ifs <;> rfl

@[simp] theorem fail_valid (r : VerifyResult) (kind : BreakKind) (seq id : Int) (reason : Bytes) :
    (r.fail kind seq id reason).valid = false := rfl

end VerifyResult

structure SegWalk where
  res : VerifyResult
  expSeq : Int
  expPrev : Bytes
  prevSeg : Bytes
  boundary : List (Int × Bytes)

def SegWalk.init (res : VerifyResult) : SegWalk := ⟨res, 1, genesisHash, genesisHash, []⟩

def archiveCheck (opt : VerifyOptions) (fs : Bytes → Dir) (sg : AuditSegmentDO) (res : VerifyResult) :
    Except VerifyResult VerifyResult :=
  if opt.archiveDir = [] then .ok res
  else match verifyArchiveFile (fs opt.archiveDir) sg with
    | .ok () => .ok { res with archivesVerified := res.archivesVerified + 1 }
    | .error err =>
      if err = .missing ∧ opt.requireArchives = false then .ok { res with archivesMissing := res.archivesMissing + 1 }
      else .error (res.fail .archive sg.firstSeq 0
        (str "segment " ++ Bytes.itoa sg.segSeq ++ str " archive: " ++ err.text))

/-- The checks on the segment record itself, for the segment at index `i`. -/
def segmentCheck (i : Nat) (st : SegWalk) (sg : AuditSegmentDO) : Except VerifyResult Unit :=
  let fail (reason : Bytes) : Except VerifyResult Unit := .error (st.res.fail .segment sg.firstSeq 0 reason)
  let name := str "segment " ++ Bytes.itoa sg.segSeq
  if sg.segSeq ≠ i + 1 then
    fail (str "segment #" ++ Bytes.itoa (i + 1) ++ str " has seg_seq " ++ Bytes.itoa sg.segSeq ++
      str " (segment deleted or reordered)")
  else if sg.segHash ≠ computeSegmentHash sg then fail (name ++ str " hash mismatch (segment record modified)")
  else if sg.prevSegHash ≠ st.prevSeg then fail (name ++ str " not linked to previous segment")
  else if sg.firstSeq ≠ st.expSeq ∨ sg.firstPrevHash ≠ st.expPrev then
    fail (name ++ str " boundary mismatch: expected first seq " ++ Bytes.itoa st.expSeq)
  else if sg.lastSeq < sg.firstSeq ∨ sg.recordCount ≠ sg.lastSeq - sg.firstSeq + 1 then
    fail (name ++ str " has inconsistent range/count")
  else .ok ()

def segStep (opt : VerifyOptions) (fs : Bytes → Dir) (i : Nat) (st : SegWalk) (sg : AuditSegmentDO) :
    Except VerifyResult SegWalk := do
  segmentCheck i st sg
  let res ← archiveCheck opt fs sg st.res
  .ok ⟨res, sg.lastSeq + 1, sg.lastHash, sg.segHash, (sg.lastSeq, sg.lastHash) :: st.boundary⟩

def walkSegs (opt : VerifyOptions) (fs : Bytes → Dir) : Nat → SegWalk → List AuditSegmentDO → Except VerifyResult SegWalk
  | _, st, [] => .ok st
  | i, st, sg :: segs => (segStep opt fs i st sg).bind fun st => walkSegs opt fs (i + 1) st segs

def boundaryHash (boundary : List (Int × Bytes)) (seq : Int) : Option Bytes :=
  (boundary.find? fun b => b.1 = seq).map Prod.snd

/-- One anchor: beyond the tail, within the archived segments, or kept for its row (`want`). -/
def anchorStep (t : AuditChainTailDO) (boundary : List (Int × Bytes)) (st : VerifyResult × List (Int × Bytes)) (a : Anchor) :
    Except VerifyResult (VerifyResult × List (Int × Bytes)) :=
  let (res, want) := st
  let counted := { res with anchorsChecked := res.anchorsChecked + 1 }
  if a.seq > t.seq then
    .error (counted.fail .anchorTrunc a.seq 0 (str "external anchor at seq " ++ Bytes.itoa a.seq ++ str " (" ++ a.time ++
      str ") is beyond the chain tail " ++ Bytes.itoa t.seq ++ str ": records were truncated"))
  else if a.seq ≤ res.archivedThrough then
    match boundaryHash boundary a.seq with
    | some h =>
      if h ≠ a.hash then
        .error (counted.fail .anchor a.seq 0 (str "external anchor at seq " ++ Bytes.itoa a.seq ++
          str " disagrees with archived segment boundary"))
      else .ok (counted, want)
    | none => .ok (res, want)
  else if a.seq = 0 then .ok (res, want)
  else .ok (res, want ++ [(a.seq, a.hash)])

def sortAnchors (anchors : List Anchor) : List Anchor := anchors.insertionSort fun a b => a.seq ≤ b.seq

/-- The loop over the rows: what the next one has to continue. -/
structure Walk where
  res : VerifyResult
  expSeq : Int
  expPrev : Bytes

def checkAnchors (r : AuditLogDO) : VerifyResult → List Bytes → Except VerifyResult VerifyResult
  | res, [] => .ok res
  | res, h :: hs =>
    let counted := { res with anchorsChecked := res.anchorsChecked + 1 }
    if h ≠ r.hash then
      .error (counted.fail .anchor r.seq r.id (str "external anchor at seq " ++ Bytes.itoa r.seq ++
        str " disagrees with the chain (chain rewritten)"))
    else checkAnchors r counted hs

def wanted (want : List (Int × Bytes)) (seq : Int) : List Bytes := (want.filter fun a => a.1 = seq).map Prod.snd

def rowStep (want : List (Int × Bytes)) (w : Walk) (r : AuditLogDO) : Except VerifyResult Walk :=
  let res := w.res.noteFirst r.seq
  let record := str "record seq " ++ Bytes.itoa r.seq
  if r.seq ≠ w.expSeq then
    .error (res.fail .gap w.expSeq r.id (str "record seq " ++ Bytes.itoa w.expSeq ++ str " missing (next present seq " ++
      Bytes.itoa r.seq ++ str "): record(s) deleted"))
  else if r.prevHash ≠ w.expPrev then
    .error (res.fail .prevHash r.seq r.id (record ++ str " prev_hash does not match the previous record"))
  else if r.hash ≠ computeHash r then
    .error (res.fail .hash r.seq r.id (record ++ str " content does not match its hash (modified)"))
  else (checkAnchors r res (wanted want r.seq)).bind fun res =>
    .ok ⟨{ res with checked := res.checked + 1, lastSeq := r.seq }, r.seq + 1, r.hash⟩

def walkRows (want : List (Int × Bytes)) (w : Walk) (rows : List AuditLogDO) : Except VerifyResult Walk :=
  rows.foldlM (rowStep want) w

def finish (t : AuditChainTailDO) (w : Walk) : VerifyResult :=
  if w.expSeq - 1 ≠ t.seq ∨ w.expPrev ≠ t.hash then
    w.res.fail .tail w.expSeq 0 (str "chain ends at seq " ++ Bytes.itoa (w.expSeq - 1) ++ str " but the tail records seq " ++
      Bytes.itoa t.seq ++ str ": trailing records deleted or tail tampered")
  else w.res

inductive VerifyPc where
  | start
  | gotTail (t : AuditChainTailDO)
  | paging (t : AuditChainTailDO) (want : List (Int × Bytes)) (cursor : Int) (w : Walk)
  | returned (res : VerifyResult)

def batchSize (opt : VerifyOptions) : Nat := if opt.batchSize ≤ 0 then 1000 else opt.batchSize.toNat

/-- The tail snapshot: a missing row counts as the tail of an empty chain. -/
def tailOf (s : Store) : AuditChainTailDO := s.tail.getD ⟨0, genesisHash⟩

/-- `WHERE seq > lo AND seq <= hi ORDER BY seq`. -/
def rowsAfter (s : Store) (lo hi : Int) : List AuditLogDO :=
  s.log.filter fun r => decide (lo < r.seq) && decide (r.seq ≤ hi)

def startPaging (opt : VerifyOptions) (fs : Bytes → Dir) (t : AuditChainTailDO) (segs : List AuditSegmentDO) :
    Except VerifyResult (List (Int × Bytes) × Walk) := do
  let st ← walkSegs opt fs 0 (.init (.init t segs.length)) segs
  let res := { st.res with archivedThrough := st.expSeq - 1 }
  let (res, want) ← (sortAnchors opt.anchors).foldlM (anchorStep t st.boundary) (res, [])
  .ok (want, ⟨res, st.expSeq, st.expPrev⟩)

def pageStep (opt : VerifyOptions) (s : Store) (t : AuditChainTailDO) (want : List (Int × Bytes)) (cursor : Int) (w : Walk) :
    VerifyPc :=
  let rows := (rowsAfter s cursor t.seq).take (batchSize opt)
  match rows.getLast? with
  | none => .returned (finish t w)
  | some last =>
    match walkRows want w rows with
    | .error res => .returned res
    | .ok w => .paging t want last.seq w

def verifyStep (opt : VerifyOptions) (fs : Bytes → Dir) (s : Store) : VerifyPc → VerifyPc
  | .start => .gotTail (tailOf s)
  | .gotTail t =>
    match startPaging opt fs t s.segs with
    | .error res => .returned res
    | .ok (want, w) => .paging t want (w.expSeq - 1) w
  | .paging t want cursor w => pageStep opt s t want cursor w
  | .returned res => .returned res

def verifySteps (opt : VerifyOptions) (fs : Bytes → Dir) (s : Store) : Nat → VerifyPc → VerifyPc
  | 0, pc => pc
  | n + 1, pc => verifySteps opt fs s n (verifyStep opt fs s pc)

/-- `Verify` on a database that does not change: two reads, the pages and the empty page. -/
def verify (opt : VerifyOptions) (fs : Bytes → Dir) (s : Store) : Option VerifyResult :=
  match verifySteps opt fs s (s.log.length + 3) .start with
  | .returned res => some res
  | _ => none

def walkRest (s : Store) (t : AuditChainTailDO) (want : List (Int × Bytes)) (cursor : Int) (w : Walk) : VerifyResult :=
  match walkRows want w (rowsAfter s cursor t.seq) with
  | .error res => res
  | .ok w => finish t w

def verifyAll (opt : VerifyOptions) (fs : Bytes → Dir) (s : Store) : VerifyResult :=
  match startPaging opt fs (tailOf s) s.segs with
  | .error res => res
  | .ok (want, w) => walkRest s (tailOf s) want (w.expSeq - 1) w

theorem batchSize_pos (opt : VerifyOptions) : 0 < batchSize opt := by
  unfold batchSize; split_ifs <;> omega

theorem rowsAfter_drop {s : Store} {lo hi : Int} {n : Nat} {last : AuditLogDO}
    (h : ((rowsAfter s lo hi).take n).getLast? = some last) :
    rowsAfter s last.seq hi = (rowsAfter s lo hi).drop n := by
  have hsort : Table.Sorted AuditLogDO.seq (rowsAfter s lo hi) := s.log_seq.filter _
  have hlast : last ∈ rowsAfter s lo hi := List.mem_of_mem_take (List.mem_of_getLast? h)
  have hlo : lo < last.seq := by
    simp only [rowsAfter, List.mem_filter, Bool.and_eq_true, decide_eq_true_eq] at hlast; exact hlast.2.1
  have hsub : rowsAfter s last.seq hi = (rowsAfter s lo hi).filter fun r => decide (last.seq < r.seq) := by
    simp only [rowsAfter, List.filter_filter]
    refine List.filter_congr fun r _ => ?_
    by_cases hr : last.seq < r.seq <;> simp [hr]
    omega
  rw [hsub]
  conv_lhs => rw [← List.take_append_drop n (rowsAfter s lo hi), List.filter_append]
  rw [← List.take_append_drop n (rowsAfter s lo hi)] at hsort
  obtain ⟨h1, h2, h3⟩ := List.pairwise_append.1 hsort
  obtain ⟨init, hi'⟩ := List.getLast?_eq_some_iff.1 h
  rw [List.filter_eq_nil_iff.2, List.nil_append, List.filter_eq_self.2]
  · intro r hr
    exact decide_eq_true (h3 last (List.mem_of_getLast? h) r hr)
  · intro r hr
    rw [hi', List.pairwise_append] at h1
    rw [hi'] at hr
    rcases List.mem_append.1 hr with hr | hr
    · have := h1.2.2 r hr last (by simp); simp; omega
    · simp [List.mem_singleton.1 hr]

theorem verifySteps_returned (opt : VerifyOptions) (fs : Bytes → Dir) (s : Store) (n : Nat) (res : VerifyResult) :
    verifySteps opt fs s n (.returned res) = .returned res := by
  induction n with
  | zero => rfl
  | succ n ih => exact ih

theorem verifySteps_paging (opt : VerifyOptions) (fs : Bytes → Dir) (s : Store) (t : AuditChainTailDO)
    (want : List (Int × Bytes)) {n : Nat} {cursor : Int} {w : Walk} (hn : (rowsAfter s cursor t.seq).length < n) :
    verifySteps opt fs s n (.paging t want cursor w) = .returned (walkRest s t want cursor w) := by
  induction n generalizing cursor w with
  | zero => omega
  | succ n ih =>
    rw [verifySteps, verifyStep, pageStep]
    rcases hl : ((rowsAfter s cursor t.seq).take (batchSize opt)).getLast? with _ | last
    · -- the page is empty: there is no row left
      have hnil : rowsAfter s cursor t.seq = [] := by
        rcases hr : rowsAfter s cursor t.seq with _ | ⟨r, rs⟩
        · rfl
        · have := batchSize_pos opt
          obtain ⟨k, hk⟩ : ∃ k, batchSize opt = k + 1 := ⟨batchSize opt - 1, by omega⟩
          rw [hr, hk, List.take_succ_cons] at hl
          simp at hl
      simp only [verifySteps_returned, walkRest, hnil, walkRows, List.foldlM_nil, pure, Except.pure]
    · have hdrop := rowsAfter_drop hl
      have hsplit : walkRows want w (rowsAfter s cursor t.seq) =
          (walkRows want w ((rowsAfter s cursor t.seq).take (batchSize opt))).bind fun w =>
            walkRows want w (rowsAfter s last.seq t.seq) := by
        rw [hdrop]
        conv_lhs => rw [← List.take_append_drop (batchSize opt) (rowsAfter s cursor t.seq)]
        exact List.foldlM_append ..
      rcases hw : walkRows want w ((rowsAfter s cursor t.seq).take (batchSize opt)) with res | w'
      · simp only [verifySteps_returned, walkRest, hsplit, hw, Except.bind]
      · simp only
        rw [ih]
        · simp only [walkRest, hsplit, hw, Except.bind]
        · have hne : 0 < (rowsAfter s cursor t.seq).length := by
            rcases hr : rowsAfter s cursor t.seq with _ | ⟨r, rs⟩
            · simp [hr] at hl
            · simp
          have := batchSize_pos opt
          rw [hdrop, List.length_drop]; omega

theorem verify_eq (opt : VerifyOptions) (fs : Bytes → Dir) (s : Store) : verify opt fs s = some (verifyAll opt fs s) := by
  unfold verify verifyAll
  rw [verifySteps, verifyStep, verifySteps, verifyStep]
  rcases startPaging opt fs (tailOf s) s.segs with res | ⟨want, w⟩
  · simp only [verifySteps_returned]
  · have hlen : (rowsAfter s (w.expSeq - 1) (tailOf s).seq).length < s.log.length + 1 :=
      Nat.lt_succ_of_le (List.length_filter_le ..)
    simp only [verifySteps_paging opt fs s (tailOf s) want hlen]

end Audit
