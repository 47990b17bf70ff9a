import Privahub.Audit.Verify
import Privahub.Lib.Outcome

/-!
# What verification accepts

Each loop of `Verify` passes exactly when a condition on its input holds, and fails with an invalid
result otherwise (`walkSegs_spec`, `anchors_spec`, `walkRows_spec`). Put together, `Verify` reports
a valid chain exactly on the databases that satisfy `Accepted`.
-/

namespace Audit

open HashChain

/-- The segment at index `i` continues a chain expected at number `n`, hash `h`, segment hash `g`. -/
structure SegOK (i : Nat) (n : Int) (h g : Bytes) (sg : AuditSegmentDO) : Prop where
  segSeq : sg.segSeq = i + 1
  segHash : sg.segHash = computeSegmentHash sg
  prevSegHash : sg.prevSegHash = g
  firstSeq : sg.firstSeq = n
  firstPrevHash : sg.firstPrevHash = h
  nonempty : sg.firstSeq ≤ sg.lastSeq
  recordCount : sg.recordCount = sg.lastSeq - sg.firstSeq + 1

section segments

variable (opt : VerifyOptions) (fs : Bytes → Dir)

def ArchiveOK (sg : AuditSegmentDO) : Prop :=
  opt.archiveDir = [] ∨ verifyArchiveFile (fs opt.archiveDir) sg = .ok () ∨
    verifyArchiveFile (fs opt.archiveDir) sg = .error .missing ∧ opt.requireArchives = false

def SegsFrom : Nat → Int → Bytes → Bytes → List AuditSegmentDO → Prop
  | _, _, _, _, [] => True
  | i, n, h, g, sg :: segs =>
    SegOK i n h g sg ∧ ArchiveOK opt fs sg ∧ SegsFrom (i + 1) (sg.lastSeq + 1) sg.lastHash sg.segHash segs

end segments

def throughFrom (n : Int) (segs : List AuditSegmentDO) : Int := (segs.getLast?.map AuditSegmentDO.lastSeq).getD n

def boundaryFrom (h : Bytes) (segs : List AuditSegmentDO) : Bytes := (segs.getLast?.map AuditSegmentDO.lastHash).getD h

def through (s : Store) : Int := throughFrom 0 s.segs

def boundaryPrev (s : Store) : Bytes := boundaryFrom genesisHash s.segs

theorem throughFrom_cons (n : Int) (sg : AuditSegmentDO) (segs : List AuditSegmentDO) :
    throughFrom n (sg :: segs) = throughFrom sg.lastSeq segs := by
  cases segs <;> simp [throughFrom, List.getLast?_cons]

theorem boundaryFrom_cons (h : Bytes) (sg : AuditSegmentDO) (segs : List AuditSegmentDO) :
    boundaryFrom h (sg :: segs) = boundaryFrom sg.lastHash segs := by
  cases segs <;> simp [boundaryFrom, List.getLast?_cons]

variable {opt : VerifyOptions} {fs : Bytes → Dir}

theorem segmentCheck_spec (i : Nat) (st : SegWalk) (sg : AuditSegmentDO) :
    Outcome (segmentCheck i st sg) (fun _ => SegOK i st.expSeq st.expPrev st.prevSeg sg)
      (fun r => ¬ SegOK i st.expSeq st.expPrev st.prevSeg sg ∧ r.valid = false) := by
  unfold segmentCheck
  split_ifs with h1 h2 h3 h4 h5
  · exact ⟨fun h => h1 h.segSeq, rfl⟩
  · exact ⟨fun h => h2 h.segHash, rfl⟩
  · exact ⟨fun h => h3 h.prevSegHash, rfl⟩
  · exact ⟨fun h => h4.elim (fun hn => hn h.firstSeq) fun hn => hn h.firstPrevHash, rfl⟩
  · exact ⟨fun h => h5.elim (fun hn => absurd h.nonempty (by omega)) fun hn => hn h.recordCount, rfl⟩
  · rw [not_not] at h1 h2 h3
    rw [not_or, not_not, not_not] at h4
    rw [not_or, not_not] at h5
    exact ⟨h1, h2, h3, h4.1, h4.2, by omega, h5.2⟩

theorem archiveCheck_spec (sg : AuditSegmentDO) (res : VerifyResult) :
    Outcome (archiveCheck opt fs sg res) (fun res' => ArchiveOK opt fs sg ∧ res'.valid = res.valid)
      (fun r => ¬ ArchiveOK opt fs sg ∧ r.valid = false) := by
  unfold archiveCheck
  split_ifs with hdir
  · exact ⟨.inl hdir, rfl⟩
  rcases hv : verifyArchiveFile (fs opt.archiveDir) sg with err | u
  · simp only
    split_ifs with hm
    · exact ⟨.inr (.inr ⟨by rw [hv, hm.1], hm.2⟩), rfl⟩
    · refine ⟨fun h => ?_, rfl⟩
      rcases h with h | h | h
      · exact hdir h
      · simp [hv] at h
      · rw [hv] at h
        exact hm ⟨Except.error.inj h.1, h.2⟩
  · exact ⟨.inr (.inl hv), rfl⟩

structure Walked (st st' : SegWalk) (segs : List AuditSegmentDO) : Prop where
  expSeq : st'.expSeq = throughFrom (st.expSeq - 1) segs + 1
  expPrev : st'.expPrev = boundaryFrom st.expPrev segs
  boundary : st'.boundary = (segs.map fun sg => (sg.lastSeq, sg.lastHash)).reverse ++ st.boundary
  valid : st'.res.valid = st.res.valid

theorem walkSegs_spec (i : Nat) (st : SegWalk) (segs : List AuditSegmentDO) :
    Outcome (walkSegs opt fs i st segs)
      (fun st' => SegsFrom opt fs i st.expSeq st.expPrev st.prevSeg segs ∧ Walked st st' segs)
      (fun r => ¬ SegsFrom opt fs i st.expSeq st.expPrev st.prevSeg segs ∧ r.valid = false) := by
  induction segs generalizing i st with
  | nil => exact ⟨trivial, by simp [throughFrom], rfl, by simp, rfl⟩
  | cons sg segs ih =>
    have hstep : Outcome (segStep opt fs i st sg)
        (fun st' => SegOK i st.expSeq st.expPrev st.prevSeg sg ∧ ArchiveOK opt fs sg ∧
          ∃ res, st' = ⟨res, sg.lastSeq + 1, sg.lastHash, sg.segHash, (sg.lastSeq, sg.lastHash) :: st.boundary⟩ ∧
            res.valid = st.res.valid)
        (fun r => ¬ SegsFrom opt fs i st.expSeq st.expPrev st.prevSeg (sg :: segs) ∧ r.valid = false) := by
      refine (segmentCheck_spec i st sg).bind (fun _ hok => ?_) fun r hr => ⟨fun h => hr.1 h.1, hr.2⟩
      refine (archiveCheck_spec sg st.res).bind (fun res hres => ?_) fun r hr => ⟨fun h => hr.1 h.2.1, hr.2⟩
      exact ⟨hok, hres.1, res, rfl, hres.2⟩
    refine hstep.bind (fun st' hst' => ?_) fun r hr => hr
    obtain ⟨hok, harch, res, rfl, hval⟩ := hst'
    refine (ih (i + 1) _).mono (fun st' h => ⟨⟨hok, harch, h.1⟩, ?_⟩) fun r hr => ⟨fun h => hr.1 h.2.2, hr.2⟩
    obtain ⟨-, h1, h2, h3, h4⟩ := h
    refine ⟨?_, ?_, ?_, h4.trans hval⟩
    · rw [h1, throughFrom_cons, add_sub_cancel_right]
    · rw [h2, boundaryFrom_cons]
    · simp [h3]

def AnchorOK (t : AuditChainTailDO) (thr : Int) (boundary : List (Int × Bytes)) (a : Anchor) : Prop :=
  a.seq ≤ t.seq ∧ (a.seq ≤ thr → ∀ h, boundaryHash boundary a.seq = some h → h = a.hash)

/-- The anchors left for the rows after `thr`. -/
def rowAnchors (thr : Int) (anchors : List Anchor) : List (Int × Bytes) :=
  (anchors.filter fun a => decide (thr < a.seq) && decide (a.seq ≠ 0)).map fun a => (a.seq, a.hash)

theorem anchors_spec (t : AuditChainTailDO) (boundary : List (Int × Bytes)) (res : VerifyResult)
    (want : List (Int × Bytes)) (anchors : List Anchor) :
    Outcome (anchors.foldlM (anchorStep t boundary) (res, want))
      (fun st => (∀ a ∈ anchors, AnchorOK t res.archivedThrough boundary a) ∧
        st.2 = want ++ rowAnchors res.archivedThrough anchors ∧ st.1.valid = res.valid)
      (fun r => (¬ ∀ a ∈ anchors, AnchorOK t res.archivedThrough boundary a) ∧ r.valid = false) := by
  induction anchors generalizing res want with
  | nil => exact ⟨by simp, by simp [rowAnchors], rfl⟩
  | cons a as ih =>
    have hstep : Outcome (anchorStep t boundary (res, want) a)
        (fun st => AnchorOK t res.archivedThrough boundary a ∧ st.2 = want ++ rowAnchors res.archivedThrough [a] ∧
          st.1.valid = res.valid ∧ st.1.archivedThrough = res.archivedThrough)
        (fun r => (¬ ∀ b ∈ a :: as, AnchorOK t res.archivedThrough boundary b) ∧ r.valid = false) := by
      unfold anchorStep
      simp only
      split_ifs with h1 h2 h3
      · exact ⟨fun h => absurd (h a (List.mem_cons_self ..)).1 (by omega), rfl⟩
      · have hrow : rowAnchors res.archivedThrough [a] = [] := by simp [rowAnchors, h2]
        rcases hb : boundaryHash boundary a.seq with _ | h
        · exact ⟨⟨not_lt.1 h1, fun _ h hh => by simp [hb] at hh⟩, by simp [hrow], rfl, rfl⟩
        · simp only
          split_ifs with hne
          · exact ⟨fun hall => hne ((hall a (List.mem_cons_self ..)).2 h2 h hb), rfl⟩
          · rw [not_not] at hne
            exact ⟨⟨not_lt.1 h1, fun _ h' hh => by rw [hb] at hh; exact Option.some.inj hh ▸ hne⟩, by simp [hrow], rfl, rfl⟩
      · exact ⟨⟨not_lt.1 h1, fun hle => absurd hle h2⟩, by simp [rowAnchors, h3], rfl, rfl⟩
      · have hrow : rowAnchors res.archivedThrough [a] = [(a.seq, a.hash)] := by
          simp [rowAnchors, not_le.1 h2, h3]
        exact ⟨⟨not_lt.1 h1, fun hle => absurd hle h2⟩, by rw [hrow], rfl, rfl⟩
    rw [List.foldlM_cons]
    refine hstep.bind (fun st hst => ?_) fun r hr => hr
    obtain ⟨res', want'⟩ := st
    obtain ⟨hok, rfl, hval, hthr⟩ := hst
    simp only at hval hthr
    refine (ih res' _).mono (fun st h => ?_) fun r hr => ?_
    · rw [hthr, hval] at h
      obtain ⟨h1, h2, h3⟩ := h
      refine ⟨fun b hb => (List.mem_cons.1 hb).elim (fun he => he ▸ hok) (h1 b), ?_, h3⟩
      rw [h2, List.append_assoc]
      simp only [rowAnchors, ← List.map_append, ← List.filter_append, List.singleton_append]
    · rw [hthr] at hr
      exact ⟨fun h => hr.1 fun b hb => h b (.tail _ hb), hr.2⟩

theorem checkAnchors_spec (r : AuditLogDO) (res : VerifyResult) (hs : List Bytes) :
    Outcome (checkAnchors r res hs) (fun res' => (∀ h ∈ hs, h = r.hash) ∧ res'.valid = res.valid)
      (fun res' => (¬ ∀ h ∈ hs, h = r.hash) ∧ res'.valid = false) := by
  induction hs generalizing res with
  | nil => exact ⟨by simp, rfl⟩
  | cons h hs ih =>
    rw [checkAnchors]
    split_ifs with hne
    · exact ⟨fun hall => hne (hall h (List.mem_cons_self ..)), rfl⟩
    · rw [not_not] at hne
      refine (ih _).mono (fun res' hr => ⟨fun x hx => ?_, hr.2⟩)
        fun res' hr => ⟨fun hall => hr.1 fun x hx => hall x (.tail _ hx), hr.2⟩
      rcases List.mem_cons.1 hx with rfl | hx
      · exact hne
      · exact hr.1 x hx

def RowsOK (want : List (Int × Bytes)) (n : Int) (h : Bytes) (rows : List AuditLogDO) : Prop :=
  Linked chain n h rows ∧ ∀ r ∈ rows, ∀ a ∈ wanted want r.seq, a = r.hash

theorem rowStep_spec (want : List (Int × Bytes)) (w : Walk) (r : AuditLogDO) :
    Outcome (rowStep want w r)
      (fun w' => (r.seq = w.expSeq ∧ r.prevHash = w.expPrev ∧ r.hash = computeHash r ∧ ∀ a ∈ wanted want r.seq, a = r.hash) ∧
        w'.expSeq = r.seq + 1 ∧ w'.expPrev = r.hash ∧ w'.res.valid = w.res.valid)
      (fun res => ¬ (r.seq = w.expSeq ∧ r.prevHash = w.expPrev ∧ r.hash = computeHash r ∧
        ∀ a ∈ wanted want r.seq, a = r.hash) ∧ res.valid = false) := by
  unfold rowStep
  simp only
  split_ifs with h1 h2 h3
  · exact ⟨fun h => h1 h.1, rfl⟩
  · exact ⟨fun h => h2 h.2.1, rfl⟩
  · exact ⟨fun h => h3 h.2.2.1, rfl⟩
  · rw [not_not] at h1 h2 h3
    refine (checkAnchors_spec r _ _).bind (fun res hr => ⟨⟨h1, h2, h3, hr.1⟩, rfl, rfl, ?_⟩) fun res hr =>
      ⟨fun h => hr.1 h.2.2.2, hr.2⟩
    exact hr.2.trans (VerifyResult.noteFirst_valid ..)

theorem walkRows_spec (want : List (Int × Bytes)) (w : Walk) (rows : List AuditLogDO) :
    Outcome (walkRows want w rows)
      (fun w' => RowsOK want (w.expSeq - 1) w.expPrev rows ∧ w'.expSeq = w.expSeq + rows.length ∧
        w'.expPrev = lastHash chain w.expPrev rows ∧ w'.res.valid = w.res.valid)
      (fun res => ¬ RowsOK want (w.expSeq - 1) w.expPrev rows ∧ res.valid = false) := by
  induction rows generalizing w with
  | nil => exact ⟨⟨trivial, by simp⟩, by simp, rfl, rfl⟩
  | cons r rows ih =>
    rw [walkRows, List.foldlM_cons]
    refine (rowStep_spec want w r).bind (fun w' hw' => ?_) fun res hr => ⟨fun h => hr.1 ?_, hr.2⟩
    · obtain ⟨⟨h1, h2, h3, h4⟩, hseq, hprev, hval⟩ := hw'
      have hn : w'.expSeq - 1 = w.expSeq - 1 + 1 := by omega
      refine (ih w').mono (fun w'' h => ?_) fun res hr => ⟨fun h => hr.1 ?_, hr.2⟩
      · rw [hn, hprev, hval] at h
        obtain ⟨⟨i1, i2⟩, i3, i4, i5⟩ := h
        refine ⟨⟨⟨?_, h2, h3, i1⟩, fun x hx => ?_⟩, ?_, i4, i5⟩
        · show r.seq = _
          omega
        · rcases List.mem_cons.1 hx with rfl | hx
          · exact h4
          · exact i2 x hx
        · rw [i3, List.length_cons]; push_cast; omega
      · rw [hn, hprev]
        exact ⟨h.1.2.2.2, fun x hx => h.2 x (.tail _ hx)⟩
    · have hseq : r.seq = w.expSeq - 1 + 1 := h.1.1
      exact ⟨by omega, h.1.2.1, h.1.2.2.1, h.2 r (List.mem_cons_self ..)⟩

theorem finish_spec (t : AuditChainTailDO) (w : Walk) :
    (finish t w).valid = true ↔ w.res.valid = true ∧ w.expSeq - 1 = t.seq ∧ w.expPrev = t.hash := by
  unfold finish
  split_ifs with h
  · simp only [VerifyResult.fail_valid, Bool.false_eq_true, false_iff]
    rintro ⟨-, h1, h2⟩
    exact h.elim (fun hn => hn h1) fun hn => hn h2
  · rw [not_or, not_not, not_not] at h
    simp [h.1, h.2]

def boundaries (s : Store) : List (Int × Bytes) := (s.segs.map fun sg => (sg.lastSeq, sg.lastHash)).reverse

structure Accepted (opt : VerifyOptions) (fs : Bytes → Dir) (s : Store) : Prop where
  segs : SegsFrom opt fs 0 1 genesisHash genesisHash s.segs
  anchors : ∀ a ∈ opt.anchors, AnchorOK (tailOf s) (through s) (boundaries s) a
  rows : RowsOK (rowAnchors (through s) (sortAnchors opt.anchors)) (through s) (boundaryPrev s)
    (rowsAfter s (through s) (tailOf s).seq)
  seq : through s + (rowsAfter s (through s) (tailOf s).seq).length = (tailOf s).seq
  hash : lastHash chain (boundaryPrev s) (rowsAfter s (through s) (tailOf s).seq) = (tailOf s).hash

theorem startPaging_spec (opt : VerifyOptions) (fs : Bytes → Dir) (t : AuditChainTailDO) (s : Store) :
    Outcome (startPaging opt fs t s.segs)
      (fun q => (SegsFrom opt fs 0 1 genesisHash genesisHash s.segs ∧
          ∀ a ∈ opt.anchors, AnchorOK t (through s) (boundaries s) a) ∧
        q.1 = rowAnchors (through s) (sortAnchors opt.anchors) ∧ q.2.expSeq = through s + 1 ∧
        q.2.expPrev = boundaryPrev s ∧ q.2.res.valid = true)
      (fun r => ¬ (SegsFrom opt fs 0 1 genesisHash genesisHash s.segs ∧
          ∀ a ∈ opt.anchors, AnchorOK t (through s) (boundaries s) a) ∧ r.valid = false) := by
  refine (walkSegs_spec 0 _ s.segs).bind (fun st hst => ?_) fun r hr => ⟨fun h => hr.1 h.1, hr.2⟩
  obtain ⟨hsegs, hseq, hprev, hb, hval⟩ := hst
  simp only [SegWalk.init, List.append_nil] at hseq hprev hb hval
  have hthr : st.expSeq - 1 = through s := by rw [hseq]; simp [through]
  have hmem : ∀ a, a ∈ sortAnchors opt.anchors ↔ a ∈ opt.anchors := fun a => List.mem_insertionSort _
  refine (anchors_spec t st.boundary _ [] (sortAnchors opt.anchors)).bind (fun q hq => ?_) fun r hr => ?_
  · obtain ⟨h1, h2, h3⟩ := hq
    simp only [hthr, hb] at h1 h2
    refine ⟨⟨hsegs, fun a ha => h1 a ((hmem a).2 ha)⟩, h2.trans (List.nil_append _), by simp only; omega, hprev, ?_⟩
    exact h3.trans hval
  · simp only [hthr, hb] at hr
    exact ⟨fun h => hr.1 fun a ha => h.2 a ((hmem a).1 ha), hr.2⟩

theorem walkRest_spec (s : Store) (t : AuditChainTailDO) (want : List (Int × Bytes)) (w : Walk) :
    (walkRest s t want (w.expSeq - 1) w).valid = true ↔ w.res.valid = true ∧
      RowsOK want (w.expSeq - 1) w.expPrev (rowsAfter s (w.expSeq - 1) t.seq) ∧
      w.expSeq - 1 + (rowsAfter s (w.expSeq - 1) t.seq).length = t.seq ∧
      lastHash chain w.expPrev (rowsAfter s (w.expSeq - 1) t.seq) = t.hash := by
  have hspec := walkRows_spec want w (rowsAfter s (w.expSeq - 1) t.seq)
  unfold walkRest
  rcases hw : walkRows want w (rowsAfter s (w.expSeq - 1) t.seq) with r | w'
  · have hr := hspec.of_error hw
    simp only [hr.2, Bool.false_eq_true, false_iff]
    exact fun h => hr.1 h.2.1
  · obtain ⟨h1, h2, h3, h4⟩ := hspec.of_ok hw
    simp only [finish_spec, h2, h3, h4, h1, true_and]
    constructor
    · rintro ⟨hv, hs, hh⟩; exact ⟨hv, by omega, hh⟩
    · rintro ⟨hv, hs, hh⟩; exact ⟨hv, by omega, hh⟩

theorem verify_valid_iff (opt : VerifyOptions) (fs : Bytes → Dir) (s : Store) :
    (verifyAll opt fs s).valid = true ↔ Accepted opt fs s := by
  have hspec := startPaging_spec opt fs (tailOf s) s
  unfold verifyAll
  rcases hp : startPaging opt fs (tailOf s) s.segs with r | ⟨want, w⟩
  · have hr := hspec.of_error hp
    simp only [hr.2, Bool.false_eq_true, false_iff]
    exact fun h => hr.1 ⟨h.segs, h.anchors⟩
  · obtain ⟨⟨h1, h2⟩, h3, h4, h5, h6⟩ := hspec.of_ok hp
    simp only at h3 h4 h5 h6
    have hthr : w.expSeq - 1 = through s := by omega
    show (walkRest s (tailOf s) want (w.expSeq - 1) w).valid = true ↔ _
    rw [walkRest_spec, hthr, h3, h5, h6]
    exact ⟨fun h => ⟨h1, h2, h.2.1, h.2.2.1, h.2.2.2⟩, fun h => ⟨rfl, h.rows, h.seq, h.hash⟩⟩

end Audit
