import Privahub.Audit.Chain
import Privahub.Audit.VerifySpec

/-!
# What a valid report means

Consequences of `verify_valid_iff` for a database of any content. Without archived segments the
tail's hash fixes every record (`verify_eq_of_tail`). With archived segments and their files,
`chainRecords` is the whole chain; external anchors pin the records they name except strictly inside
an archived segment (`anchors_hold_iff`). A row that `List` returns is a record of the chain when
its number lies between the archived prefix and the tail (`list_verified`).
-/

namespace Audit

open HashChain

variable {opt : VerifyOptions} {fs : Bytes → Dir} {s : Store}

/-- `Verify` reports a valid chain. -/
def Valid (opt : VerifyOptions) (fs : Bytes → Dir) (s : Store) : Prop :=
  (verify opt fs s).map VerifyResult.valid = some true

instance (opt : VerifyOptions) (fs : Bytes → Dir) (s : Store) : Decidable (Valid opt fs s) :=
  inferInstanceAs (Decidable (_ = _))

theorem valid_iff : Valid opt fs s ↔ Accepted opt fs s := by
  simp [Valid, verify_eq, verify_valid_iff]

/-- Two accepted databases without archived segments and with the same tail hold the same records,
as far as SM3 does not collide on them. -/
theorem verify_eq_of_tail {opt' : VerifyOptions} {fs' : Bytes → Dir} {s' : Store} (hsegs : s.segs = [])
    (hsegs' : s'.segs = []) (htail : tailOf s = tailOf s') (hv : Valid opt fs s) (hv' : Valid opt' fs' s')
    (hinj : ∀ r ∈ rowsAfter s 0 (tailOf s).seq, ∀ r' ∈ rowsAfter s' 0 (tailOf s').seq,
      Sm3.sumHex (payload r) = Sm3.sumHex (payload r') → payload r = payload r') :
    (rowsAfter s 0 (tailOf s).seq).map hashed = (rowsAfter s' 0 (tailOf s').seq).map hashed := by
  have ha := valid_iff.1 hv
  have ha' := valid_iff.1 hv'
  have hthr : through s = 0 := by simp [through, throughFrom, hsegs]
  have hthr' : through s' = 0 := by simp [through, throughFrom, hsegs']
  have hprev : boundaryPrev s = boundaryPrev s' := by simp [boundaryPrev, boundaryFrom, hsegs, hsegs']
  have hseq := ha.seq
  have hseq' := ha'.seq
  rw [hthr] at hseq
  rw [hthr'] at hseq'
  have hl := ha.rows.1
  have hl' := ha'.rows.1
  have hlast : lastHash chain (boundaryPrev s) (rowsAfter s 0 (tailOf s).seq) =
      lastHash chain (boundaryPrev s') (rowsAfter s' 0 (tailOf s').seq) := by
    have h := ha.hash
    have h' := ha'.hash
    rw [hthr] at h
    rw [hthr'] at h'
    rw [h, h', htail]
  rw [hthr] at hl
  rw [hthr'] at hl'
  refine hl.body_eq (fun a b (hab : hashed a = hashed b) => congrArg AuditLogDO.prevHash hab) hl' ?_
    (fun a hm b hm' hd => hashed_eq_of_payload (hinj a hm b hm' hd)) hlast
  have := congrArg AuditChainTailDO.seq htail
  omega

def oneRecord (id : Int) : Store where
  log := [{ Store.linkRow (World.bareRow "a" 1) 0 genesisHash with id := id }]
  segs := []
  tail := some ⟨1, computeHash (Store.linkRow (World.bareRow "a" 1) 0 genesisHash)⟩
  nextID := id + 1
  log_seq := List.pairwise_singleton ..
  log_eventId := List.pairwise_singleton ..
  segs_segSeq := Store.empty.segs_segSeq
  segs_firstSeq := Store.empty.segs_firstSeq

theorem oneRecord_eq_of_tail : (rowsAfter (oneRecord 1) 0 1).map hashed = (rowsAfter (oneRecord 7) 0 1).map hashed := by
  have hv : Valid ⟨[], [], false, 0⟩ (fun _ _ => .missing) (oneRecord 1) := by decide +kernel
  have hv' : Valid ⟨[], [], false, 1⟩ (fun _ _ => .missing) (oneRecord 7) := by decide +kernel
  refine verify_eq_of_tail rfl rfl rfl hv hv' fun r hr r' hr' _ => ?_
  have hm := List.mem_singleton.1 (List.mem_filter.1 hr).1
  have hm' := List.mem_singleton.1 (List.mem_filter.1 hr').1
  rw [hm, hm']; rfl

/-- The records in the archive files and the live rows up to the tail. -/
def chainRecords (dir : Dir) (s : Store) : List AuditLogDO :=
  s.segs.flatMap (archivedRows dir) ++ rowsAfter s (through s) (tailOf s).seq

theorem archivedRows_of_ok (hdir : opt.archiveDir ≠ []) (hreq : opt.requireArchives = true) {i : Nat} {n : Int}
    {h g : Bytes} {sg : AuditSegmentDO} (hok : SegOK i (n + 1) h g sg) (ha : ArchiveOK opt fs sg) :
    Linked chain n h (archivedRows (fs opt.archiveDir) sg) ∧
      n + (archivedRows (fs opt.archiveDir) sg).length = sg.lastSeq ∧
      lastHash chain h (archivedRows (fs opt.archiveDir) sg) = sg.lastHash := by
  rcases ha with ha | ha | ha
  · exact absurd ha hdir
  · obtain ⟨h1, h2, h3⟩ := verifyArchiveFile_spec ha
    have h4 := hok.recordCount
    rw [hok.firstSeq, add_sub_cancel_right, hok.firstPrevHash] at h1
    rw [hok.firstPrevHash] at h3
    rw [hok.firstSeq] at h4
    exact ⟨h1, by omega, h3.symm⟩
  · simp [hreq] at ha

theorem SegsFrom.linked {i : Nat} {n : Int} {h g : Bytes} {segs : List AuditSegmentDO}
    (hs : SegsFrom opt fs i (n + 1) h g segs) (hdir : opt.archiveDir ≠ []) (hreq : opt.requireArchives = true) :
    Linked chain n h (segs.flatMap (archivedRows (fs opt.archiveDir))) ∧
      n + (segs.flatMap (archivedRows (fs opt.archiveDir))).length = throughFrom n segs ∧
      lastHash chain h (segs.flatMap (archivedRows (fs opt.archiveDir))) = boundaryFrom h segs := by
  induction segs generalizing i n h g with
  | nil => exact ⟨trivial, by simp [throughFrom], rfl⟩
  | cons sg segs ih =>
    obtain ⟨hok, ha, hrest⟩ := hs
    obtain ⟨h1, h2, h3⟩ := archivedRows_of_ok hdir hreq hok ha
    obtain ⟨i1, i2, i3⟩ := ih hrest
    rw [List.flatMap_cons, linked_append, lastHash_append, throughFrom_cons, boundaryFrom_cons, h2, h3]
    refine ⟨⟨h1, i1⟩, ?_, i3⟩
    rw [List.length_append]; push_cast; omega

theorem SegsFrom.boundary {i : Nat} {n : Int} {h g : Bytes} {segs : List AuditSegmentDO}
    (hs : SegsFrom opt fs i (n + 1) h g segs) (hdir : opt.archiveDir ≠ []) (hreq : opt.requireArchives = true) :
    ∀ sg ∈ segs, (∀ r ∈ archivedRows (fs opt.archiveDir) sg, sg.firstSeq ≤ r.seq ∧ r.seq ≤ sg.lastSeq) ∧
      ∃ r ∈ archivedRows (fs opt.archiveDir) sg, r.seq = sg.lastSeq ∧ r.hash = sg.lastHash := by
  induction segs generalizing i n h g with
  | nil => simp
  | cons sg segs ih =>
    obtain ⟨hok, ha, hrest⟩ := hs
    intro x hx
    rcases List.mem_cons.1 hx with rfl | hx
    · obtain ⟨h1, h2, h3⟩ := archivedRows_of_ok hdir hreq hok ha
      have hne := hok.nonempty
      have hfirst := hok.firstSeq
      refine ⟨fun r hr => ?_, ?_⟩
      · have := h1.seq_of_mem hr
        simp only [chain] at this; omega
      · obtain ⟨r, hr, he⟩ := h1.exists_seq (k := x.lastSeq) (by omega) (by omega)
        have ht := h1.lastHash_take hr
        rw [he, List.take_of_length_le (by omega), h3] at ht
        exact ⟨r, hr, he, ht.symm⟩
    · exact ih hrest x hx

theorem SegsFrom.firstSeq_ge {i : Nat} {n : Int} {h g : Bytes} {segs : List AuditSegmentDO}
    (hs : SegsFrom opt fs i n h g segs) : ∀ sg ∈ segs, n ≤ sg.firstSeq ∧ sg.firstSeq ≤ sg.lastSeq := by
  induction segs generalizing i n h g with
  | nil => simp
  | cons sg segs ih =>
    intro x hx
    have h1 := hs.1.firstSeq
    have h2 := hs.1.nonempty
    rcases List.mem_cons.1 hx with rfl | hx
    · omega
    · have := ih hs.2.2 x hx; omega

theorem SegsFrom.disjoint {i : Nat} {n : Int} {h g : Bytes} {segs : List AuditSegmentDO}
    (hs : SegsFrom opt fs i n h g segs) {a b : AuditSegmentDO} (ha : a ∈ segs) (hb : b ∈ segs) (hne : a ≠ b) :
    a.lastSeq < b.firstSeq ∨ b.lastSeq < a.firstSeq := by
  induction segs generalizing i n h g with
  | nil => simp at ha
  | cons sg segs ih =>
    have hge := hs.2.2.firstSeq_ge
    rcases List.mem_cons.1 ha with rfl | ha' <;> rcases List.mem_cons.1 hb with rfl | hb'
    · exact absurd rfl hne
    · have := (hge b hb').1; omega
    · have := (hge a ha').1; omega
    · exact ih hs.2.2 ha' hb'

theorem Accepted.chainRecords_linked (h : Accepted opt fs s) (hdir : opt.archiveDir ≠ [])
    (hreq : opt.requireArchives = true) :
    Linked chain 0 genesisHash (chainRecords (fs opt.archiveDir) s) ∧
      (chainRecords (fs opt.archiveDir) s).length = (tailOf s).seq := by
  obtain ⟨h1, h2, h3⟩ := h.segs.linked (n := 0) hdir hreq
  have hlive := h.rows.1
  have hseq := h.seq
  rw [zero_add] at h2
  refine ⟨linked_append.2 ⟨h1, ?_⟩, ?_⟩
  · rw [zero_add, h2, h3]; exact hlive
  · rw [chainRecords, List.length_append]; push_cast; rw [h2]; exact hseq

theorem Accepted.chainRecords_lastHash (h : Accepted opt fs s) (hdir : opt.archiveDir ≠ []) (hreq : opt.requireArchives = true) :
    lastHash chain genesisHash (chainRecords (fs opt.archiveDir) s) = (tailOf s).hash := by
  obtain ⟨-, -, hlast⟩ := h.segs.linked (n := 0) hdir hreq
  rw [chainRecords, lastHash_append, hlast]
  exact h.hash

theorem World.Core.tailOf_eq {w : World} (hc : World.Core w) : tailOf w.db = ⟨w.full.length, lastHash chain genesisHash w.full⟩ := by
  cases ht : w.db.tail with
  | some t => rw [tailOf, ht]; exact hc.tail_some t ht
  | none => rw [tailOf, ht, (hc.tail_none ht).1]; rfl

section segments

variable {opt : VerifyOptions} {fs : Bytes → Dir} {segs : List AuditSegmentDO} {rows : List AuditLogDO}

theorem segsFrom_snoc {i : Nat} {n : Int} {h g : Bytes} {sg : AuditSegmentDO} :
    SegsFrom opt fs i (n + 1) h g (segs ++ [sg]) ↔ SegsFrom opt fs i (n + 1) h g segs ∧
      SegOK (i + segs.length) (throughFrom n segs + 1) (boundaryFrom h segs)
        ((segs.getLast?.map AuditSegmentDO.segHash).getD g) sg ∧ ArchiveOK opt fs sg := by
  induction segs generalizing i n h g with
  | nil => simp [SegsFrom, throughFrom, boundaryFrom]
  | cons x segs ih =>
    have hlast : (((x :: segs).getLast?.map AuditSegmentDO.segHash).getD g) =
        (segs.getLast?.map AuditSegmentDO.segHash).getD x.segHash := by
      cases segs <;> simp [List.getLast?_cons]
    simp only [List.cons_append, SegsFrom, ih, hlast, throughFrom_cons, boundaryFrom_cons, List.length_cons, and_assoc]
    rw [show i + 1 + segs.length = i + (segs.length + 1) by omega]

theorem Segments.through_eq (h : Segments segs rows) :
    throughFrom 0 segs = rows.length ∧ boundaryFrom genesisHash segs = lastHash chain genesisHash rows := by
  cases h with
  | nil => exact ⟨rfl, rfl⟩
  | @snoc segs rows piece sg _ hx _ =>
    simp only [throughFrom, boundaryFrom, List.getLast?_append, List.getLast?_singleton, Option.some_or, Option.map_some,
      Option.getD_some, hx.lastSeq, hx.lastHash, planAfter, List.length_append, lastHash_append]
    exact ⟨by push_cast; ring, trivial⟩

theorem Segments.eq_nil (h : Segments segs rows) (hs : segs = []) : rows = [] := by
  cases h with
  | nil => rfl
  | snoc => exact absurd hs (by simp)

theorem Segments.exported_of_singleton {sg : AuditSegmentDO} (h : Segments [sg] rows) : ∃ p, Exported p rows sg := by
  generalize hl : [sg] = segs at h
  cases h with
  | nil => cases hl
  | @snoc segs rows piece sg' hs hx _ =>
    rcases List.append_eq_singleton_iff.1 hl.symm with ⟨rfl, hsg⟩ | ⟨-, hsg⟩
    · obtain rfl := List.singleton_inj.1 hsg
      rw [hs.eq_nil rfl, List.nil_append]
      exact ⟨_, hx⟩
    · cases hsg

theorem Segments.segsFrom (h : Segments segs rows) (ha : ∀ sg ∈ segs, ArchiveOK opt fs sg) :
    SegsFrom opt fs 0 1 genesisHash genesisHash segs := by
  induction h with
  | nil => trivial
  | @snoc segs rows piece sg hs hx hne ih =>
    refine (segsFrom_snoc (n := 0)).2 ⟨ih fun x hm => ha x (List.mem_append_left _ hm), ?_, ha sg (by simp)⟩
    obtain ⟨h1, h2⟩ := hs.through_eq
    have hlen := List.length_pos_iff.2 hne
    refine ⟨?_, hx.segHash, ?_, ?_, ?_, ?_, ?_⟩
    · rw [hx.segSeq]; simp [planAfter]
    · rw [hx.prevSegHash]
      simp only [planAfter, lastSegHash]
      cases segs.getLast? <;> rfl
    · rw [hx.firstSeq, h1]; rfl
    · rw [hx.firstPrevHash, h2]; rfl
    · rw [hx.firstSeq, hx.lastSeq]; omega
    · rw [hx.firstSeq, hx.lastSeq, hx.recordCount]; omega

theorem Segments.exists_last (h : Segments segs rows) :
    ∀ sg ∈ segs, ∃ r ∈ rows, r.seq = sg.lastSeq ∧ r.hash = sg.lastHash := by
  induction h with
  | nil => simp
  | @snoc segs rows piece sg _ hx hne ih =>
    intro x hm
    rcases List.mem_append.1 hm with hm | hm
    · obtain ⟨r, hr, he⟩ := ih x hm
      exact ⟨r, List.mem_append_left _ hr, he⟩
    · rw [List.mem_singleton.1 hm]
      obtain ⟨init, r, rfl⟩ := (List.eq_nil_or_concat' piece).resolve_left hne
      have hseq := hx.linked.seq_getLast? (r := r) (by simp)
      refine ⟨r, by simp, hseq.trans hx.lastSeq.symm, ?_⟩
      rw [hx.lastHash, lastHash_concat]; rfl

end segments

section reachable

variable {w : World}

theorem rowsAfter_eq (hc : World.Core w) {c k : Nat} (h : w.archived.length ≤ c ∨ k ≤ c) :
    rowsAfter w.db c k = (w.full.take k).drop c := by
  have hslice := hc.linked.filter_seq c k
  simp only [zero_add, chain] at hslice
  rw [← hslice, World.full, List.filter_append, List.filter_eq_nil_iff.2 fun r hr => ?_]
  · rfl
  · have := ((linked_append.1 hc.linked).1.seq_of_mem hr).2
    simp only [chain] at this
    simp only [Bool.and_eq_true, decide_eq_true_eq]; omega

theorem accepted_of_core (hc : World.Core w) (ha : ∀ sg ∈ w.db.segs, ArchiveOK opt fs sg)
    (hin : ∀ a ∈ opt.anchors, a.seq ≤ through w.db ∧ boundaryHash (boundaries w.db) a.seq = none) : Accepted opt fs w.db := by
  obtain ⟨hthr, hprev⟩ := hc.segs.through_eq
  have htail : tailOf w.db = ⟨w.full.length, lastHash chain genesisHash w.full⟩ := by
    rcases ht : w.db.tail with _ | t
    · rw [tailOf, ht, (hc.tail_none ht).1]
      rfl
    · rw [tailOf, ht, hc.tail_some t ht]
      rfl
  have hrows : rowsAfter w.db (through w.db) (tailOf w.db).seq = w.db.log := by
    rw [htail, through, hthr, rowsAfter_eq hc (.inl le_rfl), List.take_length, World.full, List.drop_left]
  have hlive := (linked_append.1 hc.linked).2
  rw [zero_add] at hlive
  have hnone : rowAnchors (through w.db) (sortAnchors opt.anchors) = [] := by
    refine List.map_eq_nil_iff.2 (List.filter_eq_nil_iff.2 fun a hm => ?_)
    have := (hin a ((List.mem_insertionSort _).1 hm)).1
    simp only [Bool.and_eq_true, decide_eq_true_eq]
    omega
  refine ⟨hc.segs.segsFrom ha, fun a hm => ⟨?_, fun _ x hx => ?_⟩, ?_, ?_, ?_⟩
  · have := (hin a hm).1
    rw [through, hthr] at this
    rw [htail]
    simp only [World.full, List.length_append]
    omega
  · rw [(hin a hm).2] at hx
    cases hx
  · rw [hrows, hnone, boundaryPrev, hprev, through, hthr]
    exact ⟨hlive, fun r _ a hm => absurd hm List.not_mem_nil⟩
  · rw [hrows, htail, through, hthr]
    simp only [World.full, List.length_append]
    push_cast
    rfl
  · rw [hrows, htail, boundaryPrev, hprev, World.full, lastHash_append]

end reachable

/-- The number lies in an archived segment, but not at its end. -/
def Inside (s : Store) (n : Int) : Prop := ∃ sg ∈ s.segs, sg.firstSeq ≤ n ∧ n < sg.lastSeq

instance (s : Store) (n : Int) : Decidable (Inside s n) := inferInstanceAs (Decidable (∃ sg ∈ s.segs, _))

/-- The chain's record with the number of an anchor up to the tail has the anchored hash. -/
def AnchorsHold (dir : Dir) (s : Store) (anchors : List Anchor) : Prop :=
  ∀ a ∈ anchors, 0 < a.seq → a.seq ≤ (tailOf s).seq → ∃ r ∈ chainRecords dir s, r.seq = a.seq ∧ r.hash = a.hash

theorem boundaryHash_eq_some {n : Int} {x : Bytes} (h : boundaryHash (boundaries s) n = some x) :
    ∃ sg ∈ s.segs, sg.lastSeq = n ∧ sg.lastHash = x := by
  obtain ⟨b, hb, rfl⟩ := Option.map_eq_some_iff.1 h
  have hm := List.mem_of_find?_eq_some hb
  have hn := List.find?_some hb
  simp only [boundaries, List.mem_reverse, List.mem_map] at hm
  obtain ⟨sg, hsg, rfl⟩ := hm
  exact ⟨sg, hsg, by simpa using hn, rfl⟩

theorem exists_boundaryHash {sg : AuditSegmentDO} (h : sg ∈ s.segs) : ∃ x, boundaryHash (boundaries s) sg.lastSeq = some x := by
  rcases hb : boundaryHash (boundaries s) sg.lastSeq with _ | x
  · simp only [boundaryHash, Option.map_eq_none_iff, List.find?_eq_none, boundaries, List.mem_reverse, List.mem_map] at hb
    exact absurd (decide_eq_true rfl) (hb _ ⟨sg, h, rfl⟩)
  · exact ⟨x, rfl⟩

theorem mem_wanted {thr n : Int} {x : Bytes} {anchors : List Anchor} :
    x ∈ wanted (rowAnchors thr (sortAnchors anchors)) n ↔ ∃ a ∈ anchors, a.seq = n ∧ thr < n ∧ n ≠ 0 ∧ a.hash = x := by
  simp only [wanted, rowAnchors, List.mem_map, List.mem_filter, decide_eq_true_eq, Bool.and_eq_true, sortAnchors,
    List.mem_insertionSort]
  constructor
  · rintro ⟨q, ⟨⟨a, ⟨ha, h1, h2⟩, rfl⟩, rfl⟩, rfl⟩
    exact ⟨a, ha, rfl, h1, h2, rfl⟩
  · rintro ⟨a, ha, rfl, h1, h2, rfl⟩
    exact ⟨_, ⟨⟨a, ⟨ha, h1, h2⟩, rfl⟩, rfl⟩, rfl⟩

theorem through_nonneg (hs : SegsFrom opt fs 0 1 genesisHash genesisHash s.segs) : 0 ≤ through s := by
  have hgen : ∀ (segs : List AuditSegmentDO) (i : Nat) (n : Int) (h g : Bytes), SegsFrom opt fs i (n + 1) h g segs →
      n ≤ throughFrom n segs := by
    intro segs
    induction segs with
    | nil => intro i n h g _; simp [throughFrom]
    | cons sg segs ih =>
      intro i n h g hs
      rw [throughFrom_cons]
      have h1 := ih _ _ _ _ hs.2.2
      have h2 := hs.1.firstSeq
      have h3 := hs.1.nonempty
      omega
  exact hgen s.segs 0 0 _ _ hs

theorem Accepted.anchorsHold (h : Accepted opt fs s) (hdir : opt.archiveDir ≠ [])
    (hreq : opt.requireArchives = true) (hin : ∀ a ∈ opt.anchors, ¬ Inside s a.seq) :
    AnchorsHold (fs opt.archiveDir) s opt.anchors := by
  intro a ha hpos hle
  obtain ⟨hchain, hlen⟩ := h.chainRecords_linked hdir hreq
  obtain ⟨r, hr, hra⟩ := hchain.exists_seq hpos (by omega)
  refine ⟨r, hr, hra, ?_⟩
  change r.seq = a.seq at hra
  rcases List.mem_append.1 hr with hm | hm
  · obtain ⟨sg, hsg, hm⟩ := List.mem_flatMap.1 hm
    obtain ⟨hrange, -⟩ := h.segs.boundary (n := 0) hdir hreq sg hsg
    have hlast : sg.lastSeq = a.seq := by
      have := hrange r hm
      by_contra hne
      exact hin a ha ⟨sg, hsg, by omega, by omega⟩
    obtain ⟨x, hx⟩ := exists_boundaryHash hsg
    rw [hlast] at hx
    have hthr : a.seq ≤ through s := by
      obtain ⟨h1, h2, -⟩ := h.segs.linked (n := 0) hdir hreq
      have := (h1.seq_of_mem (List.mem_flatMap.2 ⟨sg, hsg, hm⟩)).2
      rw [h2] at this
      simp only [chain] at this
      exact hra ▸ this
    rw [← (h.anchors a ha).2 hthr x hx]
    -- the boundary record of the segment found has the same number, so it is `r`
    obtain ⟨sg', hsg', hseq', rfl⟩ := boundaryHash_eq_some hx
    obtain ⟨-, r', hr', h1, h2⟩ := h.segs.boundary (n := 0) hdir hreq sg' hsg'
    have hmem' : r' ∈ chainRecords (fs opt.archiveDir) s := List.mem_append_left _ (List.mem_flatMap.2 ⟨sg', hsg', hr'⟩)
    rw [← h2, hchain.eq_of_seq_eq hr hmem' (hra.trans (hseq'.symm.trans h1.symm))]
  · have hthr : through s < a.seq := by
      simp only [rowsAfter, List.mem_filter, Bool.and_eq_true, decide_eq_true_eq] at hm
      omega
    have h0 := through_nonneg h.segs
    exact (h.rows.2 r hm a.hash (hra ▸ mem_wanted.2 ⟨a, ha, rfl, hthr, by omega, rfl⟩)).symm

/-- The hash of the record numbered `n`. -/
def hashAt (rs : List AuditLogDO) (n : Int) : Bytes := ((rs.find? fun r => r.seq = n).map AuditLogDO.hash).getD []

theorem hashAt_eq {rs : List AuditLogDO} {n : Int} {g : Bytes} (hl : Linked chain n g rs) {r : AuditLogDO} (hr : r ∈ rs) :
    hashAt rs r.seq = r.hash := by
  rcases hf : rs.find? fun x => x.seq = r.seq with _ | x
  · exact absurd (decide_eq_true rfl) (List.find?_eq_none.1 hf r hr)
  · have hx : x.seq = r.seq := by simpa using List.find?_some hf
    rw [hashAt, hf, hl.eq_of_seq_eq (List.mem_of_find?_eq_some hf) hr hx]; rfl

/-- Anchors with the right hashes at the numbers `ns`, but a wrong one at `bad`. -/
def anchorsBut (rs : List AuditLogDO) (bad : Int) (ns : List Int) : List Anchor :=
  ns.map fun n => ⟨[], n, if n = bad then 33 :: hashAt rs n else hashAt rs n⟩

theorem accepted_anchorsBut (hdir : opt.archiveDir ≠ []) (hreq : opt.requireArchives = true)
    (h : Accepted { opt with anchors := [] } fs s) {bad : Int} (hbad : Inside s bad) {ns : List Int}
    (hns : ∀ n ∈ ns, n ≤ (tailOf s).seq) :
    Accepted { opt with anchors := anchorsBut (chainRecords (fs opt.archiveDir) s) bad ns } fs s := by
  have hchain := (h.chainRecords_linked hdir hreq).1
  have hsegs : ∀ (i : Nat) (n : Int) (x g : Bytes) (segs : List AuditSegmentDO), SegsFrom { opt with anchors := [] } fs i n x g segs →
      SegsFrom { opt with anchors := anchorsBut (chainRecords (fs opt.archiveDir) s) bad ns } fs i n x g segs := by
    intro i n x g segs
    induction segs generalizing i n x g with
    | nil => exact id
    | cons sg segs ih => exact fun hs => ⟨hs.1, hs.2.1, ih _ _ _ _ hs.2.2⟩
  have hlive : ∀ r ∈ rowsAfter s (through s) (tailOf s).seq, r.seq ≠ bad := by
    rintro r hr rfl
    obtain ⟨sg, hsg, h1, h2⟩ := hbad
    obtain ⟨-, r', hr', h3, -⟩ := h.segs.boundary (n := 0) hdir hreq sg hsg
    obtain ⟨h4, h5, -⟩ := h.segs.linked (n := 0) hdir hreq
    have h6 := (h4.seq_of_mem (List.mem_flatMap.2 ⟨sg, hsg, hr'⟩)).2
    simp only [rowsAfter, List.mem_filter, Bool.and_eq_true, decide_eq_true_eq] at hr
    simp only [chain] at h6
    change r'.seq ≤ 0 + _ at h6
    rw [h5] at h6
    change r'.seq ≤ through s at h6
    omega
  refine ⟨hsegs _ _ _ _ _ h.segs, fun a ha => ?_, ⟨h.rows.1, fun r hr x hx => ?_⟩, h.seq, h.hash⟩
  · obtain ⟨n, hn, rfl⟩ := List.mem_map.1 ha
    refine ⟨hns n hn, fun _ x hx => ?_⟩
    obtain ⟨sg, hsg, hseq, rfl⟩ := boundaryHash_eq_some hx
    obtain ⟨-, r, hr, h1, h2⟩ := h.segs.boundary (n := 0) hdir hreq sg hsg
    have hmem : r ∈ chainRecords (fs opt.archiveDir) s := List.mem_append_left _ (List.mem_flatMap.2 ⟨sg, hsg, hr⟩)
    have hne : n ≠ bad := by
      rintro rfl
      obtain ⟨sg', hsg', h3, h4⟩ := hbad
      simp only at hseq
      have h5 := (h.segs.firstSeq_ge sg hsg).2
      rcases eq_or_ne sg sg' with rfl | hne
      · omega
      · have := h.segs.disjoint hsg hsg' hne
        omega
    simp only [if_neg hne]
    simp only at hseq
    rw [← hseq, ← h1, hashAt_eq hchain hmem, h2]
  · obtain ⟨a, ha, hra, -, -, rfl⟩ := mem_wanted.1 hx
    obtain ⟨n, hn, rfl⟩ := List.mem_map.1 ha
    simp only at hra
    subst hra
    simp only [if_neg (hlive r hr)]
    exact hashAt_eq hchain (List.mem_append_right _ hr)

/-- External anchors are reliable up to numbers strictly inside an archived segment: no other anchor
of an accepted chain is wrong, and wrong anchors at such numbers are accepted. -/
theorem anchors_hold_iff (opt : VerifyOptions) (fs : Bytes → Dir) (s : Store) (hdir : opt.archiveDir ≠ []) (hreq : opt.requireArchives = true) :
    ((∀ a ∈ opt.anchors, ¬ Inside s a.seq) → Valid opt fs s → AnchorsHold (fs opt.archiveDir) s opt.anchors) ∧
    (Valid { opt with anchors := [] } fs s → ∀ ns : List Int,
      ((∀ anchors : List Anchor, anchors.map Anchor.seq = ns → Valid { opt with anchors := anchors } fs s →
        AnchorsHold (fs opt.archiveDir) s anchors) ↔
      ((∃ n ∈ ns, (tailOf s).seq < n) ∨ ∀ n ∈ ns, ¬ Inside s n))) := by
  refine ⟨fun hin hv => (valid_iff.1 hv).anchorsHold hdir hreq hin, fun hbase ns => ⟨fun hall => ?_, ?_⟩⟩
  · have hbase := valid_iff.1 hbase
    obtain ⟨hchain, hlen⟩ := hbase.chainRecords_linked hdir hreq
    by_contra hcon
    simp only [not_or, not_exists, not_and, not_forall, not_not, not_lt] at hcon
    obtain ⟨hns, bad, hbad, hin⟩ := hcon
    have hacc := accepted_anchorsBut hdir hreq hbase hin hns
    have hmem : (⟨[], bad, 33 :: hashAt (chainRecords (fs opt.archiveDir) s) bad⟩ : Anchor) ∈
        anchorsBut (chainRecords (fs opt.archiveDir) s) bad ns := List.mem_map.2 ⟨bad, hbad, by simp⟩
    have hpos : 0 < bad := by
      obtain ⟨sg, hsg, h1, -⟩ := hin
      have := (hbase.segs.firstSeq_ge sg hsg).1
      omega
    obtain ⟨r, hr, hseq, hhash⟩ := hall _ (by simp [anchorsBut, Function.comp_def]) (valid_iff.2 hacc) _ hmem hpos (hns bad hbad)
    simp only at hseq hhash
    rw [← hseq, hashAt_eq hchain hr] at hhash
    simpa using congrArg List.length hhash
  · rintro (⟨n, hn, hlt⟩ | hin) anchors rfl hv
    · obtain ⟨a, ha, rfl⟩ := List.mem_map.1 hn
      exact absurd ((valid_iff.1 hv).anchors a ha).1 (by omega)
    · exact (valid_iff.1 hv).anchorsHold hdir hreq fun a ha =>
        hin _ (List.mem_map_of_mem ha)

theorem verifyArchiveFile_of_lines {dir : Dir} {sg : AuditSegmentDO} {data line : Bytes} {lines : List Bytes} {h : SegmentHeader}
    (hdir : dir (Bytes.fileBase sg.fileName) = .data data) (hsum : sg.fileSm3 = Sm3.sumHex data)
    (hscan : Bytes.scanLines maxArchiveLine data = line :: lines) (hh : SegmentHeader.unmarshal line = some h)
    (ht : h.type = headerType ∧ h.firstSeq = sg.firstSeq ∧ h.lastSeq = sg.lastSeq ∧ h.firstPrevHash = sg.firstPrevHash)
    (hlines : verifyLines sg h.firstSeq h.firstPrevHash 0 lines = .ok ()) : verifyArchiveFile dir sg = .ok () := by
  rw [verifyArchiveFile, hdir]
  show verifyArchiveData sg data = _
  rw [verifyArchiveData, if_neg (not_not.2 hsum.symm), hscan]
  simp only [hh]
  rw [if_neg (not_not.2 ht.1), if_neg (by simp [ht.2])]
  exact hlines

def archivedRunOK (w : World) : Bool :=
  match w.db.segs, w.files with
  | [sg], [f] => decide (sg.firstSeq = 1 ∧ sg.lastSeq = 2 ∧ f.1 = (str "archive", Bytes.fileBase sg.fileName) ∧
      f.2 = archiveFile sg.firstSeq sg.lastSeq sg.firstPrevHash sg.lastHash w.archived) &&
    match Bytes.scanLines maxArchiveLine f.2 with
    | line :: lines => match SegmentHeader.unmarshal line with
      | some h => decide ((h.type = headerType ∧ h.firstSeq = sg.firstSeq ∧ h.lastSeq = sg.lastSeq ∧ h.firstPrevHash = sg.firstPrevHash) ∧
          verifyLines sg h.firstSeq h.firstPrevHash 0 lines = .ok ())
      | none => false
    | [] => false
  | _, _ => false

theorem archivedRun_verify : ∃ w, Lts.run World.step World.init World.archivedRun = some w ∧
    (Valid ⟨[⟨[], 1, str "rewritten"⟩], str "archive", true, 0⟩ w.dirAt w.db ∧
      ¬ AnchorsHold (w.dirAt (str "archive")) w.db [⟨[], 1, str "rewritten"⟩]) ∧
    Valid ⟨[], str "archive", true, 0⟩ w.dirAt w.db ∧ ∀ n ∈ [(2 : Int), 3], ¬ Inside w.db n := by
  have hrun : (Lts.run World.step World.init World.archivedRun).map archivedRunOK = some true := by decide +kernel
  obtain ⟨w, hw, hok⟩ := Option.map_eq_some_iff.1 hrun
  refine ⟨w, hw, ?_⟩
  have hc : World.Core w := (World.inv_of_reachable ⟨_, hw⟩).core
  unfold archivedRunOK at hok
  split at hok
  case h_2 => cases hok
  next sg f hsegs hfiles =>
  rw [Bool.and_eq_true, decide_eq_true_eq] at hok
  obtain ⟨⟨hfirst, hlast, hname, hfile⟩, hok⟩ := hok
  split at hok
  case h_2 => cases hok
  next line lines hscan =>
  split at hok
  case h_2 => cases hok
  next h hh =>
  obtain ⟨ht, hlines⟩ := of_decide_eq_true hok
  obtain ⟨p, hx⟩ := Segments.exported_of_singleton (hsegs ▸ hc.segs)
  have hdir : w.dirAt (str "archive") (Bytes.fileBase sg.fileName) = .data f.2 := by
    simp [World.dirAt, hfiles, hname]
  have harchive : ∀ sg' ∈ w.db.segs, verifyArchiveFile (w.dirAt (str "archive")) sg' = .ok () := by
    intro sg' hmem
    rw [hsegs] at hmem
    obtain rfl := List.mem_singleton.1 hmem
    refine verifyArchiveFile_of_lines hdir ?_ hscan hh ht hlines
    rw [hx.fileSm3, hfile]
  have hb : boundaries w.db = [(2, sg.lastHash)] := by simp [boundaries, hsegs, hlast]
  have hthr : through w.db = 2 := by simp [through, throughFrom, hsegs, hlast]
  have hfalse : Accepted ⟨[⟨[], 1, str "rewritten"⟩], str "archive", true, 0⟩ w.dirAt w.db := by
    refine accepted_of_core hc (fun sg' hmem => .inr (.inl (harchive sg' hmem))) fun a ha => ?_
    obtain rfl := List.mem_singleton.1 ha
    rw [hb, hthr]
    exact ⟨by decide, rfl⟩
  refine ⟨⟨valid_iff.2 hfalse, fun hhold => ?_⟩, ?_, ?_⟩
  · -- a hash is longer than the text of the anchor
    obtain ⟨hl, -⟩ := hfalse.chainRecords_linked (by decide) rfl
    have htail := (hfalse.anchors _ List.mem_cons_self).1
    obtain ⟨r, hr, -, hhash⟩ := hhold _ List.mem_cons_self (by decide) htail
    have hlen := Sm3.length_sumHex (payload r)
    rw [show Sm3.sumHex (payload r) = r.hash from (hl.digest_of_mem hr).symm, hhash] at hlen
    revert hlen
    decide
  · exact valid_iff.2 (accepted_of_core hc (fun sg' hmem => .inr (.inl (harchive sg' hmem))) fun a ha => absurd ha List.not_mem_nil)
  · intro n hn
    simp only [Inside, hsegs, List.mem_singleton, exists_eq_left, hfirst, hlast]
    simp only [List.mem_cons, List.not_mem_nil, or_false] at hn
    omega

theorem inside_anchor_accepted : ∃ w, Lts.run World.step World.init World.archivedRun = some w ∧
    Valid ⟨[⟨[], 1, str "rewritten"⟩], str "archive", true, 0⟩ w.dirAt w.db ∧
    ¬ AnchorsHold (w.dirAt (str "archive")) w.db [⟨[], 1, str "rewritten"⟩] :=
  let ⟨w, hw, hbad, _⟩ := archivedRun_verify
  ⟨w, hw, hbad⟩

/-- In the same state anchors for records 2 and 3, a segment's end and a live row, are reliable. -/
theorem anchors_hold_archivedRun : ∃ w, Lts.run World.step World.init World.archivedRun = some w ∧
    ∀ anchors : List Anchor, anchors.map Anchor.seq = [2, 3] → Valid ⟨anchors, str "archive", true, 0⟩ w.dirAt w.db →
      AnchorsHold (w.dirAt (str "archive")) w.db anchors := by
  obtain ⟨w, hw, -, hbase, hin⟩ := archivedRun_verify
  exact ⟨w, hw, ((anchors_hold_iff ⟨[], str "archive", true, 0⟩ w.dirAt w.db (by decide) rfl).2
    hbase [2, 3]).2 (.inr hin)⟩

/-- Tampering is evident: whatever stands in the tables and in the archive files, if it passes `Verify` with the tail that the writers
left, then it is what they wrote, archived or not, as far as SM3 does not collide on the records. -/
theorem records_of_tail {w : World} (hw : World.Reachable w) (hdir : opt.archiveDir ≠ []) (hreq : opt.requireArchives = true)
    (hv : Valid opt fs s) (htail : tailOf s = tailOf w.db)
    (hinj : ∀ r ∈ chainRecords (fs opt.archiveDir) s, ∀ r' ∈ w.full, Sm3.sumHex (payload r) = Sm3.sumHex (payload r') → payload r = payload r') :
    (chainRecords (fs opt.archiveDir) s).map hashed = w.full.map hashed := by
  have ha := valid_iff.1 hv
  have hc := (World.inv_of_reachable hw).core
  obtain ⟨hl, hlen⟩ := ha.chainRecords_linked hdir hreq
  have hseq : (tailOf s).seq = w.full.length := by rw [htail, hc.tailOf_eq]
  have hlast : lastHash chain genesisHash (chainRecords (fs opt.archiveDir) s) = lastHash chain genesisHash w.full := by
    rw [ha.chainRecords_lastHash hdir hreq, htail, hc.tailOf_eq]
  exact hl.body_eq (fun a b hab => congrArg AuditLogDO.prevHash hab) hc.linked (by omega)
    (fun a hm b hm' hd => hashed_eq_of_payload (hinj a hm b hm' hd)) hlast

theorem records_of_tail_archivedRun : ∃ w, Lts.run World.step World.init World.archivedRun = some w ∧ w.full.length = 3 ∧
    (chainRecords (w.dirAt (str "archive")) w.db).map hashed = w.full.map hashed := by
  have hrun : (Lts.run World.step World.init World.archivedRun).map (fun w => decide (w.full.length = 3 ∧
      ∀ r ∈ chainRecords (w.dirAt (str "archive")) w.db, ∀ r' ∈ w.full, Sm3.sumHex (payload r) = Sm3.sumHex (payload r') → payload r = payload r')) =
      some true := by decide +kernel
  obtain ⟨w, hw, -, hv, -⟩ := archivedRun_verify
  rw [hw] at hrun
  obtain ⟨hlen, hinj⟩ := of_decide_eq_true (Option.some.inj hrun)
  exact ⟨w, hw, hlen, records_of_tail ⟨_, hw⟩ (by decide) rfl hv rfl hinj⟩

/-- A row that `List` returns from an accepted database is a record of the verified chain if its
number is above the archived prefix and not above the tail. -/
theorem list_verified (hv : Valid opt fs s) (q : Store.Query) :
    Linked chain (through s) (boundaryPrev s) (rowsAfter s (through s) (tailOf s).seq) ∧
    through s + (rowsAfter s (through s) (tailOf s).seq).length = (tailOf s).seq ∧
    lastHash chain (boundaryPrev s) (rowsAfter s (through s) (tailOf s).seq) = (tailOf s).hash ∧
    ∀ r ∈ (s.list q).1, through s < r.seq → r.seq ≤ (tailOf s).seq →
      r ∈ rowsAfter s (through s) (tailOf s).seq ∧ r.hash = computeHash r := by
  have h := valid_iff.1 hv
  refine ⟨h.rows.1, h.seq, h.hash, fun r hr h1 h2 => ?_⟩
  have hlog : r ∈ s.log := by
    have hm := List.mem_of_mem_drop (List.mem_of_mem_take hr)
    exact (List.mem_filter.1 (List.mem_reverse.1 hm)).1
  have hm : r ∈ rowsAfter s (through s) (tailOf s).seq := by
    simp only [rowsAfter, List.mem_filter, Bool.and_eq_true, decide_eq_true_eq]
    exact ⟨hlog, h1, h2⟩
  exact ⟨hm, h.rows.1.digest_of_mem hm⟩

def anyQuery : Store.Query := ⟨0, 0, [], [], [], [], [], [], [], 1, 20⟩

theorem oneRecord_listed : Linked chain 0 genesisHash (rowsAfter (oneRecord 1) 0 1) ∧
    ∀ r ∈ ((oneRecord 1).list anyQuery).1, r ∈ rowsAfter (oneRecord 1) 0 1 ∧ r.hash = computeHash r := by
  have hv : Valid ⟨[], [], false, 0⟩ (fun _ _ => .missing) (oneRecord 1) := by decide +kernel
  have h := list_verified hv anyQuery
  refine ⟨h.1, fun r hr => h.2.2.2 r hr ?_ ?_⟩
  all_goals
    rw [show ((oneRecord 1).list anyQuery).1 = (oneRecord 1).log from by decide +kernel] at hr
    rw [List.mem_singleton.1 hr]; decide

def rowAboveTail : Store := { oneRecord 1 with tail := some ⟨0, genesisHash⟩ }

theorem rowAboveTail_listed : Valid ⟨[], [], false, 0⟩ (fun _ _ => .missing) rowAboveTail ∧
    ∃ r ∈ (rowAboveTail.list anyQuery).1, ¬ (through rowAboveTail < r.seq ∧ r.seq ≤ (tailOf rowAboveTail).seq) := by
  decide +kernel

end Audit
