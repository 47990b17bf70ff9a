import Privahub.Audit.VerifySound

/-!
# Verification alongside writers and archivers

`Race`: one run of `Verify` whose reads fall between the steps of a `World`. Appends cannot disturb
it, since rows above the tail snapshot are not read; an archive transaction can, when it takes rows
away between two reads that both need them. `Harmless` excludes exactly these transactions (and
archive files that do not pass their check), and `valid_of_harmless` is the result for every run.
-/

namespace Audit

open HashChain

structure Race where
  world : World
  pc : VerifyPc

inductive RaceAction where
  | world (a : World.Action)
  | verify

namespace Race

def step (opt : VerifyOptions) (q : Race) : RaceAction → Option Race
  | .world a => (q.world.step a).map fun w => { q with world := w }
  | .verify => some { q with pc := verifyStep opt q.world.dirAt q.world.db q.pc }

/-- Records up to `n` may be archived: `Verify` has read the live rows it needs up to there. -/
def Spared (n : Int) : VerifyPc → Prop
  | .gotTail t => n ≤ t.seq
  | .paging t _ cursor _ => n ≤ cursor ∨ t.seq ≤ cursor
  | _ => True

instance (n : Int) (pc : VerifyPc) : Decidable (Spared n pc) := by
  unfold Spared; split <;> infer_instance

/-- The next read is that of the segments and of their files. -/
def ReadsArchives : VerifyPc → Bool
  | .gotTail _ => true
  | _ => false

/-- An archive transaction leaves the run what it still has to read, and the archive files that are
read pass their check. -/
def Harmless (opt : VerifyOptions) (q : Race) : RaceAction → Prop
  | .world a => ∀ w ∈ q.world.step a, w.archived = q.world.archived ∨ Spared w.archived.length q.pc
  | .verify => ReadsArchives q.pc → ∀ sg ∈ q.world.db.segs, ArchiveOK opt q.world.dirAt sg

end Race

namespace Race

variable {opt : VerifyOptions} {q q' : Race} {w w' : World}

/-- The tail of the chain after its first `k` records. -/
def tailAt (rs : List AuditLogDO) (k : Nat) : AuditChainTailDO := ⟨k, lastHash chain genesisHash (rs.take k)⟩

/-- The anchors are those of records up to `n` of the chain. -/
def Genuine (w : World) (n : Int) (anchors : List Anchor) : Prop :=
  ∀ a ∈ anchors, a.seq ≤ n ∧ ∀ r ∈ w.full, r.seq = a.seq → r.hash = a.hash

/-- `Verify` has checked the first `c` records and expects the next one. -/
structure At (w : World) (c : Nat) (p : Walk) : Prop where
  expSeq : p.expSeq = c + 1
  expPrev : p.expPrev = lastHash chain genesisHash (w.full.take c)
  valid : p.res.valid = true

def PcOK (opt : VerifyOptions) (w : World) : VerifyPc → Prop
  | .start => Genuine w w.full.length opt.anchors
  | .gotTail t => ∃ k ≤ w.full.length, t = tailAt w.full k ∧ Genuine w k opt.anchors ∧ w.archived.length ≤ k
  | .paging t want cursor p => ∃ k ≤ w.full.length, t = tailAt w.full k ∧ Genuine w k opt.anchors ∧
      (∃ thr, want = rowAnchors thr (sortAnchors opt.anchors)) ∧
      ∃ c ≤ k, cursor = (c : Int) ∧ At w c p ∧ (w.archived.length ≤ c ∨ k ≤ c)
  | .returned res => res.valid = true

/-- The chain of `w` is the beginning of that of `w'`. -/
structure Extends (w w' : World) : Prop where
  full : w.full <+: w'.full
  core : World.Core w'

theorem Extends.take_eq (h : Extends w w') {k : Nat} (hk : k ≤ w.full.length) : w'.full.take k = w.full.take k := by
  obtain ⟨rs, hrs⟩ := h.full
  rw [← hrs, List.take_append_of_le_length hk]

theorem Extends.tailAt_eq (h : Extends w w') {k : Nat} (hk : k ≤ w.full.length) : tailAt w'.full k = tailAt w.full k := by
  simp only [tailAt, h.take_eq hk]

theorem Extends.genuine (h : Extends w w') {n : Nat} (hn : n ≤ w.full.length) {anchors : List Anchor}
    (hg : Genuine w n anchors) : Genuine w' n anchors := by
  intro a ha
  obtain ⟨hle, hrec⟩ := hg a ha
  refine ⟨hle, fun r hr he => hrec r ?_ he⟩
  obtain ⟨rs, hrs⟩ := h.full
  rw [← hrs] at hr
  rcases List.mem_append.1 hr with hm | hm
  · exact hm
  · have hl := h.core.linked
    rw [← hrs] at hl
    have := ((linked_append.1 hl).2.seq_of_mem hm).1
    simp only [chain] at this; omega

theorem Extends.at (h : Extends w w') {c : Nat} (hc : c ≤ w.full.length) {p : Walk} (ha : At w c p) : At w' c p :=
  ⟨ha.expSeq, by rw [h.take_eq hc]; exact ha.expPrev, ha.valid⟩

theorem Extends.pcOK (h : Extends w w') {pc : VerifyPc} (hs : w'.archived = w.archived ∨ Spared w'.archived.length pc)
    (hp : PcOK opt w pc) : PcOK opt w' pc := by
  have hlen := h.full.length_le
  cases pc with
  | start =>
    intro a ha
    have hg := h.genuine le_rfl hp a ha
    exact ⟨by omega, hg.2⟩
  | gotTail t =>
    obtain ⟨k, hk, rfl, hg, har⟩ := hp
    refine ⟨k, hk.trans hlen, (h.tailAt_eq hk).symm, h.genuine hk hg, ?_⟩
    rcases hs with hs | hs
    · rw [hs]; exact har
    · simp only [Spared, tailAt] at hs; omega
  | paging t want cursor p =>
    obtain ⟨k, hk, rfl, hg, hw, c, hc, rfl, hat, har⟩ := hp
    refine ⟨k, hk.trans hlen, (h.tailAt_eq hk).symm, h.genuine hk hg, hw, c, hc, rfl, h.at (hc.trans hk) hat, ?_⟩
    rcases hs with hs | hs
    · rw [hs]; exact har
    · simp only [Spared, tailAt] at hs; omega
  | returned res => exact hp

theorem tailOf_eq (hc : World.Core w) : tailOf w.db = tailAt w.full w.full.length := by
  rw [hc.tailOf_eq, tailAt, List.take_length]

theorem startPaging_ok (hc : World.Core w) {fs : Bytes → Dir} (ha : ∀ sg ∈ w.db.segs, ArchiveOK opt fs sg) {k : Nat}
    (hg : Genuine w k opt.anchors) :
    ∃ want p, startPaging opt fs (tailAt w.full k) w.db.segs = .ok (want, p) ∧
      (∃ thr, want = rowAnchors thr (sortAnchors opt.anchors)) ∧ At w w.archived.length p := by
  have hspec := startPaging_spec opt fs (tailAt w.full k) w.db
  obtain ⟨h1, h2⟩ := hc.segs.through_eq
  have hacc : SegsFrom opt fs 0 1 genesisHash genesisHash w.db.segs ∧
      ∀ a ∈ opt.anchors, AnchorOK (tailAt w.full k) (through w.db) (boundaries w.db) a := by
    refine ⟨hc.segs.segsFrom ha, fun a hm => ⟨(hg a hm).1, fun _ x hx => ?_⟩⟩
    obtain ⟨sg, hsg, hseq, rfl⟩ := boundaryHash_eq_some hx
    obtain ⟨r, hr, hrs, hrh⟩ := hc.segs.exists_last sg hsg
    rw [← hrh]
    exact (hg a hm).2 r (List.mem_append_left _ hr) (hrs.trans hseq)
  rcases hp : startPaging opt fs (tailAt w.full k) w.db.segs with r | ⟨want, p⟩
  · exact absurd hacc (hspec.of_error hp).1
  · obtain ⟨-, h3, h4, h5, h6⟩ := hspec.of_ok hp
    refine ⟨want, p, rfl, ⟨_, h3⟩, ?_, ?_, h6⟩
    · rw [h4, through, h1]
    · rw [h5, boundaryPrev, h2, World.full, List.take_left]

theorem page_prefix {α : Type} (l : List α) (c k b : Nat) : ((l.take k).drop c).take b <+: l.drop c := by
  rw [List.drop_take]
  exact (List.take_prefix ..).trans (List.take_prefix ..)

theorem page_ok (hc : World.Core w) {c k n : Nat} {anchors : List Anchor} (hg : Genuine w n anchors) (thr : Int)
    (b : Nat) : RowsOK (rowAnchors thr (sortAnchors anchors)) c (lastHash chain genesisHash (w.full.take c))
      (((w.full.take k).drop c).take b) := by
  have hsub := page_prefix w.full c k b
  refine ⟨?_, fun r hr x hx => ?_⟩
  · obtain ⟨rs, hrs⟩ := hsub
    have hl := hc.linked
    rw [← List.take_append_drop c w.full, ← hrs, linked_append, linked_append] at hl
    rcases Nat.lt_or_ge w.full.length c with hlt | hge
    · have hnil : w.full.drop c = [] := List.drop_eq_nil_of_le (by omega)
      rw [hnil, List.append_eq_nil_iff] at hrs
      rw [hrs.1]; trivial
    · have := hl.2.1
      rwa [List.length_take_of_le hge, zero_add] at this
  · obtain ⟨a, ha, hseq, -, -, rfl⟩ := mem_wanted.1 hx
    exact ((hg a ha).2 r (List.mem_of_mem_drop (hsub.subset hr)) hseq.symm).symm

theorem pageStep_ok (hc : World.Core w) {k c : Nat} {thr : Int} {p : Walk} (hk : k ≤ w.full.length)
    (hg : Genuine w k opt.anchors) (hck : c ≤ k) (hat : At w c p) (har : w.archived.length ≤ c ∨ k ≤ c) :
    PcOK opt w (pageStep opt w.db (tailAt w.full k) (rowAnchors thr (sortAnchors opt.anchors)) c p) := by
  obtain ⟨hseq, hprev, hval⟩ := hat
  unfold pageStep
  simp only [tailAt, rowsAfter_eq hc har]
  rcases hpage : ((w.full.take k).drop c).take (batchSize opt) with _ | ⟨r, rs⟩
  · -- an empty page: every record up to the snapshot was checked
    have hnil : (w.full.take k).drop c = [] := by
      have hb := batchSize_pos opt
      exact (List.take_eq_nil_iff.1 hpage).resolve_left (by omega)
    have hkc : k = c := by
      have := List.drop_eq_nil_iff.1 hnil
      rw [List.length_take] at this
      omega
    simp only [List.getLast?_nil, PcOK, finish_spec]
    exact ⟨hval, by omega, by rw [hprev, hkc]⟩
  · have hok := page_ok hc (c := c) (k := k) hg thr (batchSize opt)
    rw [hpage] at hok
    rcases hl : (r :: rs).getLast? with _ | last
    · simp at hl
    have hspec := walkRows_spec (rowAnchors thr (sortAnchors opt.anchors)) p (r :: rs)
    rw [show p.expSeq - 1 = (c : Int) by omega, hprev] at hspec
    rcases hw : walkRows (rowAnchors thr (sortAnchors opt.anchors)) p (r :: rs) with res | p'
    · exact absurd hok (hspec.of_error hw).1
    obtain ⟨-, h1, h2, h3⟩ := hspec.of_ok hw
    -- the page is the chain from `c` to `c + m`
    have hlen : c + (r :: rs).length ≤ k := by
      have := congrArg List.length hpage
      simp only [List.length_take, List.length_drop] at this
      simp only [List.length_cons] at this ⊢
      omega
    have htake : w.full.take (c + (r :: rs).length) = w.full.take c ++ r :: rs := by
      have hsub := page_prefix w.full c k (batchSize opt)
      rw [hpage] at hsub
      rw [List.take_add, ← List.prefix_iff_eq_take.1 hsub]
    have hlast : last.seq = c + (r :: rs).length := hok.1.seq_getLast? hl
    refine ⟨k, hk, rfl, hg, ⟨thr, rfl⟩, c + (r :: rs).length, hlen, ?_, ⟨?_, ?_, h3.trans hval⟩, ?_⟩
    · rw [hlast]; push_cast; rfl
    · rw [h1, hseq]; push_cast; ring
    · rw [h2, htake, lastHash_append]
    · rcases har with har | har
      · exact .inl (har.trans (Nat.le_add_right ..))
      · exact .inr (har.trans (Nat.le_add_right ..))

structure Inv (opt : VerifyOptions) (q : Race) : Prop where
  world : World.Inv q.world
  pc : PcOK opt q.world q.pc

theorem step_inv (hi : Inv opt q) {a : RaceAction} (hh : Harmless opt q a) (h : step opt q a = some q') : Inv opt q' := by
  have hc := hi.world.core
  cases a with
  | world a =>
    obtain ⟨w', hw, rfl⟩ := Option.map_eq_some_iff.1 h
    obtain ⟨hd, hi'⟩ := World.step_spec hi.world hw
    exact ⟨hi', Extends.pcOK ⟨hd.grows.full, hi'.core⟩ (hh w' hw) hi.pc⟩
  | verify =>
    obtain rfl := Option.some.inj h
    refine ⟨hi.world, ?_⟩
    have hp := hi.pc
    rcases hq : q.pc with _ | t | ⟨t, want, cursor, p⟩ | res <;> simp only [Harmless, hq] at hh hp ⊢
    · refine ⟨q.world.full.length, le_rfl, tailOf_eq hc, hp, ?_⟩
      simp [World.full]
    · obtain ⟨k, hk, rfl, hg, har⟩ := hp
      obtain ⟨want, p, hs, hw, hat⟩ := startPaging_ok hc (hh rfl) hg
      simp only [verifyStep, hs]
      exact ⟨k, hk, rfl, hg, hw, _, har, by rw [hat.expSeq]; omega, hat, .inl le_rfl⟩
    · obtain ⟨k, hk, rfl, hg, ⟨thr, rfl⟩, c, hck, rfl, hat, har⟩ := hp
      exact pageStep_ok hc hk hg hck hat har
    · exact hp

/-- In every run whose steps are harmless, a result of `Verify` is a valid chain. -/
theorem valid_of_harmless {as : List RaceAction} {res : VerifyResult} (hw : World.Reachable w)
    (hg : Genuine w w.full.length opt.anchors) (hh : Lts.RunAll (step opt) (Harmless opt) ⟨w, .start⟩ as)
    (hr : Lts.run (step opt) ⟨w, .start⟩ as = some ⟨w', .returned res⟩) : res.valid = true :=
  have hi : Inv opt ⟨w, .start⟩ := ⟨World.inv_of_reachable hw, hg⟩
  (Lts.run_invariant (fun _ _ _ hi hh hs => step_inv hi hh hs) hi hh hr).pc

instance (fs : Bytes → Dir) (sg : AuditSegmentDO) : Decidable (ArchiveOK opt fs sg) :=
  inferInstanceAs (Decidable (_ ∨ _))

instance (q : Race) : ∀ a, Decidable (Harmless opt q a)
  | .world a => inferInstanceAs (Decidable (∀ w ∈ q.world.step a, _))
  | .verify => inferInstanceAs (Decidable (ReadsArchives q.pc → ∀ sg ∈ q.world.db.segs, _))

def exportedRun : List World.Action := World.archivedRun.dropLast

def archiveCommits : RaceAction := .world (.step 2 9)

def lateArchive : List RaceAction := [.verify, .verify, .verify, archiveCommits, .verify, .verify]

def earlyArchive : List RaceAction := [.verify, .verify, archiveCommits, .verify]

def opts : VerifyOptions := ⟨[], str "archive", true, 2⟩

def resultOf (opt : VerifyOptions) (w : World) (as : List RaceAction) : Option VerifyResult :=
  (Lts.run (step opt) ⟨w, .start⟩ as).bind fun q => match q.pc with
    | .returned res => some res
    | _ => none

theorem resultOf_eq_some {as : List RaceAction} {res : VerifyResult} (h : resultOf opt w as = some res) :
    ∃ w', Lts.run (step opt) ⟨w, .start⟩ as = some ⟨w', .returned res⟩ := by
  obtain ⟨⟨w', pc⟩, hq, hres⟩ := Option.bind_eq_some_iff.1 h
  cases pc with
  | returned res' => exact ⟨w', by rw [hq, ← Option.some.inj hres]⟩
  | _ => simp at hres

theorem exportedRun_verify : ∃ w, Lts.run World.step World.init exportedRun = some w ∧
    (Lts.RunAll (step opts) (Harmless opts) ⟨w, .start⟩ lateArchive ∧ (resultOf opts w lateArchive).isSome) ∧
    (resultOf opts w earlyArchive).map (fun res => (res.valid, res.breakKind, res.brokenSeq)) =
      some (false, some .gap, 1) := by
  have hrun : (Lts.run World.step World.init exportedRun).map (fun w => decide
      ((Lts.RunAll (step opts) (Harmless opts) ⟨w, .start⟩ lateArchive ∧ (resultOf opts w lateArchive).isSome) ∧
      (resultOf opts w earlyArchive).map (fun res => (res.valid, res.breakKind, res.brokenSeq)) =
        some (false, some .gap, 1))) = some true := by
    decide +kernel
  obtain ⟨w, hw, hd⟩ := Option.map_eq_some_iff.1 hrun
  exact ⟨w, hw, of_decide_eq_true hd⟩

theorem lateArchive_valid : ∃ w w' res, Lts.run World.step World.init exportedRun = some w ∧
    Lts.run (step opts) ⟨w, .start⟩ lateArchive = some ⟨w', .returned res⟩ ∧ res.valid = true := by
  obtain ⟨w, hw, ⟨hh, hres⟩, -⟩ := exportedRun_verify
  obtain ⟨res, hres⟩ := Option.isSome_iff_exists.1 hres
  obtain ⟨w', hr⟩ := resultOf_eq_some hres
  exact ⟨w, w', res, hw, hr, valid_of_harmless ⟨_, hw⟩ (by simp [opts, Genuine]) hh hr⟩

/-- An untampered chain is reported broken: the rows of the first page were archived before it was read. -/
theorem earlyArchive_gap : ∃ w w' res, World.Reachable w ∧ Genuine w w.full.length opts.anchors ∧
    Lts.run (step opts) ⟨w, .start⟩ earlyArchive = some ⟨w', .returned res⟩ ∧
    res.valid = false ∧ res.breakKind = some .gap ∧ res.brokenSeq = 1 := by
  obtain ⟨w, hw, -, hbad⟩ := exportedRun_verify
  obtain ⟨res, hres, he⟩ := Option.map_eq_some_iff.1 hbad
  obtain ⟨w', hr⟩ := resultOf_eq_some hres
  simp only [Prod.mk.injEq] at he
  exact ⟨w, w', res, ⟨_, hw⟩, by simp [opts, Genuine], hr, he⟩

end Race

end Audit
