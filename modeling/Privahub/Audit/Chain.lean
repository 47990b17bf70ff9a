import Privahub.Audit.World

/-!
# The chain invariant

`Core`: the archived records followed by the live rows are one linked chain from genesis, the tail
is its end, and the segments cut the archived part into exported pieces (`Segments`). A call carries
what it has read through its later steps as `ProcOK`; both only ever speak about a prefix of
something append-only (`Grows`), so a step of another call cannot break them. `DbStep` says once
what a step can do to the database; `chain_of_reachable` is the invariant over every run.
-/

namespace Audit

open HashChain

def lastSegHash (segs : List AuditSegmentDO) : Bytes :=
  match segs.getLast? with
  | some sg => sg.segHash
  | none => genesisHash

/-- Where the segment after `segs`, which hold `rows`, has to start. -/
def planAfter (segs : List AuditSegmentDO) (rows : List AuditLogDO) : ArchivePlan :=
  ⟨rows.length + 1, lastHash chain genesisHash rows, segs.length + 1, lastSegHash segs⟩

/-- `segs` are the exports of consecutive non-empty pieces of `rows`. -/
inductive Segments : List AuditSegmentDO → List AuditLogDO → Prop
  | nil : Segments [] []
  | snoc {segs rows piece sg} : Segments segs rows → Exported (planAfter segs rows) piece sg → piece ≠ [] →
      Segments (segs ++ [sg]) (rows ++ piece)

namespace Segments

variable {segs segs₁ : List AuditSegmentDO} {rows rows₁ : List AuditLogDO}

theorem planFrom_eq (h : Segments segs rows) : planFrom segs.getLast? = planAfter segs rows := by
  cases h with
  | nil => rfl
  | @snoc segs rows piece sg _ hx _ =>
    simp only [List.getLast?_append, List.getLast?_singleton, Option.some_or, planFrom, planAfter, lastSegHash,
      hx.lastSeq, hx.lastHash, hx.segSeq, lastHash_append, List.length_append, List.length_singleton]
    simp [add_assoc]

theorem length_eq (h : Segments segs rows) (h' : Segments segs rows₁) : rows.length = rows₁.length := by
  have := h.planFrom_eq.symm.trans h'.planFrom_eq
  simp only [planAfter, ArchivePlan.mk.injEq] at this
  omega

theorem segSeq_le (h : Segments segs rows) : ∀ sg ∈ segs, 1 ≤ sg.segSeq ∧ sg.segSeq ≤ segs.length := by
  induction h with
  | nil => simp
  | @snoc segs rows piece sg _ hx _ ih =>
    intro x hx'
    rw [List.length_append, List.length_singleton]
    rcases List.mem_append.1 hx' with hm | hm
    · have := ih x hm; omega
    · rw [List.mem_singleton.1 hm, hx.segSeq]
      simp only [planAfter]; omega

theorem exists_segSeq (h : Segments segs rows) {k : Nat} (hk : k < segs.length) : ∃ sg ∈ segs, sg.segSeq = k + 1 := by
  induction h with
  | nil => simp at hk
  | @snoc segs rows piece sg _ hx _ ih =>
    rcases Nat.lt_or_ge k segs.length with hlt | hge
    · obtain ⟨x, hm, he⟩ := ih hlt
      exact ⟨x, List.mem_append_left _ hm, he⟩
    · have : k = segs.length := by simp at hk; omega
      exact ⟨sg, by simp, by rw [hx.segSeq, this]; rfl⟩

end Segments

namespace World

variable {w w' : World}

structure Core (w : World) : Prop where
  linked : Linked chain 0 genesisHash w.full
  tail_some : ∀ t, w.db.tail = some t → t = ⟨w.full.length, lastHash chain genesisHash w.full⟩
  tail_none : w.db.tail = none → w.full = [] ∧ w.db.segs = []
  segs : Segments w.db.segs w.archived

structure Grows (w w' : World) : Prop where
  full : w.full <+: w'.full
  segs : w.db.segs <+: w'.db.segs
  archived : w.archived <+: w'.archived
  tail : w'.db.tail = none → w.db.tail = none

def Recorded (w : World) (id : Bytes) : Prop := ∃ r ∈ w.full, r.eventId = id

def PlanOK (w : World) (p : ArchivePlan) : Prop :=
  ∃ segs rows, segs <+: w.db.segs ∧ rows <+: w.archived ∧ Segments segs rows ∧ p = planAfter segs rows

def ProcOK (w : World) : Proc → Prop
  | .ensureTail (.derived t) => w.db.tail = none → t = ⟨0, genesisHash⟩
  | .append _ _ (.gotIDs _ existing) => ∀ id ∈ existing, w.Recorded id
  | .append rows _ (.returned (some _)) => ∀ r ∈ rows, w.Recorded r.eventId
  | .archive _ _ _ (.gotLast p) => PlanOK w p
  | .archive _ _ _ (.gotTail p _) => PlanOK w p
  | .archive _ _ _ (.gotEnd p last) => PlanOK w p ∧ p.start ≤ last
  | .archive _ _ _ (.gotRows p last rows) => PlanOK w p ∧ p.start ≤ last ∧ rows ⊆ w.full
  | .archive _ _ _ (.exported p rows sg) => PlanOK w p ∧ Exported p rows sg ∧ rows ≠ [] ∧ rows ⊆ w.full
  | _ => True

inductive DbStep (w w' : World) : Prop
  | same (hdb : w'.db = w.db) (har : w'.archived = w.archived)
  | tail (hn : w.db.tail = none) (hdb : w'.db = w.db.createTail ⟨0, genesisHash⟩) (har : w'.archived = w.archived)
  | append (t : AuditChainTailDO) (existing : List Bytes) (rows out : List AuditLogDO)
      (h : Store.Appended w.db w'.db t existing rows out) (har : w'.archived = w.archived)
  | archive (p : ArchivePlan) (rows : List AuditLogDO) (sg : AuditSegmentDO)
      (hp : p = planAfter w.db.segs w.archived) (hx : Exported p rows sg) (hne : rows ≠ [])
      (hlog : w.db.log = rows ++ w'.db.log) (hsegs : w'.db.segs = w.db.segs ++ [sg])
      (htail : w'.db.tail = w.db.tail) (har : w'.archived = w.archived ++ rows)

theorem Grows.refl (w : World) : Grows w w := ⟨List.prefix_rfl, List.prefix_rfl, List.prefix_rfl, id⟩

theorem Grows.trans {w₁ w₂ w₃ : World} (h : Grows w₁ w₂) (h' : Grows w₂ w₃) : Grows w₁ w₃ :=
  ⟨h.full.trans h'.full, h.segs.trans h'.segs, h.archived.trans h'.archived, fun hn => h.tail (h'.tail hn)⟩

theorem Grows.recorded (h : Grows w w') {id : Bytes} : w.Recorded id → w'.Recorded id :=
  fun ⟨r, hr, he⟩ => ⟨r, h.full.subset hr, he⟩

theorem Grows.planOK (h : Grows w w') {p : ArchivePlan} : PlanOK w p → PlanOK w' p :=
  fun ⟨segs, rows, h1, h2, h3, hp⟩ => ⟨segs, rows, h1.trans h.segs, h2.trans h.archived, h3, hp⟩

theorem Grows.procOK (h : Grows w w') {p : Proc} (hp : ProcOK w p) : ProcOK w' p := by
  unfold ProcOK at hp ⊢
  split
  · exact fun hn => hp (h.tail hn)
  · exact fun id hid => h.recorded (hp id hid)
  · exact fun r hr => h.recorded (hp r hr)
  · exact h.planOK hp
  · exact h.planOK hp
  · exact ⟨h.planOK hp.1, hp.2⟩
  · exact ⟨h.planOK hp.1, hp.2.1, fun r hr => h.full.subset (hp.2.2 hr)⟩
  · exact ⟨h.planOK hp.1, hp.2.1, hp.2.2.1, fun r hr => h.full.subset (hp.2.2.2 hr)⟩
  · trivial

theorem Core.log_linked (hc : Core w) :
    Linked chain w.archived.length (lastHash chain genesisHash w.archived) w.db.log := by
  have := (linked_append.1 hc.linked).2
  rwa [zero_add] at this

theorem Core.seq_le (hc : Core w) {r : AuditLogDO} (hr : r ∈ w.db.log) : r.seq ≤ w.full.length := by
  have := (hc.linked.seq_of_mem (List.mem_append_right w.archived hr)).2
  simpa [chain] using this

theorem Core.planFrom (hc : Core w) : planFrom w.db.lastSegment = planAfter w.db.segs w.archived :=
  hc.segs.planFrom_eq

theorem DbStep.grows (h : DbStep w w') : Grows w w' := by
  cases h with
  | same hdb har => exact ⟨by simp [full, hdb, har], by simp [hdb], by simp [har], fun h => hdb ▸ h⟩
  | tail hn hdb har => exact ⟨by simp [full, hdb, har, Store.createTail, hn], by simp [hdb, Store.createTail, hn],
      by simp [har], fun _ => hn⟩
  | append t existing rows out h har =>
    refine ⟨⟨out, ?_⟩, by simp [h.segs'], by simp [har], fun hn => ?_⟩
    · simp [full, har, h.log']
    · simp [h.tail'] at hn
  | archive p rows sg hp hx hne hlog hsegs htail har =>
    refine ⟨?_, by simp [hsegs], by simp [har], fun hn => htail ▸ hn⟩
    simp [full, har, hlog]

theorem DbStep.core (hc : Core w) (h : DbStep w w') : Core w' := by
  cases h with
  | same hdb har =>
    have hf : w'.full = w.full := by simp [full, hdb, har]
    exact ⟨hf ▸ hc.linked, fun t ht => hf ▸ hc.tail_some t (hdb ▸ ht), fun ht => hf ▸ hdb ▸ hc.tail_none (hdb ▸ ht),
      hdb ▸ har ▸ hc.segs⟩
  | tail hn hdb har =>
    obtain ⟨hf, hs⟩ := hc.tail_none hn
    have hlog : w'.db.log = w.db.log := by rw [hdb]; simp [Store.createTail, hn]
    have hsegs : w'.db.segs = w.db.segs := by rw [hdb]; simp [Store.createTail, hn]
    have hf' : w'.full = [] := by rw [full, har, hlog]; exact hf
    refine ⟨hf' ▸ trivial, fun t ht => ?_, fun ht => ⟨hf', hsegs.trans hs⟩, by rw [hsegs, har]; exact hc.segs⟩
    rw [hdb] at ht
    simp only [Store.createTail, hn, Option.some.injEq] at ht
    rw [← ht, hf']; rfl
  | append t existing rows out h har =>
    have ht := hc.tail_some t h.tail
    have hf : w'.full = w.full ++ out := by simp [full, har, h.log']
    have hl : Linked chain t.seq t.hash out := by
      rw [h.rows]; exact Store.linked_withIDs (Store.chainRows_linked ..).1
    refine ⟨?_, fun t' ht' => ?_, fun hn => by simp [h.tail'] at hn, by rw [h.segs', har]; exact hc.segs⟩
    · rw [hf, linked_append, zero_add]
      rw [ht] at hl
      exact ⟨hc.linked, hl⟩
    · rw [h.tail', Option.some.injEq] at ht'
      rw [← ht', hf, ht]
      simp
  | archive p rows sg hp hx hne hlog hsegs htail har =>
    have hf : w'.full = w.full := by simp [full, har, hlog]
    refine ⟨hf ▸ hc.linked, fun t ht => hf ▸ hc.tail_some t (htail ▸ ht), fun hn => ?_, ?_⟩
    · obtain ⟨h1, -⟩ := hc.tail_none (htail ▸ hn)
      simp only [full, hlog, List.append_eq_nil_iff] at h1
      exact absurd h1.2.1 hne
    · rw [hsegs, har]
      exact hc.segs.snoc (hp ▸ hx) hne

variable {now : Int}

theorem stepEnsure_spec (hc : Core w) {pc pc' : EnsurePc} (hp : ProcOK w (.ensureTail pc))
    (h : stepEnsure w pc = some (w', pc')) :
    DbStep w w' ∧ ProcOK w' (.ensureTail pc') ∧ w'.procs = w.procs := by
  cases pc with
  | start =>
    simp only [stepEnsure, Option.some.injEq, Prod.mk.injEq] at h
    obtain ⟨rfl, rfl⟩ := h
    refine ⟨.same rfl rfl, ?_, rfl⟩
    split <;> trivial
  | absent =>
    simp only [stepEnsure] at h
    split at h <;> simp only [Option.some.injEq, Prod.mk.injEq] at h <;> obtain ⟨rfl, rfl⟩ := h
    · rename_i r hr
      refine ⟨.same rfl rfl, fun hn => ?_, rfl⟩
      have := (hc.tail_none hn).1
      simp only [full, List.append_eq_nil_iff] at this
      simp [this.2] at hr
    · exact ⟨.same rfl rfl, trivial, rfl⟩
  | empty =>
    simp only [stepEnsure, Option.some.injEq, Prod.mk.injEq] at h
    obtain ⟨rfl, rfl⟩ := h
    refine ⟨.same rfl rfl, fun hn => ?_, rfl⟩
    simp [Store.lastSegment, (hc.tail_none hn).2, Store.initialTail]
  | derived t =>
    simp only [stepEnsure, Option.some.injEq, Prod.mk.injEq] at h
    obtain ⟨rfl, rfl⟩ := h
    refine ⟨?_, trivial, rfl⟩
    rcases hn : w.db.tail with _ | u
    · exact .tail hn (by rw [hp hn]) rfl
    · exact .same (by simp [Store.createTail, hn]) rfl
  | returned => simp [stepEnsure] at h

theorem retry_ok {rows : List AuditLogDO} {attempt attempt' : Nat} {pc : AppendPc} (h : retry attempt = (attempt', pc)) :
    ProcOK w (.append rows attempt' pc) := by
  unfold retry at h
  split_ifs at h <;> obtain ⟨-, rfl⟩ := Prod.mk.inj h <;> trivial

theorem stepAppend_spec (hc : Core w) {rows : List AuditLogDO} {attempt attempt' : Nat} {pc pc' : AppendPc}
    (hp : ProcOK w (.append rows attempt pc)) (h : stepAppend w rows attempt pc = some (w', attempt', pc')) :
    DbStep w w' ∧ ProcOK w' (.append rows attempt' pc') ∧ w'.procs = w.procs := by
  cases pc with
  | start =>
    simp only [stepAppend] at h
    split_ifs at h with hr
    · simp only [Option.some.injEq, Prod.mk.injEq] at h
      obtain ⟨rfl, rfl, rfl⟩ := h
      exact ⟨.same rfl rfl, by simp [ProcOK, hr], rfl⟩
    split at h <;> obtain ⟨rfl, hq⟩ := Prod.mk.inj (Option.some.inj h)
    · obtain ⟨rfl, rfl⟩ := Prod.mk.inj hq
      exact ⟨.same rfl rfl, trivial, rfl⟩
    · exact ⟨.same rfl rfl, retry_ok hq, rfl⟩
  | gotTail t =>
    simp only [stepAppend, Option.some.injEq, Prod.mk.injEq] at h
    obtain ⟨rfl, rfl, rfl⟩ := h
    refine ⟨.same rfl rfl, fun id hid => ?_, rfl⟩
    obtain ⟨r, hr, rfl⟩ := List.mem_map.1 hid
    exact ⟨r, List.mem_append_right _ (List.mem_filter.1 hr).1, rfl⟩
  | gotIDs t existing =>
    simp only [stepAppend] at h
    split at h <;> obtain ⟨rfl, hq⟩ := Prod.mk.inj (Option.some.inj h)
    · rename_i db n hcommit
      obtain ⟨rfl, rfl⟩ := Prod.mk.inj hq
      have hle : w.db.tail = some t → ∀ x ∈ w.db.log, x.seq ≤ t.seq := fun ht x hx => by
        rw [hc.tail_some t ht]; exact hc.seq_le hx
      rcases Store.appendCommit_spec hcommit hle with ⟨rfl, hnil⟩ | ⟨out, ho⟩
      · refine ⟨.same rfl rfl, fun q hq => ?_, rfl⟩
        rcases Store.chainRows_complete existing t.seq t.hash rows q hq with he | ⟨r, hr, -⟩
        · exact hp _ he
        · rw [hnil] at hr; simp at hr
      · have hd : DbStep w { w with db := db } := .append t existing rows out ho rfl
        refine ⟨hd, fun q hq => ?_, rfl⟩
        rcases Store.chainRows_complete existing t.seq t.hash rows q hq with he | ⟨r, hr, he⟩
        · exact hd.grows.recorded (hp _ he)
        · have : q.eventId ∈ out.map AuditLogDO.eventId := by
            rw [ho.rows, Store.map_withIDs fun _ _ => rfl, ← he]
            exact List.mem_map_of_mem hr
          obtain ⟨x, hx, hxe⟩ := List.mem_map.1 this
          exact ⟨x, by simp [full, ho.log', hx], hxe⟩
    · exact ⟨.same rfl rfl, retry_ok hq, rfl⟩
  | returned n => simp [stepAppend] at h

theorem archiveCommit_spec (hc : Core w) {p : ArchivePlan} {rows : List AuditLogDO} {sg : AuditSegmentDO} {db : Store}
    (hp : PlanOK w p) (hx : Exported p rows sg) (hsub : rows ⊆ w.full) (h : archiveCommit w.db sg = some db) :
    p = planAfter w.db.segs w.archived ∧ Table.between AuditLogDO.seq sg.firstSeq sg.lastSeq w.db.log = rows ∧
      w.db.log = rows ++ db.log ∧ db.segs = w.db.segs ++ [sg] ∧ db.tail = w.db.tail := by
  obtain ⟨segs, a, hs, ha, hseg, rfl⟩ := hp
  obtain ⟨s, hins, h⟩ := Option.bind_eq_some_iff.1 h
  unfold Store.insertSegment at hins
  split_ifs at hins with hfree
  obtain rfl := Option.some.inj hins
  -- the number of the next segment is free only after the last one
  have hsegs : segs = w.db.segs := by
    refine hs.eq_of_length (le_antisymm hs.length_le (not_lt.1 fun hlt => ?_))
    obtain ⟨x, hm, he⟩ := hc.segs.exists_segSeq hlt
    exact (hfree x hm).1 (by rw [he, hx.segSeq]; rfl)
  subst hsegs
  obtain rfl : a = w.archived := ha.eq_of_length (hseg.length_eq hc.segs)
  have hrows : Table.between AuditLogDO.seq sg.firstSeq sg.lastSeq w.db.log = rows := by
    have hl := hx.linked
    rw [hx.firstSeq, hx.lastSeq]
    refine Table.Sorted.ext (Table.sorted_between w.db.log_seq) hl.pairwise_seq fun r => ?_
    rw [Table.mem_between]
    have hlog : ∀ x ∈ rows, x ∈ w.db.log := fun x hxr => by
      rcases List.mem_append.1 (hsub hxr) with hm | hm
      · have h1 := (hl.seq_of_mem hxr).1
        have h2 := ((linked_append.1 hc.linked).1.seq_of_mem hm).2
        simp only [planAfter, chain] at h1 h2; omega
      · exact hm
    constructor
    · rintro ⟨hm, h1, h2⟩
      obtain ⟨x, hxr, he⟩ := hl.exists_seq (k := r.seq) (by omega) h2
      rwa [hc.log_linked.eq_of_seq_eq hm (hlog x hxr) he.symm]
    · intro hm
      obtain ⟨h1, h2⟩ := hl.seq_of_mem hm
      have h1 : (planAfter w.db.segs w.archived).start - 1 < r.seq := h1
      exact ⟨hlog r hm, by omega, h2⟩
  simp only at h
  split_ifs at h
  obtain rfl := Option.some.inj h
  refine ⟨rfl, hrows, ?_, Table.insertBy_of_lt fun x hm => ?_, rfl⟩
  · rw [← hrows]
    refine (Table.between_append_filter w.db.log_seq fun x hm => ?_).symm
    have := (hc.log_linked.seq_of_mem hm).1
    rw [hx.firstSeq]
    simp only [planAfter, chain] at this ⊢; omega
  · have := (hc.segs.segSeq_le x hm).2
    rw [hx.segSeq]; simp only [planAfter]; omega

theorem stepArchive_spec (hc : Core w) {dir : Bytes} {cutoff total total' : Int} {pc pc' : ArchivePc}
    (hp : ProcOK w (.archive dir cutoff total pc))
    (h : stepArchive w now dir cutoff total pc = some (w', total', pc')) :
    DbStep w w' ∧ ProcOK w' (.archive dir cutoff total' pc') ∧ w'.procs = w.procs := by
  cases pc with
  | start =>
    simp only [stepArchive, Option.some.injEq, Prod.mk.injEq] at h
    obtain ⟨rfl, -, rfl⟩ := h
    exact ⟨.same rfl rfl, ⟨w.db.segs, w.archived, List.prefix_rfl, List.prefix_rfl, hc.segs, hc.planFrom⟩, rfl⟩
  | gotLast p =>
    simp only [stepArchive] at h
    split at h <;> simp only [Option.some.injEq, Prod.mk.injEq] at h <;> obtain ⟨rfl, -, rfl⟩ := h
    · exact ⟨.same rfl rfl, hp, rfl⟩
    · exact ⟨.same rfl rfl, trivial, rfl⟩
  | gotTail p tailSeq =>
    simp only [stepArchive, Option.some.injEq, Prod.mk.injEq] at h
    obtain ⟨rfl, -, rfl⟩ := h
    refine ⟨.same rfl rfl, ?_, rfl⟩
    split_ifs with hlt
    · trivial
    · exact ⟨hp, not_lt.1 hlt⟩
  | gotEnd p last =>
    simp only [stepArchive, Option.some.injEq, Prod.mk.injEq] at h
    obtain ⟨rfl, -, rfl⟩ := h
    exact ⟨.same rfl rfl, ⟨hp.1, hp.2, fun r hr => List.mem_append_right _ (Table.mem_between.1 hr).1⟩, rfl⟩
  | gotRows p last rows =>
    simp only [stepArchive] at h
    split at h <;> simp only [Option.some.injEq, Prod.mk.injEq] at h <;> obtain ⟨rfl, -, rfl⟩ := h
    · rename_i sg file hx
      refine ⟨.same rfl rfl, ⟨hp.1, exportSegment_spec hx, ?_, hp.2.2⟩, rfl⟩
      rintro rfl
      have hlast := exportSegment_last hx
      have hlen := (exportSegment_spec hx).lastSeq
      have hle := hp.2.1
      simp only [List.length_nil] at hlen; omega
    · exact ⟨.same rfl rfl, trivial, rfl⟩
  | exported p rows sg =>
    obtain ⟨hplan, hx, hne, hsub⟩ := hp
    simp only [stepArchive] at h
    split at h <;> simp only [Option.some.injEq, Prod.mk.injEq] at h <;> obtain ⟨rfl, -, rfl⟩ := h
    · rename_i db hcommit
      obtain ⟨h1, h2, h3, h4, h5⟩ := archiveCommit_spec hc hplan hx hsub hcommit
      exact ⟨.archive p rows sg h1 hx hne h3 h4 h5 (by rw [h2]), trivial, rfl⟩
    · exact ⟨.same rfl rfl, trivial, rfl⟩
  | returned err => simp [stepArchive] at h

theorem stepProc_spec (hc : Core w) {p p' : Proc} (hp : ProcOK w p) (h : stepProc w now p = some (w', p')) :
    DbStep w w' ∧ ProcOK w' p' ∧ w'.procs = w.procs := by
  cases p with
  | ensureTail pc =>
    obtain ⟨⟨w₁, pc'⟩, hs, he⟩ := Option.map_eq_some_iff.1 h
    obtain ⟨rfl, rfl⟩ := Prod.mk.inj he
    exact stepEnsure_spec hc hp hs
  | append rows attempt pc =>
    obtain ⟨⟨w₁, attempt', pc'⟩, hs, he⟩ := Option.map_eq_some_iff.1 h
    obtain ⟨rfl, rfl⟩ := Prod.mk.inj he
    exact stepAppend_spec hc hp hs
  | archive dir cutoff total pc =>
    obtain ⟨⟨w₁, total', pc'⟩, hs, he⟩ := Option.map_eq_some_iff.1 h
    obtain ⟨rfl, rfl⟩ := Prod.mk.inj he
    exact stepArchive_spec hc hp hs
  | dead => simp [stepProc] at h

structure Inv (w : World) : Prop where
  core : Core w
  procs : ∀ p ∈ w.procs, ProcOK w p

theorem inv_init : Inv init :=
  ⟨⟨trivial, fun t ht => by simp [init, Store.empty] at ht, fun _ => ⟨rfl, rfl⟩, .nil⟩, by simp [init]⟩

theorem call_ok (c : Call) : ProcOK w c.proc := by cases c <;> trivial

theorem step_spec (hi : Inv w) {a : Action} (h : step w a = some w') : DbStep w w' ∧ Inv w' := by
  cases a with
  | spawn c =>
    obtain rfl := Option.some.inj h
    have hd : DbStep w { w with procs := w.procs ++ [c.proc] } := .same rfl rfl
    refine ⟨hd, hd.core hi.core, fun p hp => ?_⟩
    rcases List.mem_append.1 hp with hp | hp
    · exact hd.grows.procOK (hi.procs p hp)
    · rw [List.mem_singleton.1 hp]; exact call_ok c
  | step i now =>
    obtain ⟨p, hget, h⟩ := Option.bind_eq_some_iff.1 h
    obtain ⟨⟨w₁, p'⟩, hs, h⟩ := Option.bind_eq_some_iff.1 h
    obtain rfl := Option.some.inj h
    obtain ⟨hd, hp', hprocs⟩ := stepProc_spec hi.core (hi.procs p (List.mem_of_getElem? hget)) hs
    have hd' : DbStep w { w₁ with procs := w.procs.set i p' } := by
      cases hd with
      | same h1 h2 => exact .same h1 h2
      | tail h1 h2 h3 => exact .tail h1 h2 h3
      | append t ex rows out h1 h2 => exact .append t ex rows out h1 h2
      | archive p rows sg h1 h2 h3 h4 h5 h6 h7 => exact .archive p rows sg h1 h2 h3 h4 h5 h6 h7
    refine ⟨hd', hd'.core hi.core, fun q hq => ?_⟩
    rcases List.mem_or_eq_of_mem_set hq with hq | rfl
    · exact hd'.grows.procOK (hi.procs q hq)
    · exact hp'
  | kill i =>
    obtain rfl := Option.some.inj h
    have hd : DbStep w { w with procs := w.procs.set i .dead } := .same rfl rfl
    refine ⟨hd, hd.core hi.core, fun q hq => ?_⟩
    rcases List.mem_or_eq_of_mem_set hq with hq | rfl
    · exact hd.grows.procOK (hi.procs q hq)
    · trivial

theorem inv_of_reachable (h : Reachable w) : Inv w :=
  h.invariant (fun _ _ _ hi hs => (step_spec hi hs).2) inv_init

/-- The audit trail as a reader of the tables sees it: the archived records and then the live rows are numbered `1, 2, …`, linked and hashed over
their own fields, the tail is the last of them, and the segments are the exports of the archived records. -/
structure ChainOK (w : World) : Prop where
  seq : ∀ i (hi : i < w.full.length), w.full[i].seq = i + 1
  hash : ∀ i (hi : i < w.full.length), w.full[i].hash = computeHash w.full[i]
  prevHash : ∀ i (hi : i < w.full.length), w.full[i].prevHash = if i = 0 then genesisHash else w.full[i - 1].hash
  tail : ∀ t, w.db.tail = some t →
    t.seq = w.full.length ∧ t.hash = (w.full.getLast?.map AuditLogDO.hash).getD genesisHash
  no_tail : w.db.tail = none → w.full = []
  segs : Segments w.db.segs w.archived

theorem chain_of_reachable (h : Reachable w) : ChainOK w := by
  have hc := (inv_of_reachable h).core
  refine ⟨fun i hi => ?_, fun i hi => hc.linked.digest_of_mem (List.getElem_mem hi),
    fun i hi => hc.linked.prev_getElem hi, fun t ht => ?_, fun hn => (hc.tail_none hn).1, hc.segs⟩
  · have hseq : w.full[i].seq = 0 + 1 + i := hc.linked.seq_getElem hi
    omega
  · rw [hc.tail_some t ht]
    exact ⟨rfl, lastHash_eq⟩

/-- The log is append-only: whatever runs, the records stay as they are and in their order, and so do the archived ones and the segments. -/
theorem append_only {as : List Action} (hw : Reachable w) (hr : Lts.run step w as = some w') :
    w.full <+: w'.full ∧ w.archived <+: w'.archived ∧ w.db.segs <+: w'.db.segs := by
  have hstep : ∀ v a v', Inv v ∧ Grows w v → True → step v a = some v' → Inv v' ∧ Grows w v' := by
    intro v a v' h _ hs
    obtain ⟨hd, hi⟩ := step_spec h.1 hs
    exact ⟨hi, h.2.trans hd.grows⟩
  obtain ⟨-, hg⟩ := Lts.run_invariant hstep ⟨inv_of_reachable hw, .refl w⟩ (.of_forall (fun _ _ => trivial) w as) hr
  exact ⟨hg.full, hg.archived, hg.segs⟩

def bareRow (id : String) (ts : Int) : AuditLogDO := { AuditLogDO.zero with eventId := str id, tsMicro := ts }

def archivedRun : List Action :=
  [.spawn .ensureTail, .step 0 0, .step 0 0, .step 0 0, .step 0 0,
    .spawn (.append [bareRow "a" 1, bareRow "a" 1, bareRow "b" 2, bareRow "c" 5]), .step 1 0, .step 1 0, .step 1 0,
    .spawn (.archiveExpired (str "archive") 3), .step 2 9, .step 2 9, .step 2 9, .step 2 9, .step 2 9, .step 2 9]

theorem chain_of_archivedRun : ∃ w, Lts.run step init archivedRun = some w ∧
    (w.archived.length, w.db.log.length, w.db.segs.length) = (2, 1, 1) ∧ ChainOK w := by
  have hrun : (Lts.run step init archivedRun).map (fun w => (w.archived.length, w.db.log.length, w.db.segs.length)) =
      some (2, 1, 1) := by decide +kernel
  obtain ⟨w, hw, hlen⟩ := Option.map_eq_some_iff.1 hrun
  exact ⟨w, hw, hlen, chain_of_reachable ⟨_, hw⟩⟩

theorem append_only_archivedRun : ∃ w w', Lts.run step init (archivedRun.take 9) = some w ∧ Lts.run step w (archivedRun.drop 9) = some w' ∧
    (w.archived.length, w'.archived.length) = (0, 2) ∧ w.full <+: w'.full := by
  have hrun : (Lts.run step init (archivedRun.take 9)).any (fun w =>
      (Lts.run step w (archivedRun.drop 9)).any fun w' => decide ((w.archived.length, w'.archived.length) = (0, 2))) = true := by decide +kernel
  obtain ⟨w, hw, hrun⟩ := (Option.any_eq_true ..).1 hrun
  obtain ⟨w', hw', hlen⟩ := (Option.any_eq_true ..).1 hrun
  exact ⟨w, w', hw, hw', of_decide_eq_true hlen, (append_only ⟨_, hw⟩ hw').1⟩

end World

end Audit
