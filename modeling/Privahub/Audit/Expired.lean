import Privahub.Audit.World

/-!
# What the archiver deletes

`ArchiveExpired` over a database of any content, as far as its unique keys allow, in runs with any number of other calls. It plans a segment after
the last one, reads the rows, writes their file and deletes them in the transaction that inserts the segment; between any two of these other calls
may run and it may itself be cut off.
`removed_expired` is what holds of every row that a step of a run removes.
-/

namespace Audit

theorem checkChain_error_ge {exp n : Int} {prev : Bytes} {rs : List AuditLogDO} (h : checkChain exp prev rs = .error n) : exp ≤ n := by
  induction rs generalizing exp prev with
  | nil => cases h
  | cons r rs ih =>
    rw [checkChain] at h
    split_ifs at h with hl
    · have hseq := (linksTo_iff.1 hl).1
      have hle := ih h
      omega
    · exact le_of_eq (Except.error.inj h)

theorem checkChain_append {n : Int} {prev : Bytes} {rs ss : List AuditLogDO} (hl : HashChain.Linked chain n prev rs) :
    checkChain (n + 1) prev (rs ++ ss) = checkChain (n + 1 + rs.length) (HashChain.lastHash chain prev rs) ss := by
  induction rs generalizing n prev with
  | nil => simp
  | cons r rs ih =>
    obtain ⟨h1, h2, h3, hl⟩ := hl
    have h1 : r.seq = n + 1 := h1
    rw [List.cons_append, checkChain, if_pos (linksTo_iff.2 ⟨h1, h2, h3⟩), h1]
    have hih := ih hl
    rw [HashChain.lastHash_cons, List.length_cons, Nat.cast_add_one]
    rw [show n + 1 + ((rs.length : Int) + 1) = n + 1 + 1 + rs.length by omega]
    exact hih

theorem exportSegment_archive {p : ArchivePlan} {last now : Int} {rows : List AuditLogDO} {sg : AuditSegmentDO} {file : Bytes}
    (h : exportSegment p last rows now = .ok (sg, file)) :
    archiveFile sg.firstSeq sg.lastSeq sg.firstPrevHash sg.lastHash rows = file := by
  unfold exportSegment at h
  split at h
  · cases h
  · split_ifs at h
    cases h
    rfl

namespace Expired

open World

def Current (db : Store) (p : ArchivePlan) : Prop := planFrom db.lastSegment = p

def PlanOK (db : Store) (p : ArchivePlan) : Prop := Current db p ∨ ∃ sg ∈ db.segs, sg.segSeq = p.segSeq

def Old (db : Store) (p : ArchivePlan) (last cutoff : Int) : Prop :=
  ∀ r ∈ db.log, p.start ≤ r.seq → r.seq ≤ last → r.tsMicro < cutoff

structure Read (db : Store) (p : ArchivePlan) (cutoff : Int) (rows : List AuditLogDO) : Prop where
  old : ∀ r ∈ rows, r.tsMicro < cutoff
  live : Current db p → ∀ r ∈ rows, r ∈ db.log

def UpTo (db : Store) (n : Int) : Prop := ∃ t, db.tail = some t ∧ n ≤ t.seq

/-- What an archive run knows from its earlier reads; with `appends`, what it reads lies within the chain. -/
def PcOK (appends : Prop) (w : World) (dir : Bytes) (cutoff : Int) : ArchivePc → Prop
  | .start => True
  | .gotLast p => PlanOK w.db p
  | .gotTail p n => PlanOK w.db p ∧ (appends → UpTo w.db n)
  | .gotEnd p last => PlanOK w.db p ∧ p.start ≤ last ∧ Old w.db p last cutoff ∧ (appends → UpTo w.db last)
  | .gotRows p last rows => PlanOK w.db p ∧ p.start ≤ last ∧ Read w.db p cutoff rows
  | .exported p rows sg => PlanOK w.db p ∧ Read w.db p cutoff rows ∧ Exported p rows sg ∧ rows ≠ [] ∧
      ((dir, sg.fileName), archiveFile sg.firstSeq sg.lastSeq sg.firstPrevHash sg.lastHash rows) ∈ w.files
  | .returned _ => True

def ProcOK (appends : Prop) (w : World) : Proc → Prop
  | .ensureTail .empty => appends → w.db.tail = none → w.db.log = []
  | .ensureTail (.derived t) => appends → w.db.tail = none → ∀ r ∈ w.db.log, r.seq ≤ t.seq
  | .ensureTail _ => True
  | .append .. => appends
  | .archive dir cutoff _ pc => PcOK appends w dir cutoff pc
  | .dead => True

def WithinTail (db : Store) : Prop := ∀ t, db.tail = some t → ∀ r ∈ db.log, r.seq ≤ t.seq

structure Inv (appends : Prop) (w : World) : Prop where
  within : appends → WithinTail w.db
  procs : ∀ p ∈ w.procs, ProcOK appends w p

inductive Change (appends : Prop) (db db' : Store) : Prop
  | same (h : db' = db)
  | tail (t : AuditChainTailDO) (hn : db.tail = none) (h : db' = db.createTail t) (hle : appends → ∀ r ∈ db.log, r.seq ≤ t.seq)
  | append (t : AuditChainTailDO) (existing : List Bytes) (rows out : List AuditLogDO) (ha : appends)
      (h : Store.Appended db db' t existing rows out)
  | archive (p : ArchivePlan) (sg : AuditSegmentDO) (hp : Current db p) (hsg : sg.segSeq = p.segSeq)
      (hsegs : db'.segs = Table.insertBy AuditSegmentDO.segSeq sg db.segs)
      (hlog : db'.log = db.log.filter fun r => !(decide (sg.firstSeq ≤ r.seq) && decide (r.seq ≤ sg.lastSeq)))
      (htail : db'.tail = db.tail)

variable {appends : Prop} {db db' : Store} {p q : ArchivePlan} {sg : AuditSegmentDO} {r : AuditLogDO} {last cutoff n : Int}
  {rows : List AuditLogDO}

theorem not_current (h : sg ∈ db.segs) (hsg : sg.segSeq = p.segSeq) : ¬ Current db p := by
  intro hc
  cases hl : db.segs.getLast? with
  | none =>
    rw [List.getLast?_eq_none_iff.1 hl] at h
    cases h
  | some last =>
    have hle : sg.segSeq ≤ last.segSeq := by
      obtain ⟨init, heq⟩ := List.getLast?_eq_some_iff.1 hl
      have hsorted := db.segs_segSeq
      rw [heq] at h hsorted
      rcases List.mem_append.1 h with h | h
      · exact le_of_lt ((List.pairwise_append.1 hsorted).2.2 sg h last (List.mem_singleton_self last))
      · rw [List.mem_singleton.1 h]
    have hnext : p.segSeq = last.segSeq + 1 := by
      rw [← hc, Store.lastSegment, hl]
      rfl
    omega

theorem Change.segs_subset (h : Change appends db db') (hm : sg ∈ db.segs) : sg ∈ db'.segs := by
  cases h with
  | same h => exact h ▸ hm
  | tail t hn h => simpa [h, Store.createTail, hn] using hm
  | append t existing rows out _ h => exact h.segs' ▸ hm
  | archive p sg' _ _ hsegs => rw [hsegs]; exact Table.mem_insertBy.2 (.inr hm)

theorem Change.planOK (h : Change appends db db') (hp : PlanOK db p) : PlanOK db' p := by
  rcases hp with hc | ⟨sg, hm, hsg⟩
  swap
  · exact .inr ⟨sg, h.segs_subset hm, hsg⟩
  cases h with
  | same h => exact .inl (h ▸ hc)
  | tail t hn h => exact .inl (by simpa [Current, Store.lastSegment, h, Store.createTail, hn] using hc)
  | append t existing rows out _ h => exact .inl (by simpa [Current, Store.lastSegment, h.segs'] using hc)
  | archive q sg hq hsg hsegs =>
    -- the other plan was the same one
    refine .inr ⟨sg, by rw [hsegs]; exact Table.mem_insertBy.2 (.inl rfl), ?_⟩
    rw [hsg, ← hq, ← hc]

theorem Change.current (h : Change appends db db') (hp : PlanOK db p) (hc : Current db' p) :
    Current db p ∧ ∀ r ∈ db.log, r ∈ db'.log := by
  have hcur : Current db p := by
    rcases hp with hp | ⟨sg, hm, hsg⟩
    · exact hp
    · exact absurd hc (not_current (h.segs_subset hm) hsg)
  refine ⟨hcur, fun r hr => ?_⟩
  cases h with
  | same h => exact h ▸ hr
  | tail t hn h => simpa [h, Store.createTail, hn] using hr
  | append t existing rows out _ h => rw [h.log']; exact List.mem_append_left _ hr
  | archive q sg hq hsg hsegs =>
    have hm : sg ∈ db'.segs := by rw [hsegs]; exact Table.mem_insertBy.2 (.inl rfl)
    exact absurd hc (not_current hm (by rw [hsg, ← hq, ← hcur]))

theorem Change.read (h : Change appends db db') (hp : PlanOK db p) (hr : Read db p cutoff rows) : Read db' p cutoff rows :=
  ⟨hr.old, fun hc r hm => (h.current hp hc).2 r (hr.live (h.current hp hc).1 r hm)⟩

theorem Change.mem_log (h : Change appends db db') (hr : r ∈ db'.log) : r ∈ db.log ∨ appends ∧ ∀ n, UpTo db n → n < r.seq := by
  cases h with
  | same h => exact .inl (h ▸ hr)
  | tail t hn h => exact .inl (by simpa [h, Store.createTail, hn] using hr)
  | append t existing rows out ha h =>
    rw [h.log'] at hr
    rcases List.mem_append.1 hr with hr | hr
    · exact .inl hr
    refine .inr ⟨ha, ?_⟩
    rintro n ⟨t', ht', hn⟩
    obtain rfl : t = t' := Option.some.inj (h.tail.symm.trans ht')
    have hl : HashChain.Linked chain t.seq t.hash out := by
      rw [h.rows]
      exact Store.linked_withIDs (Store.chainRows_linked ..).1
    have hlt : t.seq < r.seq := (hl.seq_of_mem hr).1
    omega
  | archive p sg _ _ _ hlog =>
    rw [hlog] at hr
    exact .inl (List.mem_of_mem_filter hr)

theorem Change.upTo (h : Change appends db db') (hn : UpTo db n) : UpTo db' n := by
  obtain ⟨t, ht, hle⟩ := hn
  cases h with
  | same h => exact ⟨t, h ▸ ht, hle⟩
  | tail t' hnone => rw [hnone] at ht; cases ht
  | append t' existing rows out _ h =>
    obtain rfl : t' = t := Option.some.inj (h.tail.symm.trans ht)
    exact ⟨_, h.tail', by simp only; omega⟩
  | archive p sg _ _ _ _ htail => exact ⟨t, htail.trans ht, hle⟩

theorem Change.old (h : Change appends db db') (hup : appends → UpTo db last) (ho : Old db p last cutoff) : Old db' p last cutoff := by
  intro r hr h1 h2
  rcases h.mem_log hr with hm | ⟨ha, hlt⟩
  · exact ho r hm h1 h2
  · have := hlt last (hup ha)
    omega

theorem Change.tail_none (h : Change appends db db') (hn : db'.tail = none) : db.tail = none ∧ ∀ r ∈ db'.log, r ∈ db.log := by
  cases h with
  | same h => exact ⟨h ▸ hn, fun r hr => h ▸ hr⟩
  | tail t hnone h =>
    rw [h] at hn
    simp [Store.createTail, hnone] at hn
  | append t existing rows out _ h => rw [h.tail'] at hn; cases hn
  | archive p sg _ _ _ hlog htail =>
    refine ⟨htail.symm.trans hn, fun r hr => ?_⟩
    rw [hlog] at hr
    exact List.mem_of_mem_filter hr

theorem Change.within (h : Change appends db db') (ha : appends) (hw : WithinTail db) : WithinTail db' := by
  intro t ht r hr
  cases h with
  | same h => exact hw t (h ▸ ht) r (h ▸ hr)
  | tail t' hn h hle =>
    rw [h] at ht hr
    simp only [Store.createTail, hn, Option.some.injEq] at ht hr
    exact ht ▸ hle ha r hr
  | append t' existing rows out _ h =>
    obtain rfl := Option.some.inj (h.tail'.symm.trans ht)
    have hl : HashChain.Linked chain t'.seq t'.hash out := by
      rw [h.rows]
      exact Store.linked_withIDs (Store.chainRows_linked ..).1
    rw [h.log'] at hr
    rcases List.mem_append.1 hr with hr | hr
    · have hle := hw t' h.tail r hr
      simp only
      omega
    · exact (hl.seq_of_mem hr).2
  | archive p sg _ _ _ hlog htail =>
    rw [hlog] at hr
    exact hw t (htail ▸ ht) r (List.mem_of_mem_filter hr)

variable {w w' : World}

theorem Change.procOK (h : Change appends w.db w'.db) (hf : ∀ f ∈ w.files, f ∈ w'.files) {x : Proc} (hx : ProcOK appends w x) :
    ProcOK appends w' x := by
  cases x with
  | ensureTail pc =>
    cases pc with
    | empty =>
      intro ha hn
      obtain ⟨hn, hsub⟩ := h.tail_none hn
      exact List.eq_nil_iff_forall_not_mem.2 fun r hr => by simpa [hx ha hn] using hsub r hr
    | derived t => exact fun ha hn r hr => hx ha (h.tail_none hn).1 r ((h.tail_none hn).2 r hr)
    | start | absent | returned => trivial
  | append => exact hx
  | dead => trivial
  | archive dir cutoff total pc =>
    cases pc with
    | start | returned => trivial
    | gotLast p => exact h.planOK hx
    | gotTail p n => exact ⟨h.planOK hx.1, fun ha => h.upTo (hx.2 ha)⟩
    | gotEnd p last => exact ⟨h.planOK hx.1, hx.2.1, h.old hx.2.2.2 hx.2.2.1, fun ha => h.upTo (hx.2.2.2 ha)⟩
    | gotRows p last rows => exact ⟨h.planOK hx.1, hx.2.1, h.read hx.1 hx.2.2⟩
    | exported p rows sg =>
      obtain ⟨h1, h2, h3, h4, h5⟩ := hx
      exact ⟨h.planOK h1, h.read h1 h2, h3, h4, hf _ h5⟩

variable {now : Int}

theorem stepEnsure_ok {pc pc' : EnsurePc} (hx : ProcOK appends w (.ensureTail pc)) (h : stepEnsure w pc = some (w', pc')) :
    Change appends w.db w'.db ∧ ProcOK appends w' (.ensureTail pc') ∧ w'.files = w.files ∧ w'.db.log = w.db.log := by
  cases pc with
  | start =>
    obtain ⟨rfl, rfl⟩ := Prod.mk.inj (Option.some.inj h)
    refine ⟨.same rfl, ?_, rfl, rfl⟩
    split <;> trivial
  | absent =>
    simp only [stepEnsure] at h
    split at h <;> obtain ⟨rfl, rfl⟩ := Prod.mk.inj (Option.some.inj h)
    · next r hr =>
      refine ⟨.same rfl, fun _ _ x hm => ?_, rfl, rfl⟩
      obtain ⟨init, heq⟩ := List.getLast?_eq_some_iff.1 hr
      have hsorted := w.db.log_seq
      rw [heq] at hm hsorted
      rcases List.mem_append.1 hm with hm | hm
      · exact le_of_lt ((List.pairwise_append.1 hsorted).2.2 x hm r (List.mem_singleton_self r))
      · exact le_of_eq (congrArg AuditLogDO.seq (List.mem_singleton.1 hm))
    · next hnone => exact ⟨.same rfl, fun _ _ => List.getLast?_eq_none_iff.1 hnone, rfl, rfl⟩
  | empty =>
    obtain ⟨rfl, rfl⟩ := Prod.mk.inj (Option.some.inj h)
    refine ⟨.same rfl, fun ha hn r hr => ?_, rfl, rfl⟩
    rw [hx ha hn] at hr
    cases hr
  | derived t =>
    obtain ⟨rfl, rfl⟩ := Prod.mk.inj (Option.some.inj h)
    cases hn : w.db.tail with
    | none => exact ⟨.tail t hn rfl fun ha => hx ha hn, trivial, rfl, by simp [Store.createTail, hn]⟩
    | some u =>
      have hsame : w.db.createTail t = w.db := by simp [Store.createTail, hn]
      exact ⟨.same hsame, trivial, rfl, congrArg Store.log hsame⟩
  | returned => cases h

theorem stepAppend_ok {batch : List AuditLogDO} {attempt attempt' : Nat} {pc pc' : AppendPc} (hi : Inv appends w) (ha : appends)
    (h : stepAppend w batch attempt pc = some (w', attempt', pc')) :
    Change appends w.db w'.db ∧ w'.files = w.files ∧ ∀ r ∈ w.db.log, r ∈ w'.db.log := by
  cases pc with
  | start =>
    simp only [stepAppend] at h
    split_ifs at h
    · obtain ⟨rfl, -⟩ := Prod.mk.inj (Option.some.inj h)
      exact ⟨.same rfl, rfl, fun _ hr => hr⟩
    · split at h <;> obtain ⟨rfl, -⟩ := Prod.mk.inj (Option.some.inj h) <;> exact ⟨.same rfl, rfl, fun _ hr => hr⟩
  | gotTail t =>
    obtain ⟨rfl, -⟩ := Prod.mk.inj (Option.some.inj h)
    exact ⟨.same rfl, rfl, fun _ hr => hr⟩
  | gotIDs t existing =>
    simp only [stepAppend] at h
    split at h <;> obtain ⟨rfl, -⟩ := Prod.mk.inj (Option.some.inj h)
    · next db k hcommit =>
      rcases Store.appendCommit_spec hcommit fun ht => hi.within ha t ht with ⟨rfl, -⟩ | ⟨out, ho⟩
      · exact ⟨.same rfl, rfl, fun _ hr => hr⟩
      · exact ⟨.append t existing batch out ha ho, rfl, fun r hr => by rw [ho.log']; exact List.mem_append_left _ hr⟩
    · exact ⟨.same rfl, rfl, fun _ hr => hr⟩
  | returned => cases h

theorem old_of_firstKeep {tailSeq : Int} (hle : archiveEnd p.start tailSeq (firstKeep db p.start cutoff) = last) : Old db p last cutoff := by
  intro r hr h1 h2
  by_contra hnew
  have hm : r ∈ db.log.filter fun r => decide (p.start ≤ r.seq) && decide (cutoff ≤ r.tsMicro) := by
    refine List.mem_filter.2 ⟨hr, ?_⟩
    rw [Bool.and_eq_true, decide_eq_true_eq, decide_eq_true_eq]
    exact ⟨h1, by omega⟩
  have hsorted := db.log_seq.filter fun r => decide (p.start ≤ r.seq) && decide (cutoff ≤ r.tsMicro)
  cases hf : db.log.filter fun r => decide (p.start ≤ r.seq) && decide (cutoff ≤ r.tsMicro) with
  | nil =>
    rw [hf] at hm
    cases hm
  | cons k ks =>
    rw [hf] at hm hsorted
    have hk : k.seq ≤ r.seq := by
      rcases List.mem_cons.1 hm with rfl | hm
      · exact le_rfl
      · exact le_of_lt ((List.pairwise_cons.1 hsorted).1 r hm)
    have hkeep : firstKeep db p.start cutoff = some k.seq := by rw [firstKeep, hf]; rfl
    rw [hkeep] at hle
    simp only [archiveEnd] at hle
    split_ifs at hle <;> omega

theorem upTo_archiveEnd {tailSeq : Int} (hw : WithinTail db) (hup : UpTo db tailSeq) :
    UpTo db (archiveEnd p.start tailSeq (firstKeep db p.start cutoff)) := by
  obtain ⟨t, ht, hle⟩ := hup
  refine ⟨t, ht, ?_⟩
  cases hk : firstKeep db p.start cutoff with
  | none =>
    simp only [archiveEnd]
    split_ifs <;> omega
  | some k =>
    obtain ⟨r, hr, rfl⟩ := Option.map_eq_some_iff.1 hk
    have hm := hw t ht r (List.mem_of_mem_filter (List.mem_of_mem_head? hr))
    simp only [archiveEnd]
    split_ifs <;> omega

theorem archiveCommit_some (h : archiveCommit db sg = some db') : (∀ x ∈ db.segs, x.segSeq ≠ sg.segSeq) ∧
    db'.segs = Table.insertBy AuditSegmentDO.segSeq sg db.segs ∧
    db'.log = db.log.filter (fun r => !(decide (sg.firstSeq ≤ r.seq) && decide (r.seq ≤ sg.lastSeq))) ∧ db'.tail = db.tail := by
  obtain ⟨s, hins, h⟩ := Option.bind_eq_some_iff.1 h
  unfold Store.insertSegment at hins
  split_ifs at hins with hfree
  obtain rfl := Option.some.inj hins
  simp only at h
  split_ifs at h
  obtain rfl := Option.some.inj h
  exact ⟨fun x hx => (hfree x hx).1, rfl, rfl, rfl⟩

theorem current_of_commit (hp : PlanOK db p) (hsg : sg.segSeq = p.segSeq) (h : archiveCommit db sg = some db') : Current db p := by
  rcases hp with hp | ⟨x, hm, hx⟩
  · exact hp
  · exact absurd (hx.trans hsg.symm) ((archiveCommit_some h).1 x hm)

theorem stepArchive_ok {dir : Bytes} {total total' : Int} {pc pc' : ArchivePc} (hi : Inv appends w) (hx : PcOK appends w dir cutoff pc)
    (h : stepArchive w now dir cutoff total pc = some (w', total', pc')) :
    Change appends w.db w'.db ∧ PcOK appends w' dir cutoff pc' ∧ ∀ f ∈ w.files, f ∈ w'.files := by
  cases pc with
  | start =>
    obtain ⟨rfl, hq⟩ := Prod.mk.inj (Option.some.inj h)
    obtain ⟨-, rfl⟩ := Prod.mk.inj hq
    exact ⟨.same rfl, .inl rfl, fun _ hf => hf⟩
  | gotLast p =>
    simp only [stepArchive] at h
    split at h <;> obtain ⟨rfl, hq⟩ := Prod.mk.inj (Option.some.inj h) <;> obtain ⟨-, rfl⟩ := Prod.mk.inj hq
    · next t ht => exact ⟨.same rfl, ⟨hx, fun _ => ⟨t, ht, le_rfl⟩⟩, fun _ hf => hf⟩
    · exact ⟨.same rfl, trivial, fun _ hf => hf⟩
  | gotTail p tailSeq =>
    obtain ⟨rfl, hq⟩ := Prod.mk.inj (Option.some.inj h)
    obtain ⟨-, rfl⟩ := Prod.mk.inj hq
    refine ⟨.same rfl, ?_, fun _ hf => hf⟩
    split_ifs with hlt
    · trivial
    · exact ⟨hx.1, not_lt.1 hlt, old_of_firstKeep rfl, fun ha => upTo_archiveEnd (hi.within ha) (hx.2 ha)⟩
  | gotEnd p last =>
    obtain ⟨rfl, hq⟩ := Prod.mk.inj (Option.some.inj h)
    obtain ⟨-, rfl⟩ := Prod.mk.inj hq
    refine ⟨.same rfl, ⟨hx.1, hx.2.1, fun r hr => ?_, fun _ r hr => (Table.mem_between.1 hr).1⟩, fun _ hf => hf⟩
    obtain ⟨hm, h1, h2⟩ := Table.mem_between.1 hr
    exact hx.2.2.1 r hm h1 h2
  | gotRows p last rows =>
    simp only [stepArchive] at h
    split at h <;> obtain ⟨rfl, hq⟩ := Prod.mk.inj (Option.some.inj h) <;> obtain ⟨-, rfl⟩ := Prod.mk.inj hq
    · next sg file hexp =>
      have hspec := exportSegment_spec hexp
      have hne : rows ≠ [] := by
        rintro rfl
        have hlast := hspec.lastSeq
        rw [exportSegment_last hexp] at hlast
        have hle := hx.2.1
        simp only [List.length_nil] at hlast
        omega
      refine ⟨.same rfl, ⟨hx.1, hx.2.2, hspec, hne, ?_⟩, fun _ hf => List.mem_append_left _ hf⟩
      rw [← exportSegment_archive hexp]
      exact List.mem_append_right _ (List.mem_singleton_self _)
    · exact ⟨.same rfl, trivial, fun _ hf => hf⟩
  | exported p rows sg =>
    simp only [stepArchive] at h
    split at h <;> obtain ⟨rfl, hq⟩ := Prod.mk.inj (Option.some.inj h) <;> obtain ⟨-, rfl⟩ := Prod.mk.inj hq
    · next db hcommit =>
      obtain ⟨hp, -, hspec, -⟩ := hx
      obtain ⟨-, hsegs, hlog, htail⟩ := archiveCommit_some hcommit
      exact ⟨.archive p sg (current_of_commit hp hspec.segSeq hcommit) hspec.segSeq hsegs hlog htail, trivial, fun _ hf => hf⟩
    · exact ⟨.same rfl, trivial, fun _ hf => hf⟩
  | returned => cases h

theorem stepArchive_db {dir : Bytes} {total total' : Int} {pc pc' : ArchivePc} (h : stepArchive w now dir cutoff total pc = some (w', total', pc'))
    (hno : ∀ p rows sg, pc = .exported p rows sg → archiveCommit w.db sg = none) : w'.db = w.db := by
  cases pc with
  | start =>
    obtain ⟨rfl, -⟩ := Prod.mk.inj (Option.some.inj h)
    rfl
  | gotLast | gotRows =>
    simp only [stepArchive] at h
    split at h <;> obtain ⟨rfl, -⟩ := Prod.mk.inj (Option.some.inj h) <;> rfl
  | gotTail | gotEnd =>
    obtain ⟨rfl, -⟩ := Prod.mk.inj (Option.some.inj h)
    rfl
  | exported p rows sg =>
    simp only [stepArchive, hno p rows sg rfl] at h
    obtain ⟨rfl, -⟩ := Prod.mk.inj (Option.some.inj h)
    rfl
  | returned => cases h

/-- The rows `rows` that a step has removed, archived under `sg` for a run with a cutoff. -/
structure Removed (w w' : World) (dir : Bytes) (cutoff : Int) (rows : List AuditLogDO) (sg : AuditSegmentDO) : Prop where
  removed : ∀ r, r ∈ rows ↔ r ∈ w.db.log ∧ r ∉ w'.db.log
  old : ∀ r ∈ rows, r.tsMicro < cutoff
  seq : ∀ i (hi : i < rows.length), rows[i].seq = (planFrom w.db.lastSegment).start + i
  linked : HashChain.Linked chain ((planFrom w.db.lastSegment).start - 1) (planFrom w.db.lastSegment).prev rows
  recorded : sg ∈ w'.db.segs ∧ sg.firstSeq = (planFrom w.db.lastSegment).start ∧ sg.lastSeq = sg.firstSeq - 1 + rows.length
  file : ((dir, sg.fileName), archiveFile sg.firstSeq sg.lastSeq sg.firstPrevHash sg.lastHash rows) ∈ w.files
  beforeBreak : ∀ n, checkChain (planFrom w.db.lastSegment).start (planFrom w.db.lastSegment).prev
    (w.db.log.filter fun r => decide ((planFrom w.db.lastSegment).start ≤ r.seq)) = .error n → ∀ r ∈ rows, r.seq < n

theorem eq_of_seq {a b : AuditLogDO} (ha : a ∈ db.log) (hb : b ∈ db.log) (h : a.seq = b.seq) : a = b := by
  by_contra hne
  have hdiff : db.log.Pairwise fun a b => a.seq ≠ b.seq := db.log_seq.imp ne_of_lt
  have hsymm : Std.Symm fun a b : AuditLogDO => a.seq ≠ b.seq := ⟨fun _ _ hab => hab.symm⟩
  exact hdiff.forall ha hb hne h

theorem between_eq_rows (hr : Read db p cutoff rows) (hc : Current db p) (hx : Exported p rows sg) :
    Table.between AuditLogDO.seq sg.firstSeq sg.lastSeq db.log = rows := by
  have hl := hx.linked
  rw [hx.firstSeq, hx.lastSeq]
  refine Table.Sorted.ext (Table.sorted_between db.log_seq) hl.pairwise_seq fun x => ?_
  rw [Table.mem_between]
  constructor
  · rintro ⟨hm, h1, h2⟩
    obtain ⟨y, hy, he⟩ := hl.exists_seq (k := x.seq) (by omega) h2
    exact eq_of_seq hm (hr.live hc y hy) he.symm ▸ hy
  · intro hm
    obtain ⟨h1, h2⟩ := hl.seq_of_mem hm
    have h1 : p.start - 1 < x.seq := h1
    exact ⟨hr.live hc x hm, by omega, h2⟩

theorem rows_append (hr : Read db p cutoff rows) (hc : Current db p) (hx : Exported p rows sg) :
    ∃ rest, db.log.filter (fun r => decide (p.start ≤ r.seq)) = rows ++ rest := by
  have hsplit : Table.between AuditLogDO.seq p.start sg.lastSeq (db.log.filter fun r => decide (p.start ≤ r.seq)) ++ _ = _ :=
    Table.between_append_filter (db.log_seq.filter _) fun x hm => of_decide_eq_true (List.mem_filter.1 hm).2
  have hrows : Table.between AuditLogDO.seq p.start sg.lastSeq (db.log.filter fun r => decide (p.start ≤ r.seq)) = rows := by
    rw [← between_eq_rows hr hc hx, hx.firstSeq, Table.between, Table.between, List.filter_filter]
    refine List.filter_congr fun x _ => ?_
    cases decide (p.start ≤ x.seq) <;> simp
  rw [hrows] at hsplit
  exact ⟨_, hsplit.symm⟩

theorem removed_of_commit {dir : Bytes} (hx : PcOK appends w dir cutoff (.exported p rows sg)) (h : archiveCommit w.db sg = some db)
    (hdb : w'.db = db) : Removed w w' dir cutoff rows sg := by
  subst hdb
  obtain ⟨hp, hread, hexp, -, hfile⟩ := hx
  obtain ⟨-, hsegs, hlog, -⟩ := archiveCommit_some h
  have hc := current_of_commit hp hexp.segSeq h
  have hrows := between_eq_rows hread hc hexp
  have hplan : planFrom w.db.lastSegment = p := hc
  refine ⟨fun r => ?_, hread.old, fun i hi => ?_, ?_, ⟨?_, ?_, ?_⟩, hfile, fun n hn r hr => ?_⟩
  · rw [← hrows, Table.mem_between, hlog, List.mem_filter]
    simp only [Bool.not_eq_true', Bool.and_eq_false_iff, decide_eq_false_iff_not, not_and, not_or, not_not]
    constructor
    · rintro ⟨hm, h1, h2⟩
      exact ⟨hm, fun _ => ⟨h1, h2⟩⟩
    · rintro ⟨hm, hin⟩
      exact ⟨hm, hin hm⟩
  · have hseq : rows[i].seq = p.start - 1 + 1 + i := hexp.linked.seq_getElem hi
    rw [hplan]
    omega
  · rw [hplan]
    exact hexp.linked
  · rw [hsegs]
    exact Table.mem_insertBy.2 (.inl rfl)
  · rw [hplan, hexp.firstSeq]
  · rw [hexp.firstSeq, hexp.lastSeq]
  · -- what comes before the break is the rows themselves
    rw [hplan] at hn
    obtain ⟨rest, hrest⟩ := rows_append hread hc hexp
    rw [hrest, show p.start = p.start - 1 + 1 by omega, checkChain_append hexp.linked] at hn
    have hge := checkChain_error_ge hn
    have hle : r.seq ≤ p.start - 1 + rows.length := (hexp.linked.seq_of_mem hr).2
    omega

theorem stepProc_ok {x x' : Proc} (hi : Inv appends w) (hx : ProcOK appends w x) (h : stepProc w now x = some (w', x')) :
    Change appends w.db w'.db ∧ ProcOK appends w' x' ∧ (∀ f ∈ w.files, f ∈ w'.files) ∧
      ((∀ r ∈ w.db.log, r ∈ w'.db.log) ∨ ∃ dir cutoff total p rows sg, x = .archive dir cutoff total (.exported p rows sg) ∧
        Removed w w' dir cutoff rows sg) := by
  cases x with
  | ensureTail pc =>
    obtain ⟨⟨w₁, pc'⟩, hs, he⟩ := Option.map_eq_some_iff.1 h
    obtain ⟨rfl, rfl⟩ := Prod.mk.inj he
    obtain ⟨hchange, hok, hfiles, hlog⟩ := stepEnsure_ok hx hs
    exact ⟨hchange, hok, fun f hf => hfiles ▸ hf, .inl fun r hr => hlog ▸ hr⟩
  | append batch attempt pc =>
    obtain ⟨⟨w₁, attempt', pc'⟩, hs, he⟩ := Option.map_eq_some_iff.1 h
    obtain ⟨rfl, rfl⟩ := Prod.mk.inj he
    obtain ⟨hchange, hfiles, hlog⟩ := stepAppend_ok hi hx hs
    exact ⟨hchange, hx, fun f hf => hfiles ▸ hf, .inl hlog⟩
  | archive dir cutoff total pc =>
    obtain ⟨⟨w₁, total', pc'⟩, hs, he⟩ := Option.map_eq_some_iff.1 h
    obtain ⟨rfl, rfl⟩ := Prod.mk.inj he
    obtain ⟨hchange, hok, hfiles⟩ := stepArchive_ok hi hx hs
    refine ⟨hchange, hok, hfiles, ?_⟩
    by_cases hexp : ∃ p rows sg db, pc = .exported p rows sg ∧ archiveCommit w.db sg = some db
    · obtain ⟨p, rows, sg, db, rfl, hcommit⟩ := hexp
      refine .inr ⟨dir, cutoff, total, p, rows, sg, rfl, removed_of_commit (show PcOK appends w dir cutoff _ from hx) hcommit ?_⟩
      simp only [stepArchive, hcommit] at hs
      obtain ⟨rfl, -⟩ := Prod.mk.inj (Option.some.inj hs)
      rfl
    · -- any other step leaves the database
      refine .inl fun r hr => ?_
      have hnone : ∀ p rows sg, pc = .exported p rows sg → archiveCommit w.db sg = none := by
        intro p rows sg hpc
        cases hcommit : archiveCommit w.db sg with
        | none => rfl
        | some db => exact absurd ⟨p, rows, sg, db, hpc, hcommit⟩ hexp
      rw [stepArchive_db hs hnone]
      exact hr
  | dead => cases h

theorem call_ok (c : Call) (hc : ∀ batch, c = .append batch → appends) : ProcOK appends w c.proc := by
  cases c with
  | ensureTail => trivial
  | append batch => exact hc batch rfl
  | archiveExpired => trivial

theorem step_ok {a : Action} (hi : Inv appends w) (ha : ∀ batch, a = .spawn (.append batch) → appends) (h : step w a = some w') :
    Inv appends w' ∧ ((∀ r ∈ w.db.log, r ∈ w'.db.log) ∨ ∃ i now dir cutoff total p rows sg, a = .step i now ∧
      w.procs[i]? = some (.archive dir cutoff total (.exported p rows sg)) ∧ Removed w w' dir cutoff rows sg) := by
  cases a with
  | spawn c =>
    obtain rfl := Option.some.inj h
    refine ⟨⟨hi.within, fun x hx => ?_⟩, .inl fun _ hr => hr⟩
    rcases List.mem_append.1 hx with hx | hx
    · exact Change.procOK (w := w) (.same rfl) (fun _ hf => hf) (hi.procs x hx)
    · obtain rfl := List.mem_singleton.1 hx
      exact call_ok c fun batch hc => ha batch (by rw [hc])
  | kill i =>
    obtain rfl := Option.some.inj h
    refine ⟨⟨hi.within, fun x hx => ?_⟩, .inl fun _ hr => hr⟩
    rcases List.mem_or_eq_of_mem_set hx with hx | rfl
    · exact Change.procOK (w := w) (.same rfl) (fun _ hf => hf) (hi.procs x hx)
    · trivial
  | step i now =>
    obtain ⟨x, hget, h⟩ := Option.bind_eq_some_iff.1 h
    obtain ⟨⟨w₁, x'⟩, hs, h⟩ := Option.bind_eq_some_iff.1 h
    obtain rfl := Option.some.inj h
    obtain ⟨hchange, hx', hfiles, hlog⟩ := stepProc_ok hi (hi.procs x (List.mem_of_getElem? hget)) hs
    refine ⟨⟨fun ha => hchange.within ha (hi.within ha), fun y hy => ?_⟩, ?_⟩
    · rcases List.mem_or_eq_of_mem_set hy with hy | rfl
      · exact Change.procOK (w := w) hchange hfiles (hi.procs y hy)
      · exact Change.procOK (w := w₁) (.same rfl) (fun _ hf => hf) hx'
    · rcases hlog with hlog | ⟨dir, cutoff, total, p, rows, sg, rfl, hrem⟩
      · exact .inl hlog
      · exact .inr ⟨i, now, dir, cutoff, total, p, rows, sg, rfl, hget, ⟨hrem.removed, hrem.old, hrem.seq, hrem.linked, hrem.recorded,
          hrem.file, hrem.beforeBreak⟩⟩

/-- Every row that a step of a run removes has been archived. The run starts with no call in progress, and nothing is appended in it
or no live row is beyond the tail when it starts. -/
theorem removed_expired {w₀ : World} {as : List Action} {a : Action} (hidle : w₀.procs = [])
    (hcalm : (∀ b ∈ as, ∀ batch, b ≠ .spawn (.append batch)) ∨ WithinTail w₀.db) (hrun : Lts.run step w₀ as = some w)
    (hs : step w a = some w') (hr : r ∈ w.db.log) (hgone : r ∉ w'.db.log) :
    ∃ i now dir cutoff total p rows sg, a = .step i now ∧ w.procs[i]? = some (.archive dir cutoff total (.exported p rows sg)) ∧ r ∈ rows ∧
      Removed w w' dir cutoff rows sg := by
  have hno : ∀ batch, a ≠ .spawn (.append batch) := by
    rintro batch rfl
    obtain rfl := Option.some.inj hs
    exact hgone hr
  have hinv : ∃ appends : Prop, Inv appends w := by
    rcases hcalm with hnone | hwithin
    · refine ⟨False, Lts.run_invariant (P := fun _ b => ∀ batch, b ≠ .spawn (.append batch)) (fun _ _ _ hi hb hs => ?_) ?_
        (Lts.RunAll.of_mem as hnone w₀) hrun⟩
      · exact (step_ok hi (fun batch hbatch => hb batch hbatch) hs).1
      · exact ⟨fun h => h.elim, fun x hx => by rw [hidle] at hx; cases hx⟩
    · refine ⟨True, Lts.run_invariant (P := fun _ _ => True) (fun _ _ _ hi _ hs => ?_) ?_ (Lts.RunAll.of_forall (fun _ _ => trivial) w₀ as) hrun⟩
      · exact (step_ok hi (fun _ _ => trivial) hs).1
      · exact ⟨fun _ => hwithin, fun x hx => by rw [hidle] at hx; cases hx⟩
  obtain ⟨appends, hi⟩ := hinv
  rcases (step_ok hi (fun batch hbatch => absurd hbatch (hno batch)) hs).2 with hkept | ⟨i, now, dir, cutoff, total, p, rows, sg, h1, h2, hrem⟩
  · exact absurd (hkept r hr) hgone
  · exact ⟨i, now, dir, cutoff, total, p, rows, sg, h1, h2, (hrem.removed r).2 ⟨hr, hgone⟩, hrem⟩

def oldRow : AuditLogDO := Store.linkRow { AuditLogDO.zero with eventId := str "a", tsMicro := 1 } 0 genesisHash

def oneRow : World where
  db := {
    log := [oldRow]
    segs := []
    tail := some ⟨1, oldRow.hash⟩
    nextID := 2
    log_seq := List.pairwise_singleton ..
    log_eventId := List.pairwise_singleton ..
    segs_segSeq := Store.empty.segs_segSeq
    segs_firstSeq := Store.empty.segs_firstSeq }
  archived := []
  files := []
  procs := []

def running (w : World) (pc : ArchivePc) : World := { w with procs := [.archive (str "archive") 3 0 pc] }

theorem step_running {pc pc' : ArchivePc} (h : stepArchive (running w pc) now (str "archive") 3 0 pc = some (running w' pc, 0, pc')) :
    step (running w pc) (.step 0 now) = some (running w' pc') := by
  have hproc : stepProc (running w pc) now (.archive (str "archive") 3 0 pc) = some (running w' pc, .archive (str "archive") 3 0 pc') := by
    rw [stepProc, h]
    rfl
  rw [step, show (running w pc).procs[0]? = some (.archive (str "archive") 3 0 pc) from rfl]
  simp only [Option.bind_eq_bind, Option.bind_some, hproc]
  rfl

def readRun : List Action := [.spawn (.archiveExpired (str "archive") 3), .step 0 9, .step 0 9, .step 0 9, .step 0 9]

theorem run_readRun : Lts.run step oneRow readRun = some (running oneRow (.gotRows (planFrom none) 1 [oldRow])) := by
  refine Lts.run_cons.2 ⟨running oneRow .start, rfl, ?_⟩
  refine Lts.run_cons.2 ⟨running oneRow (.gotLast (planFrom none)), step_running rfl, ?_⟩
  refine Lts.run_cons.2 ⟨running oneRow (.gotTail (planFrom none) 1), step_running rfl, ?_⟩
  refine Lts.run_cons.2 ⟨running oneRow (.gotEnd (planFrom none) 1), step_running rfl, ?_⟩
  exact Lts.run_cons.2 ⟨running oneRow (.gotRows (planFrom none) 1 [oldRow]), step_running rfl, rfl⟩

theorem export_oldRow : ∃ sg file, exportSegment (planFrom none) 1 [oldRow] 9 = .ok (sg, file) := by
  have hlink : linksTo 1 genesisHash oldRow = true := linksTo_iff.2 ⟨rfl, rfl, Store.linkRow_hash ..⟩
  have hchain : checkChain 1 genesisHash [oldRow] = .ok (1 + 1, oldRow.hash) := by
    rw [checkChain, if_pos hlink, checkChain, show oldRow.seq = 1 from rfl]
  rw [exportSegment, show checkChain (planFrom none).start (planFrom none).prev [oldRow] = _ from hchain]
  exact ⟨_, _, rfl⟩

theorem removed_oldRow : ∃ w w' dir cutoff rows sg, Lts.run step oneRow (readRun ++ [.step 0 9]) = some w ∧ step w (.step 0 9) = some w' ∧
    oldRow ∈ rows ∧ Removed w w' dir cutoff rows sg := by
  obtain ⟨sg, file, hexp⟩ := export_oldRow
  have hspec := exportSegment_spec hexp
  have hfirst : sg.firstSeq = 1 := hspec.firstSeq
  have hlast : sg.lastSeq = 1 := exportSegment_last hexp
  have hexported : step (running oneRow (.gotRows (planFrom none) 1 [oldRow])) (.step 0 9) =
      some (running { oneRow with files := [((str "archive", sg.fileName), file)] } (.exported (planFrom none) [oldRow] sg)) := by
    refine step_running ?_
    simp only [stepArchive, hexp]
    rfl
  have hrun : Lts.run step oneRow (readRun ++ [.step 0 9]) = some _ :=
    Lts.run_append.2 ⟨_, run_readRun, Lts.run_cons.2 ⟨_, hexported, Lts.run_nil _⟩⟩
  have hins : ∃ db, oneRow.db.insertSegment sg = some db ∧ db.log = [oldRow] := by
    rw [Store.insertSegment, dif_pos (fun x hx => by cases hx)]
    exact ⟨_, rfl, rfl⟩
  obtain ⟨db, hdb, hlog⟩ := hins
  have hcommit : archiveCommit oneRow.db sg = some (db.deleteBetween sg.firstSeq sg.lastSeq) := by
    rw [archiveCommit, hdb, Option.bind_eq_bind, Option.bind_some, hlog, hspec.recordCount, hfirst, hlast]
    exact if_pos rfl
  have hstep : ∃ w', step (running { oneRow with files := [((str "archive", sg.fileName), file)] } (.exported (planFrom none) [oldRow] sg))
      (.step 0 9) = some w' ∧ w'.db = db.deleteBetween sg.firstSeq sg.lastSeq := by
    simp only [step, stepProc, stepArchive, running, List.getElem?_cons_zero, Option.bind_eq_bind, Option.bind_some, hcommit]
    exact ⟨_, rfl, rfl⟩
  obtain ⟨w', hstep, hw'⟩ := hstep
  have hgone : oldRow ∉ w'.db.log := by
    rw [hw', Store.deleteBetween, hfirst, hlast]
    simp only [hlog]
    exact List.not_mem_nil
  have hwithin : WithinTail oneRow.db := by
    intro t ht r hr
    obtain rfl := Option.some.inj ht
    obtain rfl := List.mem_singleton.1 hr
    exact le_rfl
  obtain ⟨-, -, dir, cutoff, -, -, rows, sg', -, -, hmem, hrem⟩ :=
    removed_expired rfl (.inr hwithin) hrun hstep (List.mem_singleton_self oldRow) hgone
  exact ⟨_, _, dir, cutoff, rows, sg', hrun, hstep, hmem, hrem⟩

end Expired

end Audit
