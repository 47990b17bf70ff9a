import Privahub.Sync.Persist

/-!
# What a restart of the peer-to-peer sender restores

A persisted event that is not settled is in the file of its destination, and in its queue once `Load`
has restored that file (`Inv`). Before `Load` has come to the file it does not, so an `enqueue` that comes first takes the pending
events of its destination with it, and so does a destination that is not the name of its file
(`persisted_lost`). In a run without such steps no persisted event is lost (`persisted_kept`).
-/

namespace Sync

namespace P2PHost

variable {h h' : P2PHost} {dst f : Bytes} {a b e ev : ChangeEvent} {l : Link} {w : Write}

def Same (a b : ChangeEvent) : Prop := { a with retries := 0 } = { b with retries := 0 }

instance (a b : ChangeEvent) : Decidable (Same a b) := inferInstanceAs (Decidable (_ = _))

theorem Same.refl (a : ChangeEvent) : Same a a := rfl

theorem Same.symm (hab : Same a b) : Same b a := Eq.symm hab

theorem Same.trans {c : ChangeEvent} (hab : Same a b) (hbc : Same b c) : Same a c := Eq.trans hab hbc

theorem same_iff : Same a b ↔ a.table = b.table ∧ a.action = b.action ∧ a.data = b.data ∧ a.key = b.key ∧
    a.dstNode = b.dstNode ∧ a.seq = b.seq := by simp [Same]

theorem Same.key (hab : Same a b) : a.key = b.key := (same_iff.1 hab).2.2.2.1

theorem Same.dstNode (hab : Same a b) : a.dstNode = b.dstNode := (same_iff.1 hab).2.2.2.2.1

theorem Same.seq (hab : Same a b) : a.seq = b.seq := (same_iff.1 hab).2.2.2.2.2

theorem Same.retried (a : ChangeEvent) (n : Int) : Same { a with retries := n } a := rfl

def Plain (dst : Bytes) : Prop := queueFile dst = some dst ∧ isTmp dst = false

instance (dst : Bytes) : Decidable (Plain dst) := inferInstanceAs (Decidable (_ ∧ _))

/-- One of the copies `made` for `dst`. -/
structure IssuedIn (made : List ChangeEvent) (dst : Bytes) (a : ChangeEvent) : Prop where
  plain : Plain dst
  dstNode : a.dstNode = dst
  copy : ∃ c, made[a.seq]? = some c ∧ Same a c

abbrev Issued (h : P2PHost) (dst : Bytes) (a : ChangeEvent) : Prop := IssuedIn (h.issued dst) dst a

variable {made made' : List ChangeEvent}

theorem IssuedIn.same (ha : IssuedIn made dst a) (hb : IssuedIn made dst b) (hs : a.seq = b.seq) : Same a b := by
  obtain ⟨c, hc, hac⟩ := ha.copy
  obtain ⟨d, hd, hbd⟩ := hb.copy
  rw [hs, hd] at hc
  exact hac.trans (Option.some.inj hc ▸ hbd.symm)

theorem IssuedIn.of_same (ha : IssuedIn made dst a) (hs : Same b a) : IssuedIn made dst b := by
  obtain ⟨c, hc, hac⟩ := ha.copy
  exact ⟨ha.plain, hs.dstNode.trans ha.dstNode, c, hs.seq ▸ hc, hs.trans hac⟩

theorem IssuedIn.mono (hp : made <+: made') (ha : IssuedIn made dst a) : IssuedIn made' dst a := by
  obtain ⟨c, hc, hac⟩ := ha.copy
  obtain ⟨t, rfl⟩ := hp
  exact ⟨ha.plain, ha.dstNode, c, List.getElem?_append_left (List.getElem?_eq_some_iff.1 hc).1 ▸ hc, hac⟩

theorem IssuedIn.seq_lt (ha : IssuedIn made dst a) : a.seq < made.length := by
  obtain ⟨c, hc, -⟩ := ha.copy
  exact (List.getElem?_eq_some_iff.1 hc).1

def Queued (h : P2PHost) (e : ChangeEvent) : Prop := ∃ a ∈ h.queue e.dstNode, Same a e

def OnDisk (h : P2PHost) (e : ChangeEvent) : Prop :=
  ∃ q, h.files.read e.dstNode = some (some q) ∧ ∃ a ∈ q, Same a e

/-- Superseded by a newer version of its row, delivered, or dropped at the retry limit. -/
def Settled (h : P2PHost) (e : ChangeEvent) : Prop :=
  (∃ p ∈ h.superseded, Same p.1 e ∧ p.2.dstNode = e.dstNode ∧ p.2.key = e.key ∧ e.seq < p.2.seq) ∨
  (∃ a ∈ h.delivered, Same a e) ∨ (∃ a ∈ h.dropped, Same a e ∧ h.sync.maxRetries ≤ a.retries)

instance (h : P2PHost) (e : ChangeEvent) : Decidable (h.Queued e) := inferInstanceAs (Decidable (∃ _ ∈ _, _))

instance (h : P2PHost) (e : ChangeEvent) : Decidable (h.Settled e) := inferInstanceAs (Decidable (_ ∨ _ ∨ _))

theorem Settled.mono (hm : h'.sync.maxRetries = h.sync.maxRetries) (h1 : h.superseded ⊆ h'.superseded)
    (h2 : h.delivered ⊆ h'.delivered) (h3 : h.dropped ⊆ h'.dropped) (he : h.Settled e) : h'.Settled e := by
  obtain ⟨p, hp, hs⟩ | ⟨a, ha, hs⟩ | ⟨a, ha, hs, hr⟩ := he
  · exact .inl ⟨p, h1 hp, hs⟩
  · exact .inr (.inl ⟨a, h2 ha, hs⟩)
  · exact .inr (.inr ⟨a, h3 ha, hs, hm ▸ hr⟩)

/-- What `Load` has still to restore, it has still to read. -/
def LoaderOK (h : P2PHost) : Option Loader → Prop
  | none => ∀ dst, h.queue dst = [] ∧ h.sending dst = none
  | some .waiting => True
  | some (.reading names) => ∀ f ∈ h.unrestored, f ∈ names
  | some (.holding n q names) =>
    (∀ a ∈ q, h.Issued n a) ∧ (n ∈ h.unrestored → h.files.read n = some (some q)) ∧
      ∀ f ∈ h.unrestored, f = n ∨ f ∈ names
  | some .loaded => h.unrestored = []

structure Inv (h : P2PHost) : Prop where
  dir : h.dir ≠ []
  next : ∀ dst, (h.sync.links dst).next = (h.issued dst).length
  queued : ∀ dst, ∀ a ∈ h.queue dst, h.Issued dst a
  sending : ∀ dst, ∀ a ∈ h.sending dst, h.Issued dst a
  filed : ∀ f c, isTmp f = false → h.files.read f = some c → ∃ q, c = some q ∧ ∀ a ∈ q, h.Issued f a
  waiting : ∀ f ∈ h.unrestored, isTmp f = false ∧ h.files.read f ≠ none
  quiet : ∀ f ∈ h.unrestored, h.queue f = [] ∧ h.sending f = none
  loader : h.LoaderOK h.loader
  issued : ∀ e ∈ h.persisted, h.Issued e.dstNode e
  kept : ∀ e ∈ h.persisted, h.Settled e ∨
    h.OnDisk e ∧ (h.loader ≠ none → e.dstNode ∉ h.unrestored → h.Queued e)

/-- Not one of the steps that lose events: `enqueue` for a destination that is not the name of its
file, or whose file `Load` has not restored, or a file that `Load` cannot read. -/
def Orderly (h : P2PHost) : HostAction → Prop
  | .p2p dst (.enqueue _) _ => h.dir = [] ∨ h.skips dst ∨ (Plain dst ∧ dst ∉ h.unrestored)
  | .load listed => listed
  | .readFile ok => ok
  | _ => True

instance (h : P2PHost) : (a : HostAction) → Decidable (h.Orderly a)
  | .p2p dst (.enqueue _) _ => inferInstanceAs (Decidable (h.dir = [] ∨ h.skips dst ∨ (Plain dst ∧ dst ∉ h.unrestored)))
  | .load listed => inferInstanceAs (Decidable (listed = true))
  | .readFile ok => inferInstanceAs (Decidable (ok = true))
  | .p2p _ .drainHead _ | .p2p _ .arrive _ | .p2p _ (.drainDone _) _ | .p2p _ (.arriveLate _) _ | .stop | .start | .restore => .isTrue trivial

theorem inv_persistLocked (hi : Inv h) (hp : Plain dst) (hup : h.loader ≠ none) (hd : dst ∉ h.unrestored) :
    Inv (h.persistLocked dst w) := by
  have htmp : ∀ {g}, isTmp g = false → g ≠ dst ++ tmpSuffix := by
    rintro g hg rfl
    simp [isTmp_append] at hg
  have hne : ∀ {g}, g ∈ h.unrestored → g ≠ dst := fun hg he => hd (he ▸ hg)
  -- only the file of `dst` and names that `Load` passes over are touched
  have hsame : ∀ files' : Directory, (∀ g, isTmp g = false → g ≠ dst → files'.read g = h.files.read g) →
      LoaderOK { h with files := files' } h.loader := by
    intro files' hf
    have hl := hi.loader
    cases hld : h.loader with
    | none => exact absurd hld hup
    | some ld =>
      rw [hld] at hl
      cases ld with
      | holding n q names => exact ⟨hl.1, fun hn => (hf n (hi.waiting n hn).1 (hne hn)).trans (hl.2.1 hn), hl.2.2⟩
      | _ => exact hl
  have hwait : ∀ files' : Directory, (∀ g, isTmp g = false → g ≠ dst → files'.read g = h.files.read g) →
      ∀ g ∈ h.unrestored, isTmp g = false ∧ files'.read g ≠ none := by
    intro files' hf g hg
    obtain ⟨ht, hr⟩ := hi.waiting g hg
    exact ⟨ht, hf g ht (hne hg) ▸ hr⟩
  unfold persistLocked
  simp only [if_neg hi.dir, hp.1]
  cases w with
  | refused => exact hi
  | torn left =>
    dsimp only
    split_ifs with hq
    · exact hi
    have hf : ∀ g, isTmp g = false → (h.files.write (dst ++ tmpSuffix) left).read g = h.files.read g :=
      fun g hg => Directory.read_write_of_ne (htmp hg)
    refine { hi with
      filed := fun g c hg hc => hi.filed g c hg (hf g hg ▸ hc)
      waiting := hwait _ fun g hg _ => hf g hg
      loader := hsame _ fun g hg _ => hf g hg
      kept := fun e he => (hi.kept e he).imp_right fun hk => ⟨?_, hk.2⟩ }
    obtain ⟨q, hq, ha⟩ := hk.1
    exact ⟨q, (hf _ (hi.issued e he).plain.2).trans hq, ha⟩
  | renamed =>
    dsimp only
    split_ifs with hq
    · have hf : ∀ g, g ≠ dst → (h.files.remove dst).read g = h.files.read g := fun g hg => Directory.read_remove_of_ne hg
      refine { hi with
        filed := fun g c hg hc => ?_
        waiting := hwait _ fun g _ hg => hf g hg
        loader := hsame _ fun g _ hg => hf g hg
        kept := fun e he => ?_ }
      · by_cases hgd : g = dst
        · simp [hgd] at hc
        · exact hi.filed g c hg (hf g hgd ▸ hc)
      · obtain hs | ⟨hdisk, hqueued⟩ := hi.kept e he
        · exact .inl hs
        by_cases hed : e.dstNode = dst
        · -- the queue is empty, so the event is settled
          obtain ⟨a, ha, -⟩ := hqueued hup (hed ▸ hd)
          rw [hed, hq] at ha
          simp at ha
        · obtain ⟨q, hq', ha⟩ := hdisk
          exact .inr ⟨⟨q, (hf _ hed).trans hq', ha⟩, hqueued⟩
    · have hf : ∀ g, isTmp g = false → g ≠ dst →
          ((h.files.remove (dst ++ tmpSuffix)).write dst (some (h.queue dst))).read g = h.files.read g := fun g hg hgd =>
        (Directory.read_write_of_ne hgd).trans (Directory.read_remove_of_ne (htmp hg))
      refine { hi with
        filed := fun g c hg hc => ?_
        waiting := hwait _ hf
        loader := hsame _ hf
        issued := fun e he => ?_
        kept := fun e he => ?_ }
      · by_cases hgd : g = dst
        · subst hgd
          rw [Directory.read_write_self] at hc
          exact ⟨h.queue g, (Option.some.inj hc).symm, hi.queued g⟩
        · exact hi.filed g c hg (hf g hg hgd ▸ hc)
      · rcases List.mem_append.1 he with he | he
        · exact hi.issued e he
        · have := hi.queued dst e he
          exact this.dstNode.symm ▸ this
      · rcases List.mem_append.1 he with he | he
        · obtain hs | ⟨hdisk, hqueued⟩ := hi.kept e he
          · exact .inl hs
          refine .inr ⟨?_, hqueued⟩
          by_cases hed : e.dstNode = dst
          · obtain ⟨a, ha, hae⟩ := hqueued hup (hed ▸ hd)
            exact ⟨h.queue dst, by rw [hed]; exact Directory.read_write_self, a, hed ▸ ha, hae⟩
          · obtain ⟨q, hq', ha⟩ := hdisk
            exact ⟨q, (hf _ (hi.issued e he).plain.2 hed).trans hq', ha⟩
        · have hed : e.dstNode = dst := (hi.queued dst e he).dstNode
          refine .inr ⟨⟨h.queue dst, by rw [hed]; exact Directory.read_write_self, e, he, .refl e⟩, fun _ _ => ?_⟩
          exact ⟨e, by rw [hed]; exact he, .refl e⟩

theorem inv_memory (hi : Inv h) (hdir : h'.dir = h.dir) (hfiles : h'.files = h.files) (hload : h'.loader = h.loader)
    (hun : h'.unrestored = h.unrestored) (hper : h'.persisted = h.persisted)
    (hmade : ∀ d, h.issued d <+: h'.issued d) (hnext : ∀ d, (h'.sync.links d).next = (h'.issued d).length)
    (hq : ∀ d, ∀ a ∈ h'.queue d, h'.Issued d a) (hs : ∀ d, ∀ a ∈ h'.sending d, h'.Issued d a)
    (hquiet : ∀ d, (h'.queue d = h.queue d ∧ h'.sending d = h.sending d) ∨ (h.loader ≠ none ∧ d ∉ h.unrestored))
    (hset : ∀ e, h.Settled e → h'.Settled e)
    (hkept : ∀ e, h.Issued e.dstNode e → h.Queued e → h'.Settled e ∨ h'.Queued e) : Inv h' where
  dir := hdir ▸ hi.dir
  next := hnext
  queued := hq
  sending := hs
  filed f c hf hc := by
    obtain ⟨q, rfl, hall⟩ := hi.filed f c hf (hfiles ▸ hc)
    exact ⟨q, rfl, fun a ha => (hall a ha).mono (hmade f)⟩
  waiting f hf := hfiles ▸ hi.waiting f (hun ▸ hf)
  quiet f hf := by
    rw [hun] at hf
    obtain ⟨hq', hs'⟩ := hi.quiet f hf
    rcases hquiet f with ⟨h1, h2⟩ | ⟨-, h2⟩
    · exact ⟨h1 ▸ hq', h2 ▸ hs'⟩
    · exact absurd hf h2
  loader := by
    have hl := hi.loader
    rw [hload]
    cases hld : h.loader with
    | none =>
      rw [hld] at hl
      intro d
      rcases hquiet d with ⟨h1, h2⟩ | ⟨h1, -⟩
      · exact ⟨h1 ▸ (hl d).1, h2 ▸ (hl d).2⟩
      · exact absurd hld h1
    | some ld =>
      rw [hld] at hl
      cases ld with
      | waiting => trivial
      | reading names => exact fun f hf => hl f (hun ▸ hf)
      | holding n q names =>
        refine ⟨fun a ha => (hl.1 a ha).mono (hmade n), fun hn => ?_, fun f hf => hl.2.2 f (hun ▸ hf)⟩
        rw [hfiles]
        exact hl.2.1 (hun ▸ hn)
      | loaded => exact hun.trans hl
  issued e he := (hi.issued e (hper ▸ he)).mono (hmade _)
  kept e he := by
    rw [hper] at he
    obtain hs | ⟨⟨q, hq', ha⟩, hqueued⟩ := hi.kept e he
    · exact .inl (hset e hs)
    by_cases hr : h.loader ≠ none ∧ e.dstNode ∉ h.unrestored
    · refine (hkept e (hi.issued e he) (hqueued hr.1 hr.2)).imp_right fun hq'' => ?_
      exact ⟨⟨q, hfiles ▸ hq', ha⟩, fun _ _ => hq''⟩
    · refine .inr ⟨⟨q, hfiles ▸ hq', ha⟩, fun h1 h2 => absurd ⟨hload ▸ h1, hun ▸ h2⟩ hr⟩

theorem mem_supersede_or (cp : ChangeEvent) {q : List ChangeEvent} (ha : a ∈ q) :
    a ∈ supersede cp q ∨ (a ∈ Link.supersededBy cp q ∧ a.key = cp.key) := by
  unfold supersede Link.supersededBy
  split_ifs with hc
  · by_cases hk : a.action = .update ∧ a.key = cp.key
    · exact .inr ⟨List.mem_filter.2 ⟨ha, by simp [hk]⟩, hk.2⟩
    · exact .inl (List.mem_filter.2 ⟨ha, by grind⟩)
  · exact .inl ha

theorem mem_of_mem_supersede {cp : ChangeEvent} {q : List ChangeEvent} (ha : a ∈ supersede cp q) : a ∈ q := by
  unfold supersede at ha
  split_ifs at ha
  · exact List.mem_of_mem_filter ha
  · exact ha

theorem inv_enqueue (hi : Inv h) (hp : Plain dst) (hup : h.loader ≠ none) (hd : dst ∉ h.unrestored) (hsk : ¬ h.skips dst) :
    Inv { h.note dst (.enqueue ev) with
      sync := { h.sync with links := Function.update h.sync.links dst ((h.sync.links dst).enqueue dst ev) } } := by
  let cp : ChangeEvent := { ev with dstNode := dst, seq := (h.sync.links dst).next }
  have hmade : ∀ d, h.issued d <+: (h.note dst (.enqueue ev)).issued d := by
    intro d
    by_cases hdd : d = dst
    · subst hdd
      simp [note, hsk]
    · simp [note, hsk, hdd]
  have hcp : IssuedIn (h.issued dst ++ [cp]) dst cp :=
    ⟨hp, rfl, cp, by rw [show cp.seq = (h.issued dst).length from hi.next dst]; simp, .refl cp⟩
  refine inv_memory hi ?_ ?_ ?_ ?_ ?_ hmade ?_ ?_ ?_ ?_ ?_ ?_
  · simp [note, hsk]
  · simp [note, hsk]
  · simp [note, hsk]
  · simp [note, hsk]
  · simp [note, hsk]
  · intro d
    by_cases hdd : d = dst
    · subst hdd
      simp [note, hsk, Link.enqueue, hi.next d]
    · simp [note, hsk, hdd, hi.next d]
  · intro d a ha
    by_cases hdd : d = dst
    · subst hdd
      have ha : a ∈ supersede cp (h.queue d) ++ [cp] := by simpa [queue, Link.enqueue, cp] using ha
      have hiss : IssuedIn (h.issued d ++ [cp]) d a := by
        rcases List.mem_append.1 ha with ha | ha
        · exact (hi.queued d a (mem_of_mem_supersede ha)).mono (List.prefix_append ..)
        · exact List.mem_singleton.1 ha ▸ hcp
      simpa [Issued, note, hsk, cp] using hiss
    · have ha : a ∈ h.queue d := by simpa [queue, hdd] using ha
      exact (hi.queued d a ha).mono (hmade d)
  · intro d a ha
    refine (hi.sending d a ?_).mono (hmade d)
    by_cases hdd : d = dst
    · subst hdd
      simpa [P2PHost.sending, Link.enqueue] using ha
    · simpa [P2PHost.sending, hdd] using ha
  · intro d
    by_cases hdd : d = dst
    · exact .inr ⟨hup, hdd ▸ hd⟩
    · exact .inl ⟨by simp [queue, hdd], by simp [P2PHost.sending, hdd]⟩
  · intro e he
    exact Settled.mono (h := h) rfl (by simp [note, hsk]) (by simp [note, hsk]) (by simp [note, hsk]) he
  · rintro e hiss ⟨a, ha, hae⟩
    by_cases hed : e.dstNode = dst
    · rw [hed] at ha hiss
      rcases mem_supersede_or cp ha with hsup | ⟨hsup, hk⟩
      · refine .inr ⟨a, ?_, hae⟩
        simpa [queue, hed, Link.enqueue, cp] using Or.inl hsup
      · refine .inl (.inl ⟨(a, cp), ?_, hae, hed.symm, hk.symm.trans hae.key, ?_⟩)
        · simpa [note, hsk, cp] using Or.inr hsup
        · show e.seq < (h.sync.links dst).next
          exact hi.next dst ▸ hiss.seq_lt
    · exact .inr ⟨a, by simpa [queue, hed] using ha, hae⟩

/-- A step of the link of `dst` that makes no new copy and settles nothing: a change of the head being
sent, or an arrival at the peer. -/
theorem inv_link (hi : Inv h) (hq : l.queue = h.queue dst) (hn : l.next = (h.sync.links dst).next)
    (hs : l.sending = h.sending dst ∨ (h.loader = some .loaded ∧ ∀ a ∈ l.sending, a ∈ h.queue dst)) :
    Inv { h with sync := { h.sync with links := Function.update h.sync.links dst l } } := by
  refine inv_memory hi rfl rfl rfl rfl rfl (fun d => List.prefix_rfl) ?_ ?_ ?_ ?_ (fun e he => he) ?_
  · intro d
    by_cases hdd : d = dst
    · subst hdd
      simp [hn, hi.next d]
    · simp [hdd, hi.next d]
  · intro d a ha
    refine hi.queued d a ?_
    by_cases hdd : d = dst
    · subst hdd
      simpa [queue, hq] using ha
    · simpa [queue, hdd] using ha
  · intro d a ha
    by_cases hdd : d = dst
    · subst hdd
      have ha : a ∈ l.sending := by simpa [P2PHost.sending] using ha
      rcases hs with hs | ⟨-, hs⟩
      · exact hi.sending d a (hs ▸ ha)
      · exact hi.queued d a (hs a ha)
    · exact hi.sending d a (by simpa [P2PHost.sending, hdd] using ha)
  · intro d
    by_cases hdd : d = dst
    · subst hdd
      rcases hs with hs | ⟨hl, -⟩
      · exact .inl ⟨by simpa [queue] using hq, by simpa [P2PHost.sending] using hs⟩
      · have hun : h.LoaderOK (some .loaded) := hl ▸ hi.loader
        exact .inr ⟨by simp [hl], by simp [show h.unrestored = [] from hun]⟩
    · exact .inl ⟨by simp [queue, hdd], by simp [P2PHost.sending, hdd]⟩
  · rintro e - ⟨a, ha, hae⟩
    refine .inr ⟨a, ?_, hae⟩
    by_cases hed : e.dstNode = dst
    · subst hed
      simpa [queue, hq] using ha
    · simpa [queue, hed] using ha

theorem mem_dropHead_or (ev : ChangeEvent) {q : List ChangeEvent} (ha : a ∈ q) : a ∈ Link.dropHead ev q ∨ a.seq = ev.seq := by
  cases q with
  | nil => simp at ha
  | cons b q =>
    rw [Link.dropHead]
    split_ifs with hb
    · rcases List.mem_cons.1 ha with rfl | ha
      · exact .inr hb
      · exact .inl ha
    · exact .inl ha

theorem mem_of_mem_dropHead {q : List ChangeEvent} (ha : a ∈ Link.dropHead ev q) : a ∈ q := by
  cases q with
  | nil => simp [Link.dropHead] at ha
  | cons b q =>
    rw [Link.dropHead] at ha
    split_ifs at ha
    · exact List.mem_cons_of_mem _ ha
    · exact ha

theorem drainDone_spec {failed : Bool} (hev : h.sending dst = some ev)
    (hl : (h.sync.links dst).drainDone h.sync.maxRetries failed = some l) :
    ∃ del dro, h.note dst (.drainDone failed) =
        { h with delivered := h.delivered ++ del, dropped := h.dropped ++ dro } ∧
      l.next = (h.sync.links dst).next ∧ l.sending = none ∧ (∀ a ∈ l.queue, a ∈ h.queue dst ∨ Same a ev) ∧
      (∀ a ∈ Link.dropHead ev (h.queue dst), a ∈ l.queue) ∧
      ((∃ a ∈ l.queue, Same a ev) ∨ ev ∈ del ∨ ∃ a ∈ dro, Same a ev ∧ h.sync.maxRetries ≤ a.retries) := by
  have hlink : (h.sync.links dst).sending = some ev := hev
  rw [Link.drainDone, hlink] at hl
  cases failed with
  | false =>
    obtain rfl : _ = l := Option.some.inj hl
    refine ⟨[ev], [], by simp [note, hev], rfl, rfl, fun a ha => .inl (mem_of_mem_dropHead ha), fun a ha => ha, ?_⟩
    exact .inr (.inl (List.mem_singleton.2 rfl))
  | true =>
    obtain rfl : _ = l := Option.some.inj hl
    by_cases hr : ev.retries + 1 < h.sync.maxRetries
    · refine ⟨[], [], by simp [note, hev, hr], rfl, rfl, ?_, ?_, .inl ⟨{ ev with retries := ev.retries + 1 }, ?_, .retried ev _⟩⟩
      · intro a ha
        simp only [if_pos hr] at ha
        rcases List.mem_append.1 ha with ha | ha
        · exact .inl (mem_of_mem_dropHead ha)
        · exact .inr (List.mem_singleton.1 ha ▸ .retried ev _)
      · intro a ha
        simp only [if_pos hr]
        exact List.mem_append_left _ ha
      · simp only [if_pos hr]
        exact List.mem_append_right _ (List.mem_singleton.2 rfl)
    · refine ⟨[], [{ ev with retries := ev.retries + 1 }], by simp [note, hev, hr], rfl, rfl, ?_, ?_, .inr (.inr ?_)⟩
      · intro a ha
        simp only [if_neg hr] at ha
        exact .inl (mem_of_mem_dropHead ha)
      · intro a ha
        simp only [if_neg hr]
        exact ha
      · exact ⟨_, List.mem_singleton.2 rfl, .retried ev _, not_lt.1 hr⟩

theorem inv_drainDone (hi : Inv h) {failed : Bool} (hev : h.sending dst = some ev)
    (hl : (h.sync.links dst).drainDone h.sync.maxRetries failed = some l) :
    Inv { h.note dst (.drainDone failed) with
      sync := { h.sync with links := Function.update h.sync.links dst l } } := by
  have hiss := hi.sending dst ev hev
  have hdr : dst ∉ h.unrestored := fun hd => by simp [(hi.quiet dst hd).2] at hev
  have hup : h.loader ≠ none := fun hn => by
    have hl : h.LoaderOK none := hn ▸ hi.loader
    simp [(hl dst).2] at hev
  obtain ⟨del, dro, hnote, hn, hs, hq, hrest, hgone⟩ := drainDone_spec hev hl
  rw [hnote]
  refine inv_memory hi rfl rfl rfl rfl rfl (fun d => List.prefix_rfl) ?_ ?_ ?_ ?_ ?_ ?_
  · intro d
    by_cases hdd : d = dst
    · subst hdd
      simp [hn, hi.next d]
    · simp [hdd, hi.next d]
  · intro d a ha
    by_cases hdd : d = dst
    · subst hdd
      rcases hq a (by simpa [queue] using ha) with ha | ha
      · exact hi.queued d a ha
      · exact hiss.of_same ha
    · exact hi.queued d a (by simpa [queue, hdd] using ha)
  · intro d a ha
    by_cases hdd : d = dst
    · subst hdd
      simp [P2PHost.sending, hs] at ha
    · exact hi.sending d a (by simpa [P2PHost.sending, hdd] using ha)
  · intro d
    by_cases hdd : d = dst
    · exact .inr ⟨hup, hdd ▸ hdr⟩
    · exact .inl ⟨by simp [queue, hdd], by simp [P2PHost.sending, hdd]⟩
  · intro e he
    exact Settled.mono (h := h) rfl (List.Subset.refl _) (List.subset_append_left ..) (List.subset_append_left ..) he
  · rintro e hie ⟨a, ha, hae⟩
    by_cases hed : e.dstNode = dst
    · rw [hed] at ha
      rcases mem_dropHead_or ev ha with ha' | hseq
      · exact .inr ⟨a, by simpa [queue, hed] using hrest a ha', hae⟩
      · -- the event is the one whose attempt has ended
        have heve : Same ev e := ((hi.queued dst a ha).same hiss hseq).symm.trans hae
        rcases hgone with ⟨b, hb, hbe⟩ | hdel | ⟨b, hb, hbe, hr⟩
        · exact .inr ⟨b, by simpa [queue, hed] using hb, hbe.trans heve⟩
        · exact .inl (.inr (.inl ⟨ev, List.mem_append_right _ hdel, heve⟩))
        · exact .inl (.inr (.inr ⟨b, List.mem_append_right _ hb, hbe.trans heve, hr⟩))
    · exact .inr ⟨a, by simpa [queue, hed] using ha, hae⟩

theorem p2p_cases {act : Action} (hs : h.step (.p2p dst act w) = some h') :
    h.runs act ∧ ∃ l, h.sync.stepLink dst (h.sync.links dst) act = some l ∧
      ∃ h₁ : P2PHost, h₁ = { h.note dst act with sync := { h.sync with links := Function.update h.sync.links dst l } } ∧
        h' = if h.persists dst act then h₁.persistLocked dst w else h₁ := by
  simp only [step, P2PSync.step, Option.map_map] at hs
  split_ifs at hs with hr hp
  all_goals obtain ⟨l, hl, rfl⟩ := Option.map_eq_some_iff.1 hs
  · exact ⟨hr, l, hl, _, rfl, (if_pos hp).symm⟩
  · exact ⟨hr, l, hl, _, rfl, (if_neg hp).symm⟩

theorem inv_p2p (hi : Inv h) {act : Action} (ho : h.Orderly (.p2p dst act w)) (hs : h.step (.p2p dst act w) = some h') :
    Inv h' := by
  obtain ⟨hr, l, hl, h₁, rfl, rfl⟩ := p2p_cases hs
  cases act with
  | enqueue ev =>
    obtain rfl := Option.some.inj hl
    by_cases hsk : h.skips dst
    · have hnote : h.note dst (.enqueue ev) = h := by simp [note, hsk]
      have hsk' : dst = [] ∨ dst = h.sync.instID ∨ h.sync.isLocalNode dst := hsk
      rw [if_neg (fun hp => hp hsk), hnote, if_pos hsk']
      exact inv_link hi rfl rfl (.inl rfl)
    · obtain ⟨hp, hd⟩ := (ho.resolve_left hi.dir).resolve_left hsk
      have hsk' : ¬ (dst = [] ∨ dst = h.sync.instID ∨ h.sync.isLocalNode dst) := hsk
      rw [if_pos (show h.persists dst (.enqueue ev) from hsk), if_neg hsk']
      have hup : h.loader ≠ none := hr
      exact inv_persistLocked (inv_enqueue hi hp hup hd hsk) hp (by simpa [note, hsk] using hup) (by simpa [note, hsk] using hd)
  | drainHead =>
    rw [if_neg (by exact id)]
    rw [P2PSync.stepLink, Link.drainHead] at hl
    split at hl
    case h_2 => simp at hl
    next ev q hsend hq =>
      obtain rfl := Option.some.inj hl
      refine inv_link hi rfl rfl (.inr ⟨hr, fun a ha => ?_⟩)
      obtain rfl := Option.some.inj ha
      show ev ∈ (h.sync.links dst).queue
      rw [hq]
      exact List.mem_cons_self ..
  | arrive =>
    rw [if_neg (by exact id)]
    obtain ⟨ev, -, rfl⟩ := Option.map_eq_some_iff.1 hl
    exact inv_link hi rfl rfl (.inl rfl)
  | drainDone failed =>
    rw [if_pos (by trivial)]
    cases hev : h.sending dst with
    | none =>
      have hlink : (h.sync.links dst).sending = none := hev
      simp [P2PSync.stepLink, Link.drainDone, hlink] at hl
    | some ev =>
      have hinv := inv_drainDone hi hev hl
      obtain ⟨del, dro, hnote, -⟩ := drainDone_spec hev hl
      refine inv_persistLocked hinv (hi.sending dst ev hev).plain ?_ ?_
      · rw [hnote]
        exact hr
      · rw [hnote]
        exact fun hd => by simp [(hi.quiet dst hd).2] at hev
  | arriveLate i =>
    rw [if_neg (by exact id)]
    obtain ⟨ev, -, rfl⟩ := Option.map_eq_some_iff.1 hl
    exact inv_link hi rfl rfl (.inl rfl)

theorem inv_loading (hi : Inv h) {ld : Loader} (hup : h.loader ≠ none) (hl : h.LoaderOK (some ld)) :
    Inv { h with loader := some ld } :=
  { hi with
    loader := hl
    kept := fun e he => (hi.kept e he).imp_right fun hk => ⟨hk.1, fun _ hn => hk.2 hup hn⟩ }

theorem inv_restore (hi : Inv h) {q : List ChangeEvent} {names : List Bytes} (hl : h.loader = some (.holding f q names)) :
    Inv { h with
      sync := { h.sync with
        links := Function.update h.sync.links f { h.sync.links f with queue := q ++ (h.sync.links f).queue } }
      loader := some (.reading names)
      unrestored := h.unrestored.filter fun g => !decide (g = f) } := by
  have hup : h.loader ≠ none := by simp [hl]
  obtain ⟨hq, hfile, hnames⟩ : h.LoaderOK (some (.holding f q names)) := hl ▸ hi.loader
  have hmem : ∀ {g}, g ∈ (h.unrestored.filter fun g => !decide (g = f)) ↔ g ∈ h.unrestored ∧ g ≠ f := by simp
  refine
    { dir := hi.dir
      next := fun d => ?next
      queued := fun d a ha => ?queued
      sending := fun d a ha => ?sending
      filed := hi.filed
      waiting := fun g hg => hi.waiting g (hmem.1 hg).1
      quiet := fun g hg => ?quiet
      loader := fun g hg => (hnames g (hmem.1 hg).1).resolve_left (hmem.1 hg).2
      issued := hi.issued
      kept := fun e he => (hi.kept e he).imp_right fun hk => ⟨hk.1, fun _ hn => ?kept⟩ }
  case next =>
    by_cases hd : d = f
    · subst hd
      simp [hi.next d]
    · simp [hd, hi.next d]
  case queued =>
    by_cases hd : d = f
    · subst hd
      rcases List.mem_append.1 (by simpa [queue] using ha : a ∈ q ++ (h.sync.links d).queue) with ha | ha
      · exact hq a ha
      · exact hi.queued d a ha
    · exact hi.queued d a (by simpa [queue, hd] using ha)
  case sending =>
    refine hi.sending d a ?_
    by_cases hd : d = f
    · subst hd
      simpa [P2PHost.sending] using ha
    · simpa [P2PHost.sending, hd] using ha
  case quiet =>
    obtain ⟨hg, hne⟩ := hmem.1 hg
    simpa [queue, P2PHost.sending, hne] using hi.quiet g hg
  case kept =>
    by_cases hun : e.dstNode ∈ h.unrestored
    · -- the file that is restored is that of the event
      have hef : e.dstNode = f := by
        by_contra hne
        exact hn (hmem.2 ⟨hun, hne⟩)
      obtain ⟨q', hq', a, ha, hae⟩ := hk.1
      rw [hef, hfile (hef ▸ hun)] at hq'
      obtain rfl := Option.some.inj (Option.some.inj hq')
      exact ⟨a, by simpa [queue, hef] using Or.inl ha, hae⟩
    · obtain ⟨a, ha, hae⟩ := hk.2 hup hun
      refine ⟨a, ?_, hae⟩
      by_cases hef : e.dstNode = f
      · rw [hef] at ha
        simpa [queue, hef] using Or.inr ha
      · simpa [queue, hef] using ha

theorem inv_step (hi : Inv h) {act : HostAction} (ho : h.Orderly act) (hs : h.step act = some h') : Inv h' := by
  cases act with
  | p2p dst act w => exact inv_p2p hi ho hs
  | stop =>
    simp only [step] at hs
    split_ifs at hs with hd
    obtain rfl := Option.some.inj hs
    exact
      { dir := hi.dir
        next := hi.next
        queued := fun d a ha => by simp [queue, Link.stopped] at ha
        sending := fun d a ha => by simp [P2PHost.sending, Link.stopped] at ha
        filed := hi.filed
        waiting := fun f hf => by simp at hf
        quiet := fun f hf => by simp at hf
        loader := fun d => ⟨rfl, rfl⟩
        issued := hi.issued
        kept := fun e he => (hi.kept e he).imp_right fun hk => ⟨hk.1, fun hn => absurd rfl hn⟩ }
  | start =>
    simp only [step] at hs
    split_ifs at hs with hd hdir
    · exact absurd hdir hi.dir
    obtain rfl := Option.some.inj hs
    have hl : h.LoaderOK none := hd ▸ hi.loader
    refine { hi with
      waiting := fun f hf => ?_
      quiet := fun f _ => hl f
      loader := trivial
      kept := fun e he => (hi.kept e he).imp_right fun hk => ⟨hk.1, fun _ hn => absurd ?_ hn⟩ }
    · obtain ⟨hf, ht⟩ := List.mem_filter.1 hf
      exact ⟨by simpa using ht, Directory.mem_names.1 hf⟩
    · -- a persisted event is in a file that was there when the process started
      obtain ⟨q, hq, -⟩ := hk.1
      refine List.mem_filter.2 ⟨Directory.mem_names.2 ?_, by simp [(hi.issued e he).plain.2]⟩
      simp [hq]
  | load listed =>
    simp only [step] at hs
    split_ifs at hs with hd hlist
    · obtain rfl := Option.some.inj hs
      refine inv_loading hi (by simp [hd]) fun f hf => ?_
      exact Directory.mem_names.2 (hi.waiting f hf).2
    · exact absurd ⟨hi.dir, ho⟩ hlist
  | readFile ok =>
    cases hld : h.loader with
    | none => simp [step, hld] at hs
    | some ld =>
      cases ld with
      | reading names =>
        have hup : h.loader ≠ none := by simp [hld]
        have hl : h.LoaderOK (some (.reading names)) := hld ▸ hi.loader
        cases names with
        | nil =>
          obtain rfl : _ = h' := by simpa [step, hld] using hs
          exact inv_loading hi hup (List.eq_nil_iff_forall_not_mem.2 fun f hf => List.not_mem_nil (hl f hf))
        | cons f names =>
          have hrest : f ∉ h.unrestored → ∀ g ∈ h.unrestored, g ∈ names := fun hf g hg =>
            (List.mem_cons.1 (hl g hg)).resolve_left fun he => hf (he ▸ hg)
          cases hfile : h.files.read f with
          | none =>
            obtain rfl : _ = h' := by simpa [step, hld, hfile] using hs
            exact inv_loading hi hup (hrest fun hf => (hi.waiting f hf).2 hfile)
          | some c =>
            cases htmp : isTmp f with
            | true =>
              obtain rfl : _ = h' := by cases c <;> simpa [step, hld, hfile, htmp] using hs
              exact inv_loading hi hup (hrest fun hf => by simp [(hi.waiting f hf).1] at htmp)
            | false =>
              obtain ⟨q, rfl, hq⟩ := hi.filed f c htmp hfile
              have hok : ok = true := ho
              obtain rfl : _ = h' := by simpa [step, hld, hfile, htmp, hok] using hs
              exact inv_loading hi hup ⟨hq, fun _ => hfile, fun g hg => List.mem_cons.1 (hl g hg)⟩
      | _ => simp [step, hld] at hs
  | restore =>
    cases hld : h.loader with
    | none => simp [step, hld] at hs
    | some ld =>
      cases ld with
      | holding f q names =>
        obtain rfl : _ = h' := by simpa [step, hld] using hs
        exact inv_restore hi hld
      | _ => simp [step, hld] at hs

theorem inv_install (id : Option LocalIdentity) (m : Int) {dir : Bytes} (hd : dir ≠ []) : Inv (install id m dir) where
  dir := hd
  next d := rfl
  queued d a ha := by simp [install, queue, P2PSync.NewP2PSync] at ha
  sending d a ha := by simp [install, P2PHost.sending, P2PSync.NewP2PSync] at ha
  filed f c _ hc := by simp [install, Directory.read] at hc
  waiting f hf := by simp [install] at hf
  quiet f hf := by simp [install] at hf
  loader d := ⟨rfl, rfl⟩
  issued e he := by simp [install] at he
  kept e he := by simp [install] at he

theorem unpersisted_step (hd : h.dir = [] ∧ h.persisted = []) {act : HostAction} (hs : h.step act = some h') :
    h'.dir = [] ∧ h'.persisted = [] := by
  cases act with
  | p2p dst act w =>
    obtain ⟨-, l, -, h₁, rfl, rfl⟩ := p2p_cases hs
    have hnote : (h.note dst act).dir = [] ∧ (h.note dst act).persisted = [] := by
      cases act with
      | enqueue ev => by_cases hsk : h.skips dst <;> simpa [note, hsk] using hd
      | drainDone failed => simp only [note]; split <;> (try split_ifs) <;> exact hd
      | _ => exact hd
    split_ifs
    · simpa [persistLocked, hnote.1] using hnote.2
    · exact hnote
  | readFile ok =>
    simp only [step] at hs
    split at hs
    · obtain rfl := Option.some.inj hs
      exact hd
    · split at hs <;> (obtain rfl := Option.some.inj hs; exact hd)
    · simp at hs
  | restore =>
    simp only [step] at hs
    split at hs
    · obtain rfl := Option.some.inj hs
      exact hd
    · simp at hs
  | _ =>
    simp only [step] at hs
    split_ifs at hs
    all_goals
      obtain rfl := Option.some.inj hs
      exact hd

/-- After `Load`, every event that has been persisted is queued, superseded, delivered or dropped at
the retry limit. -/
theorem persisted_kept (id : Option LocalIdentity) (m : Int) (dir : Bytes) (as : List HostAction)
    (hrun : Lts.run step (install id m dir) as = some h)
    (hall : Lts.RunAll step (fun h a => h.Orderly a) (install id m dir) as) (hl : h.loader = some .loaded) :
    ∀ e ∈ h.persisted, h.Queued e ∨ h.Settled e := by
  by_cases hd : dir = []
  · have hp : h.dir = [] ∧ h.persisted = [] :=
      Lts.run_invariant (fun _ _ _ hi _ hs => unpersisted_step hi hs) ⟨hd, rfl⟩ hall hrun
    intro e he
    simp [hp.2] at he
  · have hi : Inv h := Lts.run_invariant (fun _ _ _ hi ho hs => inv_step hi ho hs) (inv_install id m hd) hall hrun
    have hun : h.LoaderOK (some .loaded) := hl ▸ hi.loader
    intro e he
    refine (hi.kept e he).symm.imp_left fun hk => hk.2 (by simp [hl]) ?_
    simp [show h.unrestored = [] from hun]

private def instB : Bytes := str "instB"

private def change (key : String) : ChangeEvent := ⟨str "project", .create, str key, str key, [], 0, 0⟩

private def push (dst : Bytes) (ev : ChangeEvent) : HostAction := .p2p dst (.enqueue ev) .renamed

private def empty : P2PHost := install (some ⟨str "instA", []⟩) 3 (str "/data/p2p")

/-- A change is queued, the process is restarted, and `Load` has run. -/
private def restart : List HostAction :=
  [.start, .load true, .readFile true, push instB (change "p1"), .stop, .start, .load true, .readFile true, .restore, .readFile true]

theorem restart_kept : ∃ h, Lts.run step empty restart = some h ∧ h.loader = some .loaded ∧
    { change "p1" with dstNode := instB } ∈ h.persisted ∧ ∀ e ∈ h.persisted, h.Queued e ∨ h.Settled e := by
  obtain ⟨h, hrun, hend⟩ : ∃ h, Lts.run step empty restart = some h ∧
      (h.loader = some .loaded ∧ { change "p1" with dstNode := instB } ∈ h.persisted) := by
    have : (Lts.run step empty restart).map
        (fun h => decide (h.loader = some .loaded ∧ { change "p1" with dstNode := instB } ∈ h.persisted)) = some true := by
      decide +kernel
    obtain ⟨h, hrun, hend⟩ := Option.map_eq_some_iff.1 this
    exact ⟨h, hrun, of_decide_eq_true hend⟩
  exact ⟨h, hrun, hend.1, hend.2, persisted_kept _ _ _ _ hrun (by decide +kernel) hend.1⟩

/-- A change pushed before `Load` has run takes the place of the one persisted for the same destination. -/
private def earlyPush : List HostAction :=
  [.start, .load true, .readFile true, push instB (change "p1"), .stop, .start, push instB (change "p2"),
    .load true, .readFile true, .restore, .readFile true]

private def sharedFile : List HostAction :=
  [.start, .load true, .readFile true, push (str "inst_B") (change "p1"), push (str "inst/B") (change "p2"), .stop, .start,
    .load true, .readFile true, .restore, .readFile true]

/-- The queue file has a name that `Load` passes over. -/
private def tmpName : List HostAction :=
  [.start, .load true, .readFile true, push (str "inst.tmp") (change "p1"), .stop, .start, .load true, .readFile true, .readFile true]

theorem persisted_lost : [earlyPush, sharedFile, tmpName].Forall fun as => ∃ h, Lts.run step empty as = some h ∧
    h.loader = some .loaded ∧ ∃ e ∈ h.persisted, ¬ (h.Queued e ∨ h.Settled e) := by
  refine List.forall_iff_forall_mem.2 fun as has => ?_
  have hend : (Lts.run step empty as).map
      (fun h => decide (h.loader = some .loaded ∧ ∃ e ∈ h.persisted, ¬ (h.Queued e ∨ h.Settled e))) = some true := by
    revert as
    decide +kernel
  obtain ⟨h, hrun, hend⟩ := Option.map_eq_some_iff.1 hend
  exact ⟨h, hrun, of_decide_eq_true hend⟩

end P2PHost

end Sync
