import Privahub.Audit.Chain
import Privahub.Audit.Service

/-!
# No event is recorded twice

An append looks its event ids up in the live rows only. As long as no id it looks up is that of an
archived record (`Fresh`), what it finds is still all there is when its transaction commits: the
compare-and-swap on the tail excludes any append in between (`Looked`). So the ids over archived
records and live rows stay distinct in every run of the recorder, crashes included
(`nodup_of_fresh`).
-/

namespace Audit

open HashChain

namespace World

variable {w w' : World} {now : Int}

def IdsNodup (w : World) : Prop := w.full.Pairwise fun a b => a.eventId ≠ b.eventId

def Looked (w : World) : Proc → Prop
  | .append _ _ (.gotTail t) => t.seq ≤ w.full.length
  | .append rows _ (.gotIDs t existing) => t.seq ≤ w.full.length ∧
      (t.seq = w.full.length → ∀ r ∈ rows, w.Recorded r.eventId → r.eventId ∈ existing)
  | _ => True

def lookup : Option Proc → List AuditLogDO
  | some (.append rows _ (.gotTail _)) => rows
  | _ => []

/-- The step is no lookup of an event id that is archived. -/
def Fresh (w : World) : Action → Prop
  | .step i _ => ∀ r ∈ lookup w.procs[i]?, ∀ x ∈ w.archived, x.eventId ≠ r.eventId
  | _ => True

instance (w : World) : ∀ a, Decidable (Fresh w a)
  | .step i _ => inferInstanceAs (Decidable (∀ r ∈ lookup w.procs[i]?, _))
  | .spawn _ => .isTrue trivial
  | .kill _ => .isTrue trivial

theorem stepEnsure_full {pc pc' : EnsurePc} (h : stepEnsure w pc = some (w', pc')) : w'.full = w.full := by
  cases pc with
  | derived t =>
    simp only [stepEnsure, Option.some.injEq, Prod.mk.injEq] at h
    obtain ⟨rfl, -⟩ := h
    simp only [full, Store.createTail]
    split <;> rfl
  | absent =>
    simp only [stepEnsure] at h
    split at h <;> simp only [Option.some.injEq, Prod.mk.injEq] at h <;> rw [h.1]
  | returned => simp [stepEnsure] at h
  | _ =>
    simp only [stepEnsure, Option.some.injEq, Prod.mk.injEq] at h
    rw [h.1]

theorem stepArchive_full (hc : Core w) {dir : Bytes} {cutoff total total' : Int} {pc pc' : ArchivePc}
    (hp : ProcOK w (.archive dir cutoff total pc)) (h : stepArchive w now dir cutoff total pc = some (w', total', pc')) :
    w'.full = w.full := by
  cases pc with
  | exported p rows sg =>
    obtain ⟨hplan, hx, -, hsub⟩ := hp
    simp only [stepArchive] at h
    split at h <;> simp only [Option.some.injEq, Prod.mk.injEq] at h <;> obtain ⟨rfl, -, -⟩ := h
    · rename_i db hcommit
      obtain ⟨-, h2, h3, -, -⟩ := archiveCommit_spec hc hplan hx hsub hcommit
      show w.archived ++ _ ++ db.log = w.archived ++ w.db.log
      rw [h2, h3, List.append_assoc]
    · rfl
  | gotLast p =>
    simp only [stepArchive] at h
    split at h <;> simp only [Option.some.injEq, Prod.mk.injEq] at h <;> rw [← h.1]
  | gotRows p last rows =>
    simp only [stepArchive] at h
    split at h <;> simp only [Option.some.injEq, Prod.mk.injEq] at h <;> obtain ⟨rfl, -, -⟩ := h <;> rfl
  | returned err => simp [stepArchive] at h
  | _ =>
    simp only [stepArchive, Option.some.injEq, Prod.mk.injEq] at h
    rw [← h.1]

theorem stepAppend_nodup (hc : Core w) (hn : IdsNodup w) {rows : List AuditLogDO} {attempt attempt' : Nat}
    {pc pc' : AppendPc} (hl : Looked w (.append rows attempt pc))
    (h : stepAppend w rows attempt pc = some (w', attempt', pc')) : IdsNodup w' := by
  cases pc with
  | gotIDs t existing =>
    simp only [stepAppend] at h
    split at h <;> obtain ⟨rfl, -⟩ := Prod.mk.inj (Option.some.inj h)
    · rename_i db n hcommit
      have hle : w.db.tail = some t → ∀ x ∈ w.db.log, x.seq ≤ t.seq := fun ht x hx => by
        rw [hc.tail_some t ht]; exact hc.seq_le hx
      rcases Store.appendCommit_spec hcommit hle with ⟨rfl, -⟩ | ⟨out, ho⟩
      · exact hn
      have hf : World.full { w with db := db } = w.full ++ out := by simp [full, ho.log']
      have hseq : t.seq = w.full.length := by rw [hc.tail_some t ho.tail]
      have hids : out.map AuditLogDO.eventId = (Store.chainRows existing t.seq t.hash rows).1.map AuditLogDO.eventId := by
        rw [ho.rows, Store.map_withIDs fun _ _ => rfl]
      rw [IdsNodup, hf, List.pairwise_append]
      refine ⟨hn, ?_, fun x hx y hy he => ?_⟩
      · have hnd := Store.chainRows_nodup existing t.seq t.hash rows
        rw [← List.pairwise_map (f := AuditLogDO.eventId)] at hnd ⊢
        rwa [hids]
      · -- the id was looked up and is recorded, so it was seen
        have hy' : y.eventId ∈ (Store.chainRows existing t.seq t.hash rows).1.map AuditLogDO.eventId :=
          hids ▸ List.mem_map_of_mem hy
        obtain ⟨z, hz, hzy⟩ := List.mem_map.1 hy'
        obtain ⟨q, hq, hzq⟩ := Store.chainRows_content existing t.seq t.hash rows z hz
        have hqz : q.eventId = z.eventId := by rw [hzq]
        exact Store.chainRows_fresh existing t.seq t.hash rows z hz
          (hqz ▸ hl.2 hseq q hq ⟨x, hx, by rw [he, ← hzy, hqz]⟩)
    · exact hn
  | start =>
    simp only [stepAppend] at h
    split_ifs at h with hr
    · simp only [Option.some.injEq, Prod.mk.injEq] at h
      exact h.1 ▸ hn
    · split at h <;> obtain ⟨rfl, -⟩ := Prod.mk.inj (Option.some.inj h) <;> exact hn
  | gotTail t =>
    simp only [stepAppend, Option.some.injEq, Prod.mk.injEq] at h
    exact h.1 ▸ hn
  | returned n => simp [stepAppend] at h

theorem Looked.mono {p : Proc} (hl : Looked w p) (h : w.full <+: w'.full) : Looked w' p := by
  have hlen := h.length_le
  unfold Looked at hl ⊢
  split
  · exact hl.trans (by omega)
  · refine ⟨hl.1.trans (by omega), fun hseq r hr hrec => ?_⟩
    have heq : w.full = w'.full := h.eq_of_length (by have := hl.1; omega)
    refine hl.2 (by rw [heq]; exact hseq) r hr ?_
    obtain ⟨x, hx, he⟩ := hrec
    exact ⟨x, heq ▸ hx, he⟩
  · trivial

structure OnceInv (w : World) : Prop where
  inv : Inv w
  nodup : IdsNodup w
  looked : ∀ p ∈ w.procs, Looked w p

theorem stepProc_looked (hc : Core w) {p p' : Proc} (hl : Looked w p)
    (hf : ∀ r ∈ lookup (some p), ∀ x ∈ w.archived, x.eventId ≠ r.eventId)
    (h : stepProc w now p = some (w', p')) : Looked w' p' := by
  cases p with
  | ensureTail pc =>
    obtain ⟨q, -, he⟩ := Option.map_eq_some_iff.1 h
    rw [← (Prod.mk.inj he).2]; trivial
  | archive dir cutoff total pc =>
    obtain ⟨q, -, he⟩ := Option.map_eq_some_iff.1 h
    rw [← (Prod.mk.inj he).2]; trivial
  | dead => simp [stepProc] at h
  | append rows attempt pc =>
    obtain ⟨⟨w₁, attempt', pc'⟩, hs, he⟩ := Option.map_eq_some_iff.1 h
    obtain ⟨rfl, rfl⟩ := Prod.mk.inj he
    cases pc with
    | start =>
      simp only [stepAppend] at hs
      split_ifs at hs
      · simp only [Option.some.injEq, Prod.mk.injEq] at hs
        rw [← hs.2.2]; trivial
      split at hs <;> obtain ⟨rfl, hq⟩ := Prod.mk.inj (Option.some.inj hs)
      · rename_i t ht
        rw [← (Prod.mk.inj hq).2, Looked, hc.tail_some t ht]
      · have := congrArg Prod.snd hq
        simp only [retry] at this
        split_ifs at this <;> rw [← this] <;> trivial
    | gotTail t =>
      simp only [stepAppend, Option.some.injEq, Prod.mk.injEq] at hs
      obtain ⟨rfl, rfl, rfl⟩ := hs
      refine ⟨hl, fun _ r hr hrec => ?_⟩
      obtain ⟨x, hx, he⟩ := hrec
      rcases List.mem_append.1 hx with hx | hx
      · exact absurd he (hf r hr x hx)
      · rw [← he]
        refine List.mem_map_of_mem (List.mem_filter.2 ⟨hx, ?_⟩)
        exact List.any_eq_true.2 ⟨r, hr, by simp [he]⟩
    | gotIDs t existing =>
      simp only [stepAppend] at hs
      split at hs <;> obtain ⟨rfl, hq⟩ := Prod.mk.inj (Option.some.inj hs)
      · rw [← (Prod.mk.inj hq).2]; trivial
      · have := congrArg Prod.snd hq
        simp only [retry] at this
        split_ifs at this <;> rw [← this] <;> trivial
    | returned n => simp [stepAppend] at hs

theorem stepProc_nodup (hc : Core w) (hn : IdsNodup w) {p p' : Proc} (hp : ProcOK w p) (hl : Looked w p)
    (h : stepProc w now p = some (w', p')) : IdsNodup w' := by
  cases p with
  | ensureTail pc =>
    obtain ⟨⟨w₁, pc'⟩, hs, he⟩ := Option.map_eq_some_iff.1 h
    obtain ⟨rfl, -⟩ := Prod.mk.inj he
    rw [IdsNodup, stepEnsure_full hs]; exact hn
  | archive dir cutoff total pc =>
    obtain ⟨⟨w₁, total', pc'⟩, hs, he⟩ := Option.map_eq_some_iff.1 h
    obtain ⟨rfl, -⟩ := Prod.mk.inj he
    rw [IdsNodup, stepArchive_full hc hp hs]; exact hn
  | append rows attempt pc =>
    obtain ⟨⟨w₁, attempt', pc'⟩, hs, he⟩ := Option.map_eq_some_iff.1 h
    obtain ⟨rfl, -⟩ := Prod.mk.inj he
    exact stepAppend_nodup hc hn hl hs
  | dead => simp [stepProc] at h

theorem OnceInv.spawn (hi : OnceInv w) (c : Call) : OnceInv { w with procs := w.procs ++ [c.proc] } := by
  have hs := (step_spec hi.inv (a := .spawn c) rfl).2
  refine ⟨hs, hi.nodup, fun p hp => ?_⟩
  rcases List.mem_append.1 hp with hp | hp
  · exact (hi.looked p hp).mono List.prefix_rfl
  · rw [List.mem_singleton.1 hp]; cases c <;> trivial

theorem OnceInv.step (hi : OnceInv w) {a : Action} (hf : Fresh w a) (h : step w a = some w') : OnceInv w' := by
  obtain ⟨hd, hinv⟩ := step_spec hi.inv h
  have hfull := hd.grows.full
  cases a with
  | spawn c =>
    obtain rfl := Option.some.inj h
    exact hi.spawn c
  | step i now =>
    obtain ⟨p, hget, h⟩ := Option.bind_eq_some_iff.1 h
    obtain ⟨⟨w₁, p'⟩, hs, h⟩ := Option.bind_eq_some_iff.1 h
    obtain rfl := Option.some.inj h
    have hm := List.mem_of_getElem? hget
    have hnodup := stepProc_nodup hi.inv.core hi.nodup (hi.inv.procs p hm) (hi.looked p hm) hs
    have hlooked := stepProc_looked hi.inv.core (hi.looked p hm) (hget ▸ hf) hs
    refine ⟨hinv, hnodup, fun q hq => ?_⟩
    rcases List.mem_or_eq_of_mem_set hq with hq | rfl
    · exact (hi.looked q hq).mono hfull
    · exact hlooked
  | kill i =>
    obtain rfl := Option.some.inj h
    refine ⟨hinv, hi.nodup, fun q hq => ?_⟩
    rcases List.mem_or_eq_of_mem_set hq with hq | rfl
    · exact (hi.looked q hq).mono hfull
    · trivial

end World

namespace Service

variable {lim : Limits} {s s' : Service}

theorem drained_world (s : Service) (batch : List AuditLogDO) (next : After) :
    (s.drained batch next).world = s.world ∨ (s.drained batch next).world = s.append batch := by
  unfold drained
  split_ifs
  · exact .inl rfl
  · exact .inr rfl

theorem stepWriter_world {io : Io} {now : Nat} (h : s.stepWriter lim io now = some s') :
    s'.world = s.world ∨ ∃ rows, s'.world = s.append rows := by
  unfold stepWriter at h
  split at h
  · split at h
    · split_ifs at h <;> obtain rfl := Option.some.inj h
      · exact .inl rfl
      · exact (drained_world ..).imp_right fun he => ⟨_, he⟩
    · obtain rfl := Option.some.inj h
      exact (drained_world ..).imp_right fun he => ⟨_, he⟩
  · obtain ⟨ok, -, rfl⟩ := Option.map_eq_some_iff.1 h
    exact .inl rfl
  · obtain rfl := Option.some.inj h
    exact .inl (spoolOrDrop_world ..)
  · split at h
    · obtain ⟨sp, -, rfl⟩ := Option.map_eq_some_iff.1 h
      exact .inl rfl
    · obtain rfl := Option.some.inj h
      exact .inl rfl
  · obtain rfl := Option.some.inj h
    exact .inl rfl
  · split_ifs at h <;> obtain rfl := Option.some.inj h <;> exact .inl rfl
  · split_ifs at h <;> obtain rfl := Option.some.inj h
    · exact .inl rfl
    · exact .inr ⟨_, rfl⟩
  · obtain ⟨ok, -, rfl⟩ := Option.map_eq_some_iff.1 h
    exact .inl rfl
  · obtain rfl := Option.some.inj h
    exact .inl rfl
  all_goals simp at h

theorem stepClose_world {io : Io} (h : s.stepClose lim io = some s') : s'.world = s.world := by
  unfold stepClose at h
  split at h
  · obtain rfl := Option.some.inj h; rfl
  · obtain rfl := Option.some.inj h; rfl
  · split at h
    · obtain rfl := Option.some.inj h; rfl
    · simp at h
  · split at h
    · split_ifs at h <;> obtain rfl := Option.some.inj h <;> rfl
    · obtain rfl := Option.some.inj h; rfl
  · obtain rfl := Option.some.inj h
    exact spoolOrDrop_world ..
  · simp at h

theorem stepRecord_world {io : Io} {p p' : RecordPc} (h : s.stepRecord lim io p = some (s', p')) : s'.world = s.world := by
  cases p with
  | start row => rw [← (Prod.mk.inj (Option.some.inj h)).1]
  | pushing row =>
    simp only [stepRecord] at h
    split_ifs at h <;> rw [← (Prod.mk.inj (Option.some.inj h)).1]
  | spooling row => rw [← (Prod.mk.inj (Option.some.inj h)).1, spoolOrDrop_world]
  | returned row => simp [stepRecord] at h

theorem step_world {a : Action} (h : s.step lim a = some s') : s'.world = s.world ∨
    (∃ rows, s'.world = s.append rows) ∨ ∃ b, a = .world b ∧ s.world.step b = some s'.world := by
  cases a with
  | start =>
    simp only [step] at h
    split at h
    · rw [← Option.some.inj h]; exact .inl rfl
    · simp at h
  | world b =>
    obtain ⟨w, hw, rfl⟩ := Option.map_eq_some_iff.1 h
    exact .inr (.inr ⟨b, rfl, hw⟩)
  | record id e => rw [← Option.some.inj h]; exact .inl rfl
  | recorder i io =>
    obtain ⟨p, -, h⟩ := Option.bind_eq_some_iff.1 h
    obtain ⟨⟨s₁, p'⟩, hs, h⟩ := Option.bind_eq_some_iff.1 h
    have he := stepRecord_world hs
    rw [← Option.some.inj h]
    exact .inl he
  | select r =>
    simp only [step] at h
    split at h
    · refine .inl ?_
      cases r with
      | queue =>
        simp only [stepSelect] at h
        split at h
        · rw [← Option.some.inj h]
        · simp at h
      | tick => rw [← Option.some.inj h]
      | flush => rw [← Option.some.inj h]
      | stop =>
        simp only [stepSelect] at h
        split_ifs at h
        rw [← Option.some.inj h]
    · simp at h
  | writer io now => exact (stepWriter_world h).imp_right fun he => .inl he
  | close io => exact .inl (stepClose_world h)
  | timeout =>
    simp only [step] at h
    split at h
    · rw [← Option.some.inj h]; exact .inl rfl
    · simp at h

end Service

namespace Host

variable {lim : Limits} {s s' : Service}

/-- The step is no lookup of an event id that is archived. -/
def Fresh (s : Service) : Action → Prop
  | .service (.world a) => World.Fresh s.world a
  | _ => True

instance (s : Service) (a : Action) : Decidable (Fresh s a) := by
  unfold Fresh; split <;> infer_instance

theorem step_once (hi : World.OnceInv s.world) {a : Action} (hf : Fresh s a) (h : step lim s a = some s') :
    World.OnceInv s'.world := by
  cases a with
  | crash =>
    obtain rfl := Option.some.inj h
    exact hi
  | service a =>
    rcases Service.step_world h with he | ⟨rows, he⟩ | ⟨b, rfl, he⟩
    · rw [he]; exact hi
    · rw [he]; exact hi.spawn (.append rows)
    · exact hi.step hf he

/-- In every run of the recorder and of any other callers, crashes included, in which no archived event
id is looked up, every event id is recorded once. -/
theorem nodup_of_fresh {sp : Option Spool} {as : List Action} (hf : Lts.RunAll (step lim) Fresh (.fresh .init sp) as)
    (hr : Lts.run (step lim) (.fresh .init sp) as = some s) : s.world.IdsNodup :=
  have hi : World.OnceInv (Service.fresh .init sp).world := ⟨World.inv_init, .nil, by simp [Service.fresh, World.init]⟩
  (Lts.run_invariant (fun _ _ _ hi hf hs => step_once hi hf hs) hi hf hr).nodup

def limits : Limits := (Options.mk 0 0 0).normalize

def sampleUuid : Uuid := ⟨List.replicate 36 97, length_letters, letters_uuid⟩

def bareEvent : Event := ⟨0, [], [], [], [], [], [], [], [], [], [], []⟩

def world (a : World.Action) : Action := .service (.world a)

def writes (now n : Nat) : List Action := List.replicate n (.service (.writer .done now))

def steps (call n : Nat) : List Action := List.replicate n (world (.step call 0))

def replayedRun : List Action :=
  [world (.spawn .ensureTail)] ++ steps 0 4 ++ [.service .start] ++ writes 1 2 ++
  [.service (.record sampleUuid bareEvent), .service (.recorder 0 .done), .service (.recorder 0 .done),
    .service (.select .queue)] ++ writes 1 1 ++ [world (.kill 1)] ++ writes 1 2 ++
  [.service (.select .tick)] ++ writes 2 3 ++ steps 2 3

def archiveAll : List Action := [world (.spawn (.archiveExpired (str "archive") 1))] ++ steps 3 6

def removedRun : List Action := replayedRun ++ writes 2 3 ++ archiveAll

def crashedRun : List Action := replayedRun ++ [.crash] ++ archiveAll ++ [.service .start] ++ writes 3 3 ++ steps 4 3

theorem removedRun_nodup : ∃ s, Lts.run (step limits) (.fresh .init (some .empty)) removedRun = some s ∧
    (s.world.archived.length, s.world.db.log.length) = (1, 0) ∧ s.world.IdsNodup := by
  have hf : Lts.RunAll (step limits) Fresh (.fresh .init (some .empty)) removedRun := by decide +kernel
  have hrun : (Lts.run (step limits) (.fresh .init (some .empty)) removedRun).map
      (fun s => (s.world.archived.length, s.world.db.log.length)) = some (1, 0) := by decide +kernel
  obtain ⟨s, hs, hlen⟩ := Option.map_eq_some_iff.1 hrun
  exact ⟨s, hs, hlen, nodup_of_fresh hf hs⟩

/-- The replayed event is recorded again: the first record is no longer among the live rows. -/
theorem crashedRun_twice : ∃ s, Lts.run (step limits) (.fresh .init (some .empty)) crashedRun = some s ∧
    ∃ x ∈ s.world.archived, ∃ y ∈ s.world.db.log, x.eventId = y.eventId := by
  have hrun : (Lts.run (step limits) (.fresh .init (some .empty)) crashedRun).map
      (fun s => decide (∃ x ∈ s.world.archived, ∃ y ∈ s.world.db.log, x.eventId = y.eventId)) = some true := by decide +kernel
  obtain ⟨s, hs, hd⟩ := Option.map_eq_some_iff.1 hrun
  exact ⟨s, hs, of_decide_eq_true hd⟩

end Host

end Audit
