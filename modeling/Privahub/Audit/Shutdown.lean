import Privahub.Audit.Once

/-!
# No event is lost at shutdown

Wherever the row of a returned `Record` call is (`Located`), every step of the recorder moves it on
to another such place: queue, batch in the writer's hands, database, spool, dropped. A replayed file
is removed only when its rows are recorded (`Covers`). When `Close` returns, the places in memory
are empty, provided that no `Record` call pushed behind the last drain and that no spool write went
to a file that ends within a line (`Harmless`); `settled_of_harmless` is the result for every run.
-/

namespace Audit

namespace Service

variable {lim : Limits} {s s' : Service} {rows : List AuditLogDO} {r : AuditLogDO} {io : Io}

def InSpool (s : Service) (r : AuditLogDO) : Prop := ∃ sp ∈ s.spool, sp.Holds r

/-- In the database, in the spool, or counted as dropped. -/
def Settled (s : Service) (r : AuditLogDO) : Prop := s.world.Recorded r.eventId ∨ s.InSpool r ∨ r ∈ s.dropped

end Service

def WriterPc.batch : WriterPc → List AuditLogDO
  | draining batch _ | persisting batch _ _ | spooling batch _ => batch
  | _ => []

def CloserPc.late : CloserPc → List AuditLogDO
  | draining late | spooling late => late
  | _ => []

def RecordPc.Returned : RecordPc → Prop
  | returned _ => True
  | _ => False

namespace Service

variable {lim : Limits} {s s' : Service} {rows : List AuditLogDO} {r : AuditLogDO} {io : Io}

def Located (s : Service) (r : AuditLogDO) : Prop :=
  s.Settled r ∨ r ∈ s.queue ∨ r ∈ s.writer.batch ∨ r ∈ s.closer.late

def Covers (w : World) (content : Option Bytes) (rows : List AuditLogDO) : Prop :=
  ∀ c ∈ content, ∀ r, Spoolable r → HoldsLine c r → w.Recorded r.eventId ∨ ∃ q ∈ rows, q.eventId = r.eventId

/-- The call is an append of `rows`, unless it was killed. -/
def CallOf (w : World) (call : Nat) (rows : List AuditLogDO) : Prop :=
  ∃ p, w.procs[call]? = some p ∧ (p = .dead ∨ ∃ attempt pc, p = .append rows attempt pc)

def fileContent (s : Service) (file : Nat) : Option Bytes := s.spool.bind fun sp => sp.content file

def WriterOK (s : Service) : WriterPc → Prop
  | .persisting batch call _ => CallOf s.world call batch
  | .replayRows file _ rows => Covers s.world (s.fileContent file) rows
  | .replaying file _ batch rows call => CallOf s.world call batch ∧ Covers s.world (s.fileContent file) (batch ++ rows)
  | .removing file _ => Covers s.world (s.fileContent file) []
  | _ => True

/-- What `Close` has established: the writer is done before the last drain, which empties the queue. -/
def CloserOK (lim : Limits) (s : Service) : CloserPc → Prop
  | .draining late => s.writer = .returned ∧ late.length + s.queue.length ≤ lim.queueSize
  | .spooling _ | .returned => s.writer = .returned ∧ s.queue = []
  | _ => True

structure Inv (lim : Limits) (s : Service) : Prop where
  world : World.Inv s.world
  rows : ∀ p ∈ s.recorders, Spoolable p.row
  located : ∀ p ∈ s.recorders, p.Returned → s.Located p.row
  writer : WriterOK s s.writer
  closer : CloserOK lim s s.closer
  queue : s.queue.length ≤ lim.queueSize

def Clean (lim : Limits) (s : Service) (rows : List AuditLogDO) (io : Io) : Prop :=
  ∀ sp ∈ s.spool, (sp.append lim.spoolMaxBytes rows io).2 = true → Whole sp.active

/-- What is pushed now is still received, by the writer or the last drain. -/
def InTime (lim : Limits) (s : Service) : Prop :=
  match s.closer with
  | .draining late => late.length + s.queue.length < lim.queueSize
  | .spooling _ | .returned => False
  | _ => True

def HarmlessRecord (lim : Limits) (s : Service) (io : Io) : RecordPc → Prop
  | .pushing _ => s.queue.length < lim.queueSize → InTime lim s
  | .spooling row => Clean lim s [row] io
  | _ => True

def HarmlessWriter (lim : Limits) (s : Service) (io : Io) : WriterPc → Prop
  | .spooling batch _ => Clean lim s batch io
  | _ => True

def HarmlessClose (lim : Limits) (s : Service) (io : Io) : CloserPc → Prop
  | .closing => s.writer ≠ .notStarted
  | .spooling late => Clean lim s late io
  | _ => True

/-- No push behind the last drain, no write into a torn line; `Close` finds a started service and waits for it. -/
def Harmless (lim : Limits) (s : Service) : Action → Prop
  | .recorder i io => ∀ p ∈ s.recorders[i]?, HarmlessRecord lim s io p
  | .writer io _ => HarmlessWriter lim s io s.writer
  | .close io => HarmlessClose lim s io s.closer
  | .timeout => False
  | _ => True

structure Keeps (s s' : Service) : Prop where
  settled : ∀ r, s.Settled r → s'.Settled r
  files : s'.fileContent = s.fileContent
  world : World.Grows s.world s'.world
  calls : ∀ call rows, CallOf s.world call rows → CallOf s'.world call rows

theorem Keeps.trans {s'' : Service} (h : Keeps s s') (h' : Keeps s' s'') : Keeps s s'' :=
  ⟨fun r hr => h'.settled r (h.settled r hr), h'.files.trans h.files, h.world.trans h'.world,
    fun call rows hc => h'.calls call rows (h.calls call rows hc)⟩

theorem Covers.mono {w w' : World} {c : Option Bytes} (h : Covers w c rows) (hg : World.Grows w w') : Covers w' c rows :=
  fun c' hc r hr hl => (h c' hc r hr hl).imp_left hg.recorded

theorem Keeps.writerOK (h : Keeps s s') {pc : WriterPc} (hp : WriterOK s pc) : WriterOK s' pc := by
  cases pc with
  | persisting batch call next => exact h.calls _ _ hp
  | replayRows file files rows =>
    rw [WriterOK, h.files]
    exact hp.mono h.world
  | replaying file files batch rows call =>
    rw [WriterOK, h.files]
    exact ⟨h.calls _ _ hp.1, hp.2.mono h.world⟩
  | removing file files =>
    rw [WriterOK, h.files]
    exact hp.mono h.world
  | _ => trivial

theorem Keeps.of_eq (hw : s'.world = s.world) (hs : s'.spool = s.spool) (hd : s'.dropped = s.dropped) : Keeps s s' where
  settled r h := by rwa [Settled, InSpool, hw, hs, hd]
  files := by funext file; rw [fileContent, fileContent, hs]
  world := hw ▸ World.Grows.refl _
  calls _ _ h := hw ▸ h

theorem CallOf.spawn {w : World} {call : Nat} (h : CallOf w call rows) (c : Call) :
    CallOf { w with procs := w.procs ++ [c.proc] } call rows := by
  obtain ⟨p, hp, hk⟩ := h
  exact ⟨p, by rw [List.getElem?_append_left (List.getElem?_eq_some_iff.1 hp).1, hp], hk⟩

theorem CallOf.step {w w' : World} {call : Nat} (h : CallOf w call rows) {b : World.Action} (hs : w.step b = some w') :
    CallOf w' call rows := by
  cases b with
  | spawn c =>
    obtain rfl := Option.some.inj hs
    exact h.spawn c
  | step i now =>
    obtain ⟨q, hq, hs⟩ := Option.bind_eq_some_iff.1 hs
    obtain ⟨⟨w₁, q'⟩, hstep, hs⟩ := Option.bind_eq_some_iff.1 hs
    obtain rfl := Option.some.inj hs
    obtain ⟨p, hp, hk⟩ := h
    have hlt := (List.getElem?_eq_some_iff.1 hp).1
    by_cases hi : i = call
    · subst hi
      obtain rfl : q = p := Option.some.inj (hq.symm.trans hp)
      refine ⟨q', by simp [hlt], ?_⟩
      rcases hk with rfl | ⟨attempt, pc, rfl⟩
      · simp [World.stepProc] at hstep
      · obtain ⟨⟨w₂, attempt', pc'⟩, -, he⟩ := Option.map_eq_some_iff.1 hstep
        exact .inr ⟨attempt', pc', (Prod.mk.inj he).2.symm⟩
    · exact ⟨p, by rw [← hp]; exact List.getElem?_set_ne hi, hk⟩
  | kill i =>
    obtain rfl := Option.some.inj hs
    obtain ⟨p, hp, hk⟩ := h
    have hlt := (List.getElem?_eq_some_iff.1 hp).1
    by_cases hi : i = call
    · subst hi
      exact ⟨.dead, by simp [hlt], .inl rfl⟩
    · exact ⟨p, by rw [← hp]; exact List.getElem?_set_ne hi, hk⟩

theorem Keeps.of_world (hi : World.Inv s.world) {b : World.Action} (h : s.world.step b = some s'.world) (hs : s'.spool = s.spool)
    (hd : s'.dropped = s.dropped) : Keeps s s' := by
  have hg := (World.step_spec hi h).1.grows
  refine ⟨fun r hr => ?_, by funext file; rw [fileContent, fileContent, hs], hg, fun _ _ hc => hc.step h⟩
  rw [Settled, InSpool, hs, hd]
  exact hr.imp_left hg.recorded

theorem spoolOrDrop_none (hs : s.spool = none) : s.spoolOrDrop lim rows io = { s with dropped := s.dropped ++ rows } := by
  simp [spoolOrDrop, hs]

theorem spoolOrDrop_some {sp : Spool} (hs : s.spool = some sp) : s.spoolOrDrop lim rows io =
    { s with
      spool := some (sp.append lim.spoolMaxBytes rows io).1
      dropped := if (sp.append lim.spoolMaxBytes rows io).2 then s.dropped else s.dropped ++ rows } := by
  simp [spoolOrDrop, hs]

theorem spoolOrDrop_keeps : Keeps s (s.spoolOrDrop lim rows io) := by
  rcases hs : s.spool with _ | sp
  · rw [spoolOrDrop_none hs]
    refine ⟨fun r hr => ?_, rfl, .refl _, fun _ _ h => h⟩
    rcases hr with h | h | h
    · exact .inl h
    · exact .inr (.inl h)
    · exact .inr (.inr (List.mem_append_left _ h))
  · rw [spoolOrDrop_some hs]
    refine ⟨fun r hr => ?_, ?_, .refl _, fun _ _ h => h⟩
    · rcases hr with h | ⟨sp', hsp, h⟩ | h
      · exact .inl h
      · obtain rfl : sp = sp' := by simpa [hs] using hsp
        exact .inr (.inl ⟨_, rfl, Spool.holds_append h⟩)
      · refine .inr (.inr ?_)
        simp only
        split_ifs
        · exact h
        · exact List.mem_append_left _ h
    · funext file
      simp [fileContent, hs, Spool.content, Spool.append_replay]

theorem spoolOrDrop_settled (h : Clean lim s rows io) (hr : r ∈ rows) : (s.spoolOrDrop lim rows io).Settled r := by
  rcases hs : s.spool with _ | sp
  · rw [spoolOrDrop_none hs]
    exact .inr (.inr (List.mem_append_right _ hr))
  · rw [spoolOrDrop_some hs]
    rcases hok : (sp.append lim.spoolMaxBytes rows io).2 with _ | _
    · exact .inr (.inr (by simp only [Bool.false_eq_true, if_false]; exact List.mem_append_right _ hr))
    · exact .inr (.inl ⟨_, rfl, Spool.holds_of_append hok (h sp hs hok) hr⟩)

theorem Inv.of_settled (hi : Inv lim s) (hk : ∀ r, Spoolable r → s.Settled r → s'.Settled r) (hworld : World.Inv s'.world)
    (hrec : s'.recorders = s.recorders)
    (hloc : ∀ r, r ∈ s.queue ∨ r ∈ s.writer.batch ∨ r ∈ s.closer.late → s'.Located r) (hw : WriterOK s' s'.writer)
    (hc : CloserOK lim s' s'.closer) (hq : s'.queue.length ≤ lim.queueSize) : Inv lim s' where
  world := hworld
  rows := hrec ▸ hi.rows
  located p hp hret := by
    rw [hrec] at hp
    rcases hi.located p hp hret with h | h
    · exact .inl (hk _ (hi.rows p hp) h)
    · exact hloc _ h
  writer := hw
  closer := hc
  queue := hq

theorem Inv.of_keeps (hi : Inv lim s) (hk : Keeps s s') (hworld : World.Inv s'.world) (hrec : s'.recorders = s.recorders)
    (hloc : ∀ r, r ∈ s.queue ∨ r ∈ s.writer.batch ∨ r ∈ s.closer.late → s'.Located r) (hw : WriterOK s' s'.writer)
    (hc : CloserOK lim s' s'.closer) (hq : s'.queue.length ≤ lim.queueSize) : Inv lim s' :=
  hi.of_settled (fun r _ => hk.settled r) hworld hrec hloc hw hc hq

theorem Inv.closer_early (hi : Inv lim s) (hw : s.writer ≠ .returned) (t : Service) : CloserOK lim t s.closer := by
  have hc := hi.closer
  rcases hcl : s.closer with _ | _ | _ | late | late | _ <;> simp only [hcl, CloserOK] at hc ⊢
  · exact absurd hc.1 hw
  · exact absurd hc.1 hw
  · exact absurd hc.1 hw

theorem Inv.append (hi : Inv lim s) (rows : List AuditLogDO) : World.Inv (s.append rows) :=
  (World.step_spec hi.world (a := .spawn (.append rows)) rfl).2

theorem callOf_append (s : Service) (rows : List AuditLogDO) : CallOf (s.append rows) s.world.procs.length rows :=
  ⟨_, List.getElem?_concat_length .., .inr ⟨0, .start, rfl⟩⟩

theorem keeps_append (hi : Inv lim s) (hw : s'.world = s.append rows) (hs : s'.spool = s.spool) (hd : s'.dropped = s.dropped) :
    Keeps s s' := .of_world hi.world (b := .spawn (.append rows)) (congrArg some hw.symm) hs hd

theorem drained_inv (hi : Inv lim s) {batch : List AuditLogDO} {next : After} (hw : s.writer = .draining batch next) :
    Inv lim (s.drained batch next) := by
  have hearly := hi.closer_early (by simp [hw])
  unfold drained
  split_ifs with hb
  · refine hi.of_keeps (.of_eq rfl rfl rfl) hi.world rfl (fun r hr => ?_) ?_ (hearly _) hi.queue
    · simp only [hw, hb, WriterPc.batch, List.not_mem_nil, false_or] at hr
      exact .inr (hr.imp_right .inr)
    · cases next with
      | select => trivial
      | drainAll flush => cases flush <;> trivial
  · refine hi.of_keeps (keeps_append hi rfl rfl rfl) (hi.append batch) rfl (fun r hr => ?_) (callOf_append s batch) (hearly _) hi.queue
    rw [hw] at hr
    exact .inr hr

theorem CloserOK.congr {t : Service} {pc : CloserPc} (h : CloserOK lim s pc) (hw : t.writer = s.writer) (hq : t.queue = s.queue) :
    CloserOK lim t pc := by
  cases pc <;> simp only [CloserOK, hw, hq] at h ⊢ <;> exact h

theorem located_of_idle {t : Service} (hw : s.writer.batch = []) (hq : t.queue = s.queue) (hc : t.closer = s.closer) :
    ∀ r, r ∈ s.queue ∨ r ∈ s.writer.batch ∨ r ∈ s.closer.late → t.Located r := by
  intro r hr
  rw [hw] at hr
  rcases hr with hr | hr | hr
  · exact .inr (.inl (hq ▸ hr))
  · simp at hr
  · exact .inr (.inr (.inr (hc ▸ hr)))

theorem recorded_of_callResult {w : World} (hi : World.Inv w) {call : Nat} (hc : CallOf w call rows)
    (h : callResult w call = some true) (hr : r ∈ rows) : w.Recorded r.eventId := by
  obtain ⟨p, hp, hk⟩ := hc
  simp only [callResult, hp] at h
  rcases hk with rfl | ⟨attempt, pc, rfl⟩
  · simp at h
  · cases pc with
    | returned n =>
      obtain ⟨m, rfl⟩ : ∃ m, n = some m := Option.isSome_iff_exists.1 (by simpa using h)
      exact hi.procs _ (List.mem_of_getElem? hp) r hr
    | _ => simp at h

theorem stepWriter_inv (hi : Inv lim s) {now : Nat} (hh : HarmlessWriter lim s io s.writer)
    (h : s.stepWriter lim io now = some s') : Inv lim s' := by
  have hwok := hi.writer
  unfold stepWriter at h
  split at h
  · rename_i batch next hw
    have hearly := hi.closer_early (by simp [hw])
    split at h
    · rename_i r q hq
      split_ifs at h <;> obtain rfl := Option.some.inj h
      · refine hi.of_keeps (.of_eq rfl rfl rfl) hi.world rfl (fun x hx => ?_) trivial (hearly _) ?_
        · simp only [hq, hw, WriterPc.batch, List.mem_cons] at hx
          simp only [Located, WriterPc.batch, List.mem_append, List.mem_singleton]
          tauto
        · have := hi.queue
          simp only [hq, List.length_cons] at this ⊢; omega
      · exact drained_inv hi hw
    · obtain rfl := Option.some.inj h
      exact drained_inv hi hw
  · rename_i batch call next hw
    have hearly := hi.closer_early (by simp [hw])
    obtain ⟨ok, hok, rfl⟩ := Option.map_eq_some_iff.1 h
    rw [hw] at hwok
    refine hi.of_keeps (.of_eq rfl rfl rfl) hi.world rfl (fun x hx => ?_) ?_ (hearly _) hi.queue
    · rw [hw] at hx
      rcases hx with hx | hx | hx
      · exact .inr (.inl hx)
      · cases ok with
        | true => exact .inl (.inl (recorded_of_callResult hi.world hwok hok hx))
        | false => exact .inr (.inr (.inl hx))
      · exact .inr (.inr (.inr hx))
    · cases ok with
      | true => cases next <;> trivial
      | false => trivial
  · rename_i batch next hw
    have hearly := hi.closer_early (by simp [hw])
    obtain rfl := Option.some.inj h
    rw [hw] at hh
    refine hi.of_keeps (spoolOrDrop_keeps.trans (.of_eq rfl rfl rfl)) (by simpa using hi.world) (by simp) (fun x hx => ?_) ?_
      (by simpa using hearly _) (by simpa using hi.queue)
    · rw [hw] at hx
      rcases hx with hx | hx | hx
      · exact .inr (.inl (by simpa using hx))
      · exact .inl (spoolOrDrop_settled hh hx)
      · exact .inr (.inr (.inr (by simpa using hx)))
    · cases next <;> trivial
  · rename_i hw
    have hearly := hi.closer_early (by simp [hw])
    have hloc := fun t => located_of_idle (t := t) (s := s) (by rw [hw]; rfl)
    split at h
    · rename_i sp hs
      obtain ⟨sp', hrot, rfl⟩ := Option.map_eq_some_iff.1 h
      refine hi.of_settled (fun r _ hr => ?_) hi.world rfl (hloc _ rfl rfl) trivial (hearly _) hi.queue
      rcases hr with hr | ⟨sp₁, hsp, hr⟩ | hr
      · exact .inl hr
      · obtain rfl : sp = sp₁ := by simpa [hs] using hsp
        exact .inr (.inl ⟨sp', rfl, Spool.holds_rotate hrot hr⟩)
      · exact .inr (.inr hr)
    · obtain rfl := Option.some.inj h
      exact hi.of_keeps (.of_eq rfl rfl rfl) hi.world rfl (hloc _ rfl rfl) trivial (hearly _) hi.queue
  · rename_i hw
    obtain rfl := Option.some.inj h
    exact hi.of_keeps (.of_eq rfl rfl rfl) hi.world rfl (located_of_idle (by rw [hw]; rfl) rfl rfl) trivial
      (hi.closer_early (by simp [hw]) _) hi.queue
  · rename_i file files hw
    have hearly := hi.closer_early (by simp [hw])
    have hloc := fun t => located_of_idle (t := t) (s := s) (by rw [hw]; rfl)
    split_ifs at h <;> obtain rfl := Option.some.inj h
    · refine hi.of_keeps (.of_eq rfl rfl rfl) hi.world rfl (hloc _ rfl rfl) ?_ (hearly _) hi.queue
      rcases herr : (readSpoolFile ((s.spool.bind fun sp => sp.content file).getD [])).err with _ | _
      · simp only [Bool.false_eq_true, if_false]
        intro c hc r hr hl
        have hc : s.spool.bind (fun sp => sp.content file) = some c := hc
        rw [hc] at herr ⊢
        exact .inr (mem_readSpoolFile hr hl herr)
      · trivial
    · exact hi.of_keeps (.of_eq rfl rfl rfl) hi.world rfl (hloc _ rfl rfl) trivial (hearly _) hi.queue
  · rename_i file files rows hw
    have hearly := hi.closer_early (by simp [hw])
    have hloc := fun t => located_of_idle (t := t) (s := s) (by rw [hw]; rfl)
    rw [hw] at hwok
    split_ifs at h with hrows <;> obtain rfl := Option.some.inj h
    · refine hi.of_keeps (.of_eq rfl rfl rfl) hi.world rfl (hloc _ rfl rfl) ?_ (hearly _) hi.queue
      rw [hrows] at hwok
      exact hwok
    · have hk : Keeps s { s with world := s.append (rows.take lim.batchSize) } := keeps_append hi rfl rfl rfl
      refine hi.of_keeps (keeps_append hi rfl rfl rfl) (hi.append _) rfl (hloc _ rfl rfl)
        ⟨callOf_append s (rows.take lim.batchSize), ?_⟩ (hearly _) hi.queue
      rw [List.take_append_drop]
      exact hwok.mono hk.world
  · rename_i file files batch rows call hw
    have hearly := hi.closer_early (by simp [hw])
    have hloc := fun t => located_of_idle (t := t) (s := s) (by rw [hw]; rfl)
    rw [hw] at hwok
    obtain ⟨ok, hok, rfl⟩ := Option.map_eq_some_iff.1 h
    refine hi.of_keeps (.of_eq rfl rfl rfl) hi.world rfl (hloc _ rfl rfl) ?_ (hearly _) hi.queue
    cases ok with
    | false => trivial
    | true =>
      intro c hc r hr hl
      rcases hwok.2 c hc r hr hl with h | ⟨q, hq, he⟩
      · exact .inl h
      · rcases List.mem_append.1 hq with hq | hq
        · exact .inl (he ▸ recorded_of_callResult hi.world hwok.1 hok hq)
        · exact .inr ⟨q, hq, he⟩
  · rename_i file files hw
    have hearly := hi.closer_early (by simp [hw])
    rw [hw] at hwok
    obtain rfl := Option.some.inj h
    refine hi.of_settled (fun r hsp hr => ?_) hi.world rfl (located_of_idle (by rw [hw]; rfl) rfl rfl) trivial (hearly _) hi.queue
    rcases hr with hr | ⟨sp, hs, hr⟩ | hr
    · exact .inl hr
    · simp only [Settled, InSpool]
      split_ifs
      · obtain hr | ⟨c, hc, hl⟩ : (sp.remove file).Holds r ∨ _ := Spool.holds_remove hr
        · exact .inr (.inl ⟨_, by rw [show s.spool = some sp from hs]; rfl, hr⟩)
        · have hc : s.fileContent file = some c := by rw [fileContent, show s.spool = some sp from hs]; exact hc
          rcases hwok c hc r hsp hl with h | ⟨q, hq, -⟩
          · exact .inl h
          · simp at hq
      · exact .inr (.inl ⟨sp, hs, hr⟩)
    · exact .inr (.inr hr)
  all_goals simp at h

theorem stepClose_inv (hi : Inv lim s) (hh : HarmlessClose lim s io s.closer) (h : s.stepClose lim io = some s') :
    Inv lim s' := by
  have hc := hi.closer
  unfold stepClose at h
  split at h
  · rename_i hcl
    obtain rfl := Option.some.inj h
    refine hi.of_keeps (.of_eq rfl rfl rfl) hi.world rfl (fun r hr => ?_) hi.writer trivial hi.queue
    simpa [hcl, CloserPc.late, Located, or_assoc] using Or.inr hr
  · rename_i hcl
    obtain rfl := Option.some.inj h
    rw [hcl] at hh
    have hw : s.writer ≠ .notStarted := hh
    refine hi.of_keeps (.of_eq rfl rfl rfl) hi.world rfl (fun r hr => ?_) hi.writer ?_ hi.queue
    · rw [hcl] at hr
      rcases hr with hr | hr | hr
      · exact .inr (.inl hr)
      · exact .inr (.inr (.inl hr))
      · simp [CloserPc.late] at hr
    · simp only
      trivial
  · rename_i hcl
    split at h
    · rename_i hw
      obtain rfl := Option.some.inj h
      refine hi.of_keeps (.of_eq rfl rfl rfl) hi.world rfl (fun r hr => ?_) hi.writer ⟨hw, by simpa using hi.queue⟩ hi.queue
      rw [hcl] at hr
      rcases hr with hr | hr | hr
      · exact .inr (.inl hr)
      · exact .inr (.inr (.inl hr))
      · simp [CloserPc.late] at hr
    · simp at h
  · rename_i late hcl
    rw [hcl] at hc
    obtain ⟨hw, hlen⟩ := hc
    split at h
    · rename_i r q hq
      have hq' := hi.queue
      simp only [hq, List.length_cons] at hlen hq'
      rw [if_pos (by omega)] at h
      obtain rfl := Option.some.inj h
      refine hi.of_keeps (.of_eq rfl rfl rfl) hi.world rfl (fun x hx => ?_) hi.writer ⟨hw, ?_⟩ ?_
      · simp only [hq, hcl, CloserPc.late, List.mem_cons] at hx
        simp only [Located, CloserPc.late, List.mem_append, List.mem_singleton]
        tauto
      · simp only [List.length_append, List.length_singleton]; omega
      · simp only; omega
    · rename_i hq
      obtain rfl := Option.some.inj h
      refine hi.of_keeps (.of_eq rfl rfl rfl) hi.world rfl (fun x hx => ?_) hi.writer ?_ hi.queue
      · simp only [hcl, CloserPc.late] at hx
        simp only [Located]
        split_ifs with hl
        · simp only [hl, List.not_mem_nil, or_false] at hx
          tauto
        · tauto
      · simp only
        split_ifs <;> exact ⟨hw, hq⟩
  · rename_i late hcl
    rw [hcl] at hc hh
    obtain rfl := Option.some.inj h
    have hk : Keeps s { s.spoolOrDrop lim late io with closer := .returned } := spoolOrDrop_keeps.trans (.of_eq rfl rfl rfl)
    refine hi.of_keeps hk (by simpa using hi.world) (by simp) (fun x hx => ?_) ?_ ?_ ?_
    · rw [hcl] at hx
      rcases hx with hx | hx | hx
      · exact .inr (.inl (by simpa using hx))
      · exact .inr (.inr (.inl (by simpa using hx)))
      · exact .inl (spoolOrDrop_settled hh hx)
    · rw [spoolOrDrop_writer]
      exact hk.writerOK hi.writer
    · exact CloserOK.congr hc (by simp) (by simp)
    · simpa using hi.queue
  · simp at h

theorem Inv.of_record (hi : Inv lim s) {i : Nat} {p p' : RecordPc} (hp : s.recorders[i]? = some p)
    (hrec : s'.recorders = s.recorders.set i p') (hrow : p'.row = p.row) (hk : Keeps s s') (hw : s'.world = s.world) (hwr : s'.writer = s.writer)
    (hcl : s'.closer = s.closer) (hqs : s.queue ⊆ s'.queue) (hp' : p'.Returned → s'.Located p'.row)
    (hc : CloserOK lim s' s'.closer) (hq : s'.queue.length ≤ lim.queueSize) : Inv lim s' where
  world := hw ▸ hi.world
  rows q hq := by
    rw [hrec] at hq
    rcases List.mem_or_eq_of_mem_set hq with hq | rfl
    · exact hi.rows q hq
    · exact hrow ▸ hi.rows p (List.mem_of_getElem? hp)
  located q hq hret := by
    rw [hrec] at hq
    rcases List.mem_or_eq_of_mem_set hq with hq | rfl
    · rcases hi.located q hq hret with h | h | h | h
      · exact .inl (hk.settled _ h)
      · exact .inr (.inl (hqs h))
      · exact .inr (.inr (.inl (hwr ▸ h)))
      · exact .inr (.inr (.inr (hcl ▸ h)))
    · exact hp' hret
  writer := hwr ▸ hk.writerOK hi.writer
  closer := hc
  queue := hq

theorem recorder_inv (hi : Inv lim s) {i : Nat} {p : RecordPc} (hp : s.recorders[i]? = some p)
    (hh : HarmlessRecord lim s io p) {t : Service} {p' : RecordPc} (h : s.stepRecord lim io p = some (t, p')) :
    Inv lim { t with recorders := s.recorders.set i p' } := by
  cases p with
  | start row =>
    obtain ⟨rfl, rfl⟩ := Prod.mk.inj (Option.some.inj h)
    refine hi.of_record hp rfl ?_ (.of_eq rfl rfl rfl) rfl rfl rfl (fun _ h => h) (fun hret => ?_) hi.closer hi.queue
    · split_ifs <;> rfl
    · split_ifs at hret <;> exact hret.elim
  | pushing row =>
    simp only [stepRecord] at h
    split_ifs at h with hlt <;> obtain ⟨rfl, rfl⟩ := Prod.mk.inj (Option.some.inj h)
    · have htime := hh hlt
      have hcl := hi.closer
      refine hi.of_record hp rfl rfl (.of_eq rfl rfl rfl) rfl rfl rfl (List.subset_append_left ..) (fun _ => ?_) ?_ ?_
      · exact .inr (.inl (by simp [RecordPc.row]))
      · rcases hc : s.closer with _ | _ | _ | late | late | _ <;> simp only [hc, InTime, CloserOK] at htime hcl ⊢
        exact ⟨hcl.1, by simp only [List.length_append, List.length_singleton]; omega⟩
      · simp only [List.length_append, List.length_singleton]; omega
    · exact hi.of_record hp rfl rfl (.of_eq rfl rfl rfl) rfl rfl rfl (fun _ h => h) (fun hret => hret.elim) hi.closer hi.queue
  | spooling row =>
    obtain ⟨rfl, rfl⟩ := Prod.mk.inj (Option.some.inj h)
    have hcl := hi.closer
    refine hi.of_record hp rfl rfl (spoolOrDrop_keeps.trans (.of_eq rfl rfl rfl)) (by simp) (by simp) (by simp) (by simp)
      (fun _ => .inl (spoolOrDrop_settled hh (List.mem_singleton_self row))) ?_ (by simpa using hi.queue)
    rw [spoolOrDrop_closer]
    exact hcl.congr (by simp) (by simp)
  | returned row => simp [stepRecord] at h

theorem select_inv (hi : Inv lim s) (hw : s.writer = .select) {ready : Ready} (h : s.stepSelect ready = some s') : Inv lim s' := by
  have hearly := hi.closer_early (by simp [hw])
  have hloc := fun t => located_of_idle (t := t) (s := s) (by rw [hw]; rfl)
  cases ready with
  | queue =>
    simp only [stepSelect] at h
    split at h
    · rename_i r q hq
      obtain rfl := Option.some.inj h
      refine hi.of_keeps (.of_eq rfl rfl rfl) hi.world rfl (fun x hx => ?_) trivial (hearly _) ?_
      · simp only [hq, hw, WriterPc.batch, List.mem_cons, List.not_mem_nil, false_or] at hx
        simp only [Located, WriterPc.batch, List.mem_singleton]
        tauto
      · have := hi.queue
        simp only [hq, List.length_cons] at this ⊢; omega
    · simp at h
  | tick =>
    obtain rfl := Option.some.inj h
    exact hi.of_keeps (.of_eq rfl rfl rfl) hi.world rfl (hloc _ rfl rfl) trivial (hearly _) hi.queue
  | flush =>
    obtain rfl := Option.some.inj h
    exact hi.of_keeps (.of_eq rfl rfl rfl) hi.world rfl (hloc _ rfl rfl) trivial (hearly _) hi.queue
  | stop =>
    simp only [stepSelect] at h
    split_ifs at h
    obtain rfl := Option.some.inj h
    exact hi.of_keeps (.of_eq rfl rfl rfl) hi.world rfl (hloc _ rfl rfl) trivial (hearly _) hi.queue

theorem step_inv (hi : Inv lim s) {a : Action} (hh : Harmless lim s a) (h : s.step lim a = some s') : Inv lim s' := by
  cases a with
  | start =>
    simp only [step] at h
    split at h
    · rename_i hw
      obtain rfl := Option.some.inj h
      exact hi.of_keeps (.of_eq rfl rfl rfl) hi.world rfl (located_of_idle (by rw [hw]; rfl) rfl rfl) trivial
        (hi.closer_early (by simp [hw]) _) hi.queue
    · simp at h
  | world b =>
    obtain ⟨w, hw, rfl⟩ := Option.map_eq_some_iff.1 h
    have hk : Keeps s { s with world := w } := .of_world hi.world hw rfl rfl
    exact hi.of_keeps hk (World.step_spec hi.world hw).2 rfl (fun _ hr => .inr hr) (hk.writerOK hi.writer) hi.closer hi.queue
  | record id e =>
    obtain rfl := Option.some.inj h
    refine ⟨hi.world, fun p hp => ?_, fun p hp hret => ?_, hi.writer, hi.closer, hi.queue⟩
    · rcases List.mem_append.1 hp with hp | hp
      · exact hi.rows p hp
      · rw [List.mem_singleton.1 hp]
        exact spoolable_rowFromEvent id e
    · rcases List.mem_append.1 hp with hp | hp
      · exact hi.located p hp hret
      · rw [List.mem_singleton.1 hp] at hret
        exact hret.elim
  | recorder i io =>
    obtain ⟨p, hp, h⟩ := Option.bind_eq_some_iff.1 h
    obtain ⟨⟨t, p'⟩, hs, h⟩ := Option.bind_eq_some_iff.1 h
    obtain rfl := Option.some.inj h
    exact recorder_inv hi hp (hh p hp) hs
  | select ready =>
    simp only [step] at h
    split at h
    · exact select_inv hi ‹_› h
    · simp at h
  | writer io now => exact stepWriter_inv hi hh h
  | close io => exact stepClose_inv hi hh h
  | timeout => exact hh.elim

theorem inv_fresh {w : World} (hw : World.Reachable w) (sp : Option Spool) : Inv lim (fresh w sp) :=
  ⟨World.inv_of_reachable hw, by simp [fresh], by simp [fresh], trivial, trivial, Nat.zero_le _⟩

/-- In every run whose steps are harmless: once `Close` and the `Record` calls have returned, the queue is
empty and every event is in the database, in the spool, or counted as dropped. -/
theorem settled_of_harmless {w : World} {sp : Option Spool} {as : List Action} (hw : World.Reachable w)
    (hh : Lts.RunAll (step lim) (Harmless lim) (fresh w sp) as) (hr : Lts.run (step lim) (fresh w sp) as = some s)
    (hclose : s.closer = .returned) (hrec : ∀ p ∈ s.recorders, p.Returned) :
    s.queue = [] ∧ ∀ p ∈ s.recorders, s.Settled p.row := by
  have hi : Inv lim s := Lts.run_invariant (fun _ _ _ hi hh hs => step_inv hi hh hs) (inv_fresh hw sp) hh hr
  have hc := hi.closer
  rw [hclose] at hc
  refine ⟨hc.2, fun p hp => ?_⟩
  rcases hi.located p hp (hrec p hp) with h | h | h | h
  · exact h
  · rw [hc.2] at h; simp at h
  · rw [hc.1] at h; simp [WriterPc.batch] at h
  · rw [hclose] at h; simp [CloserPc.late] at h

instance (lim : Limits) (s : Service) (rows : List AuditLogDO) (io : Io) : Decidable (Clean lim s rows io) :=
  inferInstanceAs (Decidable (∀ sp ∈ s.spool, _))

instance (lim : Limits) (s : Service) : Decidable (InTime lim s) := by
  unfold InTime; split <;> infer_instance

instance (lim : Limits) (s : Service) (io : Io) (p : RecordPc) : Decidable (HarmlessRecord lim s io p) := by
  unfold HarmlessRecord; split <;> infer_instance

instance (lim : Limits) (s : Service) (io : Io) (pc : WriterPc) : Decidable (HarmlessWriter lim s io pc) := by
  unfold HarmlessWriter; split <;> infer_instance

instance (lim : Limits) (s : Service) (io : Io) (pc : CloserPc) : Decidable (HarmlessClose lim s io pc) := by
  unfold HarmlessClose; split <;> infer_instance

instance (lim : Limits) (s : Service) (a : Action) : Decidable (Harmless lim s a) := by
  unfold Harmless; split <;> infer_instance

instance (p : RecordPc) : Decidable p.Returned := by
  unfold RecordPc.Returned; split <;> infer_instance

def closingRun : List Action :=
  [.start, .writer .done 1, .writer .done 1, .record Host.sampleUuid Host.bareEvent, .recorder 0 .done, .close .done,
    .close .done, .select .stop, .writer .done 1, .close .done]

def earlyPush : List Action := closingRun ++ [.recorder 0 .done, .close .done, .close .done, .close .done]

def latePush : List Action := closingRun ++ [.close .done, .recorder 0 .done]

theorem earlyPush_settled : ∃ s, Lts.run (step Host.limits) (fresh .init (some .empty)) earlyPush = some s ∧
    s.recorders ≠ [] ∧ s.queue = [] ∧ ∀ p ∈ s.recorders, s.Settled p.row := by
  have hh : Lts.RunAll (step Host.limits) (Harmless Host.limits) (fresh .init (some .empty)) earlyPush := by decide +kernel
  have hrun : (Lts.run (step Host.limits) (fresh .init (some .empty)) earlyPush).map (fun s => decide
      (s.recorders ≠ [] ∧ s.closer = .returned ∧ ∀ p ∈ s.recorders, p.Returned)) = some true := by decide +kernel
  obtain ⟨s, hs, hd⟩ := Option.map_eq_some_iff.1 hrun
  obtain ⟨hne, hclose, hrec⟩ := of_decide_eq_true hd
  exact ⟨s, hs, hne, settled_of_harmless ⟨[], rfl⟩ hh hs hclose hrec⟩

/-- The event stays in the queue of the closed service: it is in no table and no file, and not counted. -/
theorem latePush_lost : ∃ s, Lts.run (step Host.limits) (fresh .init (some .empty)) latePush = some s ∧
    s.closer = .returned ∧ (∀ p ∈ s.recorders, p.Returned) ∧ s.queue ≠ [] ∧ ∃ p ∈ s.recorders, ¬ s.Settled p.row := by
  have hrun : (Lts.run (step Host.limits) (fresh .init (some .empty)) latePush).map (fun s => decide
      ((s.closer = .returned ∧ (∀ p ∈ s.recorders, p.Returned) ∧ s.queue ≠ []) ∧ s.recorders ≠ [] ∧ s.world.full = [] ∧
        s.spool = some .empty ∧ s.dropped = [])) = some true := by decide +kernel
  obtain ⟨s, hs, hd⟩ := Option.map_eq_some_iff.1 hrun
  obtain ⟨⟨hclose, hrec, hq⟩, hne, hfull, hspool, hdrop⟩ := of_decide_eq_true hd
  obtain ⟨p, hp⟩ := List.exists_mem_of_ne_nil _ hne
  refine ⟨s, hs, hclose, hrec, hq, p, hp, ?_⟩
  rintro (⟨x, hx, -⟩ | ⟨sp, hsp, h⟩ | h)
  · simp [hfull] at hx
  · obtain rfl : Spool.empty = sp := by simpa [hspool] using hsp
    rcases h with ⟨a, b, he, -⟩ | ⟨f, hf, -⟩
    · simp [Spool.empty] at he
    · simp [Spool.empty] at hf
  · simp [hdrop] at h

end Service

end Audit
