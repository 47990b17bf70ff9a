import Privahub.Sync.CenterOrder

/-!
# What a catch-up leaves at an edge

An edge connects, and until its catch-up has been sent and read nothing else is written to it and the
center is left alone. Then the edge holds the rows it was sent, and of every other key what it held
before (`catchup_rows`): rows deleted at the center, rows whose visibility alone has changed, and rows
not modified after the mark the edge reports are not sent. `initialSync_converges` says when the
edge's live rows are the center's.
-/

namespace Sync

namespace Center

def LiveRow (rows : List Stored) (table : Bytes) (s : Stored) : Prop := s ∈ rows ∧ s.row.table = table ∧ s.isDeleted = false

instance (rows : List Stored) (table : Bytes) (s : Stored) : Decidable (LiveRow rows table s) := inferInstanceAs (Decidable (_ ∧ _))

def Accepted (u : CaseTables) (r : Entity) : Prop := r.keyed = true ∧ ignoreEdge u r = false

theorem mem_keep {rows : List Stored} {r : Entity} {s : Stored} : s ∈ keep rows r ↔ s ∈ rows ∧ ¬ s.row.SameKey r := by
  simp [keep]

def Unique (rows : List Stored) : Prop := rows.Pairwise fun s t => ¬ s.row.SameKey t.row

namespace Unique

variable {rows : List Stored} {s t : Stored}

theorem eq (h : Unique rows) (hs : s ∈ rows) (ht : t ∈ rows) (hk : s.row.SameKey t.row) : s = t := by
  by_contra hne
  have : Std.Symm fun s t : Stored => ¬ s.row.SameKey t.row := ⟨fun _ _ h h' => h h'.symm⟩
  exact List.Pairwise.forall h hs ht hne hk

theorem upsert (h : Unique rows) (s : Stored) : Unique (upsert rows s) := by
  refine List.pairwise_append.2 ⟨List.Pairwise.sublist List.filter_sublist h, List.pairwise_singleton _ _, fun t ht u hu => ?_⟩
  rw [List.mem_singleton.1 hu]
  simpa using (List.mem_filter.1 ht).2

theorem softDelete (h : Unique rows) (r : Entity) (ver : Nat) : Unique (softDelete rows r ver) := by
  refine List.pairwise_map.2 (List.Pairwise.imp (fun {s t} hst => ?_) h)
  split_ifs <;> exact hst

theorem apply (h : Unique rows) (c : Change) : Unique (c.apply rows) := by
  unfold Change.apply
  split_ifs
  · exact List.Pairwise.sublist List.filter_sublist h
  · exact h.softDelete ..
  · exact h.upsert _

theorem foldl (h : Unique rows) (cs : List Change) : Unique (cs.foldl (fun rows c => c.apply rows) rows) := by
  induction cs generalizing rows with
  | nil => exact h
  | cons c cs ih => exact ih (h.apply c)

end Unique

namespace World

variable {w₀ w w' : World} {n : Bytes} {i sid : Nat} {a : Action} {m : Message} {s t : Stored}

structure Kept (w : World) : Prop where
  unique : Unique w.rows
  rows : ∀ s ∈ w.rows, s.row.gmtModified ≠ 0
  uncommitted : ∀ c ∈ w.uncommitted, c.msg.action ≠ .remove → c.msg.row.gmtModified ≠ 0

theorem step_kept (hk : Kept w) (h : w.step a = some w') : Kept w' := by
  cases center_cases h with
  | same hr hu => exact ⟨hr ▸ hk.unique, hr ▸ hk.rows, hu ▸ hk.uncommitted⟩
  | change tx action row isDeleted hard ha =>
    subst ha
    obtain ⟨-, hg, rfl⟩ := change_cases h
    refine ⟨hk.unique, hk.rows, fun c hc => ?_⟩
    rcases List.mem_append.1 hc with hc | hc
    · exact hk.uncommitted c hc
    · rw [List.mem_singleton.1 hc]
      exact hg
  | commit tx ha =>
    subst ha
    obtain rfl := Option.some.inj h
    refine ⟨hk.unique.foldl _, foldl_apply_keeps hk.rows ?_ fun _ _ _ hs => hs, fun c hc => hk.uncommitted c (List.mem_filter.1 hc).1⟩
    exact fun c hc => hk.uncommitted c (List.mem_filter.1 hc).1
  | rollback tx ha =>
    subst ha
    obtain rfl := Option.some.inj h
    exact ⟨hk.unique, hk.rows, fun c hc => hk.uncommitted c (List.mem_filter.1 hc).1⟩

/-- A row that the catch-up of `n` sends. -/
def Sent (w : World) (n : Bytes) (s : Stored) : Prop :=
  (∃ t ∈ (w.edges n).tables, t ∈ w.tables ∧ s ∈ w.rowsSince ⟨t, (w.edges n).checkpoint t⟩) ∧ Visible w.rows s.row n

/-- Nothing but call `i` of `InitialSync` is written to the edge of `n`, which stays connected; the
rows of the center are left alone, and the call meets no error. -/
def Quiet (n : Bytes) (i : Nat) (w : World) : Action → Prop
  | .change .. | .commit _ => False
  | .send _ => ∀ f ∈ w.flush, ∀ d ∈ f.current, d.held ≠ (w.edges n).conn
  | .connect x | .openOther x _ | .hangup x => x ≠ n
  | .close sid => (w.edges n).conn ≠ some sid
  | .readTable j ok _ => j = i → ok = true
  | .sendRow j ok => if j = i then ok = true else ∀ c ∈ w.syncs[j]?, ∀ h ∈ c.held, (w.edges n).conn ≠ some h.2
  | _ => True

instance (n : Bytes) (i : Nat) (w : World) : ∀ a, Decidable (Quiet n i w a)
  | .change .. | .commit _ => .isFalse id
  | .send _ => inferInstanceAs (Decidable (∀ f ∈ w.flush, ∀ d ∈ f.current, d.held ≠ (w.edges n).conn))
  | .connect x | .openOther x _ | .hangup x => inferInstanceAs (Decidable (x ≠ n))
  | .close sid => inferInstanceAs (Decidable ((w.edges n).conn ≠ some sid))
  | .readTable j ok _ => inferInstanceAs (Decidable (j = i → ok = true))
  | .sendRow j ok =>
    inferInstanceAs (Decidable (if j = i then ok = true else ∀ c ∈ w.syncs[j]?, ∀ h ∈ c.held, (w.edges n).conn ≠ some h.2))
  | .rollback _ | .flush | .deliver _ | .target _ | .delivered | .flushed | .apply .. | .nextRow _ => .isTrue trivial

/-- Call `i` has returned, and the edge has read all that was written to it. -/
def CaughtUp (w : World) (n : Bytes) (i : Nat) : Prop :=
  (∃ c ∈ w.syncs[i]?, c.subs = [] ∧ c.rows = [] ∧ c.held = none ∧ c.failed = false) ∧ w.stream n = []

instance (w : World) (n : Bytes) (i : Nat) : Decidable (CaughtUp w n i) := inferInstanceAs (Decidable (_ ∧ _))

theorem handed_quiet (hq : Quiet n i w a) : w.handed n a = none ∨ a = .sendRow i true := by
  cases a with
  | send ok =>
    left
    cases ok
    · rfl
    · simp only [handed]
      split
      · rename_i hf
        rw [if_neg]
        exact fun hc => hq _ hf _ rfl hc.symm
      · rfl
  | sendRow j ok =>
    cases ok
    · exact .inl rfl
    · by_cases hj : j = i
      · exact .inr (hj ▸ rfl)
      · left
        simp only [Quiet, if_neg hj] at hq
        simp only [handed]
        split
        · rename_i hc
          rw [if_neg]
          exact hq _ hc _ rfl
        · rfl
  | _ => exact .inl rfl

theorem current_quiet (hq : Quiet n i w a) (h : w.step a = some w') (hconn : (w.edges n).conn = some sid) (hcur : w.current n = some sid) :
    w'.current n = some sid := by
  have hclose : ∀ j, j ≠ sid → (w.closeSession j).current n = some sid := fun j hj => by
    simp only [closeSession, hcur]
    rw [if_neg fun h => hj (Option.some.inj h).symm]
  cases a with
  | change => exact hq.elim
  | commit => exact hq.elim
  | rollback => obtain rfl := Option.some.inj h; exact hcur
  | flush => obtain ⟨-, rfl⟩ := flush_cases h; exact hcur
  | deliver => obtain ⟨_, _, _, -, -, rfl⟩ := deliver_cases h; exact hcur
  | target => obtain ⟨_, _, _, _, _, -, ⟨_, -, -, rfl⟩ | ⟨_, -, rfl⟩⟩ := target_cases h <;> exact hcur
  | send =>
    obtain ⟨_, _, _, _, j, _, hf, ⟨-, -, rfl⟩ | ⟨-, rfl⟩⟩ := send_cases h
    · exact hcur
    · exact hclose j fun hj => hq _ hf _ rfl (by rw [hconn, hj])
  | delivered => obtain ⟨_, _, _, -, rfl⟩ := delivered_cases h; exact hcur
  | flushed => obtain ⟨_, -, rfl⟩ := flushed_cases h; exact hcur
  | connect =>
    obtain ⟨-, rfl⟩ := connect_cases h
    exact (Function.update_of_ne (Ne.symm hq) _ _).trans hcur
  | openOther =>
    obtain rfl := openOther_cases h
    exact (Function.update_of_ne (Ne.symm hq) _ _).trans hcur
  | close j =>
    obtain rfl := Option.some.inj h
    exact hclose j fun hj => hq (by rw [hconn, hj])
  | hangup => obtain rfl := Option.some.inj h; exact hcur
  | apply => obtain ⟨_, _, _, -, -, rfl⟩ := apply_cases h; exact hcur
  | readTable => obtain ⟨_, _, _, _, _, -, -, rfl⟩ := readTable_cases h; exact hcur
  | nextRow => obtain ⟨_, _, _, _, _, _, -, ⟨-, rfl⟩ | ⟨-, rfl⟩ | ⟨_, -, -, rfl⟩⟩ := nextRow_cases h <;> exact hcur
  | sendRow j ok =>
    obtain ⟨_, _, _, _, _, cur, _, hc, ⟨-, -, rfl⟩ | ⟨rfl, rfl⟩⟩ := sendRow_cases h
    · exact hcur
    · refine hclose cur fun hj => ?_
      simp only [Quiet, Bool.false_eq_true] at hq
      split_ifs at hq
      exact hq _ hc _ rfl (by rw [hconn, hj])

theorem todo_cases {c : Catchup} (hs : SyncStep w w' i c a) (hr : w'.rows = w.rows) (ht : w'.tables = w.tables) (hq : Quiet n i w a)
    (hcur : w.current c.node ≠ none) : ∃ c', w'.syncs[i]? = some c' ∧ c'.node = c.node ∧
      (∀ h ∈ c'.held, h ∈ c.held ∨ w.current c.node = some h.2) ∧
      ((a ≠ .sendRow i true ∧ ∀ m, m ∈ w'.todo c' ↔ m ∈ w.todo c) ∨
        ∃ h ∈ c.held, a = .sendRow i true ∧ ∀ m, m ∈ w.todo c ↔ m = h.1 ∨ m ∈ w'.todo c') := by
  have hsince : ∀ sub, w'.rowsSince sub = w.rowsSince sub := fun sub => by rw [rowsSince, rowsSince, hr]
  have htodo : ∀ c, w'.todo c = w.todo c := fun c => by simp only [todo, hr, ht, hsince]
  cases hs with
  | same ha hc' => exact ⟨c, hc', rfl, fun _ hh => .inl hh, .inl ⟨ha, fun m => by rw [htodo]⟩⟩
  | read ok order sub subs ha hs hr' hh hp hc' =>
    subst ha
    have hok : ok = true := hq rfl
    refine ⟨_, hc', rfl, fun _ hh => .inl hh, .inl ⟨by simp, fun m => ?_⟩⟩
    rw [htodo, mem_todo, mem_todo]
    refine or_congr_right (exists_congr fun s => and_congr_left fun _ => ?_)
    have hmem : s ∈ (if sub.table ∈ w.tables ∧ ok = true then order else []) ↔ sub.table ∈ w.tables ∧ s ∈ w.rowsSince sub := by
      rw [hok, ← hp.mem_iff]
      split_ifs with hsub
      · simp [hsub.1]
      · simpa using fun hsub' => absurd ⟨hsub', rfl⟩ hsub
    simp only [hs, hr', hmem, List.not_mem_nil, false_or, List.mem_cons, exists_eq_or_imp]
  | skip s rows ha hr' hh hv hc' =>
    subst ha
    refine ⟨_, hc', rfl, fun _ hh => .inl hh, .inl ⟨by simp, fun m => ?_⟩⟩
    rw [htodo]
    simp [todo, hr', hv]
  | take s rows cur ha hr' hh hv hcur hc' =>
    subst ha
    refine ⟨_, hc', rfl, fun h hh => .inr ?_, .inl ⟨by simp, fun m => ?_⟩⟩
    · rw [← Option.some.inj hh]
      exact hcur
    · rw [htodo]
      simp [todo, hr', hh, hv]
  | sent m cur ha hh hc' =>
    refine ⟨_, hc', rfl, (fun _ hh => by cases hh), .inr ⟨(m, cur), hh, ha, fun m' => ?_⟩⟩
    rw [htodo]
    simp [todo, hh]
  | aborted ha hc' =>
    rcases ha with ha | rfl
    · exact absurd ha hcur
    · simp [Quiet] at hq

theorem handed_row {c : Catchup} {p : Message × Nat} (hc : w.syncs[i]? = some c) (hp : p ∈ c.held) (hconn : (w.edges n).conn = some p.2) :
    w.handed n (.sendRow i true) = some p.1 := by
  obtain ⟨sid, x, subs, rows, held, failed⟩ := c
  cases hp
  simp only [handed, hc, hconn, if_true]

/-- The rows of an edge that has read `done`. -/
def Holds (u : CaseTables) (before : List Stored) (done : List Message) (rows : List Stored) : Prop :=
  ∀ s, s ∈ rows ↔ (∃ m ∈ done, Accepted u m.row ∧ s = ⟨m.row, false, m.ver⟩) ∨
    (s ∈ before ∧ ∀ m ∈ done, Accepted u m.row → ¬ m.row.SameKey s.row)

/-- Call `i`, of which the edge has read `done`. -/
structure Catching (w₀ : World) (n : Bytes) (i sid : Nat) (w : World) : Prop where
  wired : Wired w
  rows : w.rows = w₀.rows
  config : w.tables = w₀.tables ∧ w.unicode = w₀.unicode
  tables : (w.edges n).tables = (w₀.edges n).tables
  conn : (w.edges n).conn = some sid
  cur : w.current n = some sid
  sync : ∃ c done, w.syncs[i]? = some c ∧ c.node = n ∧ (∀ h ∈ c.held, h.2 = sid) ∧
    (∀ m, m ∈ done ∨ m ∈ w.stream n ∨ m ∈ w.todo c ↔ ∃ s, Sent w₀ n s ∧ s.snapshot = m) ∧
    Holds w₀.unicode (w₀.edges n).rows done (w.edges n).rows

theorem Sent.mem (h : Sent w n s) : s ∈ w.rows := by
  obtain ⟨⟨t, -, -, hs⟩, -⟩ := h
  exact (List.mem_filter.1 hs).1

theorem Sent.table (h : Sent w n s) : s.row.table ∈ (w.edges n).tables := by
  obtain ⟨⟨t, ht, -, hs⟩, -⟩ := h
  have := (List.mem_filter.1 hs).2
  simp only [Bool.and_eq_true, decide_eq_true_eq] at this
  rw [this.1.1]
  exact ht

theorem Holds.ignore {u : CaseTables} {before rows : List Stored} {done : List Message} (h : Holds u before done rows)
    (hm : ¬ Accepted u m.row) : Holds u before (done ++ [m]) rows := by
  intro x
  rw [h x]
  have hl : (∃ m' ∈ done ++ [m], Accepted u m'.row ∧ x = ⟨m'.row, false, m'.ver⟩) ↔
      ∃ m' ∈ done, Accepted u m'.row ∧ x = ⟨m'.row, false, m'.ver⟩ := by
    simp [or_and_right, exists_or, hm]
  have hr : (∀ m' ∈ done ++ [m], Accepted u m'.row → ¬ m'.row.SameKey x.row) ↔
      ∀ m' ∈ done, Accepted u m'.row → ¬ m'.row.SameKey x.row := by
    simp [or_imp, forall_and, hm]
  rw [hl, hr]

theorem Holds.apply {u : CaseTables} {tables : List Bytes} {now : Int} {before rows : List Stored} {done : List Message}
    (h : Holds u before done rows) (hk : Kept w) (hs : Sent w n s) (ht : tables = (w.edges n).tables)
    (hd : ∀ m ∈ done, ∃ t, Sent w n t ∧ t.snapshot = m) :
    Holds u before (done ++ [s.snapshot]) (Apply u tables now rows s.snapshot) := by
  unfold Apply
  split_ifs with hi hr
  · refine h.ignore fun ha => ?_
    rcases hi with hi | hi
    · exact hi (ht ▸ hs.table)
    · exact absurd (hi.symm.trans ha.2) (by decide)
  · cases hr
  unfold Upsert
  split_ifs with hkey hg
  · exact absurd hg (hk.rows s hs.mem)
  · have ha : Accepted u s.row := ⟨hkey, by simpa [Stored.snapshot] using (not_or.1 hi).2⟩
    intro x
    have hmem : x ∈ upsert rows ⟨s.snapshot.row, false, s.snapshot.ver⟩ ↔
        (x ∈ rows ∧ ¬ x.row.SameKey s.row) ∨ x = ⟨s.row, false, s.ver⟩ := by
      rw [upsert, List.mem_append, List.mem_singleton, mem_keep]
      rfl
    rw [hmem]
    constructor
    · rintro (⟨hx, hne⟩ | rfl)
      · rcases (h x).1 hx with ⟨m, hm, hma, rfl⟩ | ⟨hx, hxd⟩
        · exact .inl ⟨m, List.mem_append_left _ hm, hma, rfl⟩
        · refine .inr ⟨hx, fun m hm hma hmk => ?_⟩
          rcases List.mem_append.1 hm with hm | hm
          · exact hxd m hm hma hmk
          · rw [List.mem_singleton.1 hm] at hmk
            exact hne hmk.symm
      · exact .inl ⟨s.snapshot, by simp, ha, rfl⟩
    · rintro (⟨m, hm, hma, rfl⟩ | ⟨hx, hxd⟩)
      · rcases List.mem_append.1 hm with hm | hm
        · obtain ⟨t, ht, rfl⟩ := hd m hm
          by_cases hts : t.row.SameKey s.row
          · -- the rows of the center have different keys
            obtain rfl := hk.unique.eq ht.mem hs.mem hts
            exact .inr rfl
          · exact .inl ⟨(h _).2 (.inl ⟨_, hm, hma, rfl⟩), hts⟩
        · rw [List.mem_singleton.1 hm]
          exact .inr rfl
      · refine .inl ⟨(h x).2 (.inr ⟨hx, fun m hm => hxd m (List.mem_append_left _ hm)⟩), fun hxs => ?_⟩
        exact hxd s.snapshot (by simp) ha hxs.symm
  · exact h.ignore fun ha => hkey ha.1

theorem step_catching (hk : Kept w₀) (hc : Catching w₀ n i sid w) (hq : Quiet n i w a) (h : w.step a = some w') :
    Catching w₀ n i sid w' := by
  obtain ⟨c, done, hci, hcn, hheld, hall, hrows⟩ := hc.sync
  have hr : w'.rows = w.rows := by
    cases center_cases h with
    | same hr => exact hr
    | change _ _ _ _ _ ha => subst ha; exact hq.elim
    | commit _ ha => subst ha; exact hq.elim
    | rollback _ ha => subst ha; obtain rfl := Option.some.inj h; rfl
  have hcfg := config_eq h
  have hcur : w.current c.node = some sid := hcn ▸ hc.cur
  obtain ⟨c', hci', hcn', hheld', htodo⟩ := todo_cases (sync_cases h hci) hr hcfg.1 hq (by rw [hcur]; simp)
  have hheld' : ∀ h ∈ c'.held, h.2 = sid := fun h hh => by
    rcases hheld' h hh with hh | hh
    · exact hheld h hh
    · exact (Option.some.inj (hcur.symm.trans hh)).symm
  have hcfg' : w'.tables = w₀.tables ∧ w'.unicode = w₀.unicode := ⟨hcfg.1.trans hc.config.1, hcfg.2.trans hc.config.2⟩
  have hwired := step_wired hc.wired h
  have hcur' := current_quiet hq h hc.conn hc.cur
  cases edge_cases hc.wired h n with
  | same hh he hs =>
    refine ⟨hwired, hr.trans hc.rows, hcfg', he ▸ hc.tables, he ▸ hc.conn, hcur', c', done, hci', hcn'.trans hcn, hheld', ?_, he ▸ hrows⟩
    rcases htodo with ⟨-, htodo⟩ | ⟨p, hp, rfl, -⟩
    · intro m
      rw [hs, htodo, hall]
    · rw [handed_row hci hp (by rw [hc.conn, hheld p hp])] at hh
      cases hh
  | write m hh he hs =>
    refine ⟨hwired, hr.trans hc.rows, hcfg', he ▸ hc.tables, he ▸ hc.conn, hcur', c', done, hci', hcn'.trans hcn, hheld', ?_, he ▸ hrows⟩
    rcases htodo with ⟨hne, -⟩ | ⟨p, hp, rfl, htodo⟩
    · rcases handed_quiet hq with hn | ha
      · rw [hn] at hh
        cases hh
      · exact absurd ha hne
    · rw [handed_row hci hp (by rw [hc.conn, hheld p hp])] at hh
      obtain rfl := Option.some.inj hh
      intro m'
      rw [hs, ← hall, htodo, List.mem_append, List.mem_singleton]
      tauto
  | apply now m ha hs he =>
    obtain ⟨s, hsent, rfl⟩ := (hall m).1 (.inr (.inl (hs ▸ List.mem_cons_self ..)))
    have hdone : ∀ m ∈ done, ∃ t, Sent w₀ n t ∧ t.snapshot = m := fun m hm => (hall m).1 (.inl hm)
    refine ⟨hwired, hr.trans hc.rows, hcfg', ?_, ?_, hcur', c', done ++ [s.snapshot], hci', hcn'.trans hcn, hheld', ?_, ?_⟩
    · rw [he]
      exact hc.tables
    · rw [he]
      exact hc.conn
    · rcases htodo with ⟨-, htodo⟩ | ⟨p, hp, ha', -⟩
      · intro m'
        rw [htodo, ← hall, hs, List.mem_append, List.mem_singleton, List.mem_cons]
        tauto
      · exact absurd (ha.symm.trans ha') nofun
    · rw [he, hc.config.2]
      exact hrows.apply hk hsent hc.tables hdone
  | turn conn ha =>
    rcases ha with rfl | rfl
    · exact absurd rfl hq
    · exact absurd rfl hq

theorem connect_catching (hw : Wired w₀) (h : w₀.step (.connect n) = some w) :
    Catching w₀ n w₀.syncs.length w₀.sessions.length w := by
  have hwired := step_wired hw h
  obtain ⟨-, rfl⟩ := connect_cases h
  refine ⟨hwired, rfl, ⟨rfl, rfl⟩, by simp [setEdge], by simp [setEdge], Function.update_self .., ?_⟩
  refine ⟨_, [], List.getElem?_concat_length .., rfl, (fun _ hh => by cases hh), fun m => ?_, fun s => by simp [setEdge]⟩
  have hstream : m ∉ stream { w₀.openSession n ((w₀.edges n).Checkpoints.filter fun s => decide (s.table ∈ w₀.tables)) with
      edges := w₀.setEdge n { w₀.edges n with conn := some w₀.sessions.length } } n := by
    rw [stream]
    simp only [setEdge, Function.update_self, Option.elim_some]
    rw [streamOf_opened]
    exact List.not_mem_nil
  constructor
  · rintro (hm | hm | hm)
    · cases hm
    · exact absurd hm hstream
    · rcases mem_todo.1 hm with ⟨_, hh⟩ | ⟨s, hs | ⟨sub, hsub, -, hs⟩, hv, rfl⟩
      · cases hh
      · cases hs
      · obtain ⟨hsub, hst⟩ := List.mem_filter.1 hsub
        obtain ⟨t, ht, rfl⟩ := List.mem_map.1 hsub
        exact ⟨s, ⟨⟨t, ht, of_decide_eq_true hst, hs⟩, hv⟩, rfl⟩
  · rintro ⟨s, ⟨⟨t, ht, htw, hs⟩, hv⟩, rfl⟩
    have hsub : (⟨t, (w₀.edges n).checkpoint t⟩ : Subscription) ∈
        (w₀.edges n).Checkpoints.filter fun s => decide (s.table ∈ w₀.tables) :=
      List.mem_filter.2 ⟨List.mem_map.2 ⟨t, ht, rfl⟩, decide_eq_true htw⟩
    exact .inr (.inr (mem_todo.2 (.inr ⟨s, .inr ⟨_, hsub, htw, hs⟩, hv, rfl⟩)))

/-- A row of the table that the catch-up of `n` sends and the edge stores. -/
def Resent (w : World) (n table : Bytes) (s : Stored) : Prop :=
  s ∈ w.rowsSince ⟨table, (w.edges n).checkpoint table⟩ ∧ Visible w.rows s.row n ∧ Accepted w.unicode s.row

theorem mem_rowsSince {sub : Subscription} (h : s ∈ w.rowsSince sub) : s ∈ w.rows ∧ s.row.table = sub.table ∧ s.isDeleted = false := by
  obtain ⟨hm, hp⟩ := List.mem_filter.1 h
  simp only [Bool.and_eq_true, decide_eq_true_eq] at hp
  exact ⟨hm, hp.1⟩

variable {u : CaseTables} {tables : List Bytes} {maxRetries : Int} {edgeTables : Bytes → List Bytes} {as : List Action} {table : Bytes}

theorem init_kept : Kept (init u tables maxRetries edgeTables) := ⟨.nil, fun _ h => (nomatch h), fun _ h => (nomatch h)⟩

theorem catchup_rows (hr : Lts.Reachable step (init u tables maxRetries edgeTables) w₀) (hc : w₀.step (.connect n) = some w)
    (hq : Lts.RunAll step (Quiet n w₀.syncs.length) w as) (hrun : Lts.run step w as = some w') (hd : CaughtUp w' n w₀.syncs.length)
    (ht : table ∈ (w₀.edges n).tables) (ht' : table ∈ w₀.tables) (s : Stored) : LiveRow (w'.edges n).rows table s ↔
      Resent w₀ n table s ∨ (LiveRow (w₀.edges n).rows table s ∧ ∀ t, Resent w₀ n table t → ¬ t.row.SameKey s.row) := by
  have hk : Kept w₀ := hr.invariant (fun _ _ _ => step_kept) init_kept
  have hw : Wired w₀ := hr.invariant (fun _ _ _ => step_wired) (init_wired ..)
  have hfin := Lts.run_invariant (fun _ _ _ hi ho hs => step_catching hk hi ho hs) (connect_catching hw hc) hq hrun
  obtain ⟨c, done, hci, hcn, -, hall, hrows⟩ := hfin.sync
  obtain ⟨⟨c', hc', hsubs, hcrows, hheld, -⟩, hstream⟩ := hd
  obtain rfl : c = c' := Option.some.inj (hci.symm.trans hc')
  -- everything that was to be sent has been read
  have hdone : ∀ m, m ∈ done ↔ ∃ t, Sent w₀ n t ∧ t.snapshot = m := fun m => by
    rw [← hall, hstream, todo, hheld, hcrows, hsubs]
    simp
  have hsent : ∀ t, t.row.table = table → (Sent w₀ n t ↔ t ∈ w₀.rowsSince ⟨table, (w₀.edges n).checkpoint table⟩ ∧ Visible w₀.rows t.row n) := by
    refine fun t htab => and_congr_left fun _ => ⟨?_, fun h => ⟨table, ht, ht', h⟩⟩
    rintro ⟨x, -, -, hx⟩
    rwa [← htab, (mem_rowsSince hx).2.1]
  have hlive : ∀ t, Sent w₀ n t → (⟨t.snapshot.row, false, t.snapshot.ver⟩ : Stored) = t := by
    rintro ⟨row, isDeleted, ver⟩ ⟨⟨x, -, -, hx⟩, -⟩
    have := (mem_rowsSince hx).2.2
    simp only [Stored.snapshot] at this ⊢
    rw [this]
  have hkey : (∀ m ∈ done, Accepted w₀.unicode m.row → ¬ m.row.SameKey s.row) ↔
      ∀ t, Sent w₀ n t → Accepted w₀.unicode t.row → ¬ t.row.SameKey s.row :=
    ⟨fun h t ht => h t.snapshot ((hdone _).2 ⟨t, ht, rfl⟩), fun h m hm => by obtain ⟨t, ht, rfl⟩ := (hdone m).1 hm; exact h t ht⟩
  rw [LiveRow, hrows s, hkey]
  constructor
  · rintro ⟨⟨m, hm, ha, rfl⟩ | ⟨hs, hne⟩, htab, hl⟩
    · obtain ⟨t, hts, rfl⟩ := (hdone m).1 hm
      rw [hlive t hts] at htab ⊢
      exact .inl ⟨((hsent t htab).1 hts).1, hts.2, ha⟩
    · refine .inr ⟨⟨hs, htab, hl⟩, fun t ht hts => hne t ?_ ht.2.2 hts⟩
      exact (hsent t (mem_rowsSince ht.1).2.1).2 ⟨ht.1, ht.2.1⟩
  · rintro (⟨hs, hv, ha⟩ | ⟨⟨hs, htab, hl⟩, hne⟩)
    · have hms := mem_rowsSince hs
      have hts := (hsent s hms.2.1).2 ⟨hs, hv⟩
      exact ⟨.inl ⟨s.snapshot, (hdone _).2 ⟨s, hts, rfl⟩, ha, (hlive s hts).symm⟩, hms.2.1, hms.2.2⟩
    · refine ⟨.inr ⟨hs, fun t hts ha htk => hne t ?_ htk⟩, htab, hl⟩
      obtain ⟨h₁, h₂⟩ := (hsent t (htk.1.trans htab)).1 hts
      exact ⟨h₁, h₂, ha⟩

def offline : List Action := saved 0 (routeTo "bob" 1) ++ [.connect alice, .readTable 0 true [⟨routeTo "bob" 1, false, 0⟩], .nextRow 0,
  .sendRow 0 true, .apply alice 0, .hangup alice] ++ saved 1 (routeTo "carol" 2)

def catchUp : List Action :=
  [.readTable 1 true [⟨routeTo "carol" 2, false, 1⟩], .nextRow 1, .sendRow 1 true, .apply alice 0]

def Diverges (start : World) (offline catchUp : List Action) (table : Bytes) (s : Stored) : Prop :=
  ∃ w₀ w w', Lts.run step start offline = some w₀ ∧ w₀.step (.connect alice) = some w ∧ Lts.run step w catchUp = some w' ∧
    Lts.RunAll step (Quiet alice w₀.syncs.length) w catchUp ∧ CaughtUp w' alice w₀.syncs.length ∧ table ∈ (w₀.edges alice).tables ∧
    table ∈ w₀.tables ∧ ¬ (LiveRow (w'.edges alice).rows table s ↔ LiveRow w'.rows table s ∧ Visible w'.rows s.row alice)

def removedOffline : List Action := saved 0 (routeTo "bob" 1) ++ [.connect alice, .readTable 0 true [⟨routeTo "bob" 1, false, 0⟩],
  .nextRow 0, .sendRow 0 true, .apply alice 0, .hangup alice, .close 0, .change 1 .remove (routeTo "bob" 1) false false, .commit 1]

def project (id : String) (t : Int) : Entity := ⟨TableProject, [(str "project_id", str id)], t * 1000000000⟩

def member (id : String) (t : Int) : Entity := ⟨TableProjectNode, [(str "project_id", str id), (str "node_id", alice)], t * 1000000000⟩

def startProjects : World := init .asciiCase DefaultCenterTables 3 fun _ => [TableProject]

def joinedOffline : List Action := saved 0 (project "p" 1) ++ saved 1 (project "q" 2) ++ saved 2 (member "q" 2) ++
  [.connect alice, .readTable 0 true [⟨project "p" 1, false, 0⟩, ⟨project "q" 2, false, 1⟩], .nextRow 0, .nextRow 0, .sendRow 0 true,
    .apply alice 0, .hangup alice] ++ saved 3 (member "p" 3)

end World

end Center

end Sync
