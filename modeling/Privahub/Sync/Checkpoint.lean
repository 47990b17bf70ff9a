import Privahub.Sync.Converge

/-!
# What an edge's checkpoint promises

The mark an edge reports for a table is the time of the newest row it has, whatever it got before that row. In a run in which no row moves the mark past
one that the edge has not been given, nothing at or below the mark is missing (`low_water_run`). The catch-up does not see to that: it sends the rows in
the order the database returns them in and may end after any of them (`passed_over`).
-/

namespace Sync

namespace Center

/-- A row of the table that the edge of `n` is to have. -/
def Due (rows : List Stored) (n table : Bytes) (s : Stored) : Prop := LiveRow rows table s ∧ Visible rows s.row n

instance (rows : List Stored) (n table : Bytes) (s : Stored) : Decidable (Due rows n table s) := inferInstanceAs (Decidable (_ ∧ _))

/-- The row is among the messages, in a version at least as new. -/
def Covers (l : List Message) (s : Stored) : Prop := ∃ m ∈ l, m.row.SameKey s.row ∧ s.ver ≤ m.ver

instance (l : List Message) (s : Stored) : Decidable (Covers l s) := inferInstanceAs (Decidable (∃ m ∈ l, _))

def Marks (u : CaseTables) (table : Bytes) (m : Message) : Prop := m.row.table = table ∧ m.action ≠ .remove ∧ Accepted u m.row

instance (u : CaseTables) (table : Bytes) (m : Message) : Decidable (Marks u table m) :=
  inferInstanceAs (Decidable (_ ∧ _ ∧ _ ∧ _))

/-- None of the messages takes the mark past the row before the row is there. -/
def NoGap (u : CaseTables) (table : Bytes) (l : List Message) (s : Stored) : Prop :=
  ∀ p ∈ l.inits, ∀ m ∈ p.getLast?, Marks u table m → s.row.gmtModified ≤ truncate m.row.gmtModified → Covers p s

instance (u : CaseTables) (table : Bytes) (l : List Message) (s : Stored) : Decidable (NoGap u table l s) :=
  inferInstanceAs (Decidable (∀ p ∈ l.inits, _))

variable {u : CaseTables} {table n : Bytes} {l l' : List Message} {m : Message} {s r : Stored}

theorem Covers.mono (h : Covers l s) (hl : l ⊆ l') : Covers l' s := by
  obtain ⟨m, hm, hs⟩ := h
  exact ⟨m, hl hm, hs⟩

theorem NoGap.of_prefix' (h : NoGap u table l' s) (hp : l <+: l') : NoGap u table l s := by
  intro p hpl
  exact h p ((List.mem_inits _ _).2 (((List.mem_inits _ _).1 hpl).trans hp))

theorem NoGap.snoc (h : NoGap u table l s) (hm : Marks u table m → s.row.gmtModified ≤ truncate m.row.gmtModified → Covers (l ++ [m]) s) :
    NoGap u table (l ++ [m]) s := by
  intro p hp m' hm' hmarks hle
  rcases List.prefix_concat_iff.1 ((List.mem_inits _ _).1 hp) with rfl | hp
  · rw [List.getLast?_append, List.getLast?_singleton, Option.some_or] at hm'
    obtain rfl := Option.some.inj hm'
    exact hm hmarks hle
  · exact h p ((List.mem_inits _ _).2 hp) m' hm' hmarks hle

theorem NoGap.covers (h : NoGap u table (l ++ l') s) (hm : m ∈ l) (hmarks : Marks u table m) (hle : s.row.gmtModified ≤ truncate m.row.gmtModified) :
    Covers l s := by
  obtain ⟨p, q, rfl⟩ := List.append_of_mem hm
  have hpre : p ++ [m] <+: p ++ m :: q ++ l' := ⟨q ++ l', by simp⟩
  have hc := h (p ++ [m]) ((List.mem_inits _ _).2 hpre) m (by simp) hmarks hle
  exact hc.mono (by simp)

def Timed (m : Message) : Prop := m.action ≠ .remove → m.row.gmtModified ≠ 0

theorem mem_apply {tables : List Bytes} {now : Int} {rows : List Stored} (hm : Timed m) (hr : r ∈ Apply u tables now rows m) :
    (∃ t ∈ rows, t.row = r.row) ∨ m.action ≠ .remove ∧ Accepted u m.row ∧ r.row = m.row := by
  unfold Apply at hr
  split_ifs at hr with h1 h2
  · exact .inl ⟨r, hr, rfl⟩
  · unfold Delete softDelete at hr
    split_ifs at hr
    · obtain ⟨t, ht, rfl⟩ := List.mem_map.1 hr
      refine .inl ⟨t, ht, ?_⟩
      split_ifs <;> rfl
    · exact .inl ⟨r, hr, rfl⟩
  · unfold Upsert at hr
    rw [if_neg (hm h2)] at hr
    split_ifs at hr with hkey
    · rcases List.mem_append.1 hr with hr | hr
      · exact .inl ⟨r, (mem_keep.1 hr).1, rfl⟩
      · rw [List.mem_singleton.1 hr]
        exact .inr ⟨h2, ⟨hkey, by simpa using (not_or.1 h1).2⟩, rfl⟩
    · exact .inl ⟨r, hr, rfl⟩

theorem lastUpdateTime_mem {rows : List Stored} {t : Int} (h : lastUpdateTime rows table = some t) :
    ∃ r ∈ rows, r.row.table = table ∧ t = truncate r.row.gmtModified := by
  unfold lastUpdateTime at h
  split at h
  · cases h
  · rename_i x hx
    split_ifs at h
    obtain rfl := Option.some.inj h
    obtain ⟨r, hr, rfl⟩ := List.mem_map.1 (List.max?_mem hx)
    obtain ⟨hr, htable⟩ := List.mem_filter.1 hr
    exact ⟨r, hr, of_decide_eq_true htable, rfl⟩

namespace World

variable {w w' : World} {a : Action} {i : Nat}

/-- What a call of `InitialSync` has still to write of the table it is at. -/
def readBy (c : Catchup) : List Message := c.rows.map Stored.snapshot ++ c.held.elim [] fun h => [h.1]

def flushing (f : Flush) : List Message :=
  f.batch.map ChangeEvent.msg ++ f.current.elim [] (fun d => [d.ev.msg]) ++ f.retry.map ChangeEvent.msg

def underway (w : World) : List Message := w.queue.map ChangeEvent.msg ++ w.flush.elim [] flushing ++ w.syncs.flatMap readBy

theorem mem_flatMap_set {c : Catchup} (h : m ∈ (w.syncs.set i c).flatMap readBy) : m ∈ w.syncs.flatMap readBy ∨ m ∈ readBy c := by
  obtain ⟨d, hd, hm⟩ := List.mem_flatMap.1 h
  rcases List.mem_or_eq_of_mem_set hd with hd | rfl
  · exact .inl (List.mem_flatMap.2 ⟨d, hd, hm⟩)
  · exact .inr hm

theorem mem_retried {ev e : ChangeEvent} {x : Bytes} (h : e ∈ w.retried ev x) : e.msg = ev.msg := by
  unfold retried at h
  simp only at h
  split_ifs at h
  · rw [List.mem_singleton.1 h]
  · cases h

theorem mem_underway : m ∈ w.underway ↔ (∃ ev ∈ w.queue, ev.msg = m) ∨ m ∈ w.flush.elim [] flushing ∨ m ∈ w.syncs.flatMap readBy := by
  rw [underway, List.mem_append, List.mem_append, List.mem_map, or_assoc]

theorem mem_flushing {f : Flush} : m ∈ flushing f ↔
    (∃ ev ∈ f.batch, ev.msg = m) ∨ (∃ d ∈ f.current, d.ev.msg = m) ∨ ∃ ev ∈ f.retry, ev.msg = m := by
  rw [flushing, List.mem_append, List.mem_append, List.mem_map, List.mem_map, or_assoc]
  cases f.current with
  | none => simp
  | some d => simp [eq_comm]

theorem flushing_next {batch retry more : List ChangeEvent} {ev : ChangeEvent} {ts ts' : List Bytes} {held held' : Option Nat}
    (hmore : ∀ e ∈ more, e.msg = ev.msg) (h : m ∈ flushing ⟨batch, some ⟨ev, ts, held⟩, retry ++ more⟩) :
    m ∈ flushing ⟨batch, some ⟨ev, ts', held'⟩, retry⟩ := by
  rcases mem_flushing.1 h with h | ⟨d, hd, rfl⟩ | ⟨e, he, rfl⟩
  · exact mem_flushing.2 (.inl h)
  · obtain rfl := Option.some.inj hd
    exact mem_flushing.2 (.inr (.inl ⟨_, rfl, rfl⟩))
  · rcases List.mem_append.1 he with he | he
    · exact mem_flushing.2 (.inr (.inr ⟨e, he, rfl⟩))
    · exact mem_flushing.2 (.inr (.inl ⟨_, rfl, (hmore e he).symm⟩))

inductive Source (w : World) (a : Action) (m : Message) : Prop
  | before (h : m ∈ w.underway)
  | change (tx : Nat) (isDeleted hard : Bool) (h : a = .change tx m.action m.row isDeleted hard)
  | read (s : Stored) (hs : s ∈ w.rows) (h : m = s.snapshot)

theorem Source.of_flush {f : Flush} (hm : m ∈ w'.underway) (hf : w.flush = some f) (hq : ∀ e ∈ w'.queue, e ∈ w.queue ∨ e.msg ∈ flushing f)
    (hf' : ∀ g ∈ w'.flush, ∀ x ∈ flushing g, x ∈ flushing f) (hs : w'.syncs = w.syncs) : Source w a m := by
  refine .before (mem_underway.2 ?_)
  rw [hf]
  rcases mem_underway.1 hm with ⟨e, he, rfl⟩ | h | h
  · rcases hq e he with he | he
    · exact .inl ⟨e, he, rfl⟩
    · exact .inr (.inl he)
  · cases hg : w'.flush with
    | none =>
      rw [hg] at h
      cases h
    | some g =>
      rw [hg] at h
      exact .inr (.inl (hf' g hg m h))
  · exact .inr (.inr (hs ▸ h))

theorem Source.of_sync {c c' : Catchup} (hm : m ∈ w'.underway) (hc : w.syncs[i]? = some c) (hq : w'.queue = w.queue) (hf : w'.flush = w.flush)
    (hs : w'.syncs = w.syncs.set i c') (hread : ∀ x ∈ readBy c', x ∈ readBy c ∨ ∃ s ∈ w.rows, x = s.snapshot) : Source w a m := by
  rw [mem_underway, hq, hf, hs] at hm
  rcases hm with h | h | h
  · exact .before (mem_underway.2 (.inl h))
  · exact .before (mem_underway.2 (.inr (.inl h)))
  · rcases mem_flatMap_set h with h | h
    · exact .before (mem_underway.2 (.inr (.inr h)))
    · rcases hread m h with h | ⟨s, hs, rfl⟩
      · exact .before (mem_underway.2 (.inr (.inr (List.mem_flatMap.2 ⟨c, List.mem_of_getElem? hc, h⟩))))
      · exact .read s hs rfl

theorem Source.of_open {x : Bytes} {subs : List Subscription} (hm : m ∈ (w.openSession x subs).underway) : Source w a m := by
  refine .before (mem_underway.2 ?_)
  rcases mem_underway.1 hm with h | h | h
  · exact .inl h
  · exact .inr (.inl h)
  · obtain ⟨c, hc, h⟩ := List.mem_flatMap.1 h
    rcases List.mem_append.1 hc with hc | hc
    · exact .inr (.inr (List.mem_flatMap.2 ⟨c, hc, h⟩))
    · rw [List.mem_singleton.1 hc] at h
      cases h

theorem source_of_step (h : w.step a = some w') (hm : m ∈ w'.underway) : Source w a m := by
  cases a with
  | change tx action row isDeleted hard =>
    obtain ⟨-, -, rfl⟩ := change_cases h
    rcases mem_underway.1 hm with ⟨e, he, rfl⟩ | h | h
    · have he : e ∈ w.push ⟨action, row, w.next⟩ := he
      unfold push at he
      split_ifs at he
      · exact .before (mem_underway.2 (.inl ⟨e, he, rfl⟩))
      · rcases List.mem_append.1 he with he | he
        · exact .before (mem_underway.2 (.inl ⟨e, he, rfl⟩))
        · rw [List.mem_singleton.1 he]
          exact .change tx isDeleted hard rfl
    · exact .before (mem_underway.2 (.inr (.inl h)))
    · exact .before (mem_underway.2 (.inr (.inr h)))
  | commit => obtain rfl := Option.some.inj h; exact .before hm
  | rollback => obtain rfl := Option.some.inj h; exact .before hm
  | flush =>
    obtain ⟨hf, rfl⟩ := flush_cases h
    refine .before (mem_underway.2 ?_)
    rcases mem_underway.1 hm with ⟨e, he, -⟩ | h | h
    · cases he
    · rcases mem_flushing.1 h with h | ⟨d, hd, -⟩ | ⟨e, he, -⟩
      · exact .inl h
      · cases hd
      · cases he
    · exact .inr (.inr h)
  | deliver =>
    obtain ⟨ev, batch, retry, hf, -, rfl⟩ := deliver_cases h
    refine .of_flush hm hf (fun e he => .inl he) (fun g hg x hx => ?_) rfl
    obtain rfl := Option.some.inj hg
    rcases mem_flushing.1 hx with ⟨e, he, rfl⟩ | ⟨d, hd, rfl⟩ | ⟨e, he, rfl⟩
    · exact mem_flushing.2 (.inl ⟨e, List.mem_cons_of_mem _ he, rfl⟩)
    · obtain rfl := Option.some.inj hd
      exact mem_flushing.2 (.inl ⟨ev, List.mem_cons_self .., rfl⟩)
    · exact mem_flushing.2 (.inr (.inr ⟨e, he, rfl⟩))
  | target =>
    obtain ⟨batch, ev, x, ts, retry, hf, ⟨more, hmore, -, rfl⟩ | ⟨sid, -, rfl⟩⟩ := target_cases h
    · refine .of_flush hm hf (fun e he => .inl he) (fun g hg y hy => ?_) rfl
      obtain rfl := Option.some.inj hg
      refine flushing_next (fun e he => ?_) hy
      rcases hmore with rfl | rfl
      · cases he
      · exact mem_retried he
    · refine .of_flush hm hf (fun e he => .inl he) (fun g hg x hx => ?_) rfl
      obtain rfl := Option.some.inj hg
      exact hx
  | send =>
    obtain ⟨batch, ev, x, ts, sid, retry, hf, ⟨-, -, rfl⟩ | ⟨-, rfl⟩⟩ := send_cases h
    · refine .of_flush hm hf (fun e he => .inl he) (fun g hg x hx => ?_) rfl
      obtain rfl := Option.some.inj hg
      exact hx
    · refine .of_flush hm hf (fun e he => .inl he) (fun g hg y hy => ?_) rfl
      obtain rfl := Option.some.inj hg
      exact flushing_next (fun e he => mem_retried he) hy
  | delivered =>
    obtain ⟨batch, ev, retry, hf, rfl⟩ := delivered_cases h
    refine .of_flush hm hf (fun e he => .inl he) (fun g hg x hx => ?_) rfl
    obtain rfl := Option.some.inj hg
    rcases mem_flushing.1 hx with hx | ⟨d, hd, -⟩ | hx
    · exact mem_flushing.2 (.inl hx)
    · cases hd
    · exact mem_flushing.2 (.inr (.inr hx))
  | flushed =>
    obtain ⟨retry, hf, rfl⟩ := flushed_cases h
    refine .of_flush hm hf (fun e he => ?_) (fun g hg => nomatch hg) rfl
    rcases List.mem_append.1 he with he | he
    · exact .inr (mem_flushing.2 (.inr (.inr ⟨e, he, rfl⟩)))
    · exact .inl he
  | connect => obtain ⟨-, rfl⟩ := connect_cases h; exact .of_open hm
  | openOther => obtain rfl := openOther_cases h; exact .of_open hm
  | close => obtain rfl := Option.some.inj h; exact .before hm
  | hangup => obtain rfl := Option.some.inj h; exact .before hm
  | apply => obtain ⟨_, _, _, -, -, rfl⟩ := apply_cases h; exact .before hm
  | readTable i ok order =>
    obtain ⟨sid, x, sub, subs, failed, hc, hp, rfl⟩ := readTable_cases h
    refine .of_sync hm hc rfl rfl rfl fun y hy => .inr ?_
    rw [readBy, Option.elim_none, List.append_nil] at hy
    obtain ⟨s, hs, rfl⟩ := List.mem_map.1 hy
    simp only at hs
    split_ifs at hs
    · exact ⟨s, (List.mem_filter.1 (hp.subset hs)).1, rfl⟩
    · cases hs
  | nextRow i =>
    obtain ⟨sid, x, subs, s, rows, failed, hc, hcs⟩ := nextRow_cases h
    obtain ⟨-, rfl⟩ | ⟨-, rfl⟩ | ⟨cur, -, -, rfl⟩ := hcs
    · refine .of_sync hm hc rfl rfl rfl fun y hy => .inl ?_
      rw [readBy, List.map_cons, List.cons_append]
      exact List.mem_cons_of_mem _ hy
    · exact .of_sync hm hc rfl rfl (modify_aborted hc) fun y hy => nomatch hy
    · refine .of_sync hm hc rfl rfl rfl fun y hy => .inl ?_
      rcases List.mem_append.1 hy with hy | hy
      · exact List.mem_append_left _ (List.mem_cons_of_mem _ hy)
      · rw [List.mem_singleton.1 hy]
        exact List.mem_append_left _ (List.mem_cons_self ..)
  | sendRow i ok =>
    obtain ⟨sid, x, subs, rows, m', cur, failed, hc, hcs⟩ := sendRow_cases h
    obtain ⟨-, -, rfl⟩ | ⟨-, rfl⟩ := hcs
    · refine .of_sync hm hc rfl rfl rfl fun y hy => .inl ?_
      rw [readBy, Option.elim_none, List.append_nil] at hy
      exact List.mem_append_left _ hy
    · exact .of_sync hm hc rfl rfl (modify_aborted hc) fun y hy => nomatch hy

structure Dated (w : World) : Prop extends Kept w where
  underway : ∀ m ∈ w.underway, Timed m

theorem step_dated (hd : Dated w) (h : w.step a = some w') : Dated w' := by
  refine ⟨step_kept hd.toKept h, fun m hm => ?_⟩
  cases source_of_step h hm with
  | before hm => exact hd.underway m hm
  | change tx isDeleted hard ha =>
    subst ha
    exact (change_cases h).2.1
  | read s hs hm =>
    rw [hm]
    exact fun _ => hd.rows s hs

theorem handed_underway (hh : w.handed n a = some m) : m ∈ w.underway := by
  unfold handed at hh
  split at hh
  · split at hh
    · rename_i batch ev ts sid retry hf
      split_ifs at hh
      obtain rfl := Option.some.inj hh
      refine mem_underway.2 (.inr (.inl ?_))
      rw [hf]
      exact mem_flushing.2 (.inr (.inl ⟨_, rfl, rfl⟩))
    · cases hh
  · split at hh
    · rename_i sid x subs rows m' cur failed hc
      split_ifs at hh
      obtain rfl := Option.some.inj hh
      refine mem_underway.2 (.inr (.inr (List.mem_flatMap.2 ⟨_, List.mem_of_getElem? hc, ?_⟩)))
      exact List.mem_append_right _ (List.mem_cons_self ..)
    · cases hh
  · cases hh

theorem given_prefix (hw : Wired w) (h : w.step a = some w') (n : Bytes) :
    (w'.given n <+: w.given n) ∨ ∃ m, w.handed n a = some m ∧ w'.given n = w.given n ++ [m] := by
  cases edge_cases hw h n with
  | same hh he hs => exact .inl (by rw [given, given, he, hs])
  | write m hh he hs => exact .inr ⟨m, hh, by rw [given, given, he, hs, List.append_assoc]⟩
  | apply now m ha hs he =>
    left
    rw [given, given, he, hs, List.append_assoc, List.singleton_append]
  | turn conn ha he hs =>
    left
    rw [given, given, he, hs, List.append_nil]
    exact List.prefix_append _ _

/-- The rows of the center once the transaction has been committed. -/
def committed (w : World) (tx : Nat) : List Stored :=
  (w.uncommitted.filter fun c => decide (c.tx = tx)).foldl (fun rows c => c.apply rows) w.rows

/-- No message takes the mark of the edge past a row that the edge has not been given, and a row that is committed, or becomes visible, is newer
than the mark or was there before it. -/
def Gapless (n table : Bytes) (w : World) (a : Action) : Prop :=
  (∀ m ∈ w.handed n a, Marks w.unicode table m → ∀ s ∈ w.rows, Due w.rows n table s →
    s.row.gmtModified ≤ truncate m.row.gmtModified → Covers (w.given n ++ [m]) s) ∧
  match a with
  | .commit tx => ∀ s ∈ w.committed tx, Due (w.committed tx) n table s → ¬ Due w.rows n table s → NoGap w.unicode table (w.given n) s
  | _ => True

instance (n table : Bytes) (w : World) : ∀ a, Decidable (Gapless n table w a)
  | .commit tx => inferInstanceAs (Decidable (_ ∧ ∀ s ∈ w.committed tx, _))
  | .change .. | .rollback _ | .flush | .deliver _ | .target _ | .send _ | .delivered | .flushed | .connect _ | .openOther .. | .close _ | .hangup _
  | .apply .. | .readTable .. | .nextRow _ | .sendRow .. => inferInstanceAs (Decidable (_ ∧ True))

/-- Every visible row at or below the mark that the edge reports has been applied, in a version at least as new. -/
def LowWater (n table : Bytes) (w : World) : Prop :=
  ∀ t, ⟨table, some t⟩ ∈ (w.edges n).Checkpoints → ∀ s, Due w.rows n table s → s.row.gmtModified ≤ t → Covers (w.edges n).applied s

structure Marked (n table : Bytes) (w : World) : Prop where
  wired : Wired w
  dated : Dated w
  timed : ∀ m ∈ w.given n, Timed m
  rows : ∀ r ∈ (w.edges n).rows, ∃ m ∈ (w.edges n).applied, m.action ≠ .remove ∧ Accepted w.unicode m.row ∧ r.row = m.row
  noGap : ∀ s, Due w.rows n table s → NoGap w.unicode table (w.given n) s

theorem Marked.lowWater (hm : Marked n table w) : LowWater n table w := by
  intro t ht s hs hle
  obtain ⟨x, -, hx⟩ := List.mem_map.1 ht
  simp only [Subscription.mk.injEq] at hx
  obtain ⟨rfl, hx⟩ := hx
  unfold Edge.checkpoint at hx
  split_ifs at hx
  obtain ⟨r, hr, htable, rfl⟩ := lastUpdateTime_mem hx
  obtain ⟨m, hmem, haction, haccept, hrow⟩ := hm.rows r hr
  rw [hrow] at htable hle
  exact (hm.noGap s hs).covers hmem ⟨htable, haction, haccept⟩ hle

theorem step_marked (hm : Marked n table w) (hg : Gapless n table w a) (h : w.step a = some w') : Marked n table w' := by
  have hu := (config_eq h).2
  have hgiven : ∀ s, Due w.rows n table s → NoGap w.unicode table (w'.given n) s := by
    intro s hs
    rcases given_prefix hm.wired h n with hp | ⟨m, hh, hgiv⟩
    · exact (hm.noGap s hs).of_prefix' hp
    · rw [hgiv]
      exact (hm.noGap s hs).snoc fun hmarks hle => hg.1 m hh hmarks s hs.1.1 hs hle
  refine ⟨step_wired hm.wired h, step_dated hm.dated h, fun m hmem => ?_, fun r hr => ?_, fun s hs => ?_⟩
  · rcases given_prefix hm.wired h n with hp | ⟨m', hh, hgiv⟩
    · exact hm.timed m (hp.subset hmem)
    · rw [hgiv] at hmem
      rcases List.mem_append.1 hmem with hmem | hmem
      · exact hm.timed m hmem
      · rw [List.mem_singleton.1 hmem]
        exact hm.dated.underway m' (handed_underway hh)
  · rw [hu]
    cases edge_cases hm.wired h n with
    | same _ he _ => exact he ▸ hm.rows r (he ▸ hr)
    | write _ _ he _ => exact he ▸ hm.rows r (he ▸ hr)
    | turn conn _ he _ =>
      rw [he] at hr ⊢
      exact hm.rows r hr
    | apply now m _ hs he =>
      rw [he] at hr ⊢
      have htimed : Timed m := hm.timed m (List.mem_append_right _ (hs ▸ List.mem_cons_self ..))
      rcases mem_apply htimed hr with ⟨t, ht, hrow⟩ | ⟨haction, haccept, hrow⟩
      · obtain ⟨m', hmem, hm'⟩ := hm.rows t ht
        exact ⟨m', List.mem_append_left _ hmem, hrow ▸ hm'⟩
      · exact ⟨m, List.mem_append_right _ (List.mem_cons_self ..), haction, haccept, hrow⟩
  · rw [hu]
    cases center_cases h with
    | same hr => exact hgiven s (hr ▸ hs)
    | change tx action row isDeleted hard ha =>
      subst ha
      obtain ⟨-, -, rfl⟩ := change_cases h
      exact hgiven s hs
    | rollback tx ha =>
      subst ha
      obtain rfl := Option.some.inj h
      exact hgiven s hs
    | commit tx ha =>
      subst ha
      by_cases hdue : Due w.rows n table s
      · exact hgiven s hdue
      · -- the row is new, or has become visible
        obtain rfl := Option.some.inj h
        exact hg.2 s hs.1.1 hs hdue

variable {tables : List Bytes} {maxRetries : Int} {edgeTables : Bytes → List Bytes} {as : List Action}

theorem init_marked : Marked n table (init u tables maxRetries edgeTables) where
  wired := init_wired ..
  dated := ⟨init_kept, fun _ h => nomatch h⟩
  timed := fun _ h => nomatch h
  rows := fun _ h => nomatch h
  noGap := fun _ hs => nomatch hs.1.1

def bobRow : Stored := ⟨routeTo "bob" 2, false, 1⟩

def carolRow : Stored := ⟨routeTo "carol" 5, false, 2⟩

def saves : List Action :=
  saved 0 (routeTo "carol" 1) ++ saved 1 bobRow.row ++ saved 2 carolRow.row ++ [.flush] ++
  (List.replicate 3 [.deliver [], .target false, .target false, .delivered]).flatten ++ [.flushed]

def resumed : List Action :=
  saves ++ [.connect alice, .readTable 0 true [bobRow, carolRow], .nextRow 0, .sendRow 0 true, .nextRow 0, .sendRow 0 false, .apply alice 0,
    .hangup alice, .connect alice, .readTable 1 true [carolRow], .nextRow 1, .sendRow 1 true, .apply alice 0]

def abandoned : List Action :=
  saves ++ [.connect alice, .readTable 0 true [carolRow, bobRow], .nextRow 0, .sendRow 0 true, .nextRow 0, .sendRow 0 false, .apply alice 0,
    .hangup alice, .connect alice, .readTable 1 true []]

end World

end Center

end Sync
