import Privahub.Sync.Sessions

/-!
# Order of the versions an edge applies

What an edge has been given of a row, applied or still to be read, followed by what waits for it in
the queue of the center, is in the order of the versions, however often changes fail and are put back
(`versions_forward`). Two paths lead past the queue and are bounded by `Orderly`: a change that failed
waits to be put back while the rest of its batch is delivered, and the rows of a catch-up were read
some time ago.
-/

namespace Sync

namespace Center

/-- The versions of the row `r` are in order. -/
def Forward (r : Entity) (l : List Message) : Prop :=
  l.Pairwise fun a b => a.row.SameKey r → b.row.SameKey r → a.ver ≤ b.ver

instance (r : Entity) (l : List Message) : Decidable (Forward r l) := inferInstanceAs (Decidable (l.Pairwise _))

namespace Forward

variable {r : Entity} {l l₁ l₂ : List Message} {m : Message}

theorem sublist (h : Forward r l₂) (hs : l₁.Sublist l₂) : Forward r l₁ := List.Pairwise.sublist hs h

theorem insert (h : Forward r (l₁ ++ l₂)) (h₁ : ∀ a ∈ l₁, a.row.SameKey r → m.row.SameKey r → a.ver ≤ m.ver)
    (h₂ : ∀ b ∈ l₂, m.row.SameKey r → b.row.SameKey r → m.ver ≤ b.ver) : Forward r (l₁ ++ m :: l₂) := by
  obtain ⟨hl₁, hl₂, hl⟩ := List.pairwise_append.1 h
  refine List.pairwise_append.2 ⟨hl₁, List.pairwise_cons.2 ⟨h₂, hl₂⟩, fun a ha b hb => ?_⟩
  rcases List.mem_cons.1 hb with rfl | hb
  · exact h₁ a ha
  · exact hl a ha b hb

theorem le (h : Forward r (l₁ ++ m :: l₂)) {a : Message} (ha : a ∈ l₁) : a.row.SameKey r → m.row.SameKey r → a.ver ≤ m.ver :=
  (List.pairwise_append.1 h).2.2 a ha m (List.mem_cons_self ..)

theorem ge (h : Forward r (l₁ ++ m :: l₂)) {b : Message} (hb : b ∈ l₂) : m.row.SameKey r → b.row.SameKey r → m.ver ≤ b.ver :=
  (List.pairwise_cons.1 (List.pairwise_append.1 h).2.1).1 b hb

theorem again (h : Forward r (l₁ ++ m :: l₂)) : Forward r (l₁ ++ m :: m :: l₂) := by
  refine h.insert (fun a ha => h.le ha) fun b hb => ?_
  rcases List.mem_cons.1 hb with rfl | hb
  · exact fun _ _ => le_rfl
  · exact h.ge hb

end Forward

/-- The changes that concern, or may concern, the node `n`. -/
def waitsFor (n : Bytes) (evs : List ChangeEvent) : List Message :=
  (evs.filter fun ev => decide (ev.dstNode = none ∨ ev.dstNode = some n)).map (·.msg)

@[simp] theorem waitsFor_nil (n : Bytes) : waitsFor n [] = [] := rfl

@[simp] theorem waitsFor_append (n : Bytes) (l₁ l₂ : List ChangeEvent) :
    waitsFor n (l₁ ++ l₂) = waitsFor n l₁ ++ waitsFor n l₂ := by simp [waitsFor]

/-- The change under way, while `n` is one of its targets. -/
def Delivery.waits (d : Delivery) (n : Bytes) : List Message := if n ∈ d.targets then [d.ev.msg] else []

namespace World

variable {w w' : World} {n : Bytes} {r : Entity} {a : Action} {m : Message}

/-- What the edge of `n` has been given: what it has applied and what it has still to read. -/
def given (w : World) (n : Bytes) : List Message := (w.edges n).applied ++ w.stream n

/-- The changes for `n` that have failed and wait to be put back. -/
def failed (w : World) (n : Bytes) : List Message := w.flush.elim [] fun f => waitsFor n f.retry

/-- What waits for `n`, in the order in which it will be delivered. -/
def pending (w : World) (n : Bytes) : List Message :=
  w.failed n ++ (w.flush.elim [] fun f => f.current.elim [] (·.waits n) ++ waitsFor n f.batch) ++ waitsFor n w.queue

/-- What a message for `n` goes past: a change what has failed, a row of a catch-up all that waits. -/
def overtaken (w : World) (n : Bytes) : Action → List Message
  | .sendRow .. => w.pending n
  | _ => w.failed n

/-- What a message for `n` comes late after: a row of a catch-up all that the edge has been given. -/
def preceding (w : World) (n : Bytes) : Action → List Message
  | .sendRow .. => w.given n
  | _ => []

/-- What is written to the edge of `n` past the queue keeps the versions of `r` in order. -/
def Orderly (n : Bytes) (r : Entity) (w : World) (a : Action) : Prop :=
  ∀ m ∈ w.handed n a, m.row.SameKey r →
    (∀ m' ∈ w.preceding n a, m'.row.SameKey r → m'.ver ≤ m.ver) ∧ ∀ m' ∈ w.overtaken n a, m'.row.SameKey r → m.ver ≤ m'.ver

instance (n : Bytes) (r : Entity) (w : World) (a : Action) : Decidable (Orderly n r w a) :=
  inferInstanceAs (Decidable (∀ _ ∈ _, _ → _ ∧ _))

theorem given_cases (hw : Wired w) (h : w.step a = some w') (n : Bytes) :
    (w.handed n a = none ∧ (w'.given n).Sublist (w.given n)) ∨ ∃ m, w.handed n a = some m ∧ w'.given n = w.given n ++ [m] := by
  cases edge_cases hw h n with
  | same hh he hs => exact .inl ⟨hh, by rw [given, given, he, hs]⟩
  | write m hh he hs => exact .inr ⟨m, hh, by rw [given, given, he, hs, List.append_assoc]⟩
  | apply now m ha hs he =>
    refine .inl ⟨by rw [ha]; rfl, ?_⟩
    rw [given, given, he, hs, List.append_assoc, List.singleton_append]
  | turn conn ha he hs =>
    refine .inl ⟨by rcases ha with rfl | rfl <;> rfl, ?_⟩
    rw [given, given, he, hs]
    exact (List.Sublist.refl _).append (List.nil_sublist _)

theorem waitsFor_retried (w : World) (ev : ChangeEvent) (x : Bytes) :
    (waitsFor n (w.retried ev x)).Sublist (if x = n then [ev.msg] else []) := by
  simp only [retried, waitsFor]
  by_cases hx : x = n
  · split_ifs <;> simp [hx]
  · split_ifs <;> simp [hx]

theorem pending_next (batch retry : List ChangeEvent) (ts : List Bytes) (queue : List ChangeEvent) {more : List ChangeEvent}
    {ev : ChangeEvent} {x : Bytes} (hm : (waitsFor n more).Sublist (if x = n then [ev.msg] else [])) {l l' : List Message}
    (hl : l = waitsFor n retry ++ ((Delivery.mk ev (x :: ts) none).waits n ++ waitsFor n batch) ++ waitsFor n queue)
    (hl' : l' = waitsFor n (retry ++ more) ++ ((Delivery.mk ev ts none).waits n ++ waitsFor n batch) ++ waitsFor n queue) :
    l'.Sublist l ∨ ∃ l₁ m l₂, l = l₁ ++ m :: l₂ ∧ l'.Sublist (l₁ ++ m :: m :: l₂) := by
  subst hl hl'
  by_cases hx : x = n
  · refine .inr ⟨waitsFor n retry, ev.msg, waitsFor n batch ++ waitsFor n queue, ?_, ?_⟩
    · simp [Delivery.waits, hx]
    · rw [if_pos hx] at hm
      have hw : ((Delivery.mk ev ts none).waits n).Sublist [ev.msg] := by
        unfold Delivery.waits
        split_ifs
        · exact .refl _
        · exact List.nil_sublist _
      have h := hm.append (hw.append (List.Sublist.refl (waitsFor n batch ++ waitsFor n queue)))
      simpa using (List.Sublist.refl (waitsFor n retry)).append h
  · rw [if_neg hx, List.sublist_nil] at hm
    left
    simp [Delivery.waits, hm, Ne.symm hx]

theorem pending_cases (h : w.step a = some w') (n : Bytes) :
    (w'.pending n).Sublist (w.pending n) ∨
    (∃ l₁ m l₂, w.pending n = l₁ ++ m :: l₂ ∧ (w'.pending n).Sublist (l₁ ++ m :: m :: l₂)) ∨
    ∃ m, m.ver = w.next ∧ w'.next = w.next + 1 ∧ w'.pending n = w.pending n ++ [m] := by
  cases a with
  | change tx action row isDeleted hard =>
    obtain ⟨-, -, rfl⟩ := change_cases h
    by_cases hf : w.filtered ⟨action, row, w.next⟩
    · left
      simp [pending, failed, push, hf]
    · refine .inr (.inr ⟨⟨action, row, w.next⟩, rfl, rfl, ?_⟩)
      simp only [pending, failed, push, if_neg hf, waitsFor_append, List.append_assoc]
      rfl
  | flush =>
    obtain ⟨hf, rfl⟩ := flush_cases h
    exact .inl (by simp [pending, failed, hf])
  | deliver order =>
    obtain ⟨ev, batch, retry, hf, -, rfl⟩ := deliver_cases h
    have hd : ((Delivery.mk ev (w.targets ev order) none).waits n).Sublist (waitsFor n [ev]) := by
      by_cases hev : ev.dstNode = none ∨ ev.dstNode = some n
      · simp only [Delivery.waits, waitsFor, hev, decide_true, List.filter_cons, if_true, List.filter_nil, List.map_cons, List.map_nil]
        split_ifs <;> simp
      · have hn : n ∉ w.targets ev order := by
          rw [not_or] at hev
          obtain ⟨x, hx⟩ := Option.ne_none_iff_exists'.1 hev.1
          simp only [targets, hx, List.mem_singleton]
          exact fun hn => hev.2 (by rw [hx, hn])
        simp [Delivery.waits, hn]
    left
    have := ((List.Sublist.refl (waitsFor n retry)).append (hd.append (List.Sublist.refl (waitsFor n batch)))).append
      (List.Sublist.refl (waitsFor n w.queue))
    rw [← waitsFor_append] at this
    simpa [pending, failed, hf] using this
  | target =>
    obtain ⟨batch, ev, x, ts, retry, hf, ⟨more, hm, -, rfl⟩ | ⟨sid, -, rfl⟩⟩ := target_cases h
    · have hm : (waitsFor n more).Sublist (if x = n then [ev.msg] else []) := by
        rcases hm with rfl | rfl
        · exact List.nil_sublist _
        · exact waitsFor_retried ..
      exact (pending_next batch retry ts w.queue hm (by simp [pending, failed, hf]) (by simp [pending, failed])).imp id .inl
    · exact .inl (by simp [pending, failed, hf, Delivery.waits])
  | send =>
    obtain ⟨batch, ev, x, ts, sid, retry, hf, ⟨-, -, rfl⟩ | ⟨-, rfl⟩⟩ := send_cases h
    · have hm : (waitsFor n []).Sublist (if x = n then [ev.msg] else []) := List.nil_sublist _
      exact (pending_next batch retry ts w.queue hm (by simp [pending, failed, hf, Delivery.waits])
        (by simp [pending, failed])).imp id .inl
    · exact (pending_next batch retry ts w.queue (waitsFor_retried (n := n) w ev x) (by simp [pending, failed, hf, Delivery.waits])
        (by simp [pending, failed, closeSession])).imp id .inl
  | delivered =>
    obtain ⟨batch, ev, retry, hf, rfl⟩ := delivered_cases h
    exact .inl (by simp [pending, failed, hf, Delivery.waits])
  | flushed =>
    obtain ⟨retry, hf, rfl⟩ := flushed_cases h
    exact .inl (by simp [pending, failed, hf])
  | commit => obtain rfl := Option.some.inj h; exact .inl (.refl _)
  | rollback => obtain rfl := Option.some.inj h; exact .inl (.refl _)
  | connect => obtain ⟨-, rfl⟩ := connect_cases h; exact .inl (.refl _)
  | openOther => obtain rfl := openOther_cases h; exact .inl (.refl _)
  | close => obtain rfl := Option.some.inj h; exact .inl (.refl _)
  | hangup => obtain rfl := Option.some.inj h; exact .inl (.refl _)
  | apply => obtain ⟨_, _, _, -, -, rfl⟩ := apply_cases h; exact .inl (.refl _)
  | readTable => obtain ⟨_, _, _, _, _, -, -, rfl⟩ := readTable_cases h; exact .inl (.refl _)
  | nextRow =>
    obtain ⟨_, _, _, _, _, _, -, ⟨-, rfl⟩ | ⟨-, rfl⟩ | ⟨_, -, -, rfl⟩⟩ := nextRow_cases h
    · exact .inl (.refl _)
    · exact .inl (.refl _)
    · exact .inl (.refl _)
  | sendRow =>
    obtain ⟨_, _, _, _, _, _, _, -, ⟨-, -, rfl⟩ | ⟨-, rfl⟩⟩ := sendRow_cases h
    · exact .inl (.refl _)
    · exact .inl (.refl _)

theorem handed_send (hw : Wired w) (h : w.step (.send true) = some w') (hh : w.handed n (.send true) = some m) :
    ∃ l, w.pending n = w.failed n ++ m :: l ∧ (w'.pending n).Sublist (w.failed n ++ m :: l) := by
  obtain ⟨batch, ev, x, ts, sid, retry, hf, ⟨-, -, rfl⟩ | ⟨hok, -⟩⟩ := send_cases h
  case inr => simp at hok
  simp only [handed, hf] at hh
  split_ifs at hh with hc
  obtain rfl := Option.some.inj hh
  -- the session the edge reads is the one the change is for
  obtain ⟨s, hs, hsx⟩ := hw.target hf rfl rfl rfl
  obtain ⟨t, ht, htn, -⟩ := hw.conn hc
  obtain rfl : x = n := by rw [← hsx, ← htn, Option.some.inj (hs.symm.trans ht)]
  refine ⟨waitsFor x batch ++ waitsFor x w.queue, by simp [pending, failed, hf, Delivery.waits], ?_⟩
  have hd : ((Delivery.mk ev ts none).waits x).Sublist [ev.msg] := by
    unfold Delivery.waits
    split_ifs
    · exact .refl _
    · exact List.nil_sublist _
  have := (List.Sublist.refl (waitsFor x retry)).append (hd.append (List.Sublist.refl (waitsFor x batch ++ waitsFor x w.queue)))
  simpa [pending, failed, hf] using this

structure Issued (w : World) : Prop where
  rows : ∀ s ∈ w.rows, s.ver < w.next
  uncommitted : ∀ c ∈ w.uncommitted, c.msg.ver < w.next
  read : ∀ c ∈ w.syncs, ∀ s ∈ c.rows, s.ver < w.next
  held : ∀ c ∈ w.syncs, ∀ h ∈ c.held, h.1.ver < w.next

namespace Issued

variable (hi : Issued w)
include hi

theorem setSync {i : Nat} {c : Catchup} (hr : ∀ s ∈ c.rows, s.ver < w.next) (hh : ∀ h ∈ c.held, h.1.ver < w.next) :
    Issued { w with syncs := w.syncs.set i c } where
  rows := hi.rows
  uncommitted := hi.uncommitted
  read := by
    intro d hd
    rcases List.mem_or_eq_of_mem_set hd with hd | rfl
    · exact hi.read d hd
    · exact hr
  held := by
    intro d hd
    rcases List.mem_or_eq_of_mem_set hd with hd | rfl
    · exact hi.held d hd
    · exact hh

theorem openSession (n : Bytes) (subs : List Subscription) : Issued (w.openSession n subs) where
  rows := hi.rows
  uncommitted := hi.uncommitted
  read := by
    intro d hd
    rcases List.mem_append.1 hd with hd | hd
    · exact hi.read d hd
    · rw [List.mem_singleton.1 hd]
      exact fun _ hs => nomatch hs
  held := by
    intro d hd
    rcases List.mem_append.1 hd with hd | hd
    · exact hi.held d hd
    · rw [List.mem_singleton.1 hd]
      exact fun _ hs => nomatch hs

end Issued

theorem step_issued (hi : Issued w) (h : w.step a = some w') : Issued w' := by
  cases a with
  | change tx action row isDeleted hard =>
    obtain ⟨-, -, rfl⟩ := change_cases h
    refine ⟨fun s hs => Nat.lt_succ_of_lt (hi.rows s hs), fun c hc => ?_,
      fun c hc s hs => Nat.lt_succ_of_lt (hi.read c hc s hs), fun c hc h hh => Nat.lt_succ_of_lt (hi.held c hc h hh)⟩
    rcases List.mem_append.1 hc with hc | hc
    · exact Nat.lt_succ_of_lt (hi.uncommitted c hc)
    · rw [List.mem_singleton.1 hc]
      exact Nat.lt_succ_self _
  | commit tx =>
    obtain rfl := Option.some.inj h
    refine ⟨foldl_apply_keeps hi.rows ?_ ?_, fun c hc => hi.uncommitted c (List.mem_filter.1 hc).1, hi.read, hi.held⟩
    · exact fun c hc _ => hi.uncommitted c (List.mem_filter.1 hc).1
    · exact fun c hc _ _ => hi.uncommitted c (List.mem_filter.1 hc).1
  | rollback tx =>
    obtain rfl := Option.some.inj h
    exact ⟨hi.rows, fun c hc => hi.uncommitted c (List.mem_filter.1 hc).1, hi.read, hi.held⟩
  | flush => obtain ⟨-, rfl⟩ := flush_cases h; exact ⟨hi.rows, hi.uncommitted, hi.read, hi.held⟩
  | deliver => obtain ⟨_, _, _, -, -, rfl⟩ := deliver_cases h; exact ⟨hi.rows, hi.uncommitted, hi.read, hi.held⟩
  | target =>
    obtain ⟨_, _, _, _, _, -, ⟨_, -, -, rfl⟩ | ⟨_, -, rfl⟩⟩ := target_cases h
    · exact ⟨hi.rows, hi.uncommitted, hi.read, hi.held⟩
    · exact ⟨hi.rows, hi.uncommitted, hi.read, hi.held⟩
  | send =>
    obtain ⟨_, _, _, _, _, _, -, ⟨-, -, rfl⟩ | ⟨-, rfl⟩⟩ := send_cases h
    · exact ⟨hi.rows, hi.uncommitted, hi.read, hi.held⟩
    · exact ⟨hi.rows, hi.uncommitted, hi.read, hi.held⟩
  | delivered => obtain ⟨_, _, _, -, rfl⟩ := delivered_cases h; exact ⟨hi.rows, hi.uncommitted, hi.read, hi.held⟩
  | flushed => obtain ⟨_, -, rfl⟩ := flushed_cases h; exact ⟨hi.rows, hi.uncommitted, hi.read, hi.held⟩
  | connect n =>
    obtain ⟨-, rfl⟩ := connect_cases h
    have hi' := hi.openSession n ((w.edges n).Checkpoints.filter fun s => decide (s.table ∈ w.tables))
    exact ⟨hi'.rows, hi'.uncommitted, hi'.read, hi'.held⟩
  | openOther n subs =>
    obtain rfl := openOther_cases h
    exact hi.openSession n subs
  | close => obtain rfl := Option.some.inj h; exact ⟨hi.rows, hi.uncommitted, hi.read, hi.held⟩
  | hangup => obtain rfl := Option.some.inj h; exact ⟨hi.rows, hi.uncommitted, hi.read, hi.held⟩
  | apply => obtain ⟨_, _, _, -, -, rfl⟩ := apply_cases h; exact ⟨hi.rows, hi.uncommitted, hi.read, hi.held⟩
  | readTable =>
    obtain ⟨sid, x, sub, subs, failed, -, hp, rfl⟩ := readTable_cases h
    refine hi.setSync (fun s hs => ?_) fun _ hh => nomatch hh
    split_ifs at hs with hok
    · exact hi.rows s (List.mem_filter.1 (hp.subset hs)).1
    · nomatch hs
  | nextRow i =>
    obtain ⟨sid, x, subs, s, rows, failed, hc, hcs⟩ := nextRow_cases h
    have hr := hi.read _ (List.mem_of_getElem? hc)
    have hrows : ∀ t ∈ rows, t.ver < w.next := fun t ht => hr t (List.mem_cons_of_mem _ ht)
    obtain ⟨-, rfl⟩ | ⟨-, rfl⟩ | ⟨cur, -, -, rfl⟩ := hcs
    · exact hi.setSync hrows fun _ hh => nomatch hh
    · rw [modify_aborted hc]
      exact hi.setSync (fun _ hs => nomatch hs) fun _ hh => nomatch hh
    · refine hi.setSync hrows fun p hp => ?_
      obtain rfl := Option.some.inj hp
      exact hr s (List.mem_cons_self ..)
  | sendRow i ok =>
    obtain ⟨sid, x, subs, rows, m, cur, failed, hc, hcs⟩ := sendRow_cases h
    have hr := hi.read _ (List.mem_of_getElem? hc)
    obtain ⟨-, -, rfl⟩ | ⟨-, rfl⟩ := hcs
    · have hi' := hi.setSync (i := i) (c := ⟨sid, x, subs, rows, none, failed⟩) hr fun _ hh => nomatch hh
      exact ⟨hi'.rows, hi'.uncommitted, hi'.read, hi'.held⟩
    · rw [modify_aborted hc]
      have hi' := hi.setSync (i := i) (c := Catchup.aborted ⟨sid, x, subs, rows, some (m, cur), failed⟩) (fun _ hs => nomatch hs)
        fun _ hh => nomatch hh
      exact ⟨hi'.rows, hi'.uncommitted, hi'.read, hi'.held⟩

theorem handed_sendRow {i : Nat} (hi : Issued w) (h : w.step (.sendRow i true) = some w') (hh : w.handed n (.sendRow i true) = some m) :
    m.ver < w.next ∧ w'.pending n = w.pending n := by
  obtain ⟨sid, x, subs, rows, m', cur, failed, hc, ⟨-, -, rfl⟩ | ⟨hok, -⟩⟩ := sendRow_cases h
  case inr => simp at hok
  simp only [handed, hc] at hh
  split_ifs at hh
  obtain rfl := Option.some.inj hh
  exact ⟨hi.held _ (List.mem_of_getElem? hc) _ rfl, rfl⟩

/-- What the edge of `n` has been given of `r`, and what waits for it, is in the order of the versions. -/
structure Ordered (n : Bytes) (r : Entity) (w : World) : Prop where
  wired : Wired w
  issued : Issued w
  below : ∀ m ∈ w.given n ++ w.pending n, m.ver < w.next
  forward : Forward r (w.given n ++ w.pending n)

theorem step_ordered (hi : Ordered n r w) (ho : Orderly n r w a) (h : w.step a = some w') : Ordered n r w' := by
  have hnext := next_le h
  suffices hp : (∀ m ∈ w'.given n ++ w'.pending n, m.ver < w'.next) ∧ Forward r (w'.given n ++ w'.pending n) from
    ⟨step_wired hi.wired h, step_issued hi.issued h, hp.1, hp.2⟩
  rcases given_cases hi.wired h n with ⟨-, hg⟩ | ⟨m, hh, hg⟩
  · rcases pending_cases h n with hp | ⟨l₁, m, l₂, hp, hp'⟩ | ⟨m, hm, hm', hp⟩
    · have hs := hg.append hp
      exact ⟨fun m hm => (hi.below m (hs.subset hm)).trans_le hnext, hi.forward.sublist hs⟩
    · -- a change put back at once is repeated at most
      have hs := hg.append hp'
      have hf := hi.forward
      have hb := hi.below
      rw [hp, ← List.append_assoc] at hf hb
      rw [← List.append_assoc] at hs
      refine ⟨fun m' hm' => (hb m' ?_).trans_le hnext, hf.again.sublist hs⟩
      have := hs.subset hm'
      simp only [List.mem_append, List.mem_cons] at this ⊢
      tauto
    · rw [hp, ← List.append_assoc]
      have hs := hg.append (List.Sublist.refl (w.pending n))
      refine ⟨fun m' hm₁ => ?_, ?_⟩
      · rcases List.mem_append.1 hm₁ with hm₁ | hm₁
        · exact (hi.below m' (hs.subset hm₁)).trans_le hnext
        · rw [List.mem_singleton.1 hm₁]
          omega
      · have hf := hi.forward.sublist hs
        rw [← List.append_nil (w'.given n ++ w.pending n)] at hf
        refine hf.insert (fun m' hm₁ _ _ => ?_) fun _ hb => by cases hb
        exact hm ▸ (hi.below m' (hs.subset hm₁)).le
  · rw [hg, List.append_assoc, List.singleton_append]
    cases a with
    | send ok =>
      cases ok with
      | false => cases hh
      | true =>
        obtain ⟨l, hl, hl'⟩ := handed_send hi.wired h hh
        have hb := hi.below
        have hf := hi.forward
        rw [hl] at hb hf
        have hs := (List.Sublist.refl (w.given n)).append (hl'.cons_cons m)
        refine ⟨fun m' hm' => (hb m' ?_).trans_le hnext, Forward.sublist (hf.insert ?_ ?_) hs⟩
        · have := hs.subset hm'
          simp only [List.mem_append, List.mem_cons] at this ⊢
          tauto
        · rw [← List.append_assoc] at hf
          exact fun a ha => hf.le (List.mem_append_left _ ha)
        · intro b hb h₁ h₂
          rcases List.mem_append.1 hb with hb | hb
          · exact (ho m hh h₁).2 b hb h₂
          · rw [← List.append_assoc] at hf
            rcases List.mem_cons.1 hb with rfl | hb
            · exact le_rfl
            · exact hf.ge hb h₁ h₂
    | sendRow i ok =>
      cases ok with
      | false => cases hh
      | true =>
        obtain ⟨hm, hp⟩ := handed_sendRow hi.issued h hh
        rw [hp]
        refine ⟨fun m' hm' => ?_, hi.forward.insert ?_ ?_⟩
        · simp only [List.mem_append, List.mem_cons] at hm'
          rcases hm' with hm' | rfl | hm'
          · exact (hi.below m' (List.mem_append_left _ hm')).trans_le hnext
          · exact hm.trans_le hnext
          · exact (hi.below m' (List.mem_append_right _ hm')).trans_le hnext
        · exact fun a ha h₁ h₂ => (ho m hh h₂).1 a ha h₁
        · exact fun b hb h₁ h₂ => (ho m hh h₁).2 b hb h₂
    | _ => cases hh

variable {u : CaseTables} {tables : List Bytes} {maxRetries : Int} {edgeTables : Bytes → List Bytes} {as : List Action}

theorem init_ordered : Ordered n r (init u tables maxRetries edgeTables) where
  wired := init_wired ..
  issued := ⟨fun _ h => (nomatch h), fun _ h => (nomatch h), fun _ h => (nomatch h), fun _ h => (nomatch h)⟩
  below := fun _ h => nomatch h
  forward := List.Pairwise.nil

/-- The versions of a row that an edge applies never go back, as long as what reaches it past the
queue keeps their order. -/
theorem versions_forward (hall : Lts.RunAll step (Orderly n r) (init u tables maxRetries edgeTables) as)
    (hrun : Lts.run step (init u tables maxRetries edgeTables) as = some w) : Forward r (w.edges n).applied := by
  have := Lts.run_invariant (fun _ _ _ hi ho hs => step_ordered hi ho hs) init_ordered hall hrun
  exact this.forward.sublist ((List.sublist_append_left _ _).trans (List.sublist_append_left _ _))

def alice : Bytes := str "alice"

def routeTo (dst : String) (t : Int) : Entity :=
  ⟨TableNodeRoute, [(str "src_node_id", alice), (str "dst_node_id", str dst)], t * 1000000000⟩

def saved (tx : Nat) (row : Entity) : List Action := [.change tx .create row false false, .commit tx]

def delivery (ok : Bool) : List Action := [.deliver [alice], .target false, .send ok, .target false, .delivered]

def start : World := init .asciiCase DefaultCenterTables 3 fun _ => [TableNodeRoute]

def inOrder : List Action :=
  saved 0 (routeTo "bob" 1) ++ [.flush, .deliver [], .target false, .target false, .delivered, .flushed, .connect alice,
    .readTable 0 true [⟨routeTo "bob" 1, false, 0⟩], .nextRow 0, .sendRow 0 true, .apply alice 0] ++
  saved 1 (routeTo "bob" 2) ++ [.flush] ++ delivery false ++
  [.flushed, .hangup alice, .connect alice, .flush, .deliver [alice], .target false, .send true, .apply alice 0]

theorem versions_inOrder : ∃ w, Lts.run step start inOrder = some w ∧ Forward (routeTo "bob" 1) (w.edges alice).applied ∧
    (w.edges alice).applied.map (·.ver) = [0, 1] := by
  have h : (Lts.run step start inOrder).map (fun w => decide ((w.edges alice).applied.map (·.ver) = [0, 1])) = some true := by
    decide +kernel
  obtain ⟨w, hw, hv⟩ := Option.map_eq_some_iff.1 h
  exact ⟨w, hw, versions_forward (by decide +kernel) hw, of_decide_eq_true hv⟩

def lateRow : List Action :=
  saved 0 (routeTo "bob" 1) ++ [.connect alice, .readTable 0 true [⟨routeTo "bob" 1, false, 0⟩], .nextRow 0] ++
  saved 1 (routeTo "bob" 2) ++ [.flush] ++ delivery true ++ delivery true ++ [.flushed, .sendRow 0 true] ++
  List.replicate 3 (.apply alice 0)

def earlyRow : List Action :=
  saved 0 (routeTo "bob" 1) ++ saved 1 (routeTo "bob" 2) ++
  [.connect alice, .readTable 0 true [⟨routeTo "bob" 2, false, 1⟩], .nextRow 0, .sendRow 0 true, .flush] ++ delivery true ++
  List.replicate 2 (.apply alice 0)

def putBack : List Action :=
  [.connect alice] ++ saved 0 (routeTo "bob" 1) ++ saved 1 (routeTo "bob" 2) ++ [.flush] ++ delivery false ++
  [.hangup alice, .connect alice] ++ delivery true ++ [.flushed, .flush, .deliver [alice], .target false, .send true] ++
  List.replicate 2 (.apply alice 0)

theorem versions_back : [lateRow, earlyRow, putBack].Forall fun as =>
    ∃ w, Lts.run step start as = some w ∧ ¬ Forward (routeTo "bob" 1) (w.edges alice).applied := by
  have h : ∀ as ∈ [lateRow, earlyRow, putBack],
      (Lts.run step start as).map (fun w => decide (¬ Forward (routeTo "bob" 1) (w.edges alice).applied)) = some true := by
    decide +kernel
  refine List.forall_iff_forall_mem.2 fun as has => ?_
  obtain ⟨w, hw, hv⟩ := Option.map_eq_some_iff.1 (h as has)
  exact ⟨w, hw, of_decide_eq_true hv⟩

end World

end Center

end Sync
