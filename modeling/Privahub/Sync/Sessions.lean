import Privahub.Sync.CenterSteps

/-!
# Sessions and streams

How the sessions hang together (`Wired`): the session of a node, the stream its edge reads and the
session a message is about to be written to belong to that node, and a session that is not done is the
present one of its node. So what is written to one node does not show in the stream of another, and
`edge_cases` says all that a step can do to an edge and to what it has still to read.
-/

namespace Sync

namespace Center

namespace World

variable {w w' : World} {n : Bytes} {sid i : Nat} {m : Message}

theorem getElem?_modify_iff {ss : List Session} {f : Session → Session} {s : Session} :
    (ss.modify sid f)[i]? = some s ↔ ∃ t, ss[i]? = some t ∧ (if sid = i then f t else t) = s := by
  rw [List.getElem?_modify, Option.map_eq_map, Option.map_eq_some_iff]

theorem streamOf_modify {ss : List Session} {f : Session → Session} (j : Nat) (h : j = i → ∀ s, (f s).stream = s.stream) :
    streamOf (ss.modify i f) j = streamOf ss j := by
  unfold streamOf
  rw [List.getElem?_modify]
  rcases ss[j]? with _ | s
  · rfl
  · by_cases hij : i = j
    · simpa [hij] using h hij.symm s
    · simp [hij]

theorem streamOf_modify_self {ss : List Session} {f : Session → Session} {s : Session} (hs : ss[i]? = some s) :
    streamOf (ss.modify i f) i = (f s).stream := by
  simp [streamOf, hs]

/-- Session `sid` is one of `n`. -/
def SessionOf (w : World) (sid : Nat) (n : Bytes) : Prop := ∃ s, w.sessions[sid]? = some s ∧ s.node = n

def Grown (ss ss' : List Session) : Prop :=
  ∀ (sid : Nat) (s : Session), ss[sid]? = some s →
    ∃ s' : Session, ss'[sid]? = some s' ∧ s'.node = s.node ∧ s'.tables = s.tables ∧ (s.done = true → s'.done = true)

namespace Grown

variable {ss ss' ss'' : List Session}

theorem refl (ss : List Session) : Grown ss ss := fun _ s hs => ⟨s, hs, rfl, rfl, id⟩

theorem trans (h : Grown ss ss') (h' : Grown ss' ss'') : Grown ss ss'' := by
  intro sid s hs
  obtain ⟨s', hs', hn, ht, hd⟩ := h sid s hs
  obtain ⟨s'', hs'', hn', ht', hd'⟩ := h' sid s' hs'
  exact ⟨s'', hs'', hn'.trans hn, ht'.trans ht, fun h => hd' (hd h)⟩

theorem modify (sid : Nat) (f : Session → Session)
    (hf : ∀ s, (f s).node = s.node ∧ (f s).tables = s.tables ∧ (s.done = true → (f s).done = true)) :
    Grown ss (ss.modify sid f) := by
  intro i s hs
  rw [List.getElem?_modify, hs]
  by_cases h : sid = i
  · exact ⟨f s, by simp [h], hf s⟩
  · exact ⟨s, by simp [h], rfl, rfl, id⟩

theorem append (ss more : List Session) : Grown ss (ss ++ more) := fun _ s hs =>
  ⟨s, List.getElem?_append_left (List.getElem?_eq_some_iff.1 hs).1 ▸ hs, rfl, rfl, id⟩

end Grown

theorem SessionOf.grown {ss : List Session} (hs : w.SessionOf sid n) (h : Grown w.sessions ss) :
    ∃ s, ss[sid]? = some s ∧ s.node = n := by
  obtain ⟨s, hs, hn⟩ := hs
  obtain ⟨s', hs', hn', -⟩ := h sid s hs
  exact ⟨s', hs', hn'.trans hn⟩

structure Wired (w : World) : Prop where
  current : ∀ {n sid}, w.current n = some sid → w.SessionOf sid n
  live : ∀ {sid s}, w.sessions[sid]? = some s → s.done = false → w.current s.node = some sid
  conn : ∀ {n sid}, (w.edges n).conn = some sid →
    ∃ s, w.sessions[sid]? = some s ∧ s.node = n ∧ ∀ t ∈ (w.edges n).tables, t ∈ w.tables → s.Subscribed t
  target : ∀ {f d x ts sid}, w.flush = some f → f.current = some d → d.targets = x :: ts → d.held = some sid → w.SessionOf sid x
  syncs : ∀ {c}, c ∈ w.syncs → w.SessionOf c.sid c.node
  held : ∀ {c m cur}, c ∈ w.syncs → c.held = some (m, cur) →
    w.SessionOf cur c.node ∧ (cur = c.sid ∨ ∃ s, w.sessions[c.sid]? = some s ∧ s.done = true)

namespace Wired

variable (hw : Wired w)
include hw

theorem setSessions {ss : List Session} {current : Bytes → Option Nat} (hg : Grown w.sessions ss)
    (hc : ∀ n sid, current n = some sid → w.current n = some sid)
    (hl : ∀ (sid : Nat) (s : Session), ss[sid]? = some s → s.done = false → current s.node = some sid) :
    Wired { w with sessions := ss, current := current } where
  current h := (hw.current (hc _ _ h)).grown hg
  live h hd := hl _ _ h hd
  conn h := by
    obtain ⟨s, hs, hn, ht⟩ := hw.conn h
    obtain ⟨s', hs', hn', ht', -⟩ := hg _ s hs
    refine ⟨s', hs', hn'.trans hn, fun t ht₁ ht₂ => ?_⟩
    rw [Session.Subscribed, ht']
    exact ht t ht₁ ht₂
  target hf hc ht hh := (hw.target hf hc ht hh).grown hg
  syncs hc := (hw.syncs hc).grown hg
  held hc hh := by
    obtain ⟨hs, hd⟩ := hw.held hc hh
    refine ⟨hs.grown hg, hd.imp id ?_⟩
    rintro ⟨s, hs, hd⟩
    obtain ⟨s', hs', -, -, hd'⟩ := hg _ s hs
    exact ⟨s', hs', hd' hd⟩

theorem setStream (sid : Nat) (f : List Message → List Message) :
    Wired { w with sessions := w.sessions.modify sid fun s => { s with stream := f s.stream } } := by
  refine hw.setSessions (.modify _ _ fun s => ⟨rfl, rfl, id⟩) (fun _ _ => id) fun i s hs hd => ?_
  obtain ⟨r, hr, rfl⟩ := getElem?_modify_iff.1 hs
  by_cases h : sid = i
  · simp only [if_pos h] at hd ⊢
    exact hw.live (s := r) hr hd
  · simp only [if_neg h] at hd ⊢
    exact hw.live hr hd

theorem closeSession (sid : Nat) : Wired (w.closeSession sid) := by
  refine hw.setSessions (.modify _ _ fun s => ⟨rfl, rfl, fun _ => rfl⟩) ?_ fun i s hs hd => ?_
  · intro n i h
    split_ifs at h
    exact h
  · obtain ⟨s₀, hs₀, rfl⟩ := getElem?_modify_iff.1 hs
    by_cases hi : sid = i
    · simp [hi] at hd
    · simp only [hi, if_false] at hd ⊢
      have := hw.live hs₀ hd
      rw [this, if_neg (by simpa using Ne.symm hi)]

end Wired

theorem openSession_sessions (w : World) (n : Bytes) (subs : List Subscription) :
    ∃ ss, (w.openSession n subs).sessions = ss ++ [⟨n, subs, false, []⟩] ∧ ss.length = w.sessions.length ∧ Grown w.sessions ss ∧
      (∀ (sid : Nat) (s : Session), ss[sid]? = some s → s.done = false → w.current n ≠ some sid ∧ w.sessions[sid]? = some s) ∧
      ∀ sid, streamOf ss sid = streamOf w.sessions sid := by
  refine ⟨_, rfl, ?_, ?_, ?_, ?_⟩
  all_goals rcases hc : w.current n with _ | old
  · rfl
  · exact List.length_modify ..
  · exact .refl _
  · exact .modify _ _ fun s => ⟨rfl, rfl, fun _ => rfl⟩
  · exact fun sid s hs _ => ⟨by simp, hs⟩
  · intro sid s hs hd
    obtain ⟨s₀, hs₀, rfl⟩ := getElem?_modify_iff.1 hs
    by_cases hi : old = sid
    · simp [hi] at hd
    · simp only [hi, if_false] at hd ⊢
      exact ⟨by simpa using hi, hs₀⟩
  · exact fun sid => rfl
  · exact fun sid => streamOf_modify sid fun _ _ => rfl

theorem Wired.openSession (hw : Wired w) (n : Bytes) (subs : List Subscription) : Wired (w.openSession n subs) := by
  obtain ⟨ss, hss, hlen, hg, hl, -⟩ := w.openSession_sessions n subs
  have hg : Grown w.sessions (w.openSession n subs).sessions := hss ▸ hg.trans (.append _ _)
  have hnew : (w.openSession n subs).SessionOf w.sessions.length n :=
    ⟨_, by rw [hss, ← hlen, List.getElem?_concat_length], rfl⟩
  constructor
  case current =>
    intro x sid h
    change Function.update w.current n (some w.sessions.length) x = some sid at h
    by_cases hx : x = n
    · subst hx
      rw [Function.update_self] at h
      exact Option.some.inj h ▸ hnew
    · rw [Function.update_of_ne hx] at h
      exact (hw.current h).grown hg
  case live =>
    intro sid s h hd
    change Function.update w.current n (some w.sessions.length) s.node = some sid
    rw [hss] at h
    rcases Nat.lt_or_ge sid ss.length with hi | hi
    · rw [List.getElem?_append_left hi] at h
      obtain ⟨hc, hs⟩ := hl _ _ h hd
      have hcur := hw.live hs hd
      have hn : s.node ≠ n := fun hn => hc (by rw [← hn, hcur])
      rw [Function.update_of_ne hn, hcur]
    · rw [List.getElem?_append_right hi, List.getElem?_singleton] at h
      split_ifs at h with hz
      obtain rfl := Option.some.inj h
      rw [Function.update_self]
      congr 1
      omega
  case conn =>
    intro x sid h
    obtain ⟨s, hs, hn, ht⟩ := hw.conn h
    obtain ⟨s', hs', hn', ht', -⟩ := hg _ s hs
    refine ⟨s', hs', hn'.trans hn, fun t ht₁ ht₂ => ?_⟩
    rw [Session.Subscribed, ht']
    exact ht t ht₁ ht₂
  case target => exact fun hf hc ht hh => (hw.target hf hc ht hh).grown hg
  case syncs =>
    intro c hc
    rcases List.mem_append.1 hc with hc | hc
    · exact (hw.syncs hc).grown hg
    · rw [List.mem_singleton.1 hc]
      exact hnew
  case held =>
    intro c m cur hc hh
    rcases List.mem_append.1 hc with hc | hc
    · obtain ⟨hs, hd⟩ := hw.held hc hh
      refine ⟨hs.grown hg, hd.imp id ?_⟩
      rintro ⟨s, hs, hd⟩
      obtain ⟨s', hs', -, -, hd'⟩ := hg _ s hs
      exact ⟨s', hs', hd' hd⟩
    · rw [List.mem_singleton.1 hc] at hh
      cases hh

theorem init_wired (u : CaseTables) (tables : List Bytes) (maxRetries : Int) (edgeTables : Bytes → List Bytes) :
    Wired (init u tables maxRetries edgeTables) where
  current h := nomatch h
  live h := nomatch h
  conn h := nomatch h
  target h := nomatch h
  syncs h := nomatch h
  held h := nomatch h

theorem Wired.setSync (hw : Wired w) {c c' : Catchup} (hc : w.syncs[i]? = some c) (hsid : c'.sid = c.sid) (hn : c'.node = c.node)
    (hh : ∀ m cur, c'.held = some (m, cur) → w.current c.node = some cur) : Wired { w with syncs := w.syncs.set i c' } where
  current := hw.current
  live := hw.live
  conn := hw.conn
  target := hw.target
  syncs h := by
    rcases List.mem_or_eq_of_mem_set h with h | rfl
    · exact hw.syncs h
    · rw [hsid, hn]
      exact hw.syncs (List.mem_of_getElem? hc)
  held h hm := by
    rcases List.mem_or_eq_of_mem_set h with h | rfl
    · exact hw.held h hm
    · have hcur := hh _ _ hm
      rw [hsid, hn]
      refine ⟨hw.current hcur, ?_⟩
      -- the session of the call, unless it is done, is the present one of the node
      obtain ⟨s, hs, hsn⟩ := hw.syncs (List.mem_of_getElem? hc)
      rcases hd : s.done with _ | _
      · have := hw.live hs hd
        rw [hsn, hcur] at this
        exact .inl (Option.some.inj this)
      · exact .inr ⟨s, hs, hd⟩

theorem modify_aborted {c : Catchup} (hc : w.syncs[i]? = some c) : w.syncs.modify i Catchup.aborted = w.syncs.set i c.aborted := by
  refine List.ext_getElem? fun j => ?_
  rw [List.getElem?_modify, List.getElem?_set]
  by_cases h : i = j
  · obtain ⟨hi, rfl⟩ := List.getElem?_eq_some_iff.1 hc
    simp [← h, hi]
  · simp [h]

theorem Wired.setFlush (hw : Wired w) {queue : List ChangeEvent} {f : Option Flush}
    (hf : ∀ f' d x ts sid, f = some f' → f'.current = some d → d.targets = x :: ts → d.held = some sid → w.current x = some sid) :
    Wired { w with queue := queue, flush := f } where
  current := hw.current
  live := hw.live
  conn := hw.conn
  target h hc ht hh := hw.current (hf _ _ _ _ _ h hc ht hh)
  syncs := hw.syncs
  held := hw.held

theorem Wired.setEdge (hw : Wired w) {e : Edge} (ht : e.tables = (w.edges n).tables)
    (hc : ∀ sid, e.conn = some sid → (w.edges n).conn = some sid ∨
      ∃ s, w.sessions[sid]? = some s ∧ s.node = n ∧ ∀ t ∈ (w.edges n).tables, t ∈ w.tables → s.Subscribed t) :
    Wired { w with edges := w.setEdge n e } where
  current := hw.current
  live := hw.live
  conn {x sid} h := by
    change (Function.update w.edges n e x).conn = some sid at h
    change ∃ s, w.sessions[sid]? = some s ∧ s.node = x ∧ ∀ t ∈ (Function.update w.edges n e x).tables, t ∈ w.tables → s.Subscribed t
    by_cases hx : x = n
    · subst hx
      rw [Function.update_self] at h ⊢
      rw [ht]
      rcases hc sid h with h | h
      · exact hw.conn h
      · exact h
    · rw [Function.update_of_ne hx] at h ⊢
      exact hw.conn h
  target := hw.target
  syncs := hw.syncs
  held := hw.held

theorem step_wired {a : Action} (hw : Wired w) (h : w.step a = some w') : Wired w' := by
  cases a with
  | change =>
    obtain ⟨-, -, rfl⟩ := change_cases h
    exact ⟨hw.current, hw.live, hw.conn, hw.target, hw.syncs, hw.held⟩
  | commit =>
    obtain rfl := Option.some.inj h
    exact ⟨hw.current, hw.live, hw.conn, hw.target, hw.syncs, hw.held⟩
  | rollback =>
    obtain rfl := Option.some.inj h
    exact ⟨hw.current, hw.live, hw.conn, hw.target, hw.syncs, hw.held⟩
  | flush =>
    obtain ⟨-, rfl⟩ := flush_cases h
    exact hw.setFlush fun _ _ _ _ _ hf hc => by cases hf; cases hc
  | deliver =>
    obtain ⟨ev, batch, retry, -, -, rfl⟩ := deliver_cases h
    exact hw.setFlush fun _ _ _ _ _ hf hc _ hh => by cases hf; cases hc; cases hh
  | target =>
    obtain ⟨batch, ev, x, ts, retry, -, ⟨more, -, -, rfl⟩ | ⟨sid, hcur, rfl⟩⟩ := target_cases h
    · exact hw.setFlush fun _ _ _ _ _ hf hc _ hh => by cases hf; cases hc; cases hh
    · exact hw.setFlush fun _ _ _ _ _ hf hc ht hh => by cases hf; cases hc; cases ht; cases hh; exact hcur
  | send =>
    obtain ⟨batch, ev, x, ts, sid, retry, -, ⟨-, -, rfl⟩ | ⟨-, rfl⟩⟩ := send_cases h
    · exact (hw.setStream sid (· ++ [ev.msg])).setFlush fun _ _ _ _ _ hf hc _ hh => by cases hf; cases hc; cases hh
    · exact (hw.closeSession sid).setFlush fun _ _ _ _ _ hf hc _ hh => by cases hf; cases hc; cases hh
  | delivered =>
    obtain ⟨batch, ev, retry, -, rfl⟩ := delivered_cases h
    exact hw.setFlush fun _ _ _ _ _ hf hc => by cases hf; cases hc
  | flushed =>
    obtain ⟨retry, -, rfl⟩ := flushed_cases h
    exact hw.setFlush fun _ _ _ _ _ hf => by cases hf
  | connect n =>
    obtain ⟨-, rfl⟩ := connect_cases h
    refine (hw.openSession n _).setEdge rfl fun sid hs => .inr ?_
    obtain ⟨ss, hss, hlen, -⟩ := w.openSession_sessions n ((w.edges n).Checkpoints.filter fun s => decide (s.table ∈ w.tables))
    obtain rfl := Option.some.inj hs
    refine ⟨_, by rw [hss, ← hlen, List.getElem?_concat_length], rfl, fun t ht htw => ?_⟩
    exact ⟨_, List.mem_filter.2 ⟨List.mem_map.2 ⟨t, ht, rfl⟩, decide_eq_true htw⟩, rfl⟩
  | openOther n subs =>
    obtain rfl := openOther_cases h
    exact hw.openSession n subs
  | close sid =>
    obtain rfl := Option.some.inj h
    exact hw.closeSession sid
  | hangup n =>
    obtain rfl := Option.some.inj h
    exact hw.setEdge rfl fun _ hs => nomatch hs
  | apply n now =>
    obtain ⟨sid, m, ms, -, -, rfl⟩ := apply_cases h
    exact (hw.setStream sid fun _ => ms).setEdge rfl fun _ hs => .inl hs
  | readTable i ok order =>
    obtain ⟨sid, x, sub, subs, failed, hc, -, rfl⟩ := readTable_cases h
    exact hw.setSync hc rfl rfl fun _ _ hm => nomatch hm
  | nextRow i =>
    obtain ⟨sid, x, subs, s, rows, failed, hc, ⟨-, rfl⟩ | ⟨-, rfl⟩ | ⟨cur, -, hcur, rfl⟩⟩ := nextRow_cases h
    · exact hw.setSync hc rfl rfl fun _ _ hm => nomatch hm
    · rw [modify_aborted hc]
      exact hw.setSync hc rfl rfl fun _ _ hm => nomatch hm
    · exact hw.setSync hc rfl rfl fun _ _ hm => by cases hm; exact hcur
  | sendRow i ok =>
    obtain ⟨sid, x, subs, rows, m, cur, failed, hc, ⟨-, -, rfl⟩ | ⟨-, rfl⟩⟩ := sendRow_cases h
    · exact (hw.setStream cur (· ++ [m])).setSync hc rfl rfl fun _ _ hm => nomatch hm
    · rw [modify_aborted hc]
      exact (hw.closeSession cur).setSync hc rfl rfl fun _ _ hm => nomatch hm

/-- The message an action writes to the session the edge of `n` reads. -/
def handed (w : World) (n : Bytes) : Action → Option Message
  | .send true => match w.flush with
    | some ⟨_, some ⟨ev, _, some sid⟩, _⟩ => if (w.edges n).conn = some sid then some ev.msg else none
    | _ => none
  | .sendRow i true => match w.syncs[i]? with
    | some ⟨_, _, _, _, some (m, cur), _⟩ => if (w.edges n).conn = some cur then some m else none
    | _ => none
  | _ => none

inductive EdgeStep (w w' : World) (n : Bytes) (a : Action) : Prop
  | same (hh : w.handed n a = none) (he : w'.edges n = w.edges n) (hs : w'.stream n = w.stream n)
  | write (m : Message) (hh : w.handed n a = some m) (he : w'.edges n = w.edges n) (hs : w'.stream n = w.stream n ++ [m])
  | apply (now : Int) (m : Message) (ha : a = .apply n now) (hs : w.stream n = m :: w'.stream n)
      (he : w'.edges n = { w.edges n with
        rows := Apply w.unicode (w.edges n).tables now (w.edges n).rows m, applied := (w.edges n).applied ++ [m] })
  | turn (conn : Option Nat) (ha : a = .connect n ∨ a = .hangup n) (he : w'.edges n = { w.edges n with conn := conn })
      (hs : w'.stream n = [])

theorem EdgeStep.frame {a : Action} (hh : w.handed n a = none) (he : w'.edges n = w.edges n)
    (hs : ∀ sid, (w.edges n).conn = some sid → streamOf w'.sessions sid = streamOf w.sessions sid) : EdgeStep w w' n a := by
  refine .same hh he ?_
  unfold stream
  rw [he]
  cases hc : (w.edges n).conn with
  | none => rfl
  | some sid => exact hs sid hc

theorem EdgeStep.sent {a : Action} (hw : Wired w) (hh : w.handed n a = if (w.edges n).conn = some sid then some m else none)
    (he : w'.edges n = w.edges n) (hs : w'.sessions = w.write sid m) : EdgeStep w w' n a := by
  by_cases hc : (w.edges n).conn = some sid
  · rw [if_pos hc] at hh
    refine .write m hh he ?_
    obtain ⟨s, hsess, -⟩ := hw.conn hc
    rw [stream, stream, he, hc, Option.elim_some, Option.elim_some, hs, World.write, streamOf_modify_self hsess, streamOf, hsess]
    rfl
  · rw [if_neg hc] at hh
    refine .frame hh he fun j hj => ?_
    rw [hs]
    refine streamOf_modify j fun hij => absurd hj ?_
    rwa [hij]

theorem streamOf_openSession (w : World) (n : Bytes) (subs : List Subscription) {j : Nat} (hj : j < w.sessions.length) :
    streamOf (w.openSession n subs).sessions j = streamOf w.sessions j := by
  obtain ⟨ss, hss, hlen, -, -, hst⟩ := w.openSession_sessions n subs
  rw [hss, ← hst, streamOf, List.getElem?_append_left (hlen ▸ hj), streamOf]

theorem streamOf_opened (w : World) (n : Bytes) (subs : List Subscription) :
    streamOf (w.openSession n subs).sessions w.sessions.length = [] := by
  obtain ⟨ss, hss, hlen, -⟩ := w.openSession_sessions n subs
  rw [hss, streamOf, ← hlen, List.getElem?_concat_length]
  rfl

theorem Wired.conn_lt (hw : Wired w) (h : (w.edges n).conn = some sid) : sid < w.sessions.length := by
  obtain ⟨s, hs, -⟩ := hw.conn h
  exact (List.getElem?_eq_some_iff.1 hs).1

theorem edge_cases {a : Action} (hw : Wired w) (h : w.step a = some w') (n : Bytes) : EdgeStep w w' n a := by
  cases a with
  | change =>
    obtain ⟨-, -, rfl⟩ := change_cases h
    exact .same rfl rfl rfl
  | commit =>
    obtain rfl := Option.some.inj h
    exact .same rfl rfl rfl
  | rollback =>
    obtain rfl := Option.some.inj h
    exact .same rfl rfl rfl
  | flush =>
    obtain ⟨-, rfl⟩ := flush_cases h
    exact .same rfl rfl rfl
  | deliver =>
    obtain ⟨ev, batch, retry, -, -, rfl⟩ := deliver_cases h
    exact .same rfl rfl rfl
  | target =>
    obtain ⟨batch, ev, x, ts, retry, -, ⟨more, -, -, rfl⟩ | ⟨sid, hcur, rfl⟩⟩ := target_cases h
    · exact .same rfl rfl rfl
    · exact .same rfl rfl rfl
  | send ok =>
    obtain ⟨batch, ev, x, ts, sid, retry, hf, ⟨rfl, -, rfl⟩ | ⟨rfl, rfl⟩⟩ := send_cases h
    · exact .sent hw (by simp only [handed, hf]) rfl rfl
    · exact .frame rfl rfl fun j _ => streamOf_modify j fun _ _ => rfl
  | delivered =>
    obtain ⟨batch, ev, retry, -, rfl⟩ := delivered_cases h
    exact .same rfl rfl rfl
  | flushed =>
    obtain ⟨retry, -, rfl⟩ := flushed_cases h
    exact .same rfl rfl rfl
  | connect x =>
    obtain ⟨-, rfl⟩ := connect_cases h
    by_cases hx : n = x
    · subst hx
      refine .turn (some w.sessions.length) (.inl rfl) (Function.update_self ..) ?_
      rw [stream]
      simp only [setEdge, Function.update_self, Option.elim_some]
      exact streamOf_opened ..
    · refine .frame rfl (Function.update_of_ne hx ..) fun sid hc => ?_
      exact streamOf_openSession _ _ _ (hw.conn_lt hc)
  | openOther x subs =>
    obtain rfl := openOther_cases h
    exact .frame rfl rfl fun sid hc => streamOf_openSession _ _ _ (hw.conn_lt hc)
  | close sid =>
    obtain rfl := Option.some.inj h
    exact .frame rfl rfl fun j _ => streamOf_modify j fun _ _ => rfl
  | hangup x =>
    obtain rfl := Option.some.inj h
    by_cases hx : n = x
    · subst hx
      refine .turn none (.inr rfl) (Function.update_self ..) ?_
      rw [stream]
      simp only [setEdge, Function.update_self, Option.elim_none]
    · exact .frame rfl (Function.update_of_ne hx ..) fun _ _ => rfl
  | apply x now =>
    obtain ⟨sid, m, ms, hc, hms, rfl⟩ := apply_cases h
    obtain ⟨s, hs, hsn, -⟩ := hw.conn hc
    by_cases hx : n = x
    · subst hx
      have hst : stream { w with
          sessions := w.sessions.modify sid fun s => { s with stream := ms }
          edges := w.setEdge n { w.edges n with
            rows := Apply w.unicode (w.edges n).tables now (w.edges n).rows m
            applied := (w.edges n).applied ++ [m] } } n = ms := by
        rw [stream]
        simp only [setEdge, Function.update_self, hc, Option.elim_some]
        exact streamOf_modify_self hs
      exact .apply now m rfl (by rw [hms, hst]) (Function.update_self ..)
    · refine .frame rfl (Function.update_of_ne hx ..) fun j hj => streamOf_modify j fun hij => absurd hsn ?_
      obtain ⟨t, ht, htn, -⟩ := hw.conn hj
      rw [hij, hs] at ht
      rw [Option.some.inj ht, htn]
      exact hx
  | readTable i ok order =>
    obtain ⟨sid, x, sub, subs, failed, hc, -, rfl⟩ := readTable_cases h
    exact .same rfl rfl rfl
  | nextRow i =>
    obtain ⟨sid, x, subs, s, rows, failed, hc, ⟨-, rfl⟩ | ⟨-, rfl⟩ | ⟨cur, -, hcur, rfl⟩⟩ := nextRow_cases h
    · exact .same rfl rfl rfl
    · exact .same rfl rfl rfl
    · exact .same rfl rfl rfl
  | sendRow i ok =>
    obtain ⟨sid, x, subs, rows, m, cur, failed, hc, ⟨rfl, -, rfl⟩ | ⟨rfl, rfl⟩⟩ := sendRow_cases h
    · exact .sent hw (by simp only [handed, hc]) rfl rfl
    · exact .frame rfl rfl fun j _ => streamOf_modify j fun _ _ => rfl

/-- A call of `InitialSync` after a step. -/
inductive SyncStep (w w' : World) (i : Nat) (c : Catchup) (a : Action) : Prop
  | same (ha : a ≠ .sendRow i true) (hc' : w'.syncs[i]? = some c)
  | read (ok : Bool) (order : List Stored) (sub : Subscription) (subs : List Subscription) (ha : a = .readTable i ok order)
      (hs : c.subs = sub :: subs) (hr : c.rows = []) (hh : c.held = none) (hp : order.Perm (w.rowsSince sub))
      (hc' : w'.syncs[i]? = some { c with subs := subs, rows := if sub.table ∈ w.tables ∧ ok then order else [] })
  | skip (s : Stored) (rows : List Stored) (ha : a = .nextRow i) (hr : c.rows = s :: rows) (hh : c.held = none) (hv : ¬ Visible w.rows s.row c.node)
      (hc' : w'.syncs[i]? = some { c with rows := rows })
  | take (s : Stored) (rows : List Stored) (cur : Nat) (ha : a = .nextRow i) (hr : c.rows = s :: rows) (hh : c.held = none)
      (hv : Visible w.rows s.row c.node) (hcur : w.current c.node = some cur)
      (hc' : w'.syncs[i]? = some { c with rows := rows, held := some (s.snapshot, cur) })
  | sent (m : Message) (cur : Nat) (ha : a = .sendRow i true) (hh : c.held = some (m, cur))
      (hc' : w'.syncs[i]? = some { c with held := none })
  | aborted (ha : w.current c.node = none ∨ a = .sendRow i false) (hc' : w'.syncs[i]? = some c.aborted)

theorem getElem?_set_other {cs : List Catchup} {c d : Catchup} {j : Nat} (hc : cs[i]? = some c) (hij : i ≠ j) :
    (cs.set j d)[i]? = some c := by rw [List.getElem?_set_ne (Ne.symm hij), hc]

theorem getElem?_set_this {cs : List Catchup} {c d : Catchup} (hc : cs[i]? = some c) : (cs.set i d)[i]? = some d :=
  List.getElem?_set_self (List.getElem?_eq_some_iff.1 hc).1

theorem sync_cases {a : Action} {c : Catchup} (h : w.step a = some w') (hc : w.syncs[i]? = some c) : SyncStep w w' i c a := by
  have happend : ∀ d : Catchup, (w.syncs ++ [d])[i]? = some c := fun d => by
    rw [List.getElem?_append_left (List.getElem?_eq_some_iff.1 hc).1, hc]
  cases a with
  | change => obtain ⟨-, -, rfl⟩ := change_cases h; exact .same nofun hc
  | commit => obtain rfl := Option.some.inj h; exact .same nofun hc
  | rollback => obtain rfl := Option.some.inj h; exact .same nofun hc
  | flush => obtain ⟨-, rfl⟩ := flush_cases h; exact .same nofun hc
  | deliver => obtain ⟨_, _, _, -, -, rfl⟩ := deliver_cases h; exact .same nofun hc
  | target => obtain ⟨_, _, _, _, _, -, ⟨_, -, -, rfl⟩ | ⟨_, -, rfl⟩⟩ := target_cases h <;> exact .same nofun hc
  | send => obtain ⟨_, _, _, _, _, _, -, ⟨-, -, rfl⟩ | ⟨-, rfl⟩⟩ := send_cases h <;> exact .same nofun hc
  | delivered => obtain ⟨_, _, _, -, rfl⟩ := delivered_cases h; exact .same nofun hc
  | flushed => obtain ⟨_, -, rfl⟩ := flushed_cases h; exact .same nofun hc
  | connect => obtain ⟨-, rfl⟩ := connect_cases h; exact .same nofun (happend _)
  | openOther => obtain rfl := openOther_cases h; exact .same nofun (happend _)
  | close => obtain rfl := Option.some.inj h; exact .same nofun hc
  | hangup => obtain rfl := Option.some.inj h; exact .same nofun hc
  | apply => obtain ⟨_, _, _, -, -, rfl⟩ := apply_cases h; exact .same nofun hc
  | readTable j ok order =>
    obtain ⟨sid, x, sub, subs, failed, hj, hp, rfl⟩ := readTable_cases h
    by_cases hij : i = j
    · subst hij
      obtain rfl := Option.some.inj (hc.symm.trans hj)
      exact .read ok order sub subs rfl rfl rfl rfl hp (getElem?_set_this hc)
    · exact .same nofun (getElem?_set_other hc hij)
  | nextRow j =>
    obtain ⟨sid, x, subs, s, rows, failed, hj, hcs⟩ := nextRow_cases h
    by_cases hij : i = j
    · subst hij
      obtain rfl := Option.some.inj (hc.symm.trans hj)
      obtain ⟨hv, rfl⟩ | ⟨hcur, rfl⟩ | ⟨cur, hv, hcur, rfl⟩ := hcs
      · exact .skip s rows rfl rfl rfl hv (getElem?_set_this hc)
      · refine .aborted (.inl hcur) ?_
        rw [modify_aborted hc]
        exact getElem?_set_this hc
      · exact .take s rows cur rfl rfl rfl hv hcur (getElem?_set_this hc)
    · obtain ⟨-, rfl⟩ | ⟨-, rfl⟩ | ⟨cur, -, -, rfl⟩ := hcs
      · exact .same nofun (getElem?_set_other hc hij)
      · rw [modify_aborted hj]
        exact .same nofun (getElem?_set_other hc hij)
      · exact .same nofun (getElem?_set_other hc hij)
  | sendRow j ok =>
    obtain ⟨sid, x, subs, rows, m, cur, failed, hj, hcs⟩ := sendRow_cases h
    by_cases hij : i = j
    · subst hij
      obtain rfl := Option.some.inj (hc.symm.trans hj)
      obtain ⟨rfl, -, rfl⟩ | ⟨rfl, rfl⟩ := hcs
      · exact .sent m cur rfl rfl (getElem?_set_this hc)
      · refine .aborted (.inr rfl) ?_
        rw [modify_aborted hc]
        exact getElem?_set_this hc
    · have ha : Action.sendRow j ok ≠ .sendRow i true := fun h => hij (Action.sendRow.inj h).1.symm
      obtain ⟨-, -, rfl⟩ | ⟨-, rfl⟩ := hcs
      · exact .same ha (getElem?_set_other hc hij)
      · rw [modify_aborted hj]
        exact .same ha (getElem?_set_other hc hij)

/-- What a call of `InitialSync` has still to send, as far as the rows and their visibility stay. -/
def todo (w : World) (c : Catchup) : List Message :=
  c.held.elim [] (fun h => [h.1]) ++
    (c.rows ++ c.subs.flatMap fun sub => if sub.table ∈ w.tables then w.rowsSince sub else []).filterMap fun s =>
      if Visible w.rows s.row c.node then some s.snapshot else none

theorem mem_todo {c : Catchup} : m ∈ w.todo c ↔ (∃ cur, c.held = some (m, cur)) ∨
    ∃ s, (s ∈ c.rows ∨ ∃ sub ∈ c.subs, sub.table ∈ w.tables ∧ s ∈ w.rowsSince sub) ∧ Visible w.rows s.row c.node ∧ s.snapshot = m := by
  have hh : m ∈ c.held.elim [] (fun h => [h.1]) ↔ ∃ cur, c.held = some (m, cur) := by
    rcases c.held with _ | ⟨m', cur⟩
    · simp
    · simp [eq_comm]
  rw [todo, List.mem_append, hh, List.mem_filterMap]
  simp only [List.mem_append, List.mem_flatMap, Option.ite_none_right_eq_some, Option.some.injEq]
  refine or_congr_right (exists_congr fun s => and_congr_left fun _ => or_congr_right ?_)
  refine exists_congr fun sub => and_congr_right fun _ => ?_
  split_ifs with ht <;> simp [ht]

inductive CenterStep (w w' : World) (a : Action) : Prop
  | same (hr : w'.rows = w.rows) (hu : w'.uncommitted = w.uncommitted) (hn : w'.next = w.next) (hw : w'.written = w.written)
      (ht : w'.tables = w.tables) (hc : w'.unicode = w.unicode)
  | change (tx : Nat) (action : SyncAction) (row : Entity) (isDeleted hard : Bool) (ha : a = .change tx action row isDeleted hard)
  | commit (tx : Nat) (ha : a = .commit tx)
  | rollback (tx : Nat) (ha : a = .rollback tx)

theorem center_cases {a : Action} (h : w.step a = some w') : CenterStep w w' a := by
  cases a with
  | change tx action row isDeleted hard => exact .change tx action row isDeleted hard rfl
  | commit tx => exact .commit tx rfl
  | rollback tx => exact .rollback tx rfl
  | flush => obtain ⟨-, rfl⟩ := flush_cases h; exact .same rfl rfl rfl rfl rfl rfl
  | deliver => obtain ⟨_, _, _, -, -, rfl⟩ := deliver_cases h; exact .same rfl rfl rfl rfl rfl rfl
  | target => obtain ⟨_, _, _, _, _, -, ⟨_, -, -, rfl⟩ | ⟨_, -, rfl⟩⟩ := target_cases h <;> exact .same rfl rfl rfl rfl rfl rfl
  | send => obtain ⟨_, _, _, _, _, _, -, ⟨-, -, rfl⟩ | ⟨-, rfl⟩⟩ := send_cases h <;> exact .same rfl rfl rfl rfl rfl rfl
  | delivered => obtain ⟨_, _, _, -, rfl⟩ := delivered_cases h; exact .same rfl rfl rfl rfl rfl rfl
  | flushed => obtain ⟨_, -, rfl⟩ := flushed_cases h; exact .same rfl rfl rfl rfl rfl rfl
  | connect => obtain ⟨-, rfl⟩ := connect_cases h; exact .same rfl rfl rfl rfl rfl rfl
  | openOther => obtain rfl := openOther_cases h; exact .same rfl rfl rfl rfl rfl rfl
  | close => obtain rfl := Option.some.inj h; exact .same rfl rfl rfl rfl rfl rfl
  | hangup => obtain rfl := Option.some.inj h; exact .same rfl rfl rfl rfl rfl rfl
  | apply => obtain ⟨_, _, _, -, -, rfl⟩ := apply_cases h; exact .same rfl rfl rfl rfl rfl rfl
  | readTable => obtain ⟨_, _, _, _, _, -, -, rfl⟩ := readTable_cases h; exact .same rfl rfl rfl rfl rfl rfl
  | nextRow =>
    obtain ⟨_, _, _, _, _, _, -, ⟨-, rfl⟩ | ⟨-, rfl⟩ | ⟨_, -, -, rfl⟩⟩ := nextRow_cases h <;> exact .same rfl rfl rfl rfl rfl rfl
  | sendRow =>
    obtain ⟨_, _, _, _, _, _, _, -, ⟨-, -, rfl⟩ | ⟨-, rfl⟩⟩ := sendRow_cases h <;> exact .same rfl rfl rfl rfl rfl rfl

theorem next_le {a : Action} (h : w.step a = some w') : w.next ≤ w'.next := by
  cases center_cases h with
  | same _ _ hn => exact hn.ge
  | change tx action row isDeleted hard ha =>
    subst ha
    obtain ⟨-, -, rfl⟩ := change_cases h
    exact Nat.le_succ _
  | commit tx ha => subst ha; obtain rfl := Option.some.inj h; exact le_rfl
  | rollback tx ha => subst ha; obtain rfl := Option.some.inj h; exact le_rfl

theorem config_eq {a : Action} (h : w.step a = some w') : w'.tables = w.tables ∧ w'.unicode = w.unicode := by
  cases center_cases h with
  | same _ _ _ _ ht hc => exact ⟨ht, hc⟩
  | change tx action row isDeleted hard ha => subst ha; obtain ⟨-, -, rfl⟩ := change_cases h; exact ⟨rfl, rfl⟩
  | commit tx ha => subst ha; obtain rfl := Option.some.inj h; exact ⟨rfl, rfl⟩
  | rollback tx ha => subst ha; obtain rfl := Option.some.inj h; exact ⟨rfl, rfl⟩

end World

end Center

end Sync
