import Privahub.Sync.P2P

/-!
# The order in which a peer applies the versions of a row

What a peer has applied, what is being sent to it and what is queued for it, in this order, never
goes back to an older version of a row (`Ordered`). A failed event that is put back at the tail keeps it
only if no newer version of its row is queued (`Forwards`), so in every run in which this is so, and
in which a request given up on does not arrive any more, the peer applies the versions of each row in
their order (`applied_forward`) and ends up with the newest (`row_of_newest`).
-/

namespace Sync

open Versions

namespace Link

variable {l l' : Link}

def path (l : Link) : List ChangeEvent := l.peer.applied ++ (l.sending.toList ++ l.queue)

def SameCopy (a b : ChangeEvent) : Prop := a.seq = b.seq ∧ a.action = b.action ∧ a.data = b.data

structure Ordered (l : Link) : Prop where
  forward : Forward ChangeEvent.key ChangeEvent.seq l.path
  lt_next : ∀ ev ∈ l.path, ev.seq < l.next
  same : ∀ a ∈ l.path, ∀ b ∈ l.path, a.seq = b.seq → SameCopy a b
  rows : l.peer.rows = replay ChangeEvent.key write (fun _ => none) l.peer.applied

theorem Ordered.of_forward (h : Ordered l) (hf : Forward ChangeEvent.key ChangeEvent.seq l'.path)
    (hsub : ∀ e ∈ l'.path, ∃ a ∈ l.path, SameCopy a e) (hn : l'.next = l.next)
    (hrows : l'.peer.rows = replay ChangeEvent.key write (fun _ => none) l'.peer.applied) : Ordered l' where
  forward := hf
  lt_next e he := by
    obtain ⟨a, ha, hs, -⟩ := hsub e he
    exact hn ▸ hs ▸ h.lt_next a ha
  same e he f hf hef := by
    obtain ⟨a, ha, hae⟩ := hsub e he
    obtain ⟨b, hb, hbf⟩ := hsub f hf
    obtain ⟨-, hact, hdata⟩ := h.same a ha b hb (hae.1.trans (hef.trans hbf.1.symm))
    exact ⟨hef, hae.2.1.symm.trans (hact.trans hbf.2.1), hae.2.2.symm.trans (hdata.trans hbf.2.2)⟩
  rows := hrows

theorem Ordered.of_sublist (h : Ordered l) (hs : List.Sublist l'.path l.path) (hn : l'.next = l.next)
    (hp : l'.peer = l.peer) : Ordered l' :=
  h.of_forward (h.forward.sublist hs) (fun e he => ⟨e, hs.subset he, rfl, rfl, rfl⟩) hn (hp ▸ h.rows)

theorem Ordered.of_advance (h : Ordered l) {es fs : List ChangeEvent} {ev : ChangeEvent} (hpath : l.path = es ++ ev :: fs)
    (hpath' : l'.path = (es ++ [ev]) ++ ev :: fs) (hn : l'.next = l.next)
    (hrows : l'.peer.rows = replay ChangeEvent.key write (fun _ => none) l'.peer.applied) : Ordered l' := by
  refine h.of_forward (hpath' ▸ Forward.advance (hpath ▸ h.forward)) (fun e he => ⟨e, ?_, rfl, rfl, rfl⟩) hn hrows
  rw [hpath'] at he
  rw [hpath]
  simpa using he

theorem dropHead_sublist (ev : ChangeEvent) : ∀ q : List ChangeEvent, List.Sublist (dropHead ev q) q
  | [] => List.Sublist.refl _
  | a :: q => by
    rw [dropHead]
    split
    · exact List.sublist_cons_self ..
    · exact List.Sublist.refl _

theorem supersede_sublist (cp : ChangeEvent) (q : List ChangeEvent) : List.Sublist (supersede cp q) q := by
  rw [supersede]
  split
  · exact List.filter_sublist
  · exact List.Sublist.refl _

theorem Ordered.enqueue (h : Ordered l) (dst : Bytes) (ev : ChangeEvent) : Ordered (l.enqueue dst ev) := by
  let cp : ChangeEvent := { ev with dstNode := dst, seq := l.next }
  have hsub : List.Sublist (l.peer.applied ++ (l.sending.toList ++ supersede cp l.queue)) l.path :=
    (List.Sublist.refl _).append ((List.Sublist.refl _).append (supersede_sublist cp l.queue))
  have hpath : (l.enqueue dst ev).path = l.peer.applied ++ (l.sending.toList ++ supersede cp l.queue) ++ [cp] := by
    simp [path, Link.enqueue, cp]
  have hmem : ∀ e ∈ (l.enqueue dst ev).path, e ∈ l.path ∨ e = cp := fun e he => by
    rw [hpath] at he
    exact (List.mem_append.1 he).imp (fun he => hsub.subset he) List.mem_singleton.1
  have hnew : ∀ e ∈ l.path, e.seq ≠ cp.seq := fun e he => (h.lt_next e he).ne
  refine ⟨?_, fun e he => ?_, fun a ha b hb hab => ?_, h.rows⟩
  · rw [hpath]
    exact Forward.concat (h.forward.sublist hsub) fun a ha _ => (h.lt_next a (hsub.subset ha)).le
  · show e.seq < l.next + 1
    rcases hmem e he with he | rfl
    · exact Nat.lt_succ_of_lt (h.lt_next e he)
    · exact Nat.lt_succ_self _
  · rcases hmem a ha with ha | rfl <;> rcases hmem b hb with hb | rfl
    · exact h.same a ha b hb hab
    · exact absurd hab (hnew a ha)
    · exact absurd hab.symm (hnew b hb)
    · exact ⟨rfl, rfl, rfl⟩

theorem Ordered.drainHead (h : Ordered l) (hs : l.drainHead = some l') : Ordered l' := by
  unfold Link.drainHead at hs
  split at hs
  · rename_i ev q hnone hq
    obtain rfl := Option.some.inj hs
    have hpath : l.path = l.peer.applied ++ ev :: q := by simp [path, hnone, hq]
    exact h.of_advance hpath (by simp [path, hq]) rfl h.rows
  · cases hs

theorem Ordered.arrive (h : Ordered l) (hs : l.arrive = some l') : Ordered l' := by
  obtain ⟨ev, he, rfl⟩ := Option.map_eq_some_iff.1 hs
  have hpath : l.path = l.peer.applied ++ ev :: l.queue := by simp [path, he]
  refine h.of_advance hpath (by simp [path, he, Peer.apply]) rfl ?_
  simp only [Peer.apply, replay_concat, h.rows]

/-- A failed event is put back behind no newer version of its row. -/
def PutBackLast (l : Link) (maxRetries : Int) : Prop :=
  ∀ ev, l.sending = some ev → ev.retries + 1 < maxRetries → ∀ o ∈ l.queue, o.key = ev.key → o.seq ≤ ev.seq

instance (maxRetries : Int) : Decidable (PutBackLast l maxRetries) := by
  unfold PutBackLast
  cases h : l.sending with
  | none => exact .isTrue fun _ h => nomatch h
  | some ev =>
    exact decidable_of_iff (ev.retries + 1 < maxRetries → ∀ o ∈ l.queue, o.key = ev.key → o.seq ≤ ev.seq)
      ⟨fun h _ he => Option.some.inj he ▸ h, fun h => h ev rfl⟩

theorem Ordered.drainDone (h : Ordered l) {maxRetries : Int} {failed : Bool} (hback : failed = true → l.PutBackLast maxRetries)
    (hs : l.drainDone maxRetries failed = some l') : Ordered l' := by
  unfold Link.drainDone at hs
  cases he : l.sending with
  | none => simp [he] at hs
  | some ev =>
    simp only [he] at hs
    have hpath : l.path = l.peer.applied ++ (ev :: l.queue) := by simp [path, he]
    have hdrop : List.Sublist (l.peer.applied ++ dropHead ev l.queue) l.path := by
      rw [hpath]
      exact (List.Sublist.refl _).append ((dropHead_sublist ev l.queue).cons ev)
    cases failed with
    | false =>
      obtain rfl := Option.some.inj hs
      exact h.of_sublist (by simpa [path] using hdrop) rfl rfl
    | true =>
      obtain rfl := Option.some.inj hs
      by_cases hlt : ev.retries + 1 < maxRetries
      · let ev' : ChangeEvent := { ev with retries := ev.retries + 1 }
        have hsort : ∀ a ∈ l.peer.applied ++ dropHead ev l.queue, a.key = ev.key → a.seq ≤ ev.seq := fun a ha hk => by
          rcases List.mem_append.1 ha with ha | ha
          · have hf : Forward ChangeEvent.key ChangeEvent.seq (l.peer.applied ++ (ev :: l.queue)) := hpath ▸ h.forward
            exact (List.pairwise_append.1 hf).2.2 a ha ev (List.mem_cons_self ..) hk
          · exact hback rfl ev he hlt a ((dropHead_sublist ev l.queue).subset ha) hk
        have hpath' : path { l with
            queue := dropHead ev l.queue ++ [ev'], sending := none, givenUp := l.givenUp ++ [ev] } =
            (l.peer.applied ++ dropHead ev l.queue) ++ [ev'] := by simp [path]
        simp only [hlt, if_true]
        refine h.of_forward (hpath' ▸ Forward.concat (h.forward.sublist hdrop) hsort) (fun e hm => ?_) rfl h.rows
        rw [hpath'] at hm
        rcases List.mem_append.1 hm with hm | hm
        · exact ⟨e, hdrop.subset hm, rfl, rfl, rfl⟩
        · exact ⟨ev, by simp [hpath], by rw [List.mem_singleton.1 hm]; exact ⟨rfl, rfl, rfl⟩⟩
      · exact h.of_sublist (by simpa [path, hlt] using hdrop) rfl rfl

end Link

namespace P2PSync

variable {p p' : P2PSync} {id : Option LocalIdentity} {maxRetries : Int} {as : List (Bytes × Action)}

/-- A failed event is put back behind no newer version of its row, and no request given up on arrives. -/
def Forwards (p : P2PSync) : Bytes × Action → Prop
  | (dst, .drainDone true) => (p.links dst).PutBackLast p.maxRetries
  | (_, .arriveLate _) => False
  | _ => True

instance (p : P2PSync) : ∀ a, Decidable (Forwards p a)
  | (dst, .drainDone true) => inferInstanceAs (Decidable ((p.links dst).PutBackLast p.maxRetries))
  | (_, .drainDone false) => .isTrue trivial
  | (_, .arriveLate _) => .isFalse fun h => h
  | (_, .enqueue _) => .isTrue trivial
  | (_, .drainHead) => .isTrue trivial
  | (_, .arrive) => .isTrue trivial

theorem stepLink_ordered {dst : Bytes} {a : Action} {l : Link} (ha : p.Forwards (dst, a)) (h : (p.links dst).Ordered)
    (hs : p.stepLink dst (p.links dst) a = some l) : l.Ordered := by
  cases a with
  | enqueue ev =>
    obtain rfl := Option.some.inj hs
    split
    · exact h
    · exact h.enqueue dst ev
  | drainHead => exact h.drainHead hs
  | arrive => exact h.arrive hs
  | drainDone failed =>
    refine h.drainDone (fun hf => ?_) hs
    subst hf
    exact ha
  | arriveLate i => exact ha.elim

theorem step_ordered {a : Bytes × Action} (h : ∀ dst, (p.links dst).Ordered) (ha : p.Forwards a) (hs : p.step a = some p')
    (dst : Bytes) : (p'.links dst).Ordered := by
  obtain ⟨l, hl, rfl⟩ := Option.map_eq_some_iff.1 hs
  by_cases hd : dst = a.1
  · subst hd
    simpa using stepLink_ordered ha (h a.1) hl
  · simpa [Function.update_of_ne hd] using h dst

theorem run_ordered (hP : Lts.RunAll step Forwards (NewP2PSync id maxRetries) as)
    (hr : Lts.run step (NewP2PSync id maxRetries) as = some p) (dst : Bytes) : (p.links dst).Ordered := by
  have hinit : ∀ dst, ((NewP2PSync id maxRetries).links dst).Ordered := fun _ =>
    ⟨.nil, by simp [NewP2PSync, Link.path], by simp [NewP2PSync, Link.path], rfl⟩
  exact Lts.run_invariant (fun _ _ _ h ha hs => step_ordered h ha hs) hinit hP hr dst

/-- A peer never applies an older version of a row after a newer one, in every run in which a failed
event is put back behind no newer version of its row and no request given up on arrives. -/
theorem applied_forward (hP : Lts.RunAll step Forwards (NewP2PSync id maxRetries) as)
    (hr : Lts.run step (NewP2PSync id maxRetries) as = some p) (dst : Bytes) :
    Forward ChangeEvent.key ChangeEvent.seq (p.links dst).peer.applied :=
  (List.pairwise_append.1 (run_ordered hP hr dst).forward).1

theorem row_of_newest (hP : Lts.RunAll step Forwards (NewP2PSync id maxRetries) as)
    (hr : Lts.run step (NewP2PSync id maxRetries) as = some p) {dst : Bytes} {ev : ChangeEvent}
    (hev : ev ∈ (p.links dst).peer.applied) (hact : ev.action ≠ .remove)
    (hmax : ∀ a ∈ (p.links dst).peer.applied, a.key = ev.key → a.seq ≤ ev.seq) :
    (p.links dst).peer.rows ev.key = some ⟨ev.data, false⟩ := by
  have h := run_ordered hP hr dst
  rw [h.rows]
  refine replay_of_newest (applied_forward hP hr dst) (fun a ha _ hseq r => ?_) hev hmax
  obtain ⟨-, ha, hd⟩ := h.same a (List.mem_append_left _ ha) ev (List.mem_append_left _ hev) hseq
  rw [write, if_neg (ha ▸ hact), Upsert, hd]

def localInst : LocalIdentity := ⟨str "instA", [str "alice"]⟩

def projectChange (action : SyncAction) (data : String) : Action :=
  .enqueue ⟨str "project", action, str data, str "project|project_id=\"p1\"", [], 0, 0⟩

def toInstB (as : List Action) : List (Bytes × Action) := as.map fun a => (str "instB", a)

def retryRun : List (Bytes × Action) := toInstB
  [projectChange .create "v1", .drainHead, .arrive, .drainDone true, .drainHead, .arrive, .drainDone false,
    projectChange .update "v2", projectChange .update "v3", .drainHead, .arrive, .drainDone false]

def tailRun : List (Bytes × Action) := toInstB
  [projectChange .create "v1", projectChange .update "v2", .drainHead, .drainDone true,
    .drainHead, .arrive, .drainDone false, .drainHead, .arrive, .drainDone false]

def lateRun : List (Bytes × Action) := toInstB
  [projectChange .create "v1", .drainHead, .drainDone true, .drainHead, .arrive, .drainDone false,
    projectChange .update "v2", .drainHead, .arrive, .drainDone false, .arriveLate 0]

theorem retryRun_forward : ∃ p, Lts.run step (NewP2PSync (some localInst) 3) retryRun = some p ∧
    (p.links (str "instB")).peer.applied.map ChangeEvent.data = [str "v1", str "v1", str "v3"] ∧
    Forward ChangeEvent.key ChangeEvent.seq (p.links (str "instB")).peer.applied := by
  have hP : Lts.RunAll step Forwards (NewP2PSync (some localInst) 3) retryRun := by decide +kernel
  have hrun : (Lts.run step (NewP2PSync (some localInst) 3) retryRun).map (fun p => decide
      ((p.links (str "instB")).peer.applied.map ChangeEvent.data = [str "v1", str "v1", str "v3"])) = some true := by
    decide +kernel
  obtain ⟨p, hr, hd⟩ := Option.map_eq_some_iff.1 hrun
  exact ⟨p, hr, of_decide_eq_true hd, applied_forward hP hr _⟩

theorem row_of_newest_retryRun : ∃ p, Lts.run step (NewP2PSync (some localInst) 3) retryRun = some p ∧
    (p.links (str "instB")).peer.rows (str "project|project_id=\"p1\"") = some ⟨str "v3", false⟩ := by
  have hP : Lts.RunAll step Forwards (NewP2PSync (some localInst) 3) retryRun := by decide +kernel
  have hrun : (Lts.run step (NewP2PSync (some localInst) 3) retryRun).any (fun p => (p.links (str "instB")).peer.applied.getLast?.any fun ev =>
      decide (ev.key = str "project|project_id=\"p1\"" ∧ ev.data = str "v3" ∧ ev.action ≠ .remove ∧
        ∀ a ∈ (p.links (str "instB")).peer.applied, a.key = ev.key → a.seq ≤ ev.seq)) = true := by decide +kernel
  obtain ⟨p, hr, hlast⟩ := (Option.any_eq_true ..).1 hrun
  obtain ⟨ev, hev, h⟩ := (Option.any_eq_true ..).1 hlast
  obtain ⟨hkey, hdata, hact, hmax⟩ := of_decide_eq_true h
  refine ⟨p, hr, ?_⟩
  rw [← hkey, ← hdata]
  exact row_of_newest hP hr (List.mem_of_getLast? hev) hact hmax

/-- A failed event put back at the tail, or a request that outlives its attempt, takes a row back. -/
theorem tailRun_lateRun_back : [tailRun, lateRun].Forall fun as => ∃ p, Lts.run step (NewP2PSync (some localInst) 3) as = some p ∧
    ¬ Forward ChangeEvent.key ChangeEvent.seq (p.links (str "instB")).peer.applied := by
  have hrun : ∀ as ∈ [tailRun, lateRun], (Lts.run step (NewP2PSync (some localInst) 3) as).map (fun p => decide
      (¬ Forward ChangeEvent.key ChangeEvent.seq (p.links (str "instB")).peer.applied)) = some true := by decide +kernel
  refine List.forall_iff_forall_mem.2 fun as has => ?_
  obtain ⟨p, hr, hd⟩ := Option.map_eq_some_iff.1 (hrun as has)
  exact ⟨p, hr, of_decide_eq_true hd⟩

end P2PSync

end Sync
