import Privahub.Sync.Inbound

/-!
# What a received row sends out again

Votes, invites and approvals of a peer are written without the mark of a consumer (`p2pRepublished`), so the producer
sees them like rows of the platform. Its filter lets one kind through: the answer of an invitee. The initiator of the
vote sends it to all parties, the invitee among them, and adds it to the vote request, which is sent as well. Nobody
sends these two out again (`no_bounce`).

The producer sees an upsert as a creation, whatever the message was. Its sink is asynchronous, so the filter may find
other rows than the write did.
-/

namespace Sync

structure Sent where
  dst : Bytes
  action : SyncAction
  entity : Entity
  deriving DecidableEq

/-- `p2pRepublished`. -/
def p2pRepublished : List Bytes := [TableVoteRequest, TableVoteInvite, TableProjectApprovalConfig]

/-- What the callbacks of the producer see of `Apply`: the new row, or the rows that were deleted. -/
def Consumer.captured (c : Consumer) (now : Int) (action : SyncAction) (e : Entity) : List (SyncAction × Entity) :=
  if e.table ∉ p2pRepublished ∨ e.keyed = false then []
  else if action = .remove then (c.rows.filter fun h => decide (h.row.SameKey e) && !h.isDeleted).map fun h => (.remove, h.row)
  else [(.create, Consumer.stamped now e)]

namespace P2PProducer

variable (s : P2PProducer)

/-- `CompensatePartyVoteInfo`: the vote request of an invite, if the information of the party in it has changed. -/
def compensated (changed : Bool) (now : Int) (inv : Entity) : Option Entity :=
  if inv.fieldString "vote_id" = [] ∨ inv.fieldString "vote_participant_id" = [] ∨ changed = false then none
  else (s.rows.find? fun h => !h.isDeleted && isRow TableVoteRequest [("vote_id", inv.fieldString "vote_id")] h).map
    fun h => { h.row with gmtModified := now }

/-- `enqueue` of a change that has passed the filter. -/
def queued (action : SyncAction) (e : Entity) : List Sent := (s.sentTo action e).map fun dst => ⟨dst, action, e⟩

/-- `Push`: the filter updates the vote request of an invite of this platform, which is a change of its own. -/
def Push (changed : Bool) (now : Int) (action : SyncAction) (e : Entity) : List Sent :=
  s.queued action e ++
    if e.table ∈ s.tables ∧ e.table = TableVoteInvite ∧ e.fieldString "initiator" = s.sync.instID then
      ((s.compensated changed now e).map (s.queued .update)).getD []
    else []

end P2PProducer

def Consumer.enqueued (c : Consumer) (k : Codec) (s : P2PProducer) (changed : Bool) (now : Int) (d : Consumer.PeerMessage) (o o' : Order) : List Sent :=
  match c.accepted k d o o' with
  | none => []
  | some e => (c.captured now d.action e).flatMap fun x => s.Push changed now x.1 x.2

/-- A platform that receives messages, with what each of them has queued. -/
structure Receiver where
  consumer : Consumer
  log : List (Consumer.PeerMessage × Sent)

/-- A message, with the producer that looks at its changes, or writes of the platform itself. -/
inductive Receive
  | message (d : Consumer.PeerMessage) (o o' : Order) (now : Int) (targets : List Bytes) (s : P2PProducer) (changed : Bool)
  | own (rows : List Held) (h : Keyed rows)

namespace Receiver

variable (k : Codec)

def step (r : Receiver) : Receive → Option Receiver
  | .message d o o' now targets s changed => some
      { consumer := { r.consumer with rows := r.consumer.ApplyFromPeer k now targets d o o', keyed := keyed_applyFromPeer }
        log := r.log ++ (r.consumer.enqueued k s changed now d o o').map fun x => (d, x) }
  | .own rows h => some { r with consumer := { r.consumer with rows := rows, keyed := h } }

/-- The messages are those of other institutions than `inst`, which is the receiver, and spell no column twice. -/
def Foreign (inst : Bytes) (r : Receiver) : Receive → Prop
  | .message d o o' _ _ s _ => s.sync.instID = inst ∧ r.consumer.isPeer (r.consumer.peerOf (Utf8.trimSpace d.origin)) inst = false ∧
      Spelled k.unicode d.members ∧ o.Of k.unicode d.members ∧ o'.Of k.unicode d.members
  | .own _ _ => True

end Receiver

/-- The message is the answer of an invitee to the vote of `inst`, and what is queued the invite or its vote request. -/
structure Answered (inst : Bytes) (d : Consumer.PeerMessage) (x : Sent) : Prop where
  table : d.table = TableVoteInvite
  action : d.action = .update
  forwarded : x.action = .create ∧ x.entity.table = TableVoteInvite ∨ x.action = .update ∧ x.entity.table = TableVoteRequest
  initiator : x.entity.fieldString "initiator" = inst

variable {c : Consumer} {k : Codec} {s : P2PProducer} {p : PeerID} {action a : SyncAction} {e f : Entity} {now : Int} {inst : Bytes} {changed : Bool}
  {x : Sent}

theorem mem_captured (h : (a, f) ∈ c.captured now action e) :
    f.table = e.table ∧ e.table ∈ p2pRepublished ∧
      (action = .remove ∧ a = .remove ∧ (∃ g ∈ c.rows, g.row.SameKey e ∧ f = g.row) ∨ action ≠ .remove ∧ a = .create ∧ f = Consumer.stamped now e) := by
  unfold Consumer.captured at h
  split_ifs at h with hout hremove
  · cases h
  · obtain ⟨g, hg, hf⟩ := List.mem_map.1 h
    obtain ⟨rfl, rfl⟩ := Prod.mk.inj hf
    obtain ⟨hg, hkey⟩ := List.mem_filter.1 hg
    have hkey : g.row.SameKey e := of_decide_eq_true (Bool.and_eq_true_iff.1 hkey).1
    exact ⟨hkey.1, not_not.1 fun hn => hout (.inl hn), .inl ⟨hremove, rfl, g, hg, hkey, rfl⟩⟩
  · obtain ⟨rfl, rfl⟩ := Prod.mk.inj (List.mem_singleton.1 h)
    refine ⟨?_, not_not.1 fun hn => hout (.inl hn), .inr ⟨hremove, rfl, rfl⟩⟩
    unfold Consumer.stamped
    split_ifs
    · rfl
    · rfl

theorem captured_owned (hcheck : c.checkPeerOwnership p action e = true) (h : (a, f) ∈ c.captured now action e) : c.peerOwns p action f = true := by
  obtain ⟨hentity, hexisting⟩ := checked hcheck
  obtain ⟨_, _, ⟨_, _, g, hg, hkey, rfl⟩ | ⟨hne, _, rfl⟩⟩ := mem_captured h
  · exact hexisting g hg hkey
  · exact stamped_owned.trans (hentity hne)

theorem owned_initiator (ht : f.table ∈ p2pRepublished) (howns : c.peerOwns p action f = true) (hp : c.isPeer p s.sync.instID = false)
    (hf : f.fieldString "initiator" = s.sync.instID) : f.table = TableVoteInvite ∧ action = .update := by
  have hself : ¬c.isPeer p (f.fieldString "initiator") = true := by
    intro h
    rw [hf, hp] at h
    exact Bool.false_ne_true h
  unfold p2pRepublished at ht
  simp only [List.mem_cons, List.not_mem_nil, or_false] at ht
  rcases ht with ht | ht | ht
  · rw [(rules_vote (s := s) (.inl ht)).2] at howns
    exact absurd howns hself
  · rw [(rules_invite (s := s) ht).2] at howns
    rcases Bool.or_eq_true_iff.1 howns with howns | howns
    · exact absurd howns hself
    · exact ⟨ht, of_decide_eq_true (Bool.and_eq_true_iff.1 (Bool.and_eq_true_iff.1 howns).1).1⟩
  · rw [(rules_vote (s := s) (.inr ht)).2] at howns
    exact absurd howns hself

theorem mem_queued (h : x ∈ s.queued a f) : x.action = a ∧ x.entity = f ∧ ∃ r, s.route a f = some r := by
  obtain ⟨dst, hdst, rfl⟩ := List.mem_map.1 h
  obtain ⟨_, r, hr, _⟩ := mem_sentTo.1 hdst
  exact ⟨rfl, rfl, r, hr⟩

theorem route_initiator (c : Consumer) (p : PeerID) (ht : f.table ∈ p2pRepublished) (ha : a ≠ .update ∨ f.table ≠ TableVoteInvite) {r : Route} (hr : s.route a f = some r) :
    f.fieldString "initiator" = s.sync.instID := by
  have hvote : f.table = TableVoteRequest ∨ f.table = TableProjectApprovalConfig → f.fieldString "initiator" = s.sync.instID := by
    intro ht
    rw [(rules_vote (c := c) (p := p) ht).1] at hr
    by_contra hne
    rw [decide_eq_false hne, if_neg Bool.false_ne_true] at hr
    cases hr
  unfold p2pRepublished at ht
  simp only [List.mem_cons, List.not_mem_nil, or_false] at ht
  rcases ht with ht | ht | ht
  · exact hvote (.inl ht)
  · rw [(rules_invite (c := c) (p := p) ht).1] at hr
    by_contra hne
    rw [if_neg hne, if_neg (ha.resolve_right (not_not.2 ht))] at hr
    cases hr
  · exact hvote (.inr ht)

theorem compensated_table {inv r : Entity} (h : s.compensated changed now inv = some r) : r.table = TableVoteRequest := by
  unfold P2PProducer.compensated at h
  split_ifs at h
  obtain ⟨g, hg, rfl⟩ := Option.map_eq_some_iff.1 h
  have hrow := List.find?_some hg
  exact table_of_isRow (Bool.and_eq_true_iff.1 hrow).2

theorem pushed_answered (hcheck : c.checkPeerOwnership p action e = true) (hp : c.isPeer p s.sync.instID = false)
    (hcaptured : (a, f) ∈ c.captured now action e) (h : x ∈ s.Push changed now a f) :
    e.table = TableVoteInvite ∧ action = .update ∧
      (x.action = .create ∧ x.entity.table = TableVoteInvite ∨ x.action = .update ∧ x.entity.table = TableVoteRequest) ∧
      x.entity.fieldString "initiator" = s.sync.instID := by
  obtain ⟨htable, hrepublished, hkind⟩ := mem_captured hcaptured
  have howns := captured_owned hcheck hcaptured
  have hmem : f.table ∈ p2pRepublished := htable ▸ hrepublished
  have hcreate : action = .update → a = .create := by
    rintro rfl
    rcases hkind with ⟨hremove, _⟩ | ⟨_, ha, _⟩
    · cases hremove
    · exact ha
  have hne : a ≠ .update := by
    rcases hkind with ⟨_, rfl, _⟩ | ⟨_, rfl, _⟩
    · exact nofun
    · exact nofun
  unfold P2PProducer.Push at h
  rcases List.mem_append.1 h with h | h
  · obtain ⟨hxa, hxf, r, hr⟩ := mem_queued h
    have hinitiator := route_initiator c p hmem (.inl hne) hr
    obtain ⟨hinvite, hupdate⟩ := owned_initiator hmem howns hp hinitiator
    rw [hxf]
    exact ⟨htable ▸ hinvite, hupdate, .inl ⟨hxa.trans (hcreate hupdate), hinvite⟩, hinitiator⟩
  · split_ifs at h with hown
    · obtain ⟨_, hinvite, hinitiator⟩ := hown
      obtain ⟨_, hupdate⟩ := owned_initiator hmem howns hp hinitiator
      cases hcomp : s.compensated changed now f with
      | none =>
        rw [hcomp] at h
        cases h
      | some r =>
        rw [hcomp, Option.map_some, Option.getD_some] at h
        obtain ⟨hxa, hxf, _, hr⟩ := mem_queued h
        have hrequest := compensated_table hcomp
        have hrmem : r.table ∈ p2pRepublished := by
          rw [hrequest]
          exact .head _
        have hrne : r.table ≠ TableVoteInvite := by
          rw [hrequest]
          decide
        rw [hxf]
        exact ⟨htable ▸ hinvite, hupdate, .inr ⟨hxa, hrequest⟩, route_initiator c p hrmem (.inr hrne) hr⟩
    · cases h

theorem enqueued_answered {d : Consumer.PeerMessage} {o o' : Order} (hp : c.isPeer (c.peerOf (Utf8.trimSpace d.origin)) s.sync.instID = false)
    (hs : Spelled k.unicode d.members) (ho : o.Of k.unicode d.members) (ho' : o'.Of k.unicode d.members)
    (h : x ∈ c.enqueued k s changed now d o o') : Answered s.sync.instID d x := by
  unfold Consumer.enqueued at h
  cases he : c.accepted k d o o' with
  | none =>
    rw [he] at h
    cases h
  | some e =>
    rw [he] at h
    obtain ⟨htable, hcheck⟩ := accepted_checked hs ho ho' he
    obtain ⟨⟨a, f⟩, hcaptured, hx⟩ := List.mem_flatMap.1 h
    obtain ⟨hinvite, hupdate, hforwarded, hinitiator⟩ := pushed_answered hcheck hp hcaptured hx
    exact ⟨htable.symm.trans hinvite, hupdate, hforwarded, hinitiator⟩

theorem step_answered {r r' : Receiver} {m : Receive} (hr : ∀ y ∈ r.log, Answered inst y.1 y.2) (hm : Receiver.Foreign k inst r m)
    (h : r.step k m = some r') : ∀ y ∈ r'.log, Answered inst y.1 y.2 := by
  cases m with
  | own rows hk =>
    obtain rfl := Option.some.inj h
    exact hr
  | message d o o' now targets s changed =>
    obtain rfl := Option.some.inj h
    obtain ⟨rfl, hp, hs, ho, ho'⟩ := hm
    intro y hy
    rcases List.mem_append.1 hy with hy | hy
    · exact hr y hy
    · obtain ⟨x, hx, rfl⟩ := List.mem_map.1 hy
      exact enqueued_answered hp hs ho ho' hx

theorem run_answered {r : Receiver} {ms : List Receive} (hms : Lts.RunAll (Receiver.step k) (Receiver.Foreign k inst) ⟨c, []⟩ ms)
    (h : Lts.run (Receiver.step k) ⟨c, []⟩ ms = some r) : ∀ y ∈ r.log, Answered inst y.1 y.2 := by
  have hstep : ∀ (s : Receiver) (m : Receive) (s' : Receiver), (∀ y ∈ s.log, Answered inst y.1 y.2) → Receiver.Foreign k inst s m →
      s.step k m = some s' → ∀ y ∈ s'.log, Answered inst y.1 y.2 := fun _ _ _ hr hm hs => step_answered hr hm hs
  have hnone : ∀ y ∈ (⟨c, []⟩ : Receiver).log, Answered inst y.1 y.2 := by
    intro y hy
    cases hy
  exact Lts.run_invariant hstep hnone hms h

/-- A message makes its receiver send something when it answers an invite of the receiver, and what is sent then makes
nobody send anything. -/
theorem no_bounce {r : Receiver} {ms : List Receive} (hms : Lts.RunAll (Receiver.step k) (Receiver.Foreign k inst) ⟨c, []⟩ ms)
    (h : Lts.run (Receiver.step k) ⟨c, []⟩ ms = some r) : ∀ y ∈ r.log, Answered inst y.1 y.2 ∧
      ∀ (k' : Codec) (c' : Consumer) (inst' : Bytes) (r' : Receiver) (ms' : List Receive),
        Lts.RunAll (Receiver.step k') (Receiver.Foreign k' inst') ⟨c', []⟩ ms' → Lts.run (Receiver.step k') ⟨c', []⟩ ms' = some r' →
        ∀ y' ∈ r'.log, ¬(y'.1.table = y.2.entity.table ∧ y'.1.action = y.2.action) := by
  intro y hy
  have hanswer := run_answered hms h y hy
  refine ⟨hanswer, ?_⟩
  intro k' c' inst' r' ms' hms' h' y' hy' hsame
  have hanswer' := run_answered hms' h' y' hy'
  rcases hanswer.forwarded with ⟨hcreate, _⟩ | ⟨_, hrequest⟩
  · exact absurd (hanswer'.action.symm.trans (hsame.2.trans hcreate)) nofun
  · exact absurd (hanswer'.table.symm.trans (hsame.1.trans hrequest)) (by decide)

def voteRows : List Held := sharedRows ++ [held TableVoteRequest [("vote_id", "v"), ("initiator", "instB"), ("voters", "alice")]]

theorem keyed_voteRows : Keyed voteRows := by decide +kernel

def bobSends : P2PProducer := { alice voteRows with sync := P2PSync.NewP2PSync (some ⟨str "instB", compact (str "bob" :: nodesOf voteRows (str "instB"))⟩) 3 }

def answer : List (Bytes × Json) := members [("vote_id", "v"), ("vote_participant_id", "alice"), ("initiator", "instB")]

def answers : Receive := .message (aliceSends TableVoteInvite .update answer (by decide)) (orderOf answer) (orderOf answer) 1 [] bobSends true

def twoVotes : List (Bytes × Json) := members [("voteId", "v0"), ("VoteId", "v")]

def twoVotesLate : Order := ⟨[], members [("VoteId", "v"), ("voteId", "v0")], []⟩

def bobQueues (d : Consumer.PeerMessage) (o o' : Order) : List Sent := (bob voteRows keyed_voteRows).enqueued codec bobSends true 1 d o o'

theorem foreign_answers : Receiver.Foreign codec (str "instB") ⟨bob voteRows keyed_voteRows, []⟩ answers := by
  have hspelled : Spelled .asciiCase answer :=
    ⟨spelledOnce_of_nodup (by decide +kernel), spelledOnce_of_nodup (by decide +kernel), spelledOnce_of_nodup (by decide +kernel)⟩
  exact ⟨rfl, by decide +kernel, hspelled, orderOf_of, orderOf_of⟩

theorem no_bounce_answer : ∃ r, Lts.run (Receiver.step codec) ⟨bob voteRows keyed_voteRows, []⟩ [answers] = some r ∧
    ∃ y ∈ r.log, Answered (str "instB") y.1 y.2 := by
  have hqueued : (⟨str "alice", .create, ⟨TableVoteInvite, [(str "vote_id", str "v"), (str "vote_participant_id", str "alice"), (str "initiator", str "instB")], 1⟩⟩ : Sent) ∈
      bobQueues (aliceSends TableVoteInvite .update answer (by decide)) (orderOf answer) (orderOf answer) := by decide +kernel
  have hy := List.mem_append_right [] (List.mem_map_of_mem (f := fun x => (aliceSends TableVoteInvite .update answer (by decide), x)) hqueued)
  have hforeign : Lts.RunAll (Receiver.step codec) (Receiver.Foreign codec (str "instB")) ⟨bob voteRows keyed_voteRows, []⟩ [answers] :=
    ⟨foreign_answers, fun _ _ => trivial⟩
  exact ⟨_, rfl, _, hy, (no_bounce hforeign rfl _ hy).1⟩

/-- Alice gets her answer back, and the deletion of a vote that Bob has asked for. -/
theorem answer_echoed :
    (∃ x ∈ bobQueues (aliceSends TableVoteInvite .update answer (by decide)) (orderOf answer) (orderOf answer), x.dst = str "alice") ∧
    twoVotesLate.Of .asciiCase twoVotes ∧
    ∃ x ∈ bobQueues (aliceSends TableVoteRequest .remove twoVotes (by decide)) (orderOf twoVotes) twoVotesLate, x.dst = str "alice" := by
  refine ⟨?_, ⟨?_, ?_, ?_⟩, ?_⟩
  · decide +kernel
  · have hnone : snakeKeys .asciiCase twoVotes = [] := List.filter_eq_nil_iff.2 (by decide +kernel)
    rw [hnone]
    exact .refl _
  · have hall : camelKeys .asciiCase twoVotes = twoVotes := List.filter_eq_self.2 (by decide +kernel)
    rw [hall]
    exact List.reverse_perm twoVotes
  · exact .refl _
  · decide +kernel

end Sync
