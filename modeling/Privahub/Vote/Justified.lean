import Privahub.Vote.Pass

/-!
# Recorded votes and the recorded outcome

Neither `Reply` nor a row from another party looks at the status of the request, so the invites of a decided
request may change. `Timely` is what rules that out: a write of an invite of a request that is decided, or
that a pass is about to decide, leaves its action alone, and a request that arrives from another party agrees
with the rows here. In such runs the invites of a decided request justify its status, but for a request
whose rejection is written while the invite that did not verify is not (`Pending`).
-/

namespace Vote

open SyncInvites (nextRequest nextRequest_cases nextInvite nextInvite_cases tally)

variable {s : Service} {db db' : Db} {u v p : Bytes} {x : Ending} {vr r : VoteRequestDO} {inv i : VoteInviteDO}
  {all todo : List VoteInviteDO} {rest : List VoteRequestDO} {st st' : Status} {b : Action} {w w' : World} {c d : Call}

def Votes (db : Db) (v p : Bytes) (b : Action) : Prop := ∃ i ∈ db.invites, i.key = (v, p) ∧ i.action = b

def SameVotes (v : Bytes) (db db' : Db) : Prop := ∀ p b, Votes db' v p b ↔ Votes db v p b

def Justifies (db : Db) (v : Bytes) : Status → Prop
  | .approved => ∀ p b, Votes db v p b → b = .approved
  | .rejected => ∃ p, Votes db v p .rejected
  | _ => True

def Decided (db : Db) (v : Bytes) : Prop := ∃ st, st ≠ .reviewing ∧ HasStatus db v st

def Known (db : Db) (v : Bytes) : Prop := ∃ st, HasStatus db v st

def Row (db : Db) (inv : VoteInviteDO) : Prop := ∃ i ∈ db.invites, i.id = inv.id ∧ i.key = inv.key

theorem HasStatus.unique (h : HasStatus db v st) (h' : HasStatus db v st') : st = st' := by
  obtain ⟨r, hr, hv, rfl⟩ := h
  obtain ⟨r', hr', hv', rfl⟩ := h'
  rw [Table.eq_of_col_eq db.vote_ids hr hr' (hv.trans hv'.symm)]

theorem Votes.unique {b' : Action} (h : Votes db v p b) (h' : Votes db v p b') : b = b' := by
  obtain ⟨i, hi, hk, rfl⟩ := h
  obtain ⟨i', hi', hk', rfl⟩ := h'
  rw [Table.eq_of_col_eq db.invite_keys hi hi' (hk.trans hk'.symm)]

theorem SameVotes.of_invites (h : db'.invites = db.invites) : SameVotes v db db' := by
  intro p b
  rw [Votes, Votes, h]

theorem Justifies.congr (h : Justifies db v st) (hv : SameVotes v db db') : Justifies db' v st := by
  cases st with
  | approved => exact fun p b hb => h p b ((hv p b).1 hb)
  | rejected =>
    obtain ⟨p, hp⟩ := h
    exact ⟨p, (hv p _).2 hp⟩
  | reviewing => trivial
  | other => trivial

theorem justifies_reviewing : Justifies db v .reviewing := trivial

theorem justifies_tally (h : tally (db.invitesOf v) st ≠ st) : Justifies db v (tally (db.invitesOf v) st) := by
  unfold tally at h ⊢
  split_ifs at h ⊢ with hrej happ
  · obtain ⟨i, hi, hact⟩ := List.any_eq_true.1 hrej
    obtain ⟨hmem, hv⟩ := mem_invitesOf.1 hi
    exact ⟨i.voteParticipantId, i, hmem, by rw [VoteInviteDO.key, hv], of_decide_eq_true hact⟩
  · rintro p b ⟨i, hi, hk, rfl⟩
    have hv : i.voteId = v := (Prod.mk.inj hk).1
    exact of_decide_eq_true (List.all_eq_true.1 happ i (mem_invitesOf.2 ⟨hi, hv⟩))
  · exact absurd rfl h

/-- The invite with key `k` has been written, with the action `b`. -/
structure Wrote (db db' : Db) (k : Bytes × Bytes) (b : Action) : Prop where
  status : ∀ v st, HasStatus db' v st ↔ HasStatus db v st
  rows : ∀ i, Row db i → Row db' i
  self : ∀ b', Votes db' k.1 k.2 b' ↔ b' = b
  others : ∀ v p b', (v, p) ≠ k → (Votes db' v p b' ↔ Votes db v p b')

theorem Wrote.same {k : Bytes × Bytes} (h : Wrote db db' k b) (hv : v ≠ k.1) : SameVotes v db db' := by
  intro p b'
  refine h.others v p b' ?_
  intro he
  exact hv (congrArg Prod.fst he)

theorem Wrote.keeps {k : Bytes × Bytes} (h : Wrote db db' k b) (hb : Votes db k.1 k.2 b) : SameVotes k.1 db db' := by
  intro p b'
  by_cases hp : p = k.2
  · subst hp
    rw [h.self]
    constructor
    · rintro rfl
      exact hb
    · exact fun hb' => hb'.unique hb
  · refine h.others _ p b' ?_
    intro he
    exact hp (congrArg Prod.snd he)

theorem wrote_updateWhere {k : Bytes × Bytes} {q : VoteInviteDO → Bool} {f : VoteInviteDO → VoteInviteDO}
    (hst : ∀ v st, HasStatus db' v st ↔ HasStatus db v st) (hinv : db'.invites = Table.updateWhere q f db.invites)
    (hq : ∀ i ∈ db.invites, q i ↔ i.key = k) (hf : ∀ i ∈ db.invites, i.key = k → (f i).id = i.id ∧ (f i).key = k ∧ (f i).action = b)
    (hex : ∃ i ∈ db.invites, i.key = k) : Wrote db db' k b := by
  refine ⟨hst, ?_, ?_, ?_⟩
  · rintro i ⟨j, hj, hid, hkey⟩
    refine ⟨_, hinv ▸ Table.mem_updateWhere.2 ⟨j, hj, rfl⟩, ?_⟩
    split_ifs with hqj
    · obtain ⟨h₁, h₂, _⟩ := hf j hj ((hq j hj).1 hqj)
      exact ⟨h₁.trans hid, h₂.trans (((hq j hj).1 hqj).symm.trans hkey)⟩
    · exact ⟨hid, hkey⟩
  · intro b'
    constructor
    · rintro ⟨i', hi', hkey, rfl⟩
      obtain ⟨j, hj, rfl⟩ := Table.mem_updateWhere.1 (hinv ▸ hi')
      split_ifs at hkey ⊢ with hqj
      · exact (hf j hj ((hq j hj).1 hqj)).2.2
      · exact absurd ((hq j hj).2 hkey) hqj
    · rintro rfl
      obtain ⟨j, hj, hkey⟩ := hex
      obtain ⟨_, h₂, h₃⟩ := hf j hj hkey
      exact ⟨f j, hinv ▸ Table.mem_updateWhere.2 ⟨j, hj, if_pos ((hq j hj).2 hkey)⟩, h₂, h₃⟩
  · intro v p b' hne
    constructor
    · rintro ⟨i', hi', hkey, rfl⟩
      obtain ⟨j, hj, rfl⟩ := Table.mem_updateWhere.1 (hinv ▸ hi')
      split_ifs at hkey ⊢ with hqj
      · exact absurd (hkey.symm.trans (hf j hj ((hq j hj).1 hqj)).2.1) hne
      · exact ⟨j, hj, hkey, rfl⟩
    · rintro ⟨j, hj, hkey, rfl⟩
      have hqj : ¬ q j := fun hqj => hne (hkey.symm.trans ((hq j hj).1 hqj))
      exact ⟨j, hinv ▸ Table.mem_updateWhere.2 ⟨j, hj, if_neg hqj⟩, hkey, rfl⟩

theorem setInvites_eq {is : List VoteInviteDO} (h : db.setInvites is = some db') :
    (∀ v st, HasStatus db' v st ↔ HasStatus db v st) ∧ db'.invites = is := by
  unfold Db.setInvites at h
  split_ifs at h
  obtain rfl := Option.some.inj h
  exact ⟨fun _ _ => Iff.rfl, rfl⟩

theorem Wrote.of_invites {mid : Db} {k : Bytes × Bytes} (h : Wrote db mid k b)
    (hst : ∀ v st, HasStatus db' v st ↔ HasStatus db v st) (hinv : db'.invites = mid.invites) : Wrote db db' k b := by
  refine ⟨hst, fun i hi => ?_, fun b' => ?_, fun v p b' hne => ?_⟩
  · rw [Row, hinv]
    exact h.rows i hi
  · rw [Votes, hinv]
    exact h.self b'
  · rw [Votes, hinv]
    exact h.others v p b' hne

theorem wrote_saveInvite (hrow : Row db inv) (h : db.saveInvite inv = some db') : Wrote db db' inv.key inv.action := by
  obtain ⟨j, hj, hid, hkey⟩ := hrow
  unfold Db.saveInvite at h
  rw [if_pos (List.any_eq_true.2 ⟨j, hj, decide_eq_true hid⟩)] at h
  obtain ⟨hreq, hinv⟩ := setInvites_eq h
  have heq : ∀ i ∈ db.invites, i.id = inv.id ↔ i.key = inv.key := by
    intro i hi
    constructor
    · intro hi'
      rw [Table.eq_of_col_eq db.invite_ids hi hj (hi'.trans hid.symm), hkey]
    · intro hi'
      rw [Table.eq_of_col_eq db.invite_keys hi hj (hi'.trans hkey.symm), hid]
  refine wrote_updateWhere hreq hinv (fun i hi => ?_) (fun i hi hk => ?_) ⟨j, hj, hkey⟩
  · rw [decide_eq_true_iff]
    exact heq i hi
  · exact ⟨((heq i hi).2 hk).symm, rfl, rfl⟩

theorem wrote_upsertInvite (h : db.upsertInvite inv = some db') : Wrote db db' inv.key inv.action := by
  unfold Db.upsertInvite at h
  split_ifs at h with hany
  · obtain ⟨j, hj, hkey⟩ := List.any_eq_true.1 hany
    obtain ⟨hreq, hinv⟩ := setInvites_eq h
    exact wrote_updateWhere hreq hinv (fun i _ => by simp) (fun i _ _ => ⟨rfl, rfl, rfl⟩) ⟨j, hj, of_decide_eq_true hkey⟩
  · obtain ⟨hreq, hinv⟩ := setInvites_eq h
    have hnone : ∀ i ∈ db.invites, i.key ≠ inv.key := by
      intro i hi hk
      exact hany (List.any_eq_true.2 ⟨i, hi, decide_eq_true hk⟩)
    refine ⟨hreq, ?_, ?_, ?_⟩
    · rintro i ⟨j, hj, hij⟩
      exact ⟨j, hinv ▸ List.mem_append_left _ hj, hij⟩
    · intro b'
      constructor
      · rintro ⟨i', hi', hkey, rfl⟩
        rcases List.mem_append.1 (hinv ▸ hi') with hi' | hi'
        · exact absurd hkey (hnone i' hi')
        · rw [List.mem_singleton.1 hi']
      · rintro rfl
        exact ⟨inv, hinv ▸ List.mem_append_right _ (List.mem_singleton_self _), rfl, rfl⟩
    · intro v p b' hne
      constructor
      · rintro ⟨i', hi', hkey, rfl⟩
        rcases List.mem_append.1 (hinv ▸ hi') with hi' | hi'
        · exact ⟨i', hi', hkey, rfl⟩
        · rw [List.mem_singleton.1 hi'] at hkey
          exact absurd hkey.symm hne
      · rintro ⟨j, hj, hkey, rfl⟩
        exact ⟨j, hinv ▸ List.mem_append_left _ hj, hkey, rfl⟩

theorem wrote_updateInvites (reason : Bytes) (hrow : Row db inv) :
    Wrote db (db.updateInvites (fun i => decide (i.key = inv.key)) b reason) inv.key b := by
  obtain ⟨j, hj, _, hkey⟩ := hrow
  refine wrote_updateWhere (fun _ _ => Iff.rfl) rfl (fun i _ => by simp) (fun i _ hk => ⟨rfl, ?_, rfl⟩) ⟨j, hj, hkey⟩
  exact hk

theorem hasStatus_updateWhere {q : VoteRequestDO → Bool} {f : VoteRequestDO → VoteRequestDO} (h : HasStatus db' v st)
    (hreq : db'.requests = Table.updateWhere q f db.requests) (hf : ∀ r, (f r).voteId = r.voteId) :
    ∃ r ∈ db.requests, r.voteId = v ∧ (q r ∧ (f r).status = st ∨ ¬ q r ∧ r.status = st) := by
  obtain ⟨r', hr', hv, hst⟩ := h
  obtain ⟨r, hr, rfl⟩ := Table.mem_updateWhere.1 (hreq ▸ hr')
  split_ifs at hv hst with hq
  · exact ⟨r, hr, (hf r).symm.trans hv, .inl ⟨hq, hst⟩⟩
  · exact ⟨r, hr, hv, .inr ⟨hq, hst⟩⟩

theorem known_updateRequests {q : VoteRequestDO → Bool} {f : VoteRequestDO → VoteRequestDO} (hf : ∀ r, (f r).voteId = r.voteId)
    (h : Known db v) : Known (db.updateRequests q f hf) v := by
  obtain ⟨_, r, hr, hv, _⟩ := h
  refine ⟨_, _, Table.mem_updateWhere.2 ⟨r, hr, rfl⟩, ?_, rfl⟩
  split_ifs
  · exact (hf r).trans hv
  · exact hv

theorem hasStatus_upsertRequest (h : db.upsertRequest vr = some db') :
    (HasStatus db' v st ↔ if v = vr.voteId then st = vr.status else HasStatus db v st) ∧ db'.invites = db.invites := by
  have hset : ∀ {rs}, db.setRequests rs = some db' → db'.requests = rs ∧ db'.invites = db.invites := by
    intro rs h
    unfold Db.setRequests at h
    split_ifs at h
    obtain rfl := Option.some.inj h
    exact ⟨rfl, rfl⟩
  unfold Db.upsertRequest at h
  split_ifs at h with hany
  · obtain ⟨hreq, hinv⟩ := hset h
    refine ⟨?_, hinv⟩
    unfold HasStatus
    rw [hreq]
    split_ifs with hv
    · obtain ⟨j, hj, hjv⟩ := List.any_eq_true.1 hany
      constructor
      · rintro ⟨r', hr', hv', rfl⟩
        obtain ⟨r, _, rfl⟩ := Table.mem_updateWhere.1 hr'
        split_ifs at hv' ⊢ with hq
        · rfl
        · exact absurd (decide_eq_true (hv'.trans hv)) hq
      · rintro rfl
        exact ⟨vr, Table.mem_updateWhere.2 ⟨j, hj, if_pos hjv⟩, hv.symm, rfl⟩
    · constructor
      · rintro ⟨r', hr', hv', hst⟩
        obtain ⟨r, hr, rfl⟩ := Table.mem_updateWhere.1 hr'
        split_ifs at hv' hst with hq
        · exact absurd hv'.symm hv
        · exact ⟨r, hr, hv', hst⟩
      · rintro ⟨r, hr, hv', hst⟩
        exact ⟨r, Table.mem_updateWhere.2 ⟨r, hr, if_neg fun hq => hv (hv'.symm.trans (of_decide_eq_true hq))⟩, hv', hst⟩
  · obtain ⟨hreq, hinv⟩ := hset h
    refine ⟨?_, hinv⟩
    unfold HasStatus
    rw [hreq]
    split_ifs with hv
    · constructor
      · rintro ⟨r, hr, hv', rfl⟩
        rcases List.mem_append.1 hr with hr | hr
        · exact absurd (List.any_eq_true.2 ⟨r, hr, decide_eq_true (hv'.trans hv)⟩) hany
        · rw [List.mem_singleton.1 hr]
      · rintro rfl
        exact ⟨vr, List.mem_append_right _ (List.mem_singleton_self _), hv.symm, rfl⟩
    · constructor
      · rintro ⟨r, hr, hv', hst⟩
        rcases List.mem_append.1 hr with hr | hr
        · exact ⟨r, hr, hv', hst⟩
        · rw [List.mem_singleton.1 hr] at hv'
          exact absurd hv'.symm hv
      · rintro ⟨r, hr, hv', hst⟩
        exact ⟨r, List.mem_append_left _ hr, hv', hst⟩

/-- The call has written a rejection of the request and is to write that of the invite. -/
def Call.Pending (v : Bytes) : Call → Prop
  | .syncInvites (.rejectInvite vr _ _ _) => vr.voteId = v
  | _ => False

def Fixed (w : World) (v : Bytes) : Prop :=
  Decided w.db v ∨ ∃ i vr st rest, w.calls i = some (.syncInvites (.update vr st rest)) ∧ vr.voteId = v

/-- The write of the invite leaves the action alone where it has to. -/
def WriteTimely (w : World) (inv : VoteInviteDO) : Prop :=
  Fixed w inv.voteId → Votes w.db inv.voteId inv.voteParticipantId inv.action

/-- The request that arrives has the status of the row here, or takes a `REVIEWING` one to a status that the
invites here justify. -/
def Agrees (db : Db) (vr : VoteRequestDO) : Prop :=
  HasStatus db vr.voteId vr.status ∨ ¬ Decided db vr.voteId ∧ Justifies db vr.voteId vr.status

def Call.timely (s : Service) (w : World) (x : Ending) : Call → Prop
  | .syncInvites (.rejectRequest ..) | .syncInvites (.rejectInvite ..) | .syncInvites (.reread ..) => x.error = false
  | .reply (.save _ inv _) => s.platform ≠ .edge → WriteTimely w inv
  | .syncInvite inv => WriteTimely w inv
  | .syncRequest vr => Agrees w.db vr
  | _ => True

def Timely (s : Service) (w : World) : Act → Prop
  | .start _ _ => True
  | .exec i x => ∀ c, w.calls i = some c → c.timely s w x
  | .abandon i => ∀ c, w.calls i = some c → ∀ v, ¬ c.Pending v

def InHand (db : Db) : SyncInvites → Prop
  | .verify vr _ inv todo _ => ∀ i ∈ inv :: todo, Row db i ∧ i.voteId = vr.voteId
  | .rejectRequest vr _ inv _ => Row db inv ∧ inv.voteId = vr.voteId
  | .rejectInvite vr _ inv _ => Row db inv ∧ inv.voteId = vr.voteId ∧ HasStatus db vr.voteId .rejected
  | .update vr st _ => HasStatus db vr.voteId .reviewing → Justifies db vr.voteId st
  | _ => True

def Good (db : Db) : Call → Prop
  | .syncInvites pc => (∀ r ∈ pc.hand, Known db r.voteId) ∧ InHand db pc
  | .reply (.findRequest _ inv) | .reply (.save _ inv _) => Row db inv
  | _ => True

structure Frame (db db' : Db) : Prop where
  rows : ∀ i, Row db i → Row db' i
  known : ∀ v, Known db v → Known db' v
  rejected : ∀ v, HasStatus db v .rejected → HasStatus db' v .rejected
  back : ∀ v, Known db v → HasStatus db' v .reviewing → HasStatus db v .reviewing

theorem Frame.refl : Frame db db := ⟨fun _ h => h, fun _ h => h, fun _ h => h, fun _ _ h => h⟩

/-- What a step of the call `c` leads to. -/
structure Stepped (w : World) (c : Call) (n : Next) : Prop where
  frame : Frame w.db n.db
  votes : ∀ v, SameVotes v w.db n.db ∨ ¬ Fixed w v ∨ c.Pending v
  status : ∀ v st, HasStatus n.db v st → HasStatus w.db v st ∨ Justifies n.db v st ∨
    st = .rejected ∧ ∃ d, n.call = some d ∧ d.Pending v
  done : ∀ v, c.Pending v → HasStatus n.db v .rejected ∧ Justifies n.db v .rejected
  good : ∀ d, n.call = some d → Good n.db d

theorem Stepped.of_eq {n : Next} (hdb : n.db = w.db) (hc : ∀ v, ¬ c.Pending v) (hgood : ∀ d, n.call = some d → Good w.db d) :
    Stepped w c n := by
  refine ⟨hdb ▸ Frame.refl, fun v => .inl ?_, fun v st h => .inl (hdb ▸ h), fun v hv => absurd hv (hc v), ?_⟩
  · exact SameVotes.of_invites (congrArg Db.invites hdb)
  · rw [hdb]
    exact hgood

theorem Stepped.of_wrote {n : Next} {k : Bytes × Bytes} (h : Wrote w.db n.db k b) (hc : ∀ v, ¬ c.Pending v)
    (ht : Fixed w k.1 → Votes w.db k.1 k.2 b) (hn : n.call = none) : Stepped w c n := by
  have hst := h.status
  refine ⟨⟨h.rows, ?_, fun v hv => (hst v _).2 hv, fun v _ hv => (hst v _).1 hv⟩, fun v => ?_,
    fun v st hv => .inl ((hst v st).1 hv), fun v hv => absurd hv (hc v), fun d hd => ?_⟩
  · rintro v ⟨st, hv⟩
    exact ⟨st, (hst v st).2 hv⟩
  · by_cases hv : v = k.1
    · subst hv
      by_cases hf : Fixed w k.1
      · exact .inl (h.keeps (ht hf))
      · exact .inr (.inl hf)
    · exact .inl (h.same hv)
  · rw [hn] at hd
    cases hd

theorem row_of_mem (h : i ∈ db.invites) : Row db i := ⟨i, h, rfl, rfl⟩

theorem good_nextRequest (hrest : ∀ r ∈ rest, Known db r.voteId) (h : nextRequest rest = some d) : Good db d := by
  obtain ⟨_, _, rfl, rfl⟩ := nextRequest_cases h
  exact ⟨hrest, trivial⟩

theorem good_nextInvite (hhand : ∀ r ∈ vr :: rest, Known db r.voteId) (htodo : ∀ i ∈ todo, Row db i ∧ i.voteId = vr.voteId) :
    Good db (nextInvite vr all rest todo) := by
  rcases nextInvite_cases vr all rest todo with ⟨hn, -⟩ | ⟨passed, i, todo', rfl, -, hn⟩
  · rw [hn]
    exact ⟨hhand, trivial⟩
  · rw [hn]
    exact ⟨hhand, fun j hj => htodo j (List.mem_append_right _ hj)⟩

theorem prepare_key {req : ReplyRequest} {inv' : VoteInviteDO} (h : Reply.prepare s req inv vr = .ok inv') :
    inv'.id = inv.id ∧ inv'.key = inv.key := by
  simp only [Reply.prepare, bind, Except.bind, pure, Except.pure, throw, throwThe, MonadExceptOf.throw] at h
  repeat' split at h
  all_goals first
    | (obtain rfl := Except.ok.inj h; exact ⟨rfl, rfl⟩)
    | cases h

theorem stepped_reply {pc : Reply} (hg : Good w.db (.reply pc)) (ht : (Call.reply pc).timely s w x) :
    Stepped w (.reply pc) (pc.run s w.db x) := by
  have hnext : ∀ d, (pc.run s w.db x).call = some d → Good w.db d := by
    intro d hd
    cases pc with
    | findInvite req =>
      simp only [Reply.run, Reply.fail] at hd
      split_ifs at hd
      · split at hd
        · cases hd
        · rename_i inv hfind
          split_ifs at hd
          obtain rfl := Option.some.inj hd
          exact row_of_mem (List.mem_of_find?_eq_some hfind)
    | findRequest req inv =>
      simp only [Reply.run, Reply.fail] at hd
      split at hd
      · cases hd
      · split at hd
        · cases hd
        · rename_i hprep
          obtain rfl := Option.some.inj hd
          obtain ⟨j, hj, hid, hkey⟩ := hg
          obtain ⟨h₁, h₂⟩ := prepare_key hprep
          exact ⟨j, hj, hid.trans h₁.symm, hkey.trans h₂.symm⟩
    | save req inv vr =>
      simp only [Reply.run, Reply.write, Reply.fail, Reply.saved] at hd
      repeat' split at hd
      all_goals cases hd
  rcases reply_cases (s := s) (x := x) pc with hdb | ⟨req, inv, vr, mid, rfl, hpl, hs, hinv, hst⟩
  · exact .of_eq hdb (fun _ h => h) hnext
  · refine .of_wrote ((wrote_saveInvite hg hs).of_invites hst hinv) (fun _ h => h) (ht hpl) ?_
    simp only [Reply.run, Reply.write, Reply.fail, Reply.saved]
    repeat' split
    all_goals rfl

theorem stepped_syncRequest (ht : (Call.syncRequest vr).timely s w x) :
    Stepped w (.syncRequest vr) (s.run w.db x (.syncRequest vr)) := by
  have hsame : (s.run w.db x (.syncRequest vr)).db = w.db → Stepped w (.syncRequest vr) (s.run w.db x (.syncRequest vr)) :=
    fun hdb => .of_eq hdb (fun _ h => h) fun d hd => by cases hd
  cases hx : x.error with
  | true => exact hsame (by simp [Service.run, hx])
  | false =>
    cases hup : w.db.upsertRequest vr with
    | none => exact hsame (by simp [Service.run, hx, hup])
    | some db' =>
      have hrun : s.run w.db x (.syncRequest vr) = ⟨db', none, none⟩ := by simp [Service.run, hx, hup]
      rw [hrun]
      have hst : ∀ v st, HasStatus db' v st ↔ if v = vr.voteId then st = vr.status else HasStatus w.db v st :=
        fun v st => (hasStatus_upsertRequest hup).1
      have hinv : db'.invites = w.db.invites := (hasStatus_upsertRequest hup : (HasStatus db' [] .reviewing ↔ _) ∧ _).2
      have ht : Agrees w.db vr := ht
      refine ⟨⟨fun i hi => ?_, fun v hv => ?_, fun v hv => ?_, fun v hv hr => ?_⟩, fun v => .inl (.of_invites hinv),
        fun v st h => ?_, fun _ h => h.elim, fun d hd => by cases hd⟩
      · rw [Row, hinv]
        exact hi
      · obtain ⟨st, hv⟩ := hv
        by_cases he : v = vr.voteId
        · exact ⟨vr.status, (hst _ _).2 (by rw [if_pos he])⟩
        · exact ⟨st, (hst _ _).2 (by rw [if_neg he]; exact hv)⟩
      · rw [hst]
        split_ifs with he
        · subst he
          rcases ht with h | ⟨h, _⟩
          · exact hv.unique h
          · exact absurd ⟨.rejected, by simp, hv⟩ h
        · exact hv
      · rw [hst] at hr
        split_ifs at hr with he
        · subst he
          rcases ht with h | ⟨h, _⟩
          · rwa [hr]
          · obtain ⟨st, hv⟩ := hv
            by_cases hs : st = .reviewing
            · exact hs ▸ hv
            · exact absurd ⟨st, hs, hv⟩ h
        · exact hr
      · rw [hst] at h
        split_ifs at h with he
        · subst he h
          rcases ht with h | ⟨_, h⟩
          · exact .inl h
          · exact .inr (.inl (h.congr (.of_invites hinv)))
        · exact .inl h

theorem stepped_syncInvite (ht : (Call.syncInvite inv).timely s w x) :
    Stepped w (.syncInvite inv) (s.run w.db x (.syncInvite inv)) := by
  have hsame : (s.run w.db x (.syncInvite inv)).db = w.db → Stepped w (.syncInvite inv) (s.run w.db x (.syncInvite inv)) :=
    fun hdb => .of_eq hdb (fun _ h => h) fun d hd => by cases hd
  cases hx : x.error with
  | true => exact hsame (by simp [Service.run, hx])
  | false =>
    cases hup : w.db.upsertInvite inv with
    | none => exact hsame (by simp [Service.run, hx, hup])
    | some db' =>
      have hrun : s.run w.db x (.syncInvite inv) = ⟨db', none, none⟩ := by simp [Service.run, hx, hup]
      rw [hrun]
      exact .of_wrote (wrote_upsertInvite hup) (fun _ h => h) ht rfl

theorem Stepped.of_read {pc : SyncInvites} (hdb : (pc.run s w.db x).db = w.db) (hc : ∀ v, ¬ (Call.syncInvites pc).Pending v)
    (hgood : ∀ d, (pc.run s w.db x).call = some d → Good w.db d) : Stepped w (.syncInvites pc) (pc.run s w.db x) :=
  .of_eq hdb hc hgood

theorem stepped_rejectRequest (hg : Good w.db (.syncInvites (.rejectRequest vr all inv rest))) (hx : x.error = false) :
    Stepped w (.syncInvites (.rejectRequest vr all inv rest)) (SyncInvites.run s w.db x (.rejectRequest vr all inv rest)) := by
  obtain ⟨hhand, hrow, hv⟩ := hg
  have hhand : ∀ r ∈ vr :: rest, Known w.db r.voteId := hhand
  obtain ⟨st₀, hknown⟩ := hhand vr (List.mem_cons_self ..)
  simp only [SyncInvites.run, hx, Bool.false_eq_true, if_false]
  have hid : (SyncInvites.rejectedRequest vr inv).voteId = vr.voteId := rfl
  generalize SyncInvites.rejectedRequest vr inv = vr' at hid
  have hset : HasStatus (w.db.updateRequests (fun r => decide (r.voteId = vr.voteId))
      (fun r => { r with status := .rejected, msg := vr'.msg, partyVoteInfo := vr'.partyVoteInfo }) (fun _ => rfl))
      vr.voteId .rejected := hasStatus_set hknown (fun r hr _ => decide_eq_true hr) fun _ => rfl
  have hkeep : ∀ v, Known w.db v → Known (w.db.updateRequests (fun r => decide (r.voteId = vr.voteId))
      (fun r => { r with status := .rejected, msg := vr'.msg, partyVoteInfo := vr'.partyVoteInfo }) (fun _ => rfl)) v :=
    fun v hv => known_updateRequests _ hv
  generalize hdb : w.db.updateRequests (fun r => decide (r.voteId = vr.voteId))
      (fun r => { r with status := .rejected, msg := vr'.msg, partyVoteInfo := vr'.partyVoteInfo }) (fun _ => rfl) = db' at hset hkeep ⊢
  have hinv : db'.invites = w.db.invites := by rw [← hdb]; rfl
  refine ⟨⟨fun i hi => ?_, hkeep, fun v hv => ?_, fun v _ hv => ?_⟩,
    fun v => .inl (.of_invites hinv), fun v st h => ?_, fun _ h => h.elim, fun d hd => ?_⟩
  · rw [Row, hinv]
    exact hi
  · show HasStatus db' v .rejected
    by_cases he : v = vr.voteId
    · exact he ▸ hset
    · rw [← hdb]
      exact hasStatus_updateRequests hv fun r hr => decide_eq_false fun h => he (hr.symm.trans h)
  · have hv : HasStatus db' v .reviewing := hv
    rw [← hdb] at hv
    exact hasStatus_of_updateRequests (fun _ _ h => absurd h (by simp)) hv
  · have h : HasStatus db' v st := h
    rw [← hdb] at h
    obtain ⟨r, hr, hrv, ⟨hq, hst⟩ | ⟨_, hst⟩⟩ := hasStatus_updateWhere h rfl fun _ => rfl
    · exact .inr (.inr ⟨hst.symm, _, rfl, hid.trans ((of_decide_eq_true hq).symm.trans hrv)⟩)
    · exact .inl ⟨r, hr, hrv, hst⟩
  · obtain rfl := Option.some.inj hd
    have hset' : HasStatus db' vr'.voteId .rejected := hid ▸ hset
    refine ⟨fun r hr => ?_, ?_, hv.trans hid.symm, hset'⟩
    · have hr : r ∈ vr' :: rest := hr
      rcases List.mem_cons.1 hr with rfl | hr
      · exact ⟨_, hset'⟩
      · exact hkeep _ (hhand r (.tail _ hr))
    · rw [Row, hinv]
      exact hrow

theorem stepped_rejectInvite (hg : Good w.db (.syncInvites (.rejectInvite vr all inv rest))) (hx : x.error = false) :
    Stepped w (.syncInvites (.rejectInvite vr all inv rest)) (SyncInvites.run s w.db x (.rejectInvite vr all inv rest)) := by
  obtain ⟨hhand, hrow, hv, hst⟩ := hg
  simp only [SyncInvites.run, hx, Bool.false_eq_true, if_false]
  have hwrote := wrote_updateInvites (b := .rejected) (SyncInvites.rejected inv).reason hrow
  refine ⟨⟨hwrote.rows, fun v hv => hv, fun v hv => hv, fun v _ hv => hv⟩, fun u => ?_, fun v st h => .inl h, ?_, fun d hd => ?_⟩
  · by_cases hu : u = inv.voteId
    · exact .inr (.inr (hv.symm.trans hu.symm))
    · exact .inl (hwrote.same hu)
  · intro u hu
    have hu : vr.voteId = u := hu
    subst hu
    refine ⟨hst, inv.voteParticipantId, ?_⟩
    rw [← hv]
    exact (hwrote.self _).2 rfl
  · obtain rfl := Option.some.inj hd
    exact ⟨hhand, trivial⟩

theorem stepped_update (hg : Good w.db (.syncInvites (.update vr st rest))) :
    Stepped w (.syncInvites (.update vr st rest)) (SyncInvites.run s w.db x (.update vr st rest)) := by
  obtain ⟨hhand, hjust⟩ := hg
  have hhand : ∀ r ∈ vr :: rest, Known w.db r.voteId := hhand
  have hrest : ∀ r ∈ rest, Known w.db r.voteId := fun r hr => hhand r (.tail _ hr)
  cases hx : x.error with
  | true => exact .of_read (by simp [SyncInvites.run, hx]) (fun _ h => h) fun d hd => good_nextRequest hrest hd
  | false =>
    simp only [SyncInvites.run, hx, Bool.false_eq_true, if_false]
    have hkeep : ∀ v, Known w.db v → Known (w.db.updateRequests (fun r => decide (r.voteId = vr.voteId ∧ r.status = .reviewing))
        (fun r => { r with status := st }) (fun _ => rfl)) v := fun v hv => known_updateRequests _ hv
    refine ⟨⟨fun i hi => hi, hkeep, fun v hv => ?_, fun v _ hv => ?_⟩,
      fun v => .inl (.of_invites rfl), fun v st' h => ?_, fun _ h => h.elim,
      fun d hd => good_nextRequest (fun r hr => hkeep _ (hrest r hr)) hd⟩
    · obtain ⟨r, hr, hrv, hst⟩ := hv
      refine ⟨r, Table.mem_updateWhere.2 ⟨r, hr, if_neg fun hq => ?_⟩, hrv, hst⟩
      have hrev := (of_decide_eq_true hq).2
      rw [hst] at hrev
      cases hrev
    · obtain ⟨r, hr, hrv, ⟨hq, _⟩ | ⟨_, hst⟩⟩ := hasStatus_updateWhere hv rfl fun _ => rfl
      · exact ⟨r, hr, hrv, (of_decide_eq_true hq).2⟩
      · exact ⟨r, hr, hrv, hst⟩
    · obtain ⟨r, hr, hrv, ⟨hq, hst⟩ | ⟨_, hst⟩⟩ := hasStatus_updateWhere h rfl fun _ => rfl
      · obtain ⟨hvr, hrev⟩ := of_decide_eq_true hq
        have hv : v = vr.voteId := hrv.symm.trans hvr
        have hst : st = st' := hst
        subst hst hv
        exact .inr (.inl ((hjust ⟨r, hr, hvr, hrev⟩).congr (.of_invites rfl)))
      · exact .inl ⟨r, hr, hrv, hst⟩

theorem stepped_syncInvites {pc : SyncInvites} (hg : Good w.db (.syncInvites pc)) (ht : (Call.syncInvites pc).timely s w x) :
    Stepped w (.syncInvites pc) (pc.run s w.db x) := by
  cases pc with
  | findByStatus =>
    refine .of_read rfl (fun _ h => h) fun d hd => ?_
    simp only [SyncInvites.run] at hd
    split_ifs at hd
    exact good_nextRequest (fun r hr => ⟨_, r, (List.mem_filter.1 hr).1, rfl, rfl⟩) hd
  | invites vr rest =>
    obtain ⟨hhand, -⟩ := hg
    have hhand : ∀ r ∈ vr :: rest, Known w.db r.voteId := hhand
    have htodo : ∀ i ∈ (if x.error then [] else w.db.invitesOf vr.voteId), Row w.db i ∧ i.voteId = vr.voteId := by
      intro i hi
      split_ifs at hi
      · cases hi
      · obtain ⟨hmem, hv⟩ := mem_invitesOf.1 hi
        exact ⟨row_of_mem hmem, hv⟩
    refine .of_read rfl (fun _ h => h) fun d hd => ?_
    simp only [SyncInvites.run] at hd
    generalize (if x.error then [] else w.db.invitesOf vr.voteId) = is at hd htodo
    split_ifs at hd
    · exact good_nextRequest (fun r hr => hhand r (.tail _ hr)) hd
    · obtain rfl := Option.some.inj hd
      exact good_nextInvite hhand htodo
    · obtain rfl := Option.some.inj hd
      exact ⟨hhand, trivial⟩
  | verify vr all inv todo rest =>
    obtain ⟨hhand, htodo⟩ := hg
    refine .of_read rfl (fun _ h => h) fun d hd => ?_
    simp only [SyncInvites.run] at hd
    split_ifs at hd
    · obtain rfl := Option.some.inj hd
      exact good_nextInvite hhand fun i hi => htodo i (.tail _ hi)
    · obtain rfl := Option.some.inj hd
      exact ⟨hhand, htodo inv (List.mem_cons_self ..)⟩
  | rejectRequest vr all inv rest => exact stepped_rejectRequest hg ht
  | rejectInvite vr all inv rest => exact stepped_rejectInvite hg ht
  | reread vr all rest =>
    obtain ⟨hhand, -⟩ := hg
    have hhand : ∀ r ∈ vr :: rest, Known w.db r.voteId := hhand
    have hx : x.error = false := ht
    refine .of_read rfl (fun _ h => h) fun d hd => ?_
    simp only [SyncInvites.run, SyncInvites.decide_, hx, Bool.false_eq_true, if_false] at hd
    split_ifs at hd with htally
    · exact good_nextRequest (fun r hr => hhand r (.tail _ hr)) hd
    · obtain rfl := Option.some.inj hd
      exact ⟨hhand, fun _ => justifies_tally htally⟩
  | update vr st rest => exact stepped_update hg

theorem stepped_run (hg : Good w.db c) (ht : c.timely s w x) : Stepped w c (s.run w.db x c) := by
  cases c with
  | syncInvites pc => exact stepped_syncInvites hg ht
  | reply pc => exact stepped_reply hg ht
  | syncInvite inv => exact stepped_syncInvite ht
  | syncRequest vr => exact stepped_syncRequest ht

structure Justified (w : World) : Prop where
  calls : w.All (Good w.db)
  status : ∀ v st, HasStatus w.db v st → Justifies w.db v st ∨ st = .rejected ∧ ∃ i c, w.calls i = some c ∧ c.Pending v

theorem Stepped.keeps {n : Next} (h : Stepped w c n) (hg : Good w.db d) {j : Nat} (hd : w.calls j = some d) : Good n.db d := by
  cases d with
  | reply pc =>
    cases pc with
    | findInvite req => trivial
    | findRequest req inv => exact h.frame.rows _ hg
    | save req inv vr => exact h.frame.rows _ hg
  | syncInvite inv => trivial
  | syncRequest vr => trivial
  | syncInvites pc =>
    obtain ⟨hhand, hin⟩ := hg
    refine ⟨fun r hr => h.frame.known _ (hhand r hr), ?_⟩
    cases pc with
    | findByStatus => trivial
    | invites vr rest => trivial
    | reread vr all rest => trivial
    | verify vr all inv todo rest => exact fun i hi => ⟨h.frame.rows _ (hin i hi).1, (hin i hi).2⟩
    | rejectRequest vr all inv rest => exact ⟨h.frame.rows _ hin.1, hin.2⟩
    | rejectInvite vr all inv rest => exact ⟨h.frame.rows _ hin.1, hin.2.1, h.frame.rejected _ hin.2.2⟩
    | update vr st rest =>
      intro hrev
      have hjust := hin (h.frame.back _ (hhand vr (List.mem_cons_self ..)) hrev)
      rcases h.votes vr.voteId with hv | hv | hv
      · exact hjust.congr hv
      · exact absurd (.inr ⟨j, vr, st, rest, hd, rfl⟩) hv
      · exact absurd (hrev.unique (h.done _ hv).1) (by simp)

theorem Justified.after {i : Nat} (h : Justified w) (hc : w.calls i = some c) (ht : c.timely s w x) :
    Justified (w.after s.exec i c x) := by
  have hstep : Stepped w c (s.run w.db x c) := stepped_run (h.calls i c hc) ht
  have hself : ∀ d, (s.run w.db x c).call = some d → (w.after s.exec i c x).calls i = some d := by
    intro d hd
    show Function.update w.calls i (s.run w.db x c).call i = some d
    rw [Function.update_self, hd]
  have hother : ∀ j, j ≠ i → (w.after s.exec i c x).calls j = w.calls j := fun j hj => Function.update_of_ne hj ..
  refine ⟨fun j d hd => ?_, fun v st hv => ?_⟩
  · by_cases hj : j = i
    · subst hj
      refine hstep.good d ?_
      simpa [Calls.World.after, Service.exec] using hd
    · rw [hother j hj] at hd
      exact hstep.keeps (h.calls j d hd) hd
  · rcases hstep.status v st hv with hold | hj | ⟨hst, d, hd, hp⟩
    · rcases hstep.votes v with hsame | hfix | hp
      · rcases h.status v st hold with hjust | ⟨hst, j, d, hd, hp⟩
        · exact .inl (hjust.congr hsame)
        · by_cases hj : j = i
          · subst hj
            obtain rfl := Option.some.inj (hc.symm.trans hd)
            exact .inl (hst ▸ (hstep.done v hp).2)
          · exact .inr ⟨hst, j, d, (hother j hj).trans hd, hp⟩
      · have hst : st = .reviewing := by
          by_contra hne
          exact hfix (.inl ⟨st, hne, hold⟩)
        exact .inl (hst ▸ justifies_reviewing)
      · obtain ⟨hrej, hjust⟩ := hstep.done v hp
        exact .inl (hv.unique hrej ▸ hjust)
    · exact .inl hj
    · exact .inr ⟨hst, i, d, hself d hd, hp⟩

theorem Justified.step {a : Act} (h : Justified w) (ht : Timely s w a) (hs : s.step w a = some w') : Justified w' := by
  obtain ⟨i, c, rfl, hf, hn, rfl⟩ | ⟨i, c, x, rfl, hc, rfl⟩ | ⟨i, c, rfl, hc, rfl⟩ := Calls.step_cases hs
  · refine ⟨h.calls.begin ?_, fun v st hv => ?_⟩
    · cases c with
      | syncInvites pc => cases pc <;> simp [Call.first] at hf; exact ⟨nofun, trivial⟩
      | reply pc => cases pc <;> simp [Call.first] at hf; trivial
      | syncInvite inv => trivial
      | syncRequest vr => trivial
    · rcases h.status v st hv with hj | ⟨hst, j, d, hd, hp⟩
      · exact .inl hj
      · have hji : j ≠ i := by
          rintro rfl
          rw [hn] at hd
          cases hd
        exact .inr ⟨hst, j, d, (Function.update_of_ne hji ..).trans hd, hp⟩
  · exact h.after hc (ht c hc)
  · refine ⟨h.calls.drop, fun v st hv => ?_⟩
    rcases h.status v st hv with hj | ⟨hst, j, d, hd, hp⟩
    · exact .inl hj
    · have hji : j ≠ i := by
        rintro rfl
        exact ht d hd v hp
      exact .inr ⟨hst, j, d, (Function.update_of_ne hji ..).trans hd, hp⟩

theorem Justified.votes {a : Act} (h : Justified w) (ht : Timely s w a) (hs : s.step w a = some w') (hv : Decided w.db v) :
    SameVotes v w.db w'.db ∨ HasStatus w'.db v .rejected ∧ Justifies w'.db v .rejected ∧
      ∃ i x c, a = .exec i x ∧ w.calls i = some c ∧ c.Pending v := by
  obtain ⟨i, c, rfl, _, _, rfl⟩ | ⟨i, c, x, rfl, hc, rfl⟩ | ⟨i, c, rfl, _, rfl⟩ := Calls.step_cases hs
  · exact .inl fun _ _ => Iff.rfl
  · have hstep : Stepped w c (s.run w.db x c) := stepped_run (h.calls i c hc) (ht c hc)
    rcases hstep.votes v with hsame | hfix | hp
    · exact .inl hsame
    · exact absurd (.inl hv) hfix
    · exact .inr ⟨(hstep.done v hp).1, (hstep.done v hp).2, i, x, c, rfl, hc, hp⟩
  · exact .inl fun _ _ => Iff.rfl

/-- In every run whose writes come in time, the invites of a decided request keep their actions and justify its
status, but for a rejection that a pass is about to write to the invite. -/
theorem votes_justify {as : List Act} (hdb : ∀ v st, HasStatus db v st → Justifies db v st)
    (ht : Lts.RunAll s.step (Timely s) (.idle db) as) (hr : Lts.run s.step (.idle db) as = some w) :
    (∀ v st, HasStatus w.db v st → Justifies w.db v st ∨ st = .rejected ∧ ∃ i c, w.calls i = some c ∧ c.Pending v) ∧
    ∀ a w' v, Timely s w a → s.step w a = some w' → Decided w.db v → SameVotes v w.db w'.db ∨
      HasStatus w'.db v .rejected ∧ Justifies w'.db v .rejected ∧ ∃ i x c, a = .exec i x ∧ w.calls i = some c ∧ c.Pending v := by
  have h : Justified w := Lts.run_invariant (fun _ _ _ hi hp hs => hi.step hp hs)
    ⟨Calls.World.idle_all _ _, fun v st hv => .inl (hdb v st hv)⟩ ht hr
  exact ⟨h.status, fun a w' v ha hs hv => h.votes ha hs hv⟩

def withVoter : Service := { center with parseRequest := fun _ => .ok ([], [[3]]) }

def answer (i : Nat) (action : Action) : Act :=
  .start i (.reply (.findInvite ⟨action, [], [3], [1], none, .ok (), .ok [], .ok (), .ok ()⟩))

def go (i : Nat) : Act := .exec i fine

def inTime : List Act := [answer 1 .approved, go 1, go 1, go 1] ++ onePass [fine, fine, fine, fine]

/-- The reply is saved while no request is decided and no other call is in flight. -/
def early (v : World) : Act → Bool
  | .exec i x => !x.error && match v.calls i with
    | some (.reply (.save ..)) => (v.db.requests.all fun r => decide (r.status = .reviewing)) &&
        (List.range 2).all fun j => j == i || (v.calls j).isNone
    | some (.syncInvite _) | some (.syncRequest _) => false
    | _ => true
  | .start .. => true
  | .abandon _ => false

theorem votes_justify_inTime : ∃ w, Lts.run withVoter.step (.idle (voted (some .reviewing))) inTime = some w ∧
    (∀ v st, HasStatus w.db v st → Justifies w.db v st ∨ st = .rejected ∧ ∃ i c, w.calls i = some c ∧ c.Pending v) ∧
    ∀ a w' v, Timely withVoter w a → withVoter.step w a = some w' → Decided w.db v → SameVotes v w.db w'.db ∨
      HasStatus w'.db v .rejected ∧ Justifies w'.db v .rejected ∧ ∃ i x c, a = .exec i x ∧ w.calls i = some c ∧ c.Pending v := by
  obtain ⟨w, hw⟩ : ∃ w, Lts.run withVoter.step (.idle (voted (some .reviewing))) inTime = some w :=
    Option.isSome_iff_exists.1 (by decide +kernel)
  refine ⟨w, hw, votes_justify (fun v st hst => ?_) ?_ hw⟩
  · obtain ⟨r, hr, _, rfl⟩ := hst
    obtain rfl := List.mem_singleton.1 hr
    trivial
  refine Calls.runAll_of_slots (n := 2) (Q := fun v a => early v a = true) (fun v a hn ha => ?_) (fun _ _ => rfl)
    (by simp [inTime, onePass, answer, go]) (by decide +kernel)
  cases a with
  | start i c => trivial
  | abandon i => cases ha
  | exec i x =>
    intro c hc
    simp only [early, hc] at ha
    obtain ⟨hx, ha⟩ := Bool.and_eq_true_iff.1 ha
    have hx : x.error = false := by simpa using hx
    cases c with
    | syncInvite inv => cases ha
    | syncRequest vr => cases ha
    | syncInvites pc => cases pc <;> first | exact hx | trivial
    | reply pc =>
      cases pc with
      | findInvite req => trivial
      | findRequest req inv => trivial
      | save req inv vr =>
        obtain ⟨hreq, hother⟩ := Bool.and_eq_true_iff.1 ha
        rintro - (⟨st, hne, r, hr, _, hst⟩ | ⟨j, vr', st, rest, hj, _⟩)
        · exact absurd (hst.symm.trans (of_decide_eq_true (List.all_eq_true.1 hreq r hr))) hne
        · have hlt : j < 2 := by
            by_contra hge
            rw [hn j (by omega)] at hj
            cases hj
          have hji : j = i ∨ (v.calls j).isNone := by simpa using List.all_eq_true.1 hother j (List.mem_range.2 hlt)
          rcases hji with rfl | hnone
          · rw [hc] at hj
            cases hj
          · rw [hj] at hnone
            cases hnone

/-- The request is approved, and then the participant's reply is a rejection. -/
theorem approved_then_rejected : ∃ w, Lts.run withVoter.step (.idle (voted (some .approved)))
      (onePass [fine, fine, fine, fine] ++ [answer 1 .rejected, go 1, go 1, go 1]) = some w ∧
    HasStatus w.db [1] .approved ∧ Votes w.db [1] [3] .rejected ∧ ¬ Justifies w.db [1] .approved := by
  have hrun : (Lts.run withVoter.step (.idle (voted (some .approved)))
      (onePass [fine, fine, fine, fine] ++ [answer 1 .rejected, go 1, go 1, go 1])).map (fun w =>
        decide (w.db.requests = [{ oneRequest with status := .approved }] ∧ w.db.invites = [oneInvite .rejected])) = some true := by
    decide +kernel
  obtain ⟨w, hw, h⟩ := Option.map_eq_some_iff.1 hrun
  obtain ⟨hreq, hinv⟩ := of_decide_eq_true h
  have hvote : Votes w.db [1] [3] .rejected := ⟨oneInvite .rejected, by simp [hinv], rfl, rfl⟩
  refine ⟨w, hw, ⟨{ oneRequest with status := .approved }, by simp [hreq], rfl, rfl⟩, hvote, fun h => ?_⟩
  exact absurd (h _ _ hvote) (by simp)

end Vote
