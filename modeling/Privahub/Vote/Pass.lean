import Privahub.Vote.Service

/-!
# What a pass of the monitor decides

`outcome` is the status that the invites of a request call for; a request without invites stays
`REVIEWING`. `Phase` says where a pass is with the request at hand, `Passing` adds that the requests it is
through with have their outcome and those to come are untouched. No pass and no reply sets a request back to
`REVIEWING`, so it leaves that status once at most (`left_once`).
-/

namespace Vote

open SyncInvites (nextRequest nextRequest_cases nextInvite nextInvite_cases tally)

variable {s : Service} {db db' : Db} {v : Bytes} {x : Ending} {vr r : VoteRequestDO} {inv : VoteInviteDO}
  {all todo : List VoteInviteDO} {rest : List VoteRequestDO} {V : List Bytes}

def outcome (invites : List VoteInviteDO) : Status := if invites = [] then .reviewing else tally invites .reviewing

def HasStatus (db : Db) (v : Bytes) (st : Status) : Prop := ∃ r ∈ db.requests, r.voteId = v ∧ r.status = st

def Settled (db : Db) (v : Bytes) : Prop := HasStatus db v (outcome (db.invitesOf v))

theorem mem_invitesOf {i : VoteInviteDO} : i ∈ db.invitesOf v ↔ i ∈ db.invites ∧ i.voteId = v := by
  simp [Db.invitesOf]

theorem hasStatus_updateRequests {p : VoteRequestDO → Bool} {f : VoteRequestDO → VoteRequestDO}
    {hf : ∀ r, (f r).voteId = r.voteId} {u : Bytes} {st : Status} (h : HasStatus db u st) (hp : ∀ r, r.voteId = u → p r = false) :
    HasStatus (db.updateRequests p f hf) u st := by
  obtain ⟨r, hr, hru, hst⟩ := h
  exact ⟨r, Table.mem_updateWhere.2 ⟨r, hr, if_neg (by simp [hp r hru])⟩, hru, hst⟩

theorem hasStatus_set {p : VoteRequestDO → Bool} {f : VoteRequestDO → VoteRequestDO} {hf : ∀ r, (f r).voteId = r.voteId}
    {u : Bytes} {st st' : Status} (h : HasStatus db u st) (hp : ∀ r, r.voteId = u → r.status = st → p r)
    (hst : ∀ r, (f r).status = st') : HasStatus (db.updateRequests p f hf) u st' := by
  obtain ⟨r, hr, hru, hs⟩ := h
  exact ⟨f r, Table.mem_updateWhere.2 ⟨r, hr, if_pos (hp r hru hs)⟩, (hf r).trans hru, hst r⟩

theorem invitesOf_updateInvites {u : Bytes} {reason : Bytes} (hu : inv.voteId ≠ u) :
    (db.updateInvites (fun i => decide (i.key = inv.key)) .rejected reason).invitesOf u = db.invitesOf u := by
  unfold Db.invitesOf Db.updateInvites Table.updateWhere
  rw [List.filter_map]
  have hsame : ∀ i ∈ db.invites.filter ((fun i => decide (i.voteId = u)) ∘
      fun i => if decide (i.key = inv.key) = true then { i with action := .rejected, reason := reason } else i),
      (if decide (i.key = inv.key) = true then { i with action := .rejected, reason := reason } else i) = i := by
    intro i hi
    refine if_neg ?_
    intro hk
    have hk := (Prod.mk.inj (of_decide_eq_true hk)).1
    have hvi := (List.mem_filter.1 hi).2
    simp only [Function.comp_apply, decide_eq_true_eq] at hvi
    split_ifs at hvi
    · exact hu (hk.symm.trans hvi)
    · exact hu (hk.symm.trans hvi)
  rw [List.map_congr_left hsame, List.map_id']
  refine List.filter_congr fun i _ => ?_
  simp only [Function.comp_apply]
  split_ifs <;> rfl

theorem rejected_mem (reason : Bytes) (h : inv ∈ db.invitesOf v) :
    ∃ i ∈ (db.updateInvites (fun i => decide (i.key = inv.key)) .rejected reason).invitesOf v, i.action = .rejected := by
  obtain ⟨hmem, hv⟩ := mem_invitesOf.1 h
  exact ⟨_, mem_invitesOf.2 ⟨Table.mem_updateWhere.2 ⟨inv, hmem, if_pos (decide_eq_true rfl)⟩, hv⟩, rfl⟩

theorem tally_of_rejected {st : Status} (h : ∃ i ∈ all, i.action = .rejected) : tally all st = .rejected := by
  unfold tally
  rw [if_pos]
  simpa using h

theorem outcome_of_rejected (h : ∃ i ∈ all, i.action = .rejected) : outcome all = .rejected := by
  unfold outcome
  rw [if_neg, tally_of_rejected h]
  rintro rfl
  simp at h

theorem outcome_of_ne_nil (h : all ≠ []) : outcome all = tally all .reviewing := if_neg h

def SyncInvites.hand : SyncInvites → List VoteRequestDO
  | findByStatus => []
  | invites vr rest | verify vr _ _ _ rest | rejectRequest vr _ _ rest | rejectInvite vr _ _ rest | reread vr _ rest
  | update vr _ rest => vr :: rest

def Phase (db : Db) : SyncInvites → Prop
  | .findByStatus => True
  | .invites vr _ => HasStatus db vr.voteId .reviewing ∧ vr.status = .reviewing
  | .verify vr _ inv todo _ => HasStatus db vr.voteId .reviewing ∧ vr.status = .reviewing ∧ inv :: todo ⊆ db.invitesOf vr.voteId
  | .rejectRequest vr _ inv _ => HasStatus db vr.voteId .reviewing ∧ vr.status = .reviewing ∧ inv ∈ db.invitesOf vr.voteId
  | .rejectInvite vr _ inv _ => HasStatus db vr.voteId .rejected ∧ vr.status = .rejected ∧ inv ∈ db.invitesOf vr.voteId
  | .reread vr _ _ => db.invitesOf vr.voteId ≠ [] ∧ HasStatus db vr.voteId vr.status ∧
      (vr.status = .reviewing ∨ vr.status = .rejected ∧ ∃ i ∈ db.invitesOf vr.voteId, i.action = .rejected)
  | .update vr status _ => HasStatus db vr.voteId .reviewing ∧ status = outcome (db.invitesOf vr.voteId)

/-- The votes other than the one at hand: those of `V` that are not to come have their outcome, those to come
are untouched. -/
structure Beside (V : List Bytes) (db : Db) (vr : VoteRequestDO) (rest : List VoteRequestDO) : Prop where
  settled : ∀ v ∈ V, v ≠ vr.voteId → v ∉ rest.map (·.voteId) → Settled db v
  nodup : ((vr :: rest).map (·.voteId)).Nodup
  rest : ∀ r ∈ rest, HasStatus db r.voteId .reviewing ∧ r.status = .reviewing

/-- The invariant of a pass over the votes of `V`. -/
def Passing (V : List Bytes) (db : Db) (pc : SyncInvites) : Prop :=
  match pc.hand with
  | [] => V = (db.findByStatus .reviewing).map (·.voteId)
  | vr :: rest => Beside V db vr rest ∧ Phase db pc

def Passed (V : List Bytes) (db : Db) : Option Call → Prop
  | none => ∀ v ∈ V, Settled db v
  | some (.syncInvites pc) => Passing V db pc
  | some _ => False

theorem passed_nextRequest (hset : ∀ v ∈ V, v ∉ rest.map (·.voteId) → Settled db v) (hnd : (rest.map (·.voteId)).Nodup)
    (hrest : ∀ r ∈ rest, HasStatus db r.voteId .reviewing ∧ r.status = .reviewing) : Passed V db (nextRequest rest) := by
  cases rest with
  | nil => exact fun v hv => hset v hv List.not_mem_nil
  | cons vr rest =>
    refine ⟨⟨fun v hv hne hn => hset v hv ?_, hnd, fun r hr => hrest r (.tail _ hr)⟩, hrest vr (List.mem_cons_self ..)⟩
    rw [List.map_cons, List.mem_cons]
    exact not_or.2 ⟨hne, hn⟩

theorem Beside.next (h : Beside V db vr rest) (hs : Settled db vr.voteId) : Passed V db (nextRequest rest) := by
  refine passed_nextRequest (fun v hv hn => ?_) (List.nodup_cons.1 h.nodup).2 h.rest
  by_cases hvr : v = vr.voteId
  · exact hvr ▸ hs
  · exact h.settled v hv hvr hn

theorem Beside.write (h : Beside V db vr rest) {vr' : VoteRequestDO} (hvr : vr'.voteId = vr.voteId)
    (hother : ∀ u, u ≠ vr.voteId → (∀ st, HasStatus db u st → HasStatus db' u st) ∧ db'.invitesOf u = db.invitesOf u) :
    Beside V db' vr' rest := by
  refine ⟨fun v hv hne hn => ?_, ?_, fun r hr => ?_⟩
  · obtain ⟨hst, hinv⟩ := hother v (hvr ▸ hne)
    rw [Settled, hinv]
    exact hst _ (h.settled v hv (hvr ▸ hne) hn)
  · rw [List.map_cons, hvr]
    exact h.nodup
  · have hne : r.voteId ≠ vr.voteId := by
      intro he
      exact (List.nodup_cons.1 h.nodup).1 (List.mem_map.2 ⟨r, hr, he⟩)
    exact ⟨(hother _ hne).1 _ (h.rest r hr).1, (h.rest r hr).2⟩

theorem passing_nextInvite (h : Beside V db vr rest) (hst : HasStatus db vr.voteId .reviewing) (hvr : vr.status = .reviewing)
    (hsub : todo ⊆ db.invitesOf vr.voteId) (hne : db.invitesOf vr.voteId ≠ []) :
    Passed V db (some (nextInvite vr all rest todo)) := by
  rcases nextInvite_cases vr all rest todo with ⟨hn, -⟩ | ⟨passed, i, todo', rfl, -, hn⟩
  · rw [hn]
    exact ⟨h, hne, hvr ▸ hst, .inl hvr⟩
  · rw [hn]
    exact ⟨h, hst, hvr, fun j hj => hsub (List.mem_append_right _ hj)⟩

theorem passing_step {pc : SyncInvites} (h : Passing V db pc) (hx : x.error = false) :
    Passed V (pc.run s db x).db (pc.run s db x).call := by
  cases pc with
  | findByStatus =>
    have hV : V = (db.findByStatus .reviewing).map (·.voteId) := h
    simp only [SyncInvites.run, hx, Bool.false_eq_true, if_false]
    refine passed_nextRequest (fun v hv hn => absurd (hV ▸ hv) hn) ?_ fun r hr => ?_
    · exact db.vote_ids.sublist (List.filter_sublist.map _)
    · obtain ⟨hmem, hst⟩ := List.mem_filter.1 hr
      have hst := of_decide_eq_true hst
      exact ⟨⟨r, hmem, rfl, hst⟩, hst⟩
  | invites vr rest =>
    obtain ⟨hb, hst, hvr⟩ := h
    simp only [SyncInvites.run, hx, Bool.false_eq_true, if_false]
    split_ifs with hnil
    · refine hb.next ?_
      rw [Settled, hnil]
      exact hst
    · exact passing_nextInvite hb hst hvr (List.Subset.refl _) hnil
    · exact ⟨hb, hnil, hvr ▸ hst, .inl hvr⟩
  | verify vr all inv todo rest =>
    obtain ⟨hb, hst, hvr, hsub⟩ := h
    have hmem : inv ∈ db.invitesOf vr.voteId := hsub (List.mem_cons_self ..)
    simp only [SyncInvites.run]
    split_ifs
    · exact passing_nextInvite hb hst hvr (List.subset_of_cons_subset hsub) (List.ne_nil_of_mem hmem)
    · exact ⟨hb, hst, hvr, hmem⟩
  | rejectRequest vr all inv rest =>
    obtain ⟨hb, hst, hvr, hmem⟩ := h
    simp only [SyncInvites.run, hx, Bool.false_eq_true, if_false]
    refine ⟨hb.write rfl fun u hu => ⟨fun st hs => hasStatus_updateRequests hs fun r hr => ?_, rfl⟩, ?_, rfl, hmem⟩
    · exact decide_eq_false fun he => hu (hr.symm.trans he)
    · exact hasStatus_set hst (fun r hr _ => decide_eq_true hr) fun _ => rfl
  | rejectInvite vr all inv rest =>
    obtain ⟨hb, hst, hvr, hmem⟩ := h
    have hv := (mem_invitesOf.1 hmem).2
    have hrej := rejected_mem (SyncInvites.rejected inv).reason hmem
    simp only [SyncInvites.run, hx, Bool.false_eq_true, if_false]
    refine ⟨hb.write rfl fun u hu => ⟨fun st hs => hs, invitesOf_updateInvites (hv ▸ hu.symm)⟩, ?_, ?_, .inr ⟨hvr, hrej⟩⟩
    · obtain ⟨i, hi, _⟩ := hrej
      exact List.ne_nil_of_mem hi
    · exact hvr ▸ hst
  | reread vr all rest =>
    obtain ⟨hb, hne, hst, hor⟩ := h
    simp only [SyncInvites.run, SyncInvites.decide_, hx, Bool.false_eq_true, if_false]
    split_ifs with htally
    · refine hb.next ?_
      rw [Settled]
      rcases hor with hvr | ⟨hvr, hrej⟩
      · rw [outcome_of_ne_nil hne, ← hvr, htally]
        exact hst
      · rw [outcome_of_rejected hrej, ← hvr]
        exact hst
    · rcases hor with hvr | ⟨hvr, hrej⟩
      · refine ⟨hb, hvr ▸ hst, ?_⟩
        rw [outcome_of_ne_nil hne, hvr]
      · rw [hvr, tally_of_rejected hrej] at htally
        exact absurd rfl htally
  | update vr status rest =>
    obtain ⟨hb, hst, hout⟩ := h
    simp only [SyncInvites.run, hx, Bool.false_eq_true, if_false]
    refine (hb.write rfl fun u hu => ⟨fun st hs => hasStatus_updateRequests hs fun r hr => ?_, rfl⟩).next ?_
    · exact decide_eq_false fun he => hu (hr.symm.trans he.1)
    · refine hasStatus_set hst (fun r hr hs => decide_eq_true ⟨hr, hs⟩) fun _ => ?_
      exact hout

variable {c d : Call} {w w' : World}

/-- The pass of the monitor and `Reply`. -/
def Call.voting : Call → Prop
  | .syncInvites _ | .reply _ => True
  | .syncInvite _ | .syncRequest _ => False

theorem hasStatus_saveInvite {st : Status} (h : db.saveInvite inv = some db') : HasStatus db' v st ↔ HasStatus db v st := by
  have hset : ∀ is, db.setInvites is = some db' → db'.requests = db.requests := by
    intro is h
    unfold Db.setInvites at h
    split_ifs at h
    obtain rfl := Option.some.inj h
    rfl
  have hreq : db'.requests = db.requests := by
    unfold Db.saveInvite at h
    split_ifs at h
    · exact hset _ h
    · exact hset _ h
  rw [HasStatus, HasStatus, hreq]

theorem hasStatus_of_updateRequests {p : VoteRequestDO → Bool} {f : VoteRequestDO → VoteRequestDO}
    {hf : ∀ r, (f r).voteId = r.voteId} (hst : ∀ r, p r → (f r).status = .reviewing → r.status = .reviewing)
    (h : HasStatus (db.updateRequests p f hf) v .reviewing) : HasStatus db v .reviewing := by
  obtain ⟨r', hr', hv, hs⟩ := h
  obtain ⟨r, hr, rfl⟩ := Table.mem_updateWhere.1 hr'
  split_ifs at hv hs with hp
  · exact ⟨r, hr, (hf r).symm.trans hv, hst r hp hs⟩
  · exact ⟨r, hr, hv, hs⟩

theorem hasStatus_map_iff {p : VoteRequestDO → Bool} {f : VoteRequestDO → VoteRequestDO} (hf : ∀ r, (f r).voteId = r.voteId)
    {st : Status} (hst : ∀ r, (f r).status = r.status) : HasStatus (db.updateRequests p f hf) v st ↔ HasStatus db v st := by
  constructor
  · rintro ⟨r', hr', hv, hs⟩
    obtain ⟨r, hr, rfl⟩ := Table.mem_updateWhere.1 hr'
    split_ifs at hv hs with hp
    · exact ⟨r, hr, (hf r).symm.trans hv, (hst r).symm.trans hs⟩
    · exact ⟨r, hr, hv, hs⟩
  · rintro ⟨r, hr, hv, hs⟩
    refine ⟨_, Table.mem_updateWhere.2 ⟨r, hr, rfl⟩, ?_, ?_⟩
    · split_ifs
      · exact (hf r).trans hv
      · exact hv
    · split_ifs
      · exact (hst r).trans hs
      · exact hs

theorem hasStatus_setInfos {u : Bytes} {infos : List PartyVoteInfo} {st : Status} :
    HasStatus (Reply.setInfos u infos db) v st ↔ HasStatus db v st := by
  exact hasStatus_map_iff (f := fun r => { r with partyVoteInfo := infos }) (fun _ => rfl) fun _ => rfl

theorem reply_cases (pc : Reply) : (pc.run s db x).db = db ∨
    ∃ req inv vr mid, pc = .save req inv vr ∧ s.platform ≠ .edge ∧ db.saveInvite inv = some mid ∧
      (pc.run s db x).db.invites = mid.invites ∧
      ∀ v st, HasStatus (pc.run s db x).db v st ↔ HasStatus db v st := by
  cases pc with
  | findInvite req =>
    refine .inl ?_
    simp only [Reply.run]
    repeat' split
    all_goals rfl
  | findRequest req inv =>
    refine .inl ?_
    simp only [Reply.run]
    repeat' split
    all_goals rfl
  | save req inv vr =>
    simp only [Reply.run, Reply.write]
    split
    · exact .inl rfl
    · cases hpl : s.platform with
      | edge => exact .inl rfl
      | autonomy =>
        cases hs : db.saveInvite inv with
        | none => exact .inl rfl
        | some mid =>
          refine .inr ⟨req, inv, vr, mid, rfl, nofun, hs, rfl, fun v st => ?_⟩
          rw [← hasStatus_saveInvite hs]
          exact hasStatus_setInfos
      | center =>
        cases hs : db.saveInvite inv with
        | none => exact .inl rfl
        | some mid => exact .inr ⟨req, inv, vr, mid, rfl, nofun, hs, rfl, fun v st => hasStatus_saveInvite hs⟩

theorem reviewing_before (hc : c.voting) (h : HasStatus (s.exec db c x).db v .reviewing) : HasStatus db v .reviewing := by
  obtain pc | pc | _ | _ := c
  · cases pc with
    | findByStatus => exact h
    | invites vr rest => exact h
    | verify vr all inv todo rest => exact h
    | reread vr all rest => exact h
    | rejectRequest vr all inv rest =>
      simp only [Service.exec, Service.run, SyncInvites.run] at h
      split_ifs at h
      · exact h
      · exact hasStatus_of_updateRequests (fun _ _ hs => absurd hs (by simp)) h
    | rejectInvite vr all inv rest =>
      simp only [Service.exec, Service.run, SyncInvites.run] at h
      split_ifs at h
      · exact h
      · exact h
    | update vr status rest =>
      simp only [Service.exec, Service.run, SyncInvites.run] at h
      split_ifs at h
      · exact h
      · exact hasStatus_of_updateRequests (fun _ hp _ => (of_decide_eq_true hp).2) h
  · change HasStatus (pc.run s db x).db v .reviewing at h
    rcases reply_cases (s := s) (x := x) _ with hdb | ⟨_, _, _, _, _, _, _, _, hst⟩
    · rwa [hdb] at h
    · exact (hst v _).1 h
  · exact hc.elim
  · exact hc.elim

theorem voting_next (hc : c.voting) (h : (s.exec db c x).next = some d) : d.voting := by
  have hrest : ∀ {l : List VoteRequestDO} {e : Call}, nextRequest l = some e → e.voting := by
    intro l e hl
    obtain ⟨_, _, rfl, rfl⟩ := nextRequest_cases hl
    trivial
  have hinv : ∀ {vr : VoteRequestDO} {all : List VoteInviteDO} {rest : List VoteRequestDO} (l : List VoteInviteDO),
      (nextInvite vr all rest l).voting := by
    intro vr all rest l
    rcases nextInvite_cases vr all rest l with ⟨hn, -⟩ | ⟨_, _, _, -, -, hn⟩
    · rw [hn]
      trivial
    · rw [hn]
      trivial
  obtain pc | pc | _ | _ := c
  · cases pc <;> simp only [Service.exec, Service.run, SyncInvites.run, SyncInvites.decide_] at h <;>
      (repeat' split at h) <;> first
        | exact hrest h
        | exact Option.some.inj h ▸ hinv _
        | exact Option.some.inj h ▸ trivial
        | cases h
  · have hcall : (pc.run s db x).call = none ∨ ∃ pc', (pc.run s db x).call = some (.reply pc') := by
      cases pc <;> simp only [Reply.run, Reply.write, Reply.saved, Reply.fail] <;> (repeat' split) <;> first
        | exact .inl rfl
        | exact .inr ⟨_, rfl⟩
    rcases hcall with hn | ⟨pc', hn⟩
    · exact absurd (hn.symm.trans h) (by simp)
    · exact Option.some.inj (hn.symm.trans h) ▸ trivial
  · exact hc.elim
  · exact hc.elim

theorem findRequest_eq (hr : r ∈ db.requests) : db.findRequest r.voteId = some r := by
  cases h : db.findRequest r.voteId with
  | none => exact absurd rfl (of_decide_eq_false (Bool.eq_false_iff.2 (List.find?_eq_none.1 h r hr)))
  | some r' =>
    have hv := List.find?_some h
    rw [Table.eq_of_col_eq db.vote_ids (List.mem_of_find?_eq_some h) hr (of_decide_eq_true hv)]

theorem left_cases (h : Event.left v ∈ leaving db db') : HasStatus db v .reviewing ∧ ¬ HasStatus db' v .reviewing := by
  obtain ⟨r, hr, he⟩ := List.mem_filterMap.1 h
  obtain ⟨hmem, hst⟩ := List.mem_filter.1 hr
  split_ifs at he with hany
  obtain rfl := Event.left.inj (Option.some.inj he)
  refine ⟨⟨r, hmem, rfl, of_decide_eq_true hst⟩, ?_⟩
  rintro ⟨r', hr', hv, hst'⟩
  refine hany ?_
  rw [← hv, findRequest_eq hr']
  simpa using hst'

theorem leaving_count : (leaving db db').countP (Event.isLeft v) ≤ 1 := by
  have hle : (leaving db db').countP (Event.isLeft v) ≤ (db.requests.map (·.voteId)).count v := by
    unfold leaving
    rw [List.countP_filterMap, List.count, List.countP_map]
    refine (List.countP_mono_left fun r _ h => ?_).trans (List.Sublist.countP_le List.filter_sublist)
    simp only [Function.comp_apply]
    split_ifs at h
    · exact absurd h (by simp)
    · simpa [Event.isLeft] using h
  exact hle.trans (List.nodup_iff_count_le_one.1 db.vote_ids v)

/-- Once a request has left `REVIEWING`, it does not come back. -/
structure LeftInv (v : Bytes) (w : World) : Prop where
  calls : w.All Call.voting
  left : .left v ∈ w.log → ¬ HasStatus w.db v .reviewing
  once : w.log.countP (Event.isLeft v) ≤ 1

theorem isLeft_iff {e : Event} : Event.isLeft v e ↔ e = .left v := by
  cases e <;> simp [Event.isLeft]

theorem leftInv_step {a : Act} (h : LeftInv v w) (ha : ∀ i c, a = .start i c → c.voting) (hs : s.step w a = some w') :
    LeftInv v w' := by
  obtain ⟨i, c, rfl, _, _, rfl⟩ | ⟨i, c, x, rfl, hc, rfl⟩ | ⟨i, c, rfl, _, rfl⟩ := Calls.step_cases hs
  · exact ⟨h.calls.begin (ha i c rfl), h.left, h.once⟩
  · have hvote := h.calls i c hc
    have hback : HasStatus (s.exec w.db c x).db v .reviewing → HasStatus w.db v .reviewing := reviewing_before hvote
    have hnew : ∀ {r : Option (Except Err Unit)}, .left v ∈ leaving w.db (s.exec w.db c x).db ++ r.toList.map Event.returned →
        .left v ∈ leaving w.db (s.exec w.db c x).db := by
      intro r hv
      rcases List.mem_append.1 hv with hv | hv
      · exact hv
      · obtain ⟨_, _, he⟩ := List.mem_map.1 hv
        cases he
    refine ⟨?_, ?_, ?_⟩
    · intro j d hd
      by_cases hj : j = i
      · subst hj
        exact voting_next hvote (x := x) (s := s) (by simpa [Calls.World.after] using hd)
      · exact h.calls j d (by simpa [Calls.World.after, hj] using hd)
    · intro hv
      rcases List.mem_append.1 hv with hv | hv
      · exact fun hr => h.left hv (hback hr)
      · exact (left_cases (hnew hv)).2
    · show (w.log ++ (s.exec w.db c x).events).countP (Event.isLeft v) ≤ 1
      rw [List.countP_append]
      have hret : ∀ l : List (Except Err Unit), (l.map Event.returned).countP (Event.isLeft v) = 0 := by
        intro l
        refine List.countP_eq_zero.2 fun e he hl => ?_
        obtain ⟨_, _, rfl⟩ := List.mem_map.1 he
        cases hl
      have hle : (s.exec w.db c x).events.countP (Event.isLeft v) ≤ 1 := by
        show (leaving w.db (s.exec w.db c x).db ++ _).countP (Event.isLeft v) ≤ 1
        rw [List.countP_append, hret]
        exact leaving_count
      -- an event of this step and one before it exclude each other
      by_cases hv : (s.exec w.db c x).events.countP (Event.isLeft v) = 0
      · have := h.once
        omega
      · obtain ⟨e, he, hl⟩ := List.countP_pos_iff.1 (Nat.pos_of_ne_zero hv)
        obtain rfl := isLeft_iff.1 hl
        have hzero : w.log.countP (Event.isLeft v) = 0 := by
          refine List.countP_eq_zero.2 fun e he' hl' => ?_
          obtain rfl := isLeft_iff.1 hl'
          exact h.left he' (left_cases (hnew he)).1
        omega
  · exact ⟨h.calls.drop, h.left, h.once⟩

/-- The steps that a pass may still take over `n` invites. -/
def SyncInvites.togo (requests n : Nat) : SyncInvites → Nat
  | findByStatus => requests * (n + 6) + 1
  | invites _ rest => rest.length * (n + 6) + (n + 6)
  | verify _ _ _ todo rest => rest.length * (n + 6) + (todo.length + 5)
  | rejectRequest _ _ _ rest => rest.length * (n + 6) + 4
  | rejectInvite _ _ _ rest => rest.length * (n + 6) + 3
  | reread _ _ rest => rest.length * (n + 6) + 2
  | update _ _ rest => rest.length * (n + 6) + 1

def Call.togo (db : Db) : Call → Nat
  | .syncInvites pc => pc.togo db.requests.length db.invites.length
  | _ => 0

theorem togo_nextRequest (h : nextRequest rest = some c) : c.togo db = rest.length * (db.invites.length + 6) := by
  obtain ⟨vr, rest, rfl, rfl⟩ := nextRequest_cases h
  show rest.length * (db.invites.length + 6) + (db.invites.length + 6) = _
  rw [List.length_cons, Nat.succ_mul]

theorem togo_nextInvite :
    (nextInvite vr all rest todo).togo db ≤ rest.length * (db.invites.length + 6) + (todo.length + 4) := by
  rcases nextInvite_cases vr all rest todo with ⟨hn, -⟩ | ⟨passed, i, todo', rfl, -, hn⟩
  · rw [hn]
    exact Nat.add_le_add_left (by omega) _
  · rw [hn]
    show rest.length * (db.invites.length + 6) + (todo'.length + 5) ≤ _
    simp only [List.length_append, List.length_cons]
    omega

theorem togo_step {pc : SyncInvites} (h : (pc.run s db x).call = some c) :
    c.togo (pc.run s db x).db < pc.togo db.requests.length db.invites.length := by
  have hall : ∀ v, (db.invitesOf v).length ≤ db.invites.length := fun v => List.length_filter_le ..
  cases pc with
  | findByStatus =>
    simp only [SyncInvites.run] at h ⊢
    split_ifs at h
    rw [togo_nextRequest h]
    have hle := Nat.mul_le_mul_right (db.invites.length + 6)
      (List.length_filter_le (fun r => decide (r.status = Status.reviewing)) db.requests)
    exact Nat.lt_succ_of_le hle
  | invites vr rest =>
    simp only [SyncInvites.run, SyncInvites.togo] at h ⊢
    have hlen : (if x.error = true then [] else db.invitesOf vr.voteId).length ≤ db.invites.length := by
      split_ifs
      · exact Nat.zero_le _
      · exact hall _
    split_ifs at h hlen with _ hnil _ _ hnil
    all_goals first
      | rw [togo_nextRequest h]; omega
      | obtain rfl := Option.some.inj h
        first
          | exact lt_of_le_of_lt togo_nextInvite (by simp only [List.length_nil] at *; omega)
          | simp only [Call.togo, SyncInvites.togo]; omega
  | verify vr all inv todo rest =>
    simp only [SyncInvites.run, SyncInvites.togo] at h ⊢
    split_ifs at h
    · obtain rfl := Option.some.inj h
      exact lt_of_le_of_lt togo_nextInvite (by omega)
    · obtain rfl := Option.some.inj h
      simp only [Call.togo, SyncInvites.togo]
      omega
  | rejectRequest vr all inv rest =>
    obtain rfl := Option.some.inj h
    simp only [SyncInvites.run, Call.togo, SyncInvites.togo]
    split_ifs
    · omega
    · simp only [Db.updateRequests]
      omega
  | rejectInvite vr all inv rest =>
    obtain rfl := Option.some.inj h
    simp only [SyncInvites.run, Call.togo, SyncInvites.togo]
    split_ifs
    · omega
    · simp only [Db.updateInvites, Table.updateWhere, List.length_map]
      omega
  | reread vr all rest =>
    simp only [SyncInvites.run, SyncInvites.decide_, SyncInvites.togo] at h ⊢
    split_ifs at h
    · rw [togo_nextRequest h]
      omega
    · obtain rfl := Option.some.inj h
      simp only [Call.togo, SyncInvites.togo]
      omega
    · rw [togo_nextRequest h]
      omega
    · obtain rfl := Option.some.inj h
      simp only [Call.togo, SyncInvites.togo]
      omega
  | update vr status rest =>
    simp only [SyncInvites.run, SyncInvites.togo] at h ⊢
    rw [togo_nextRequest h]
    split_ifs
    · omega
    · simp only [Db.updateRequests]
      omega

/-- A pass whose statements go through comes to its end, whatever its verifications say, and then each request
that it found `REVIEWING` has its outcome. -/
theorem pass_returns {x : Nat → Ending} (hx : ∀ k, (x k).error = false) :
    ∃ n w, Lts.run s.step (.idle db) (.start 0 (.syncInvites .findByStatus) :: (List.range n).map fun k => .exec 0 (x k)) = some w ∧
      w.calls 0 = none ∧ ∀ r ∈ db.findByStatus .reviewing, Settled w.db r.voteId := by
  let V := (db.findByStatus .reviewing).map (·.voteId)
  let w₀ : World := (Calls.World.idle db).begin 0 (.syncInvites .findByStatus)
  have hcall : w₀.calls 0 = some (.syncInvites .findByStatus) := by simp [w₀, Calls.World.begin]
  have hpass : Passed V w₀.db (some (.syncInvites .findByStatus)) := show Passing V db .findByStatus from rfl
  obtain ⟨n, w, hrun, hw, hset⟩ : ∃ n w, Lts.run s.step w₀ ((List.range n).map fun k => .exec 0 (x k)) = some w ∧
      w.calls 0 = none ∧ Passed V w.db none := by
    refine Calls.exists_return (P := fun db c => Passed V db (some c)) (Q := fun db => Passed V db none)
      (m := fun db c => c.togo db) (R := fun x => x.error = false) ?_ ?_ x hx hcall hpass
    · intro db c a hp ha hn
      obtain pc | _ | _ | _ := c
      · have h := passing_step (s := s) hp ha
        have hn : (pc.run s db a).call = none := hn
        rwa [hn] at h
      · exact hp.elim
      · exact hp.elim
      · exact hp.elim
    · intro db c a d hp ha hn
      obtain pc | _ | _ | _ := c
      · have h := passing_step (s := s) hp ha
        have hn : (pc.run s db a).call = some d := hn
        refine ⟨?_, togo_step hn⟩
        rwa [hn] at h
      · exact hp.elim
      · exact hp.elim
      · exact hp.elim
  refine ⟨n, w, Lts.run_cons.2 ⟨_, rfl, hrun⟩, hw, fun r hr => ?_⟩
  exact hset r.voteId (List.mem_map.2 ⟨r, hr, rfl⟩)

/-- The pass of the monitor, and any run of passes and replies. -/
theorem monitor_decides (s : Service) (db : Db) :
    (∀ x : Nat → Ending, (∀ k, (x k).error = false) → ∃ n w,
      Lts.run s.step (.idle db) (.start 0 (.syncInvites .findByStatus) :: (List.range n).map fun k => .exec 0 (x k)) = some w ∧
        w.calls 0 = none ∧ ∀ r ∈ db.findByStatus .reviewing, Settled w.db r.voteId) ∧
    ∀ as w, (∀ a ∈ as, ∀ i c, a = .start i c → c.voting) → Lts.run s.step (.idle db) as = some w →
      ∀ v, w.log.countP (Event.isLeft v) ≤ 1 := by
  refine ⟨fun x hx => pass_returns hx, fun as w has hr v => ?_⟩
  have h : LeftInv v w := Lts.run_invariant (fun _ _ _ hi hp hs => leftInv_step hi hp hs)
    ⟨Calls.World.idle_all _ _, (fun h => nomatch h), Nat.zero_le _⟩ (.of_mem as has _) hr
  exact h.once

def center : Service where
  platform := .center
  hasKuscia := false
  strictSignatures := false
  currentInstID := []
  nodeIds _ := []
  parseRequest _ := .ok ([], [])
  unicode := .asciiCase

def oneRequest : VoteRequestDO := ⟨[1], [2], VoteTypeNodeRoute, [], [], .reviewing, [], []⟩

def oneInvite (action : Action) : VoteInviteDO := ⟨1, [1], [2], [3], VoteTypeNodeRoute, [], action, []⟩

def voted (action : Option Action) : Db where
  requests := [oneRequest]
  invites := action.toList.map oneInvite
  vote_ids := List.nodup_singleton _
  invite_ids := by cases action <;> simp
  invite_keys := by cases action <;> simp

def onePass (x : List Ending) : List Act := .start 0 (.syncInvites .findByStatus) :: x.map (.exec 0)

def fine : Ending := ⟨false, true⟩

/-- A request without invites is passed over; a rejection is lost when its update fails. -/
theorem stays_reviewing :
    (∃ w, Lts.run center.step (.idle (voted none)) (onePass [fine, fine]) = some w ∧ w.calls 0 = none ∧
      (voted none).invitesOf [1] = [] ∧ HasStatus w.db [1] .reviewing) ∧
    ∃ w, Lts.run center.step (.idle (voted (some .rejected))) (onePass [fine, fine, fine, ⟨true, true⟩]) = some w ∧
      w.calls 0 = none ∧ w.db.invitesOf [1] = [oneInvite .rejected] ∧ HasStatus w.db [1] .reviewing := by
  have hrun₁ : (Lts.run center.step (.idle (voted none)) (onePass [fine, fine])).map (fun w =>
      decide ((w.calls 0).isNone ∧ w.db.requests = [oneRequest])) = some true := by decide +kernel
  have hrun₂ : (Lts.run center.step (.idle (voted (some .rejected))) (onePass [fine, fine, fine, ⟨true, true⟩])).map (fun w =>
      decide ((w.calls 0).isNone ∧ w.db.invitesOf [1] = [oneInvite .rejected] ∧ w.db.requests = [oneRequest])) = some true := by
    decide +kernel
  constructor
  · obtain ⟨w, hw, h⟩ := Option.map_eq_some_iff.1 hrun₁
    obtain ⟨hc, hreq⟩ := of_decide_eq_true h
    exact ⟨w, hw, Option.isNone_iff_eq_none.1 hc, rfl, oneRequest, by simp [hreq], rfl, rfl⟩
  · obtain ⟨w, hw, h⟩ := Option.map_eq_some_iff.1 hrun₂
    obtain ⟨hc, hinv, hreq⟩ := of_decide_eq_true h
    exact ⟨w, hw, Option.isNone_iff_eq_none.1 hc, hinv, oneRequest, by simp [hreq], rfl, rfl⟩

end Vote
