import Privahub.Vote.Lookup

/-!
# The entries of the parties

`party_vote_info` is one column with an entry for each party, and three writers read it, change an entry and write
it whole: `Reply` in AUTONOMY, the refusal of a reply that does not verify, and `CompensatePartyVoteInfo`, which follows the
changes of the invites one after the other and does all of it in one transaction. `Fresh` is what the other two need: what they write
is based on what is stored.
-/

namespace Vote

open SyncInvites (nextRequest nextRequest_cases nextInvite nextInvite_cases)

def compensated (inv : VoteInviteDO) : List PartyVoteInfo → List PartyVoteInfo
  | [] => []
  | i :: is => if i.partyId = inv.voteParticipantId then { i with action := inv.action, reason := inv.reason } :: is else i :: compensated inv is

def CompensatePartyVoteInfo (db : Db) (inv : VoteInviteDO) : Db :=
  if inv.voteId = [] ∨ inv.voteParticipantId = [] then db
  else db.updateRequests (fun r => decide (r.voteId = inv.voteId)) (fun r => { r with partyVoteInfo := compensated inv r.partyVoteInfo }) fun _ => rfl

/-- The database, and the changes of invites that wait to be compensated. -/
structure Office where
  db : Db
  queue : List VoteInviteDO

inductive Job
  | call (c : Call)
  | compensate

def Job.first : Job → Bool
  | .call c => c.first
  | .compensate => true

def Service.changes (s : Service) (db : Db) (x : Ending) : Call → List VoteInviteDO
  | .reply (.save _ inv _) => if !x.error && decide (s.platform ≠ .edge) && (db.saveInvite inv).isSome then [inv] else []
  | .syncInvite inv => if !x.error && (db.upsertInvite inv).isSome then [inv] else []
  | .syncInvites (.rejectInvite vr all inv rest) =>
    if x.error then [] else (s.run db x (.syncInvites (.rejectInvite vr all inv rest))).db.invites.filter fun i => decide (i.key = inv.key)
  | _ => []

def Service.office (s : Service) (o : Office) (j : Job) (x : Ending) : Calls.Effect Office Job Unit :=
  match j with
  | .call c =>
    ⟨⟨(s.run o.db x c).db, o.queue ++ (s.changes o.db x c).filter fun i => decide (i.initiator = s.currentInstID)⟩,
      (s.run o.db x c).call.map .call, []⟩
  | .compensate => match o.queue with
    | [] => ⟨o, none, []⟩
    | inv :: queue => ⟨⟨if x.error then o.db else CompensatePartyVoteInfo o.db inv, queue⟩, none, []⟩

abbrev OfficeWorld := Calls.World Office Job Unit

def Service.work (s : Service) (w : OfficeWorld) (a : Calls.Action Job Ending) : Option OfficeWorld := Calls.step Job.first s.office w a

def Stored (db : Db) (v : Bytes) (infos : List PartyVoteInfo) : Prop := ∀ r ∈ db.requests, r.voteId = v → r.partyVoteInfo = infos

/-- `Reply` and a refusal write over the entries they have read, the write of a refused invite and a compensation
go through, and no request comes from another party. -/
def Job.fresh (o : Office) (x : Ending) : Job → Prop
  | .call (.reply (.save req _ vr)) => Stored o.db req.voteId vr.partyVoteInfo
  | .call (.syncInvites (.rejectRequest vr _ _ _)) => Stored o.db vr.voteId vr.partyVoteInfo
  | .call (.syncInvites (.rejectInvite ..)) | .compensate => x.error = false
  | .call (.syncRequest _) => False
  | _ => True

def Job.refusing (key : Bytes × Bytes) : Job → Prop
  | .call (.syncInvites (.rejectInvite _ _ inv _)) => inv.key = key
  | _ => False

def Fresh (w : OfficeWorld) : Calls.Action Job Ending → Prop
  | .start _ _ => True
  | .exec i x => ∀ j, w.calls i = some j → j.fresh w.db x
  | .abandon i => ∀ j, w.calls i = some j → ∀ key, ¬ j.refusing key

variable {s : Service} {db db' : Db} {v : Bytes} {x : Ending} {vr r : VoteRequestDO} {inv i : VoteInviteDO} {e : PartyVoteInfo}
  {all todo : List VoteInviteDO} {rest : List VoteRequestDO} {c d : Call} {j : Job} {infos : List PartyVoteInfo} {w w' : OfficeWorld}
  {queue : List VoteInviteDO}

theorem mem_upsertPartyVoteInfo {info : PartyVoteInfo} :
    e ∈ SyncInvites.upsertPartyVoteInfo infos info ↔ e ∈ infos ∧ e.partyId ≠ info.partyId ∨ e = info := by
  simp [SyncInvites.upsertPartyVoteInfo]

theorem nodup_upsertPartyVoteInfo {info : PartyVoteInfo} (h : (infos.map (·.partyId)).Nodup) :
    ((SyncInvites.upsertPartyVoteInfo infos info).map (·.partyId)).Nodup := by
  rw [SyncInvites.upsertPartyVoteInfo, List.map_append, List.nodup_append]
  refine ⟨h.sublist (List.filter_sublist.map _), List.nodup_singleton _, ?_⟩
  rintro p hp q hq rfl
  obtain ⟨i, hi, rfl⟩ := List.mem_map.1 hp
  exact of_decide_eq_true (List.mem_filter.1 hi).2 (List.mem_singleton.1 hq)

theorem map_compensated : (compensated inv infos).map (·.partyId) = infos.map (·.partyId) := by
  induction infos with
  | nil => rfl
  | cons i is ih =>
    rw [compensated]
    split_ifs
    · rfl
    · rw [List.map_cons, ih, List.map_cons]

theorem mem_compensated (hnd : (infos.map (·.partyId)).Nodup) (h : e ∈ compensated inv infos) :
    e.partyId = inv.voteParticipantId ∧ e.action = inv.action ∨ e.partyId ≠ inv.voteParticipantId ∧ e ∈ infos := by
  induction infos with
  | nil => cases h
  | cons i is ih =>
    obtain ⟨hi, his⟩ := List.nodup_cons.1 hnd
    rw [compensated] at h
    split_ifs at h with hp
    · rcases List.mem_cons.1 h with rfl | h
      · exact .inl ⟨hp, rfl⟩
      · refine .inr ⟨?_, .tail _ h⟩
        rintro he
        exact hi (List.mem_map.2 ⟨e, h, he.trans hp.symm⟩)
    · rcases List.mem_cons.1 h with rfl | h
      · exact .inr ⟨hp, List.mem_cons_self ..⟩
      · exact (ih his h).imp_right fun h => ⟨h.1, .tail _ h.2⟩

structure Covered (s : Service) (i : VoteInviteDO) : Prop where
  initiator : i.initiator = s.currentInstID
  voteId : i.voteId ≠ []
  participant : i.voteParticipantId ≠ []

def waiting (queue : List VoteInviteDO) (key : Bytes × Bytes) : List VoteInviteDO := queue.filter fun i => decide (i.key = key)

def Half (w : OfficeWorld) (key : Bytes × Bytes) : Prop := ∃ n j, w.calls n = some j ∧ j.refusing key

/-- The last change of an invite that waits is the one that is stored; where none waits, the entry of the party has the action of
the invite, unless a refusal is half done. -/
structure InStep (s : Service) (w : OfficeWorld) : Prop where
  parties : ∀ r ∈ w.db.db.requests, (r.partyVoteInfo.map (·.partyId)).Nodup
  last : ∀ i ∈ w.db.db.invites, Covered s i → ∀ inv, (waiting w.db.queue i.key).getLast? = some inv → inv.action = i.action
  entries : ∀ r ∈ w.db.db.requests, ∀ i ∈ w.db.db.invites, Covered s i → i.voteId = r.voteId → waiting w.db.queue i.key = [] →
    ∀ e ∈ r.partyVoteInfo, e.partyId = i.voteParticipantId → e.action = i.action ∨ Half w i.key

def Tied : Job → Prop
  | .call (.reply (.findRequest req inv)) | .call (.reply (.save req inv _)) => inv.voteId = req.voteId
  | .call (.syncInvites (.verify vr _ inv todo _)) => ∀ i ∈ inv :: todo, i.voteId = vr.voteId
  | .call (.syncInvites (.rejectRequest vr _ inv _)) | .call (.syncInvites (.rejectInvite vr _ inv _)) => inv.voteId = vr.voteId
  | _ => True

theorem tied_nextRequest (h : nextRequest rest = some d) : Tied (.call d) := by
  obtain ⟨_, _, rfl, rfl⟩ := nextRequest_cases h
  trivial

theorem tied_nextInvite (h : ∀ i ∈ todo, i.voteId = vr.voteId) : Tied (.call (nextInvite vr all rest todo)) := by
  rcases nextInvite_cases vr all rest todo with ⟨hn, -⟩ | ⟨passed, i, todo', rfl, -, hn⟩
  · rw [hn]
    trivial
  · rw [hn]
    exact fun j hj => h j (List.mem_append_right _ hj)

theorem tied_run (h : Tied (.call c)) (hd : (s.run db x c).call = some d) : Tied (.call d) := by
  cases c with
  | syncInvites pc =>
    cases pc with
    | findByStatus =>
      simp only [Service.run, SyncInvites.run] at hd
      split_ifs at hd
      exact tied_nextRequest hd
    | invites vr rest =>
      simp only [Service.run, SyncInvites.run] at hd
      have hall : ∀ i ∈ (if x.error then [] else db.invitesOf vr.voteId), i.voteId = vr.voteId := by
        split_ifs
        · exact List.forall_mem_nil _
        · exact fun i hi => (mem_invitesOf.1 hi).2
      generalize (if x.error then [] else db.invitesOf vr.voteId) = is at hall hd
      split_ifs at hd
      · exact tied_nextRequest hd
      · obtain rfl := Option.some.inj hd
        exact tied_nextInvite hall
      · obtain rfl := Option.some.inj hd
        trivial
    | verify vr all inv todo rest =>
      simp only [Service.run, SyncInvites.run] at hd
      split_ifs at hd
      · obtain rfl := Option.some.inj hd
        exact tied_nextInvite fun i hi => h i (.tail _ hi)
      · obtain rfl := Option.some.inj hd
        exact h inv (List.mem_cons_self ..)
    | rejectRequest vr all inv rest =>
      obtain rfl := Option.some.inj hd
      exact h
    | rejectInvite vr all inv rest =>
      obtain rfl := Option.some.inj hd
      trivial
    | reread vr all rest =>
      simp only [Service.run, SyncInvites.run, SyncInvites.decide_] at hd
      generalize (if x.error then all else db.invitesOf vr.voteId) = is at hd
      split_ifs at hd
      · exact tied_nextRequest hd
      · obtain rfl := Option.some.inj hd
        trivial
    | update vr st rest => exact tied_nextRequest hd
  | reply pc =>
    cases pc with
    | findInvite req =>
      simp only [Service.run, Reply.run, Reply.fail] at hd
      split_ifs at hd
      split at hd
      · cases hd
      · rename_i inv hfind
        split_ifs at hd hfind
        obtain rfl := Option.some.inj hd
        have hfind : (db.invites.find? fun i => decide (i.key = (req.voteId, req.participantId))) = some inv := hfind
        have hp := List.find?_some hfind
        exact (Prod.mk.inj (of_decide_eq_true hp)).1
    | findRequest req inv =>
      simp only [Service.run, Reply.run, Reply.fail] at hd
      split at hd
      · cases hd
      · split at hd
        · cases hd
        · rename_i hprep
          obtain rfl := Option.some.inj hd
          have hkey := (prepare_key hprep).2
          exact (congrArg Prod.fst hkey).trans h
    | save req inv vr =>
      simp only [Service.run, Reply.run, Reply.write, Reply.fail, Reply.saved] at hd
      repeat' split at hd
      all_goals cases hd
  | syncInvite inv => cases hd
  | syncRequest vr => cases hd

variable {key : Bytes × Bytes} {n : Nat} {q : List VoteInviteDO}

theorem waiting_append : waiting (queue ++ q) key = waiting queue key ++ waiting q key := List.filter_append ..

theorem waiting_of_ne (h : ∀ i ∈ q, i.key ≠ key) : waiting q key = [] := by
  rw [waiting, List.filter_eq_nil_iff]
  intro i hi hk
  exact h i hi (of_decide_eq_true hk)

theorem half_after {e : Calls.Effect Office Job Unit} (h : Half w key) (hj : w.calls n = some j) (hn : ¬ j.refusing key) :
    Half { db := e.db, calls := Function.update w.calls n e.next, log := w.log ++ e.events } key := by
  obtain ⟨m, j', hj', href⟩ := h
  have hm : m ≠ n := by
    rintro rfl
    obtain rfl := Option.some.inj (hj.symm.trans hj')
    exact hn href
  exact ⟨m, j', by simpa [hm] using hj', href⟩

theorem InStep.of_same (h : InStep s w) (hreq : ∀ r ∈ w'.db.db.requests, ∃ r₀ ∈ w.db.db.requests, r₀.voteId = r.voteId ∧ r₀.partyVoteInfo = r.partyVoteInfo)
    (hinv : w'.db.db.invites = w.db.db.invites) (hq : w'.db.queue = w.db.queue) (hhalf : ∀ key, Half w key → Half w' key) : InStep s w' := by
  refine ⟨fun r hr => ?_, fun i hi => ?_, fun r hr i hi hcov hv hwait e he hp => ?_⟩
  · obtain ⟨r₀, hr₀, _, hinfo⟩ := hreq r hr
    exact hinfo ▸ h.parties r₀ hr₀
  · rw [hq]
    exact h.last i (hinv ▸ hi)
  · obtain ⟨r₀, hr₀, hv₀, hinfo⟩ := hreq r hr
    rw [hq] at hwait
    exact (h.entries r₀ hr₀ i (hinv ▸ hi) hcov (hv.trans hv₀.symm) hwait e (hinfo ▸ he) hp).imp_right (hhalf _)

theorem InStep.of_write {j : VoteInviteDO} (h : InStep s w) (hq : w'.db.queue = w.db.queue ++ [j].filter fun i => decide (i.initiator = s.currentInstID))
    (hinv : ∀ i ∈ w'.db.db.invites, i.key = j.key ∧ i.action = j.action ∧ i.initiator = j.initiator ∨ i.key ≠ j.key ∧ i ∈ w.db.db.invites)
    (hparties : ∀ r ∈ w'.db.db.requests, (r.partyVoteInfo.map (·.partyId)).Nodup)
    (hreq : ∀ r ∈ w'.db.db.requests, ∃ r₀ ∈ w.db.db.requests, r₀.voteId = r.voteId ∧
      ∀ e ∈ r.partyVoteInfo, (r.voteId, e.partyId) ≠ j.key → e ∈ r₀.partyVoteInfo)
    (hhalf : ∀ key, Half w key → Half w' key) : InStep s w' := by
  have hlast : ∀ i ∈ w'.db.db.invites, Covered s i → i.key = j.key → waiting w'.db.queue i.key = waiting w.db.queue i.key ++ [j] := by
    intro i hi hcov hk
    rcases hinv i hi with ⟨_, _, hini⟩ | ⟨hne, _⟩
    · have hown : j.initiator = s.currentInstID := hini ▸ hcov.initiator
      rw [hq, waiting_append]
      simp [waiting, hown, hk]
    · exact absurd hk hne
  have hsame : ∀ {key}, key ≠ j.key → waiting w'.db.queue key = waiting w.db.queue key := by
    intro key hne
    have hnil : waiting ([j].filter fun i => decide (i.initiator = s.currentInstID)) key = [] := by
      refine waiting_of_ne fun i hi hk => ?_
      rw [List.mem_singleton.1 (List.mem_filter.1 hi).1] at hk
      exact hne hk.symm
    rw [hq, waiting_append, hnil, List.append_nil]
  refine ⟨hparties, fun i hi hcov inv' hl => ?_, fun r hr i hi hcov hv hwait e he hp => ?_⟩
  · rcases hinv i hi with ⟨hk, hact, _⟩ | ⟨hne, hi₀⟩
    · rw [hlast i hi hcov hk, List.getLast?_append] at hl
      obtain rfl := Option.some.inj hl
      exact hact.symm
    · rw [hsame hne] at hl
      exact h.last i hi₀ hcov inv' hl
  · rcases hinv i hi with ⟨hk, _, _⟩ | ⟨hne, hi₀⟩
    · rw [hlast i hi hcov hk] at hwait
      simp at hwait
    · rw [hsame hne] at hwait
      obtain ⟨r₀, hr₀, hv₀, hold⟩ := hreq r hr
      have hkey : (r.voteId, e.partyId) ≠ j.key := by
        rw [hp, ← hv]
        exact hne
      exact (h.entries r₀ hr₀ i hi₀ hcov (hv.trans hv₀.symm) hwait e (hold e he hkey) hp).imp_right (hhalf _)

theorem invites_saveInvite (h : db.saveInvite inv = some db') :
    (∀ i ∈ db'.invites, i.key = inv.key ∧ i.action = inv.action ∧ i.initiator = inv.initiator ∨ i.key ≠ inv.key ∧ i ∈ db.invites) ∧
    db'.requests = db.requests := by
  have hmem : inv ∈ db'.invites := by
    unfold Db.saveInvite at h
    split_ifs at h with hany <;> rw [(setInvites_eq h).2]
    · obtain ⟨j, hj, hid⟩ := List.any_eq_true.1 hany
      exact Table.mem_updateWhere.2 ⟨j, hj, if_pos hid⟩
    · exact List.mem_append_right _ (List.mem_singleton_self _)
  refine ⟨fun i hi => ?_, ?_⟩
  · by_cases hk : i.key = inv.key
    · obtain rfl := Table.eq_of_col_eq db'.invite_keys hi hmem hk
      exact .inl ⟨rfl, rfl, rfl⟩
    · rcases mem_saveInvite h hi with hi | rfl
      · exact .inr ⟨hk, hi⟩
      · exact absurd rfl hk
  · unfold Db.saveInvite at h
    split_ifs at h <;>
    · unfold Db.setInvites at h
      split_ifs at h
      obtain rfl := Option.some.inj h
      rfl

theorem invites_upsertInvite (h : db.upsertInvite inv = some db') :
    (∀ i ∈ db'.invites, i.key = inv.key ∧ i.action = inv.action ∧ i.initiator = inv.initiator ∨ i.key ≠ inv.key ∧ i ∈ db.invites) ∧
    db'.requests = db.requests := by
  unfold Db.upsertInvite at h
  split_ifs at h with hany
  all_goals
    obtain ⟨_, hinv⟩ := setInvites_eq h
    unfold Db.setInvites at h
    split_ifs at h
    obtain rfl := Option.some.inj h
    refine ⟨fun i hi => ?_, rfl⟩
  · obtain ⟨j, hj, rfl⟩ := Table.mem_updateWhere.1 hi
    split_ifs with hq
    · exact .inl ⟨rfl, rfl, rfl⟩
    · exact .inr ⟨fun hk => hq (decide_eq_true hk), hj⟩
  · rcases List.mem_append.1 hi with hi | hi
    · refine .inr ⟨fun hk => hany (List.any_eq_true.2 ⟨i, hi, decide_eq_true hk⟩), hi⟩
    · rw [List.mem_singleton.1 hi]
      exact .inl ⟨rfl, rfl, rfl⟩

section Step

variable (hplat : s.platform = .autonomy)
include hplat

theorem inStep_reply {pc : Reply} (h : InStep s w) (hc : w.calls n = some (.call (.reply pc))) (ht : Tied (.call (.reply pc)))
    (hf : Job.fresh w.db x (.call (.reply pc))) : InStep s (w.after s.office n (.call (.reply pc)) x) := by
  have hhalf : ∀ key, Half w key → Half (w.after s.office n (.call (.reply pc)) x) key := fun key hk => half_after hk hc (fun href => href)
  have hread : (pc.run s w.db.db x).db = w.db.db → s.changes w.db.db x (.reply pc) = [] → InStep s (w.after s.office n (.call (.reply pc)) x) := by
    intro hdb hch
    have hdb : (w.after s.office n (.call (.reply pc)) x).db.db = w.db.db := hdb
    refine h.of_same (fun r hr => ⟨r, hdb ▸ hr, rfl, rfl⟩) (by rw [hdb]) ?_ hhalf
    show w.db.queue ++ _ = w.db.queue
    rw [hch, List.filter_nil, List.append_nil]
  cases pc with
  | findInvite req =>
    refine hread ?_ rfl
    simp only [Reply.run]
    repeat' split
    all_goals rfl
  | findRequest req inv =>
    refine hread ?_ rfl
    simp only [Reply.run]
    repeat' split
    all_goals rfl
  | save req inv vr =>
    cases hx : x.error with
    | true => exact hread (by simp [Reply.run, hx, Reply.fail]) (by simp [Service.changes, hx])
    | false =>
      cases hsv : w.db.db.saveInvite inv with
      | none => exact hread (by simp [Reply.run, hx, Reply.write, hplat, hsv, Reply.saved]) (by simp [Service.changes, hsv])
      | some mid =>
        have hdb : (w.after s.office n (.call (.reply (.save req inv vr))) x).db.db = Reply.setInfos req.voteId (Reply.infos inv vr) mid := by
          show ((Reply.save req inv vr).run s w.db.db x).db = _
          simp [Reply.run, hx, Reply.write, hplat, hsv, Reply.saved]
        have hq : (w.after s.office n (.call (.reply (.save req inv vr))) x).db.queue =
            w.db.queue ++ [inv].filter fun i => decide (i.initiator = s.currentInstID) := by
          show w.db.queue ++ (s.changes w.db.db x (.reply (.save req inv vr))).filter _ = _
          simp [Service.changes, hx, hplat, hsv]
        obtain ⟨hinv, hreq⟩ := invites_saveInvite hsv
        have hrows : ∀ r ∈ (Reply.setInfos req.voteId (Reply.infos inv vr) mid).requests, ∃ r₀ ∈ w.db.db.requests, r₀.voteId = r.voteId ∧
            (r.partyVoteInfo = r₀.partyVoteInfo ∨ r.voteId = inv.voteId ∧ r.partyVoteInfo = Reply.infos inv vr ∧ vr.partyVoteInfo = r₀.partyVoteInfo) := by
          intro r hr
          obtain ⟨r₀, hr₀, rfl⟩ := Table.mem_updateWhere.1 hr
          rw [hreq] at hr₀
          refine ⟨r₀, hr₀, ?_⟩
          split_ifs with hv
          · have hv : r₀.voteId = req.voteId := of_decide_eq_true hv
            exact ⟨rfl, .inr ⟨hv.trans (Eq.symm ht), rfl, (hf r₀ hr₀ hv).symm⟩⟩
          · exact ⟨rfl, .inl rfl⟩
        refine h.of_write (j := inv) hq ?_ ?_ ?_ hhalf
        · rw [hdb]
          exact hinv
        · rw [hdb]
          intro r hr
          obtain ⟨r₀, hr₀, _, he | ⟨_, he, he₀⟩⟩ := hrows r hr
          · rw [he]
            exact h.parties r₀ hr₀
          · rw [he, Reply.infos, he₀]
            exact nodup_upsertPartyVoteInfo (h.parties r₀ hr₀)
        · rw [hdb]
          intro r hr
          obtain ⟨r₀, hr₀, hv, he | ⟨hvi, he, he₀⟩⟩ := hrows r hr
          · exact ⟨r₀, hr₀, hv, fun e hmem _ => he ▸ hmem⟩
          · refine ⟨r₀, hr₀, hv, fun e hmem hkey => ?_⟩
            rw [he, Reply.infos, he₀, mem_upsertPartyVoteInfo] at hmem
            rcases hmem with ⟨hmem, _⟩ | rfl
            · exact hmem
            · exact absurd (by rw [hvi]; rfl) hkey

omit hplat in
theorem inStep_syncInvite (h : InStep s w) (hc : w.calls n = some (.call (.syncInvite inv))) :
    InStep s (w.after s.office n (.call (.syncInvite inv)) x) := by
  have hhalf : ∀ key, Half w key → Half (w.after s.office n (.call (.syncInvite inv)) x) key := fun key hk => half_after hk hc (fun href => href)
  have hread : (s.run w.db.db x (.syncInvite inv)).db = w.db.db → s.changes w.db.db x (.syncInvite inv) = [] →
      InStep s (w.after s.office n (.call (.syncInvite inv)) x) := by
    intro hdb hch
    have hdb : (w.after s.office n (.call (.syncInvite inv)) x).db.db = w.db.db := hdb
    refine h.of_same (fun r hr => ⟨r, hdb ▸ hr, rfl, rfl⟩) (by rw [hdb]) ?_ hhalf
    show w.db.queue ++ _ = w.db.queue
    rw [hch, List.filter_nil, List.append_nil]
  cases hx : x.error with
  | true => exact hread (by simp [Service.run, hx]) (by simp [Service.changes, hx])
  | false =>
    cases hup : w.db.db.upsertInvite inv with
    | none => exact hread (by simp [Service.run, hup]) (by simp [Service.changes, hup])
    | some db' =>
      have hdb : (w.after s.office n (.call (.syncInvite inv)) x).db.db = db' := by
        show (s.run w.db.db x (.syncInvite inv)).db = _
        simp [Service.run, hx, hup]
      have hq : (w.after s.office n (.call (.syncInvite inv)) x).db.queue =
          w.db.queue ++ [inv].filter fun i => decide (i.initiator = s.currentInstID) := by
        show w.db.queue ++ (s.changes w.db.db x (.syncInvite inv)).filter _ = _
        simp [Service.changes, hx, hup]
      obtain ⟨hinv, hreq⟩ := invites_upsertInvite hup
      refine h.of_write (j := inv) hq ?_ ?_ ?_ hhalf
      · rw [hdb]
        exact hinv
      · rw [hdb, hreq]
        exact h.parties
      · rw [hdb, hreq]
        exact fun r hr => ⟨r, hr, rfl, fun e he _ => he⟩

end Step

theorem inStep_rejectRequest {vr : VoteRequestDO} {all : List VoteInviteDO} {inv : VoteInviteDO} {rest : List VoteRequestDO} (h : InStep s w)
    (hx : x.error = false) (hc : w.calls n = some (.call (.syncInvites (.rejectRequest vr all inv rest))))
    (ht : Tied (.call (.syncInvites (.rejectRequest vr all inv rest)))) (hf : Job.fresh w.db x (.call (.syncInvites (.rejectRequest vr all inv rest)))) :
    InStep s (w.after s.office n (.call (.syncInvites (.rejectRequest vr all inv rest))) x) := by
  have hself : (w.after s.office n (.call (.syncInvites (.rejectRequest vr all inv rest))) x).calls n =
      some (.call (.syncInvites (.rejectInvite (SyncInvites.rejectedRequest vr inv)
        (Table.updateWhere (fun i => decide (i.id = inv.id)) SyncInvites.rejected all) inv rest))) := by
    simp [Calls.World.after, Service.office, Service.run, SyncInvites.run, hx]
  have hhalf : ∀ key, Half w key → Half (w.after s.office n (.call (.syncInvites (.rejectRequest vr all inv rest))) x) key :=
    fun key hk => half_after hk hc (fun href => href)
  have hrows : ∀ r ∈ (w.after s.office n (.call (.syncInvites (.rejectRequest vr all inv rest))) x).db.db.requests, ∃ r₀ ∈ w.db.db.requests,
      r₀.voteId = r.voteId ∧ (r.partyVoteInfo = r₀.partyVoteInfo ∨ r.voteId = vr.voteId ∧ vr.partyVoteInfo = r₀.partyVoteInfo ∧
        r.partyVoteInfo = SyncInvites.upsertPartyVoteInfo vr.partyVoteInfo ⟨inv.voteParticipantId, .rejected, (SyncInvites.rejected inv).reason⟩) := by
    intro r hr
    have hr : r ∈ ((SyncInvites.rejectRequest vr all inv rest).run s w.db.db x).db.requests := hr
    simp only [SyncInvites.run, hx] at hr
    obtain ⟨r₀, hr₀, rfl⟩ := Table.mem_updateWhere.1 hr
    refine ⟨r₀, hr₀, ?_⟩
    split_ifs with hv
    · have hv : r₀.voteId = vr.voteId := of_decide_eq_true hv
      exact ⟨rfl, .inr ⟨hv, (hf r₀ hr₀ hv).symm, rfl⟩⟩
    · exact ⟨rfl, .inl rfl⟩
  have hinv : (w.after s.office n (.call (.syncInvites (.rejectRequest vr all inv rest))) x).db.db.invites = w.db.db.invites := by
    show ((SyncInvites.rejectRequest vr all inv rest).run s w.db.db x).db.invites = _
    simp only [SyncInvites.run]
    split_ifs <;> rfl
  have hq : (w.after s.office n (.call (.syncInvites (.rejectRequest vr all inv rest))) x).db.queue = w.db.queue := by
    show w.db.queue ++ [] = w.db.queue
    exact List.append_nil _
  refine ⟨fun r hr => ?_, ?_, fun r hr i hi hcov hv hwait e he hp => ?_⟩
  · obtain ⟨r₀, hr₀, _, hi | ⟨_, hi₀, hi⟩⟩ := hrows r hr
    · rw [hi]
      exact h.parties r₀ hr₀
    · rw [hi, hi₀]
      exact nodup_upsertPartyVoteInfo (h.parties r₀ hr₀)
  · rw [hinv, hq]
    exact h.last
  · rw [hinv] at hi
    rw [hq] at hwait
    have hold : ∀ r₀ ∈ w.db.db.requests, r₀.voteId = r.voteId → e ∈ r₀.partyVoteInfo →
        e.action = i.action ∨ Half (w.after s.office n (.call (.syncInvites (.rejectRequest vr all inv rest))) x) i.key :=
      fun r₀ hr₀ hv₀ he₀ => (h.entries r₀ hr₀ i hi hcov (hv.trans hv₀.symm) hwait e he₀ hp).imp_right (hhalf _)
    obtain ⟨r₀, hr₀, hv₀, hi' | ⟨hvr, hi₀, hi'⟩⟩ := hrows r hr
    · exact hold r₀ hr₀ hv₀ (hi' ▸ he)
    · rw [hi', hi₀, mem_upsertPartyVoteInfo] at he
      rcases he with ⟨he, _⟩ | rfl
      · exact hold r₀ hr₀ hv₀ he
      · -- the invite is still to be written
        refine .inr ⟨n, _, hself, ?_⟩
        show inv.key = i.key
        rw [VoteInviteDO.key, VoteInviteDO.key, ← hp, hv, hvr]
        exact congrArg (·, _) ht

theorem inStep_rejectInvite {vr : VoteRequestDO} {all : List VoteInviteDO} {inv : VoteInviteDO} {rest : List VoteRequestDO} (h : InStep s w)
    (hc : w.calls n = some (.call (.syncInvites (.rejectInvite vr all inv rest)))) (hx : x.error = false) :
    InStep s (w.after s.office n (.call (.syncInvites (.rejectInvite vr all inv rest))) x) := by
  have hdb : ((SyncInvites.rejectInvite vr all inv rest).run s w.db.db x).db =
      w.db.db.updateInvites (fun i => decide (i.key = inv.key)) .rejected (SyncInvites.rejected inv).reason := by
    simp [SyncInvites.run, hx]
  have hrun : (s.run w.db.db x (.syncInvites (.rejectInvite vr all inv rest))).db =
      w.db.db.updateInvites (fun i => decide (i.key = inv.key)) .rejected (SyncInvites.rejected inv).reason := hdb
  have hnew : (w.after s.office n (.call (.syncInvites (.rejectInvite vr all inv rest))) x).db.db =
      w.db.db.updateInvites (fun i => decide (i.key = inv.key)) .rejected (SyncInvites.rejected inv).reason := hdb
  have hrows : ∀ i ∈ (w.db.db.updateInvites (fun i => decide (i.key = inv.key)) .rejected (SyncInvites.rejected inv).reason).invites,
      i.key = inv.key ∧ i.action = .rejected ∨ i.key ≠ inv.key ∧ i ∈ w.db.db.invites := by
    intro i hi
    obtain ⟨j, hj, rfl⟩ := Table.mem_updateWhere.1 hi
    split_ifs with hq
    · exact .inl ⟨of_decide_eq_true hq, rfl⟩
    · exact .inr ⟨fun hk => hq (decide_eq_true hk), hj⟩
  let new := ((w.db.db.updateInvites (fun i => decide (i.key = inv.key)) .rejected (SyncInvites.rejected inv).reason).invites.filter
    fun i => decide (i.key = inv.key)).filter fun i => decide (i.initiator = s.currentInstID)
  have hmem : ∀ {i}, i ∈ new ↔ (i ∈ (w.db.db.updateInvites (fun i => decide (i.key = inv.key)) .rejected (SyncInvites.rejected inv).reason).invites ∧
      i.key = inv.key) ∧ i.initiator = s.currentInstID := by
    intro i
    simp only [new, List.mem_filter, decide_eq_true_eq]
  have hq : (w.after s.office n (.call (.syncInvites (.rejectInvite vr all inv rest))) x).db.queue = w.db.queue ++ new := by
    show w.db.queue ++ (s.changes w.db.db x (.syncInvites (.rejectInvite vr all inv rest))).filter _ = _
    simp only [Service.changes, hx, hrun, Bool.false_eq_true, if_false]
    rfl
  have hother : ∀ {key}, key ≠ inv.key → waiting (w.db.queue ++ new) key = waiting w.db.queue key := by
    intro key hne
    rw [waiting_append, waiting_of_ne (q := new), List.append_nil]
    intro i hi hk
    exact hne (hk.symm.trans (hmem.1 hi).1.2)
  refine ⟨fun r hr => ?_, fun i hi hcov inv' hl => ?_, fun r hr i hi hcov hv hwait e he hp => ?_⟩
  · rw [hnew] at hr
    exact h.parties r hr
  · rw [hnew] at hi
    rw [hq] at hl
    rcases hrows i hi with ⟨hk, hact⟩ | ⟨hne, hi₀⟩
    · have hne : waiting new i.key ≠ [] := by
        refine List.ne_nil_of_mem (a := i) ?_
        simp [waiting, hmem.2 ⟨⟨hi, hk⟩, hcov.initiator⟩]
      rw [waiting_append, List.getLast?_append_of_ne_nil _ hne] at hl
      have hin := (List.mem_filter.1 (List.mem_of_getLast? hl)).1
      rcases hrows inv' (hmem.1 hin).1.1 with ⟨_, hact'⟩ | ⟨hne', _⟩
      · rw [hact, hact']
      · exact absurd (hmem.1 hin).1.2 hne'
    · rw [hother hne] at hl
      exact h.last i hi₀ hcov inv' hl
  · rw [hnew] at hi hr
    rw [hq] at hwait
    rcases hrows i hi with ⟨hk, _⟩ | ⟨hne, hi₀⟩
    · rw [waiting_append, List.append_eq_nil_iff] at hwait
      have hin : i ∈ waiting new i.key := by simp [waiting, hmem.2 ⟨⟨hi, hk⟩, hcov.initiator⟩]
      rw [hwait.2] at hin
      cases hin
    · rw [hother hne] at hwait
      refine (h.entries r hr i hi₀ hcov hv hwait e he hp).imp_right fun hh => half_after hh hc fun href => hne ?_
      exact Eq.symm href

theorem inStep_syncInvites {pc : SyncInvites} (h : InStep s w) (hc : w.calls n = some (.call (.syncInvites pc))) (ht : Tied (.call (.syncInvites pc)))
    (hf : Job.fresh w.db x (.call (.syncInvites pc))) : InStep s (w.after s.office n (.call (.syncInvites pc)) x) := by
  have hsame : (∀ r ∈ (pc.run s w.db.db x).db.requests, ∃ r₀ ∈ w.db.db.requests, r₀.voteId = r.voteId ∧ r₀.partyVoteInfo = r.partyVoteInfo) →
      (pc.run s w.db.db x).db.invites = w.db.db.invites → s.changes w.db.db x (.syncInvites pc) = [] →
      (∀ key, ¬ (Job.call (.syncInvites pc)).refusing key) → InStep s (w.after s.office n (.call (.syncInvites pc)) x) := by
    intro hreq hinv hch href
    refine h.of_same hreq hinv ?_ fun key hk => half_after hk hc (href key)
    show w.db.queue ++ _ = w.db.queue
    rw [hch, List.filter_nil, List.append_nil]
  cases pc with
  | findByStatus => exact hsame (fun r hr => ⟨r, hr, rfl, rfl⟩) rfl rfl (fun _ href => href)
  | invites vr rest => exact hsame (fun r hr => ⟨r, hr, rfl, rfl⟩) rfl rfl (fun _ href => href)
  | verify vr all inv todo rest => exact hsame (fun r hr => ⟨r, hr, rfl, rfl⟩) rfl rfl (fun _ href => href)
  | reread vr all rest => exact hsame (fun r hr => ⟨r, hr, rfl, rfl⟩) rfl rfl (fun _ href => href)
  | update vr st rest =>
    refine hsame (fun r hr => ?_) ?_ rfl (fun _ href => href)
    · simp only [SyncInvites.run] at hr
      split_ifs at hr
      · exact ⟨r, hr, rfl, rfl⟩
      · obtain ⟨r₀, hr₀, rfl⟩ := Table.mem_updateWhere.1 hr
        refine ⟨r₀, hr₀, ?_⟩
        split_ifs <;> exact ⟨rfl, rfl⟩
    · simp only [SyncInvites.run]
      split_ifs <;> rfl
  | rejectRequest vr all inv rest =>
    cases hx : x.error with
    | true =>
      refine hsame (fun r hr => ⟨r, ?_, rfl, rfl⟩) (by simp [SyncInvites.run, hx]) rfl (fun _ href => href)
      simpa [SyncInvites.run, hx] using hr
    | false => exact inStep_rejectRequest h hx hc ht hf
  | rejectInvite vr all inv rest => exact inStep_rejectInvite h hc hf

theorem invites_compensate : (CompensatePartyVoteInfo db inv).invites = db.invites := by
  unfold CompensatePartyVoteInfo
  split_ifs <;> rfl

theorem inStep_compensate (h : InStep s w) (hc : w.calls n = some .compensate) (hx : x.error = false) :
    InStep s (w.after s.office n .compensate x) := by
  have hhalf : ∀ key, Half w key → Half (w.after s.office n .compensate x) key := fun key hk => half_after hk hc (fun href => href)
  cases hq : w.db.queue with
  | nil =>
    have hdb : (w.after s.office n .compensate x).db = w.db := by simp [Calls.World.after, Service.office, hq]
    exact h.of_same (fun r hr => ⟨r, hdb ▸ hr, rfl, rfl⟩) (by rw [hdb]) (by rw [hdb]) hhalf
  | cons inv queue =>
    have hdb : (w.after s.office n .compensate x).db = ⟨CompensatePartyVoteInfo w.db.db inv, queue⟩ := by
      simp [Calls.World.after, Service.office, hq, hx]
    have hrows : ∀ r ∈ (CompensatePartyVoteInfo w.db.db inv).requests, ∃ r₀ ∈ w.db.db.requests, r₀.voteId = r.voteId ∧
        (r.partyVoteInfo = r₀.partyVoteInfo ∨ r.voteId = inv.voteId ∧ r.partyVoteInfo = compensated inv r₀.partyVoteInfo) := by
      intro r hr
      unfold CompensatePartyVoteInfo at hr
      split_ifs at hr
      · exact ⟨r, hr, rfl, .inl rfl⟩
      · obtain ⟨r₀, hr₀, rfl⟩ := Table.mem_updateWhere.1 hr
        refine ⟨r₀, hr₀, ?_⟩
        split_ifs with hv
        · exact ⟨rfl, .inr ⟨of_decide_eq_true hv, rfl⟩⟩
        · exact ⟨rfl, .inl rfl⟩
    refine ⟨fun r hr => ?_, fun i hi hcov inv' hl => ?_, fun r hr i hi hcov hv hwait e he hp => ?_⟩
    · rw [hdb] at hr
      obtain ⟨r₀, hr₀, _, hi | ⟨_, hi⟩⟩ := hrows r hr <;> rw [hi]
      · exact h.parties r₀ hr₀
      · rw [map_compensated]
        exact h.parties r₀ hr₀
    · rw [hdb] at hi hl
      rw [invites_compensate] at hi
      refine h.last i hi hcov inv' ?_
      rw [hq]
      unfold waiting at hl ⊢
      rw [List.filter_cons]
      split_ifs
      · rw [List.getLast?_cons, hl]
        rfl
      · exact hl
    · rw [hdb] at hr hi hwait
      rw [invites_compensate] at hi
      obtain ⟨r₀, hr₀, hv₀, hrow⟩ := hrows r hr
      have hold : waiting w.db.queue i.key = [] → e ∈ r₀.partyVoteInfo → e.action = i.action ∨ Half (w.after s.office n .compensate x) i.key :=
        fun hw he₀ => (h.entries r₀ hr₀ i hi hcov (hv.trans hv₀.symm) hw e he₀ hp).imp_right (hhalf _)
      by_cases hk : inv.key = i.key
      · -- the last change of this invite is what is compensated
        have hlast : (waiting w.db.queue i.key).getLast? = some inv := by
          rw [hq, waiting, List.filter_cons, if_pos (decide_eq_true hk)]
          have hwait : queue.filter (fun j => decide (j.key = i.key)) = [] := hwait
          rw [hwait]
          rfl
        have hact := h.last i hi hcov inv hlast
        have hve : inv.voteId = i.voteId := congrArg Prod.fst hk
        have hpe : inv.voteParticipantId = i.voteParticipantId := congrArg Prod.snd hk
        have hcomp : r.partyVoteInfo = compensated inv r₀.partyVoteInfo := by
          have hr : r ∈ (CompensatePartyVoteInfo w.db.db inv).requests := hr
          unfold CompensatePartyVoteInfo at hr
          rw [if_neg (by rw [hve, hpe]; exact not_or.2 ⟨hcov.voteId, hcov.participant⟩)] at hr
          obtain ⟨r₁, hr₁, hrr⟩ := Table.mem_updateWhere.1 hr
          have hr₁v : r₁.voteId = r.voteId := by
            rw [← hrr]
            split_ifs <;> rfl
          obtain rfl := Table.eq_of_col_eq w.db.db.vote_ids hr₁ hr₀ (hr₁v.trans hv₀.symm)
          rw [if_pos (decide_eq_true (hr₁v.trans (hv.symm.trans hve.symm)))] at hrr
          rw [← hrr]
        rw [hcomp] at he
        rcases mem_compensated (h.parties r₀ hr₀) he with ⟨_, ha⟩ | ⟨hne, _⟩
        · exact .inl (ha.trans hact)
        · exact absurd (hp.trans hpe.symm) hne
      · have hw : waiting w.db.queue i.key = [] := by
          rw [hq, waiting, List.filter_cons, if_neg (by simpa using hk)]
          exact hwait
        rcases hrow with hi' | ⟨hve, hi'⟩
        · exact hold hw (hi' ▸ he)
        · rw [hi'] at he
          rcases mem_compensated (h.parties r₀ hr₀) he with ⟨hpe, _⟩ | ⟨_, he₀⟩
          · refine absurd ?_ hk
            rw [VoteInviteDO.key, VoteInviteDO.key, ← hpe, hp, hv, hve]
          · exact hold hw he₀

structure OfficeInv (s : Service) (w : OfficeWorld) : Prop where
  inStep : InStep s w
  tied : w.All Tied

theorem office_step {a : Calls.Action Job Ending} (hplat : s.platform = .autonomy) (h : OfficeInv s w) (ha : Fresh w a) (hs : s.work w a = some w') :
    OfficeInv s w' := by
  obtain ⟨i, j, rfl, hf, hnone, rfl⟩ | ⟨i, j, x, rfl, hc, rfl⟩ | ⟨i, j, rfl, hc, rfl⟩ := Calls.step_cases hs
  · refine ⟨h.inStep.of_same (fun r hr => ⟨r, hr, rfl, rfl⟩) rfl rfl ?_, h.tied.begin ?_⟩
    · rintro key ⟨m, j', hj', href⟩
      have hm : m ≠ i := by
        rintro rfl
        rw [hnone] at hj'
        cases hj'
      exact ⟨m, j', by simpa [Calls.World.begin, hm] using hj', href⟩
    · cases j with
      | compensate => trivial
      | call c =>
        cases c with
        | syncInvites pc => cases pc <;> trivial
        | reply pc => cases pc <;> trivial
        | syncInvite => trivial
        | syncRequest => trivial
  · refine ⟨?_, fun m d hd => ?_⟩
    · cases j with
      | compensate => exact inStep_compensate h.inStep hc (ha _ hc)
      | call c =>
        cases c with
        | syncInvites pc => exact inStep_syncInvites h.inStep hc (h.tied i _ hc) (ha _ hc)
        | reply pc => exact inStep_reply hplat h.inStep hc (h.tied i _ hc) (ha _ hc)
        | syncInvite inv => exact inStep_syncInvite h.inStep hc
        | syncRequest vr => exact (ha _ hc).elim
    · by_cases hm : m = i
      · subst hm
        have hd : (s.office w.db j x).next = some d := by simpa [Calls.World.after] using hd
        cases j with
        | compensate =>
          simp only [Service.office] at hd
          split at hd <;> cases hd
        | call c =>
          obtain ⟨d', hd', rfl⟩ := Option.map_eq_some_iff.1 hd
          exact tied_run (h.tied m _ hc) hd'
      · exact h.tied m d (by simpa [Calls.World.after, hm] using hd)
  · refine ⟨h.inStep.of_same (fun r hr => ⟨r, hr, rfl, rfl⟩) rfl rfl ?_, h.tied.drop⟩
    rintro key ⟨m, j', hj', href⟩
    have hm : m ≠ i := by
      rintro rfl
      obtain rfl := Option.some.inj (hc.symm.trans hj')
      exact ha _ hc key href
    exact ⟨m, j', by simpa [Calls.World.drop, hm] using hj', href⟩

/-- The entries of the parties that have an invite here are those of the invites. -/
def Agreed (s : Service) (db : Db) : Prop :=
  ∀ r ∈ db.requests, ∀ i ∈ db.invites, Covered s i → i.voteId = r.voteId → ∀ e ∈ r.partyVoteInfo, e.partyId = i.voteParticipantId → e.action = i.action

/-- In AUTONOMY, in a run in which nobody writes the entries from an older reading, they agree with the invites as soon as no
change waits and no refusal is half done. -/
theorem entries_agree {db₀ : Db} {as : List (Calls.Action Job Ending)} (hplat : s.platform = .autonomy)
    (hnd : ∀ r ∈ db₀.requests, (r.partyVoteInfo.map (·.partyId)).Nodup) (h₀ : Agreed s db₀) (has : Lts.RunAll s.work Fresh (.idle ⟨db₀, []⟩) as)
    (hr : Lts.run s.work (.idle ⟨db₀, []⟩) as = some w) (hq : w.db.queue = []) (hhalf : ∀ key, ¬ Half w key) : Agreed s w.db.db := by
  have h : OfficeInv s w := by
    refine Lts.run_invariant (fun _ _ _ hi ha hs => office_step hplat hi ha hs) ⟨⟨hnd, fun _ _ _ _ hl => (by cases hl), ?_⟩, Calls.World.idle_all _ _⟩ has hr
    exact fun r hr i hi hcov hv _ e he hp => .inl (h₀ r hr i hi hcov hv e he hp)
  intro r hr i hi hcov hv e he hp
  rcases h.inStep.entries r hr i hi hcov hv (by rw [hq]; rfl) e he hp with ha | hh
  · exact ha
  · exact absurd hh (hhalf _)

def alices : Service where
  platform := .autonomy
  hasKuscia := true
  strictSignatures := true
  currentInstID := str "alice"
  nodeIds _ := [str "alice-node"]
  parseRequest _ := .ok ([], [])
  unicode := .asciiCase

def inviteOf (id : Int) (participant : Bytes) (action : Action) : VoteInviteDO :=
  ⟨id, str "v1", str "alice", participant, VoteTypeProjectCreate, [], action, []⟩

def project : Db where
  requests := [⟨str "v1", str "alice", VoteTypeProjectCreate, [str "alice-node"], [], .reviewing, [],
    [⟨str "bob", .reviewing, []⟩, ⟨str "carol", .approved, []⟩, ⟨str "alice", .approved, []⟩]⟩]
  invites := [inviteOf 1 (str "bob") .reviewing, inviteOf 2 (str "carol") .approved]
  vote_ids := List.nodup_singleton _
  invite_ids := by decide
  invite_keys := by decide

def bobReplies : List (Calls.Action Job Ending) :=
  [.start 1 (.call (.syncInvite (inviteOf 1 (str "bob") .approved))), .exec 1 fine, .start 1 .compensate, .exec 1 fine]

def refusal : List (Calls.Action Job Ending) := [.exec 0 ⟨false, false⟩, .exec 0 fine, .exec 0 fine, .exec 0 fine, .start 1 .compensate, .exec 1 fine]

def passBegins : List (Calls.Action Job Ending) := [.start 0 (.call (.syncInvites .findByStatus)), .exec 0 fine, .exec 0 fine]

theorem agreed_project : Agreed alices project := by
  intro r hr i hi _ _ e he hp
  obtain rfl := List.mem_singleton.1 hr
  have he : e = ⟨str "bob", .reviewing, []⟩ ∨ e = ⟨str "carol", .approved, []⟩ ∨ e = ⟨str "alice", .approved, []⟩ := by simpa using he
  have hi : i = inviteOf 1 (str "bob") .reviewing ∨ i = inviteOf 2 (str "carol") .approved := by simpa [project] using hi
  rcases hi with rfl | rfl <;> rcases he with rfl | rfl | rfl <;> first | rfl | exact absurd hp (by decide)

/-- bob's reply comes between the reading of the request and the refusal of carol's, which takes his entry back. -/
theorem reply_taken_back : Agreed alices project ∧ ∃ w, Lts.run alices.work (.idle ⟨project, []⟩) (passBegins ++ bobReplies ++ refusal) = some w ∧
    w.db.queue = [] ∧ w.calls 0 = none ∧ w.calls 1 = none ∧ ¬ Agreed alices w.db.db := by
  refine ⟨agreed_project, ?_⟩
  have hrun : (Lts.run alices.work (.idle ⟨project, []⟩) (passBegins ++ bobReplies ++ refusal)).map (fun w =>
      decide (w.db.queue = [] ∧ (w.calls 0).isNone ∧ (w.calls 1).isNone ∧ inviteOf 1 (str "bob") .approved ∈ w.db.db.invites ∧
        (w.db.db.requests.any fun r => decide (r.voteId = str "v1" ∧ ⟨str "bob", .reviewing, []⟩ ∈ r.partyVoteInfo)))) = some true := by
    decide +kernel
  obtain ⟨w, hw, h⟩ := Option.map_eq_some_iff.1 hrun
  obtain ⟨hq, h₀, h₁, hinv, hreq⟩ := of_decide_eq_true h
  refine ⟨w, hw, hq, Option.isNone_iff_eq_none.1 h₀, Option.isNone_iff_eq_none.1 h₁, fun hag => ?_⟩
  obtain ⟨r, hr, hrow⟩ := List.any_eq_true.1 hreq
  obtain ⟨hv, he⟩ := of_decide_eq_true hrow
  cases hag r hr _ hinv ⟨rfl, by decide, by decide⟩ hv.symm _ he rfl

def freshStep (w : OfficeWorld) : Calls.Action Job Ending → Bool
  | .exec i x => !x.error && match w.calls i with
    | some (.call (.syncInvites (.rejectRequest vr _ _ _))) =>
      w.db.db.requests.all fun r => decide (r.voteId = vr.voteId → r.partyVoteInfo = vr.partyVoteInfo)
    | some (.call (.reply (.save ..))) | some (.call (.syncRequest _)) => false
    | _ => true
  | .start .. => true
  | .abandon _ => false

theorem fresh_of_freshStep {a : Calls.Action Job Ending} (ha : freshStep w a = true) : Fresh w a := by
  cases a with
  | start => trivial
  | abandon => cases ha
  | exec i x =>
    intro j hj
    simp only [freshStep, hj, Bool.and_eq_true, Bool.not_eq_true'] at ha
    obtain ⟨hx, ha⟩ := ha
    cases j with
    | compensate => exact hx
    | call c =>
      cases c with
      | syncInvite inv => trivial
      | syncRequest vr => cases ha
      | reply pc =>
        cases pc with
        | save => cases ha
        | _ => trivial
      | syncInvites pc =>
        cases pc with
        | rejectRequest vr all inv rest => exact fun r hr => of_decide_eq_true (List.all_eq_true.1 ha r hr)
        | rejectInvite => exact hx
        | _ => trivial

/-- bob's reply comes before the request is read. -/
theorem entries_agree_project : ∃ w, Lts.run alices.work (.idle ⟨project, []⟩) (bobReplies ++ passBegins ++ [.exec 0 fine] ++ refusal) = some w ∧
    inviteOf 1 (str "bob") .approved ∈ w.db.db.invites ∧ Agreed alices w.db.db := by
  have hall : Lts.RunAll alices.work (fun w a => freshStep w a = true) (.idle ⟨project, []⟩) (bobReplies ++ passBegins ++ [.exec 0 fine] ++ refusal) := by
    decide +kernel
  have hrun : (Lts.run alices.work (.idle ⟨project, []⟩) (bobReplies ++ passBegins ++ [.exec 0 fine] ++ refusal)).map (fun w =>
      decide (w.db.queue = [] ∧ (w.calls 0).isNone ∧ (w.calls 1).isNone ∧ inviteOf 1 (str "bob") .approved ∈ w.db.db.invites)) = some true := by
    decide +kernel
  obtain ⟨w, hw, h⟩ := Option.map_eq_some_iff.1 hrun
  obtain ⟨hq, h₀, h₁, hinv⟩ := of_decide_eq_true h
  refine ⟨w, hw, hinv, entries_agree rfl (by decide) agreed_project (hall.imp fun _ _ => fresh_of_freshStep) hw hq ?_⟩
  -- nothing is in flight at the end
  rintro key ⟨n, j, hj, _⟩
  have hnone : ∀ m, 2 ≤ m → w.calls m = none := by
    intro m hm
    refine Calls.idle_slot ?_ hw
    intro a ha c he
    subst he
    simp only [bobReplies, passBegins, refusal, List.cons_append, List.nil_append, List.mem_cons, List.not_mem_nil, or_false] at ha
    rcases ha with h | h | h | h | h | h | h | h | h | h | h | h | h | h <;> cases h <;> omega
  rcases n with _ | _ | n
  · rw [Option.isNone_iff_eq_none.1 h₀] at hj
    cases hj
  · rw [Option.isNone_iff_eq_none.1 h₁] at hj
    cases hj
  · rw [hnone _ (by omega)] at hj
    cases hj

end Vote
