import Privahub.Vote.Verify
import Privahub.Vote.Justified

/-!
# What an approval has counted

A pass verifies the replies it has read and then counts the invites as it reads them again. `approved_counted` is what
that comes to: a reply that is counted as it was read first has been verified against the request, when the pass
verifies the replies of such a request at all (`SyncInvites.verifies`). What is written between the two
readings is counted unseen.
-/

namespace Vote

open SyncInvites (nextRequest nextRequest_cases nextInvite nextInvite_cases tally verifies)

variable {s : Service} {k : Crypto} {q : Look} {db db' db₀ : Db} {v : Bytes} {vr r : VoteRequestDO} {inv i : VoteInviteDO}
  {all todo is : List VoteInviteDO} {rest : List VoteRequestDO} {m : Meeting} {c d : Call} {st : Status}

/-- A reply that verified, and a count that approves: the invites as they were read first and as they were counted. -/
inductive Note
  | verified (q : Look) (vr : VoteRequestDO) (inv : VoteInviteDO)
  | counted (vr : VoteRequestDO) (all is : List VoteInviteDO)

def notes (s : Service) (k : Crypto) (db : Db) (c : Call) (m : Meeting) : List Note :=
  match c with
  | .syncInvites (.verify vr _ inv _ _) => if k.VerifyReply s m.look inv vr then [.verified m.look vr inv] else []
  | .syncInvites (.reread vr all _) =>
    let is := if m.error then all else db.invitesOf vr.voteId
    if tally is vr.status = .approved ∧ vr.status ≠ .approved then [.counted vr all is] else []
  | _ => []

abbrev Noted := Calls.World Db Call Note

def Service.note (s : Service) (k : Crypto) (w : Noted) (a : Calls.Action Call Meeting) : Option Noted :=
  Calls.step Call.first (s.examine k (notes s k)) w a

variable {w w' : Noted} {log log' : List Note} {x : Ending}

def Seen (s : Service) (k : Crypto) (log : List Note) (vr : VoteRequestDO) (inv : VoteInviteDO) : Prop :=
  ∃ q, .verified q vr inv ∈ log ∧ k.VerifyReply s q inv vr = true

/-- Every reply of `all` has been seen, but for those in `todo`. -/
def Checked (s : Service) (k : Crypto) (log : List Note) (vr : VoteRequestDO) (all todo : List VoteInviteDO) : Prop :=
  ∀ i ∈ all, i.action ≠ .reviewing → i ∈ todo ∨ Seen s k log vr i

def Counted (s : Service) (k : Crypto) (log : List Note) (vr : VoteRequestDO) (all is : List VoteInviteDO) : Prop :=
  (∀ i ∈ is, i.action = .approved) ∧ (vr.status = .reviewing → verifies s vr → ∀ i ∈ is, i ∈ all → Seen s k log vr i)

/-- What a pass has in hand; a copy of a request is `REVIEWING` until a reply does not verify. -/
def Carries (s : Service) (k : Crypto) (log : List Note) : Call → Prop
  | .syncInvites .findByStatus => True
  | .syncInvites (.invites vr rest) => ∀ r ∈ vr :: rest, r.status = .reviewing
  | .syncInvites (.verify vr all inv todo rest) => (∀ r ∈ rest, r.status = .reviewing) ∧ Checked s k log vr all (inv :: todo)
  | .syncInvites (.rejectRequest _ _ _ rest) => ∀ r ∈ rest, r.status = .reviewing
  | .syncInvites (.rejectInvite vr _ _ rest) => (∀ r ∈ rest, r.status = .reviewing) ∧ vr.status = .rejected
  | .syncInvites (.reread vr all rest) =>
    (∀ r ∈ rest, r.status = .reviewing) ∧ (vr.status = .reviewing → verifies s vr → Checked s k log vr all [])
  | .syncInvites (.update vr st rest) => (∀ r ∈ rest, r.status = .reviewing) ∧ (st = .approved → ∃ all is, .counted vr all is ∈ log)
  | _ => True

theorem Seen.mono (h : Seen s k log vr inv) : Seen s k (log ++ log') vr inv := by
  obtain ⟨q, hq, hv⟩ := h
  exact ⟨q, List.mem_append_left _ hq, hv⟩

theorem Checked.mono (h : Checked s k log vr all todo) : Checked s k (log ++ log') vr all todo := by
  intro i hi ha
  exact (h i hi ha).imp_right Seen.mono

theorem Counted.mono (h : Counted s k log vr all is) : Counted s k (log ++ log') vr all is :=
  ⟨h.1, fun hr hv i hi ha => (h.2 hr hv i hi ha).mono⟩

theorem Carries.mono (h : Carries s k log c) : Carries s k (log ++ log') c := by
  unfold Carries at h ⊢
  split at h
  · trivial
  · exact h
  · exact ⟨h.1, h.2.mono⟩
  · exact h
  · exact h
  · exact ⟨h.1, fun hr hv => (h.2 hr hv).mono⟩
  · refine ⟨h.1, fun hst => ?_⟩
    obtain ⟨all, is, hc⟩ := h.2 hst
    exact ⟨all, is, List.mem_append_left _ hc⟩
  · trivial

theorem carries_nextRequest (hrest : ∀ r ∈ rest, r.status = .reviewing) (h : nextRequest rest = some d) : Carries s k log d := by
  obtain ⟨_, _, rfl, rfl⟩ := nextRequest_cases h
  exact hrest

theorem Checked.pass {passed : List VoteInviteDO} (h : Checked s k log vr all (passed ++ todo)) (hpassed : ∀ i ∈ passed, i.action = .reviewing) :
    Checked s k log vr all todo := by
  intro j hj ha
  rcases h j hj ha with hmem | hseen
  · rcases List.mem_append.1 hmem with hmem | hmem
    · exact absurd (hpassed j hmem) ha
    · exact .inl hmem
  · exact .inr hseen

theorem carries_nextInvite (hrest : ∀ r ∈ rest, r.status = .reviewing) (h : Checked s k log vr all todo) :
    Carries s k log (nextInvite vr all rest todo) := by
  rcases nextInvite_cases vr all rest todo with ⟨hn, hpassed⟩ | ⟨passed, i, todo', rfl, hpassed, hn⟩
  · rw [hn]
    rw [← List.append_nil todo] at h
    exact ⟨hrest, fun _ _ => h.pass hpassed⟩
  · rw [hn]
    exact ⟨hrest, h.pass hpassed⟩

theorem approved_of_tally (hne : tally all st ≠ st) (h : tally all st = .approved) : ∀ i ∈ all, i.action = .approved := by
  unfold tally at hne h
  split_ifs at hne h with hrej happ
  · intro i hi
    exact of_decide_eq_true (List.all_eq_true.1 happ i hi)
  · exact absurd rfl hne

theorem carries_syncInvites {pc : SyncInvites} (hc : Carries s k log (.syncInvites pc)) :
    (∀ vr all is, .counted vr all is ∈ notes s k db (.syncInvites pc) m → Counted s k log vr all is) ∧
    ∀ d, (pc.run s db (s.meets k (.syncInvites pc) m)).call = some d → Carries s k (log ++ notes s k db (.syncInvites pc) m) d := by
  cases pc with
  | findByStatus =>
    refine ⟨(fun _ _ _ h => by cases h), fun d hd => ?_⟩
    simp only [SyncInvites.run] at hd
    split_ifs at hd
    exact carries_nextRequest (fun r hr => of_decide_eq_true (List.mem_filter.1 hr).2) hd
  | invites vr rest =>
    refine ⟨(fun _ _ _ h => by cases h), fun d hd => ?_⟩
    have hrest : ∀ r ∈ rest, r.status = .reviewing := fun r hr => hc r (.tail _ hr)
    simp only [SyncInvites.run] at hd
    generalize (if (s.meets k (.syncInvites (.invites vr rest)) m).error then [] else db.invitesOf vr.voteId) = is at hd
    split_ifs at hd with hnil hv
    · exact carries_nextRequest hrest hd
    · obtain rfl := Option.some.inj hd
      exact carries_nextInvite hrest fun i hi _ => .inl hi
    · obtain rfl := Option.some.inj hd
      exact ⟨hrest, fun _ hv' => absurd hv' hv⟩
  | verify vr all inv todo rest =>
    refine ⟨fun _ _ _ hn => ?_, fun d hd => ?_⟩
    · simp only [notes] at hn
      split_ifs at hn <;> simp at hn
    · obtain ⟨hrest, hchk⟩ := hc
      simp only [SyncInvites.run] at hd
      split_ifs at hd with hv
      · obtain rfl := Option.some.inj hd
        have hv : k.VerifyReply s m.look inv vr = true := hv
        refine carries_nextInvite hrest fun i hi ha => ?_
        rcases hchk i hi ha with hmem | hseen
        · rcases List.mem_cons.1 hmem with rfl | hmem
          · exact .inr ⟨m.look, List.mem_append_right _ (by simp [notes, hv]), hv⟩
          · exact .inl hmem
        · exact .inr hseen.mono
      · obtain rfl := Option.some.inj hd
        exact hrest
  | rejectRequest vr all inv rest =>
    refine ⟨(fun _ _ _ h => by cases h), fun d hd => ?_⟩
    obtain rfl := Option.some.inj hd
    exact ⟨hc, rfl⟩
  | rejectInvite vr all inv rest =>
    refine ⟨(fun _ _ _ h => by cases h), fun d hd => ?_⟩
    obtain rfl := Option.some.inj hd
    exact ⟨hc.1, fun hr => by rw [hc.2] at hr; cases hr⟩
  | reread vr all rest =>
    obtain ⟨hrest, hchk⟩ := hc
    have hrun : ((SyncInvites.reread vr all rest).run s db (s.meets k (.syncInvites (.reread vr all rest)) m)).call =
        SyncInvites.decide_ vr (if m.error then all else db.invitesOf vr.voteId) rest := rfl
    rw [hrun]
    simp only [notes, SyncInvites.decide_]
    generalize (if m.error then all else db.invitesOf vr.voteId) = is
    constructor
    · intro vr' all' is' hn
      split_ifs at hn with hcount
      · obtain ⟨rfl, rfl, rfl⟩ := Note.counted.inj (List.mem_singleton.1 hn)
        have happ := approved_of_tally (fun he => hcount.2 (he.symm.trans hcount.1)) hcount.1
        refine ⟨happ, fun hr hv i hi hall => ?_⟩
        rcases hchk hr hv i hall (by rw [happ i hi]; simp) with hnil | hseen
        · cases hnil
        · exact hseen
      · cases hn
    · intro d hd
      split_ifs at hd with ht
      · exact carries_nextRequest hrest hd
      · obtain rfl := Option.some.inj hd
        refine ⟨hrest, fun hst => ⟨all, is, List.mem_append_right _ ?_⟩⟩
        rw [if_pos ⟨hst, fun he => ht (hst.trans he.symm)⟩]
        exact List.mem_singleton_self _
  | update vr st rest => exact ⟨(fun _ _ _ h => by cases h), fun d hd => carries_nextRequest hc.1 hd⟩

theorem approved_cases (hnew : ¬ HasStatus db v .approved) (h : HasStatus (s.run db x c).db v .approved) :
    (∃ vr, c = .syncRequest vr ∧ vr.voteId = v ∧ vr.status = .approved) ∨
    ∃ vr rest, c = .syncInvites (.update vr .approved rest) ∧ vr.voteId = v := by
  cases c with
  | syncInvites pc =>
    cases pc with
    | findByStatus => exact absurd h hnew
    | invites => exact absurd h hnew
    | verify => exact absurd h hnew
    | reread => exact absurd h hnew
    | rejectRequest vr all inv rest =>
      simp only [Service.run, SyncInvites.run] at h
      split_ifs at h
      · exact absurd h hnew
      · obtain ⟨r, hr, hv, ⟨_, hst⟩ | ⟨_, hst⟩⟩ := hasStatus_updateWhere h rfl (fun _ => rfl)
        · cases hst
        · exact absurd ⟨r, hr, hv, hst⟩ hnew
    | rejectInvite vr all inv rest =>
      simp only [Service.run, SyncInvites.run] at h
      split_ifs at h <;> exact absurd h hnew
    | update vr st rest =>
      simp only [Service.run, SyncInvites.run] at h
      split_ifs at h
      · exact absurd h hnew
      · obtain ⟨r, hr, rfl, ⟨hq, hst⟩ | ⟨_, hst⟩⟩ := hasStatus_updateWhere h rfl (fun _ => rfl)
        · have hst : st = .approved := hst
          subst hst
          exact .inr ⟨vr, rest, rfl, (of_decide_eq_true hq : r.voteId = vr.voteId ∧ _).1.symm⟩
        · exact absurd ⟨r, hr, rfl, hst⟩ hnew
  | reply pc =>
    have hcases : (pc.run s db x).db = db ∨ _ := reply_cases pc
    rcases hcases with hdb | ⟨_, _, _, _, _, _, _, _, hst⟩
    · rw [show (s.run db x (.reply pc)).db = (pc.run s db x).db from rfl, hdb] at h
      exact absurd h hnew
    · exact absurd ((hst v _).1 h) hnew
  | syncInvite inv =>
    simp only [Service.run] at h
    split_ifs at h
    · exact absurd h hnew
    · cases hup : db.upsertInvite inv with
      | none =>
        rw [hup] at h
        exact absurd h hnew
      | some db' =>
        rw [hup] at h
        exact absurd (((wrote_upsertInvite hup).status v _).1 h) hnew
  | syncRequest vr =>
    simp only [Service.run] at h
    split_ifs at h
    · exact absurd h hnew
    · cases hup : db.upsertRequest vr with
      | none =>
        rw [hup] at h
        exact absurd h hnew
      | some db' =>
        rw [hup] at h
        have h := (hasStatus_upsertRequest hup).1.1 h
        split_ifs at h with hv
        · exact .inl ⟨vr, rfl, hv.symm, h.symm⟩
        · exact absurd h hnew

structure NotedInv (s : Service) (k : Crypto) (w : Noted) : Prop where
  counted : ∀ vr all is, .counted vr all is ∈ w.log → Counted s k w.log vr all is
  calls : w.All (Carries s k w.log)

theorem noted_step {a : Calls.Action Call Meeting} (h : NotedInv s k w) (hs : s.note k w a = some w') : NotedInv s k w' := by
  obtain ⟨i, c, rfl, hf, _, rfl⟩ | ⟨i, c, m, rfl, hc, rfl⟩ | ⟨i, c, rfl, _, rfl⟩ := Calls.step_cases hs
  · refine ⟨h.counted, h.calls.begin ?_⟩
    cases c with
    | syncInvites pc => cases pc <;> trivial
    | reply => trivial
    | syncInvite => trivial
    | syncRequest => trivial
  · have hstep : (∀ vr all is, .counted vr all is ∈ notes s k w.db c m → Counted s k w.log vr all is) ∧
        ∀ d, (s.run w.db (s.meets k c m) c).call = some d → Carries s k (w.log ++ notes s k w.db c m) d := by
      cases c with
      | syncInvites pc => exact carries_syncInvites (h.calls i _ hc)
      | reply pc =>
        refine ⟨(fun _ _ _ h => by cases h), fun d hd => ?_⟩
        cases pc with
        | findInvite req =>
          simp only [Service.run, Reply.run, Reply.fail] at hd
          repeat' split at hd
          all_goals first
            | (obtain rfl := Option.some.inj hd; trivial)
            | cases hd
        | findRequest req inv =>
          simp only [Service.run, Reply.run, Reply.fail] at hd
          repeat' split at hd
          all_goals first
            | (obtain rfl := Option.some.inj hd; trivial)
            | cases hd
        | save req inv vr =>
          simp only [Service.run, Reply.run, Reply.write, Reply.fail, Reply.saved] at hd
          repeat' split at hd
          all_goals cases hd
      | syncInvite inv => exact ⟨(fun _ _ _ h => by cases h), fun d hd => by cases hd⟩
      | syncRequest vr => exact ⟨(fun _ _ _ h => by cases h), fun d hd => by cases hd⟩
    refine ⟨fun vr all is hn => ?_, fun j d hd => ?_⟩
    · rcases List.mem_append.1 hn with hn | hn
      · exact (h.counted vr all is hn).mono
      · exact (hstep.1 vr all is hn).mono
    · by_cases hj : j = i
      · subst hj
        exact hstep.2 d (by simpa [Calls.World.after, Service.examine] using hd)
      · exact (h.calls j d (by simpa [Calls.World.after, hj] using hd)).mono
  · exact ⟨h.counted, h.calls.drop⟩

def unsigned (action : Action) : VoteInviteDO := { bobsInvite with voteMsg := [], action := action }

def executedBy (executors : List Bytes) (inv : VoteInviteDO) : Db :=
  { bobsDb inv with requests := [{ bobsRequest with executors := executors }], vote_ids := List.nodup_singleton _ }

theorem unsigned_fails (q : Look) (vr : VoteRequestDO) : bobs.VerifyReply strict q (unsigned .approved) vr = false := by
  have hnone : bobs.spoken (unsigned .approved) vr = none := by
    simp only [Crypto.spoken]
    rw [show bobs.reply (unsigned .approved).voteMsg = none by decide]
    rfl
  simp [Crypto.VerifyReply, hnone]

end Vote
