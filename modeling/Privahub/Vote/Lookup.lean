import Privahub.Vote.Verify
import Privahub.Vote.Justified

/-!
# What a rejection comes from

A rejection goes back to a voter who replied so, or to a reply that does not verify (`Blamed`, `Doomed`), as long as
the verifications get their answers: a certificate that cannot be looked up counts as one that is unknown, so the
failure rejects the vote for good.
-/

namespace Vote

open SyncInvites (nextRequest nextRequest_cases nextInvite nextInvite_cases tally)

variable {s : Service} {k : Crypto} {q : Look} {db db' db₀ : Db} {v : Bytes} {vr : VoteRequestDO} {inv i : VoteInviteDO}
  {all todo : List VoteInviteDO} {rest : List VoteRequestDO} {m : Meeting} {c d : Call} {key : Bytes × Bytes}

/-- What has spoken against a vote: a reply, or an invite that came from another party, with the action REJECTED;
a reply that does not verify against its voter's certificate; a request that came REJECTED. -/
inductive Cause
  | replied (key : Bytes × Bytes)
  | unverified (key : Bytes × Bytes)
  | arrived (voteId : Bytes)
  deriving DecidableEq

def genuine (s : Service) (k : Crypto) (q : Look) (inv : VoteInviteDO) (vr : VoteRequestDO) : Bool :=
  k.VerifyReply { s with hasKuscia := true } q.real inv vr

def causes (s : Service) (k : Crypto) (_ : Db) (c : Call) (m : Meeting) : List Cause :=
  match c with
  | .reply (.save _ inv _) | .syncInvite inv => if inv.action = .rejected then [.replied inv.key] else []
  | .syncRequest vr => if vr.status = .rejected then [.arrived vr.voteId] else []
  | .syncInvites (.verify vr _ inv _ _) => if genuine s k m.look inv vr then [] else [.unverified inv.key]
  | _ => []

abbrev Traced := Calls.World Db Call Cause

def Service.trace (s : Service) (k : Crypto) (w : Traced) (a : Calls.Action Call Meeting) : Option Traced :=
  Calls.step Call.first (s.examine k (causes s k)) w a

/-- A reply with the right signature gets its two answers: the certificate that Kuscia holds, and the row of the
voter's node. -/
def Answered (s : Service) (k : Crypto) (m : Meeting) : Call → Prop
  | .syncInvites (.verify vr _ inv _ _) => (k.spoken inv vr).isSome →
    s.hasKuscia ∧ m.look.domains = some [m.look.cert] ∧ m.look.node = m.look.inst
  | _ => True

def Answers (s : Service) (k : Crypto) (w : Traced) : Calls.Action Call Meeting → Prop
  | .exec i m => ∀ c, w.calls i = some c → Answered s k m c
  | _ => True

theorem Look.real_eq (hd : q.domains = some [q.cert]) (hn : q.node = q.inst) : q.real = q := by
  cases q
  simp_all [Look.real]

theorem genuine_eq (h : Answered s k m (.syncInvites (.verify vr all inv todo rest))) (hv : k.VerifyReply s m.look inv vr = false) :
    genuine s k m.look inv vr = false := by
  cases hs : k.spoken inv vr with
  | none => simp [genuine, Crypto.VerifyReply, hs]
  | some p =>
    obtain ⟨hk, hd, hn⟩ := h (by rw [hs]; rfl)
    have hs' : ({ s with hasKuscia := true } : Service) = s := by rw [← hk]
    rw [genuine, Look.real_eq hd hn, hs']
    exact hv

/-- The invite was REJECTED from the start, or something has spoken against it. -/
def Blamed (db₀ : Db) (log : List Cause) (key : Bytes × Bytes) : Prop :=
  Votes db₀ key.1 key.2 .rejected ∨ .replied key ∈ log ∨ .unverified key ∈ log

/-- The request was REJECTED from the start, or came so, or one of its invites is blamed. -/
def Doomed (db₀ : Db) (log : List Cause) (v : Bytes) : Prop :=
  HasStatus db₀ v .rejected ∨ .arrived v ∈ log ∨ ∃ p, Blamed db₀ log (v, p)

variable {log log' : List Cause}

theorem Blamed.mono (h : Blamed db₀ log key) : Blamed db₀ (log ++ log') key := by
  rcases h with h | h | h
  · exact .inl h
  · exact .inr (.inl (List.mem_append_left _ h))
  · exact .inr (.inr (List.mem_append_left _ h))

theorem Doomed.mono (h : Doomed db₀ log v) : Doomed db₀ (log ++ log') v := by
  rcases h with h | h | ⟨p, h⟩
  · exact .inl h
  · exact .inr (.inl (List.mem_append_left _ h))
  · exact .inr (.inr ⟨p, h.mono⟩)

theorem Blamed.doomed (h : Blamed db₀ log inv.key) (hv : inv.voteId = v) : Doomed db₀ log v :=
  .inr (.inr ⟨inv.voteParticipantId, by rw [← hv]; exact h⟩)

structure Explained (db₀ : Db) (log : List Cause) (db : Db) : Prop where
  invites : ∀ i ∈ db.invites, i.action = .rejected → Blamed db₀ log i.key
  requests : ∀ v, HasStatus db v .rejected → Doomed db₀ log v

def Holds (db₀ : Db) (log : List Cause) : Call → Prop
  | .syncInvites (.verify vr all inv todo _) =>
    (∀ i ∈ all, i.action = .rejected → Doomed db₀ log vr.voteId) ∧ ∀ i ∈ inv :: todo, i.voteId = vr.voteId
  | .syncInvites (.rejectRequest vr _ inv _) | .syncInvites (.rejectInvite vr _ inv _) =>
    Blamed db₀ log inv.key ∧ inv.voteId = vr.voteId
  | .syncInvites (.reread vr all _) => ∀ i ∈ all, i.action = .rejected → Doomed db₀ log vr.voteId
  | .syncInvites (.update vr st _) => st = .rejected → Doomed db₀ log vr.voteId
  | _ => True

theorem Holds.mono (h : Holds db₀ log c) : Holds db₀ (log ++ log') c := by
  unfold Holds at h ⊢
  split at h
  · exact ⟨fun i hi hr => (h.1 i hi hr).mono, h.2⟩
  · exact ⟨h.1.mono, h.2⟩
  · exact ⟨h.1.mono, h.2⟩
  · exact fun i hi hr => (h i hi hr).mono
  · exact fun hst => (h hst).mono
  · trivial

theorem Explained.mono (h : Explained db₀ log db) : Explained db₀ (log ++ log') db :=
  ⟨fun i hi hr => (h.invites i hi hr).mono, fun v hv => (h.requests v hv).mono⟩

theorem holds_nextRequest (h : nextRequest rest = some d) : Holds db₀ log d := by
  obtain ⟨_, _, rfl, rfl⟩ := nextRequest_cases h
  trivial

theorem holds_nextInvite (hall : ∀ i ∈ all, i.action = .rejected → Doomed db₀ log vr.voteId) (htodo : ∀ i ∈ todo, i.voteId = vr.voteId) :
    Holds db₀ log (nextInvite vr all rest todo) := by
  rcases nextInvite_cases vr all rest todo with ⟨hn, -⟩ | ⟨passed, i, todo', rfl, -, hn⟩
  · rw [hn]
    exact hall
  · rw [hn]
    exact ⟨hall, fun j hj => htodo j (List.mem_append_right _ hj)⟩

theorem rejected_of_tally {st : Status} (hne : tally all st ≠ st) (h : tally all st = .rejected) : ∃ i ∈ all, i.action = .rejected := by
  unfold tally at hne h
  split_ifs at hne h with hrej happ
  · obtain ⟨i, hi, hact⟩ := List.any_eq_true.1 hrej
    exact ⟨i, hi, of_decide_eq_true hact⟩
  · exact absurd rfl hne

theorem doomed_of_invitesOf (h : Explained db₀ log db) : ∀ i ∈ db.invitesOf v, i.action = .rejected → Doomed db₀ log v := by
  intro i hi hr
  obtain ⟨hi, hv⟩ := mem_invitesOf.1 hi
  exact (h.invites i hi hr).doomed hv

theorem mem_saveInvite (h : db.saveInvite inv = some db') (hi : i ∈ db'.invites) : i ∈ db.invites ∨ i = inv := by
  unfold Db.saveInvite at h
  split_ifs at h <;> rw [(setInvites_eq h).2] at hi
  · obtain ⟨j, hj, rfl⟩ := Table.mem_updateWhere.1 hi
    split_ifs
    · exact .inr rfl
    · exact .inl hj
  · rcases List.mem_append.1 hi with hi | hi
    · exact .inl hi
    · exact .inr (List.mem_singleton.1 hi)

theorem mem_upsertInvite (h : db.upsertInvite inv = some db') (hi : i ∈ db'.invites) :
    i ∈ db.invites ∨ i.key = inv.key ∧ i.action = inv.action := by
  unfold Db.upsertInvite at h
  split_ifs at h <;> rw [(setInvites_eq h).2] at hi
  · obtain ⟨j, hj, rfl⟩ := Table.mem_updateWhere.1 hi
    split_ifs
    · exact .inr ⟨rfl, rfl⟩
    · exact .inl hj
  · rcases List.mem_append.1 hi with hi | hi
    · exact .inl hi
    · rw [List.mem_singleton.1 hi]
      exact .inr ⟨rfl, rfl⟩

theorem Explained.write (h : Explained db₀ log db) (hinv : ∀ j ∈ db'.invites, j ∈ db.invites ∨ j.key = i.key ∧ j.action = i.action)
    (hst : ∀ v, HasStatus db' v .rejected → HasStatus db v .rejected) (hlog : i.action = .rejected → .replied i.key ∈ log) :
    Explained db₀ log db' := by
  refine ⟨fun j hj hr => ?_, fun v hv => h.requests v (hst v hv)⟩
  rcases hinv j hj with hj | ⟨hkey, hact⟩
  · exact h.invites j hj hr
  · rw [hkey]
    exact .inr (.inl (hlog (hact ▸ hr)))

theorem Explained.update {p : VoteRequestDO → Bool} {f : VoteRequestDO → VoteRequestDO} {hf : ∀ r, (f r).voteId = r.voteId}
    (h : Explained db₀ log db) (hp : ∀ r, p r → (f r).status = .rejected → Doomed db₀ log r.voteId) :
    Explained db₀ log (db.updateRequests p f hf) := by
  refine ⟨h.invites, fun v hv => ?_⟩
  obtain ⟨r, hr, rfl, ⟨hpr, hst⟩ | ⟨_, hst⟩⟩ := hasStatus_updateWhere hv rfl hf
  · exact hp r hpr hst
  · exact h.requests _ ⟨r, hr, rfl, hst⟩

variable {w w' : Traced} {x : Ending}

theorem explained_syncInvites {pc : SyncInvites} (h : Explained db₀ log db) (hc : Holds db₀ log (.syncInvites pc))
    (hx : ∀ vr all inv todo rest, pc = .verify vr all inv todo rest → x.verdict = false → Blamed db₀ log inv.key) :
    Explained db₀ log (pc.run s db x).db ∧ ∀ d, (pc.run s db x).call = some d → Holds db₀ log d := by
  cases pc with
  | findByStatus =>
    refine ⟨h, fun d hd => ?_⟩
    simp only [SyncInvites.run] at hd
    split_ifs at hd
    exact holds_nextRequest hd
  | invites vr rest =>
    refine ⟨h, fun d hd => ?_⟩
    have hall : ∀ i ∈ (if x.error then [] else db.invitesOf vr.voteId), (i.action = .rejected → Doomed db₀ log vr.voteId) ∧ i.voteId = vr.voteId := by
      split_ifs
      · exact List.forall_mem_nil _
      · exact fun i hi => ⟨doomed_of_invitesOf h i hi, (mem_invitesOf.1 hi).2⟩
    simp only [SyncInvites.run] at hd
    generalize (if x.error then [] else db.invitesOf vr.voteId) = is at hall hd
    split_ifs at hd
    · exact holds_nextRequest hd
    · obtain rfl := Option.some.inj hd
      exact holds_nextInvite (fun i hi => (hall i hi).1) fun i hi => (hall i hi).2
    · obtain rfl := Option.some.inj hd
      exact fun i hi => (hall i hi).1
  | verify vr all inv todo rest =>
    refine ⟨h, fun d hd => ?_⟩
    simp only [SyncInvites.run] at hd
    split_ifs at hd with hv
    · obtain rfl := Option.some.inj hd
      exact holds_nextInvite hc.1 fun i hi => hc.2 i (.tail _ hi)
    · obtain rfl := Option.some.inj hd
      exact ⟨hx _ _ _ _ _ rfl (by simpa using hv), hc.2 inv (.head _)⟩
  | rejectRequest vr all inv rest =>
    refine ⟨?_, fun d hd => ?_⟩
    · simp only [SyncInvites.run]
      split_ifs
      · exact h
      · refine h.update fun r hr _ => ?_
        rw [of_decide_eq_true hr]
        exact hc.1.doomed hc.2
    · obtain rfl := Option.some.inj hd
      exact hc
  | rejectInvite vr all inv rest =>
    refine ⟨?_, fun d hd => ?_⟩
    · simp only [SyncInvites.run]
      split_ifs
      · exact h
      · refine ⟨fun i hi hr => ?_, h.requests⟩
        obtain ⟨j, hj, rfl⟩ := Table.mem_updateWhere.1 hi
        split_ifs at hr ⊢ with hq
        · have hkey : j.key = inv.key := of_decide_eq_true hq
          show Blamed db₀ log j.key
          rw [hkey]
          exact hc.1
        · exact h.invites j hj hr
    · obtain rfl := Option.some.inj hd
      exact fun _ _ _ => hc.1.doomed hc.2
  | reread vr all rest =>
    refine ⟨h, fun d hd => ?_⟩
    have hall : ∀ i ∈ (if x.error then all else db.invitesOf vr.voteId), i.action = .rejected → Doomed db₀ log vr.voteId := by
      split_ifs
      · exact hc
      · exact doomed_of_invitesOf h
    simp only [SyncInvites.run, SyncInvites.decide_] at hd
    generalize (if x.error then all else db.invitesOf vr.voteId) = is at hall hd
    split_ifs at hd with ht
    · exact holds_nextRequest hd
    · obtain rfl := Option.some.inj hd
      intro hst
      obtain ⟨i, hi, hr⟩ := rejected_of_tally ht hst
      exact hall i hi hr
  | update vr st rest =>
    refine ⟨?_, fun d hd => holds_nextRequest hd⟩
    simp only [SyncInvites.run]
    split_ifs
    · exact h
    · refine h.update fun r hr hst => ?_
      rw [(of_decide_eq_true hr : r.voteId = vr.voteId ∧ _).1]
      exact hc hst

theorem explained_reply {pc : Reply} (h : Explained db₀ log db)
    (hlog : ∀ req inv vr, pc = .save req inv vr → inv.action = .rejected → .replied inv.key ∈ log) :
    Explained db₀ log (pc.run s db x).db ∧ ∀ d, (pc.run s db x).call = some d → Holds db₀ log d := by
  constructor
  · have hcases : (pc.run s db x).db = db ∨ _ := reply_cases pc
    rcases hcases with hdb | ⟨req, inv, vr, mid, rfl, _, hs, hinv, hst⟩
    · rw [hdb]
      exact h
    · refine h.write (i := inv) (fun i hi => ?_) (fun v => (hst v _).1) (hlog _ _ _ rfl)
      rw [hinv] at hi
      rcases mem_saveInvite hs hi with hi | rfl
      · exact .inl hi
      · exact .inr ⟨rfl, rfl⟩
  · intro d hd
    cases pc with
    | findInvite req =>
      simp only [Reply.run, Reply.fail] at hd
      split_ifs at hd
      split at hd
      · cases hd
      · split_ifs at hd
        obtain rfl := Option.some.inj hd
        trivial
    | findRequest req inv =>
      simp only [Reply.run, Reply.fail] at hd
      split at hd
      · cases hd
      · split at hd
        · cases hd
        · obtain rfl := Option.some.inj hd
          trivial
    | save req inv vr =>
      simp only [Reply.run, Reply.write, Reply.fail, Reply.saved] at hd
      repeat' split at hd
      all_goals cases hd

theorem explained_run (h : Explained db₀ log db) (hc : Holds db₀ log c) (ha : Answered s k m c) :
    Explained db₀ (log ++ causes s k db c m) (s.run db (s.meets k c m) c).db ∧
    ∀ d, (s.run db (s.meets k c m) c).call = some d → Holds db₀ (log ++ causes s k db c m) d := by
  have hlog : Explained db₀ (log ++ causes s k db c m) db := h.mono
  cases c with
  | syncInvites pc =>
    refine explained_syncInvites hlog hc.mono ?_
    rintro vr all inv todo rest rfl hv
    have hg := genuine_eq ha hv
    exact .inr (.inr (List.mem_append_right _ (by simp [causes, hg])))
  | reply pc =>
    refine explained_reply hlog ?_
    rintro req inv vr rfl hr
    exact List.mem_append_right _ (by simp [causes, hr])
  | syncInvite inv =>
    refine ⟨?_, fun d hd => by cases hd⟩
    simp only [Service.run]
    split_ifs
    · exact hlog
    · cases hup : db.upsertInvite inv with
      | none => exact hlog
      | some db' =>
        have hst := (wrote_upsertInvite hup).status
        refine hlog.write (fun i hi => mem_upsertInvite hup hi) (fun v => (hst v _).1) fun hr => ?_
        exact List.mem_append_right _ (by simp [causes, hr])
  | syncRequest vr =>
    refine ⟨?_, fun d hd => by cases hd⟩
    simp only [Service.run]
    split_ifs
    · exact hlog
    · cases hup : db.upsertRequest vr with
      | none => exact hlog
      | some db' =>
        have hinv : db'.invites = db.invites := (hasStatus_upsertRequest hup : (HasStatus db' [] .reviewing ↔ _) ∧ _).2
        refine ⟨fun i hi => hlog.invites i (hinv ▸ hi), fun v hv => ?_⟩
        have hv := (hasStatus_upsertRequest hup).1.1 hv
        split_ifs at hv with he
        · exact .inr (.inl (List.mem_append_right _ (by simp [causes, he, ← hv])))
        · exact hlog.requests v hv

structure ExplainedWorld (db₀ : Db) (w : Traced) : Prop where
  db : Explained db₀ w.log w.db
  calls : w.All (Holds db₀ w.log)

theorem explained_step {a : Calls.Action Call Meeting} (h : ExplainedWorld db₀ w) (ha : Answers s k w a) (hs : s.trace k w a = some w') :
    ExplainedWorld db₀ w' := by
  obtain ⟨i, c, rfl, hf, _, rfl⟩ | ⟨i, c, m, rfl, hc, rfl⟩ | ⟨i, c, rfl, _, rfl⟩ := Calls.step_cases hs
  · refine ⟨h.db, h.calls.begin ?_⟩
    cases c with
    | syncInvites pc => cases pc <;> trivial
    | reply => trivial
    | syncInvite => trivial
    | syncRequest => trivial
  · obtain ⟨hdb, hnext⟩ := explained_run h.db (h.calls i c hc) (ha c hc)
    refine ⟨hdb, fun j d hd => ?_⟩
    by_cases hj : j = i
    · subst hj
      exact hnext d (by simpa [Calls.World.after, Service.examine] using hd)
    · exact (h.calls j d (by simpa [Calls.World.after, hj] using hd)).mono
  · exact ⟨h.db, h.calls.drop⟩

/-- Where the verifications get their answers, an invite or a request is REJECTED only for a cause: it came so, a voter replied REJECTED, or a reply
does not verify against its voter's certificate. -/
theorem rejections_explained {as : List (Calls.Action Call Meeting)} (has : Lts.RunAll (s.trace k) (Answers s k) (.idle db₀) as)
    (hr : Lts.run (s.trace k) (.idle db₀) as = some w) :
    (∀ i ∈ w.db.invites, i.action = .rejected → Blamed db₀ w.log i.key) ∧ ∀ v, HasStatus w.db v .rejected → Doomed db₀ w.log v := by
  have h : ExplainedWorld db₀ w := by
    refine Lts.run_invariant (fun w a w' hi ha hs => explained_step hi ha hs) ⟨⟨fun i hi hr => .inl ⟨i, hi, rfl, hr⟩, fun v hv => .inl hv⟩, ?_⟩ has hr
    exact Calls.World.idle_all _ _
  exact ⟨h.db.invites, h.db.requests⟩

/-- bob's reply verifies, but one look-up fails: the request and the invite are REJECTED, with nothing in the log, and a later pass
leaves them so. -/
theorem lookup_rejects : bobs.VerifyReply strict (asked true).look bobsInvite bobsRequest = true ∧
    ∃ w, Lts.run (strict.trace bobs) (.idle (bobsDb bobsInvite))
        (pass 0 [asked true, asked true, asked false, asked true, asked true, asked true] ++ pass 0 [asked true]) = some w ∧
      w.calls 0 = none ∧ HasStatus w.db (str "v1") .rejected ∧ Votes w.db (str "v1") (str "bob") .rejected ∧
      ¬ Doomed (bobsDb bobsInvite) w.log (str "v1") := by
  refine ⟨by decide +kernel, ?_⟩
  have hrun : (Lts.run (strict.trace bobs) (.idle (bobsDb bobsInvite))
      (pass 0 [asked true, asked true, asked false, asked true, asked true, asked true] ++ pass 0 [asked true])).map (fun w =>
        decide ((w.calls 0).isNone ∧ (w.db.requests.any fun r => decide (r.voteId = str "v1" ∧ r.status = .rejected)) ∧
          (w.db.invites.any fun i => decide (i.key = (str "v1", str "bob") ∧ i.action = .rejected)) ∧ w.log = [])) = some true := by
    decide +kernel
  obtain ⟨w, hw, h⟩ := Option.map_eq_some_iff.1 hrun
  obtain ⟨hc, hreq, hinv, hlog⟩ := of_decide_eq_true h
  obtain ⟨r, hr, hrst⟩ := List.any_eq_true.1 hreq
  obtain ⟨i, hi, hist⟩ := List.any_eq_true.1 hinv
  refine ⟨w, hw, Option.isNone_iff_eq_none.1 hc, ⟨r, hr, of_decide_eq_true hrst⟩, ⟨i, hi, of_decide_eq_true hist⟩, ?_⟩
  rw [hlog]
  rintro (⟨r, hr, _, hst⟩ | h | ⟨p, ⟨i, hi, _, hact⟩ | h | h⟩)
  · obtain rfl := List.mem_singleton.1 hr
    cases hst
  · cases h
  · obtain rfl := List.mem_singleton.1 hi
    cases hact
  · cases h
  · cases h

/-- The same vote with the look-up answered: nothing is rejected without a cause. -/
theorem rejections_explained_answered : ∃ w, Lts.run (strict.trace bobs) (.idle (bobsDb bobsInvite)) (pass 0 [asked true, asked true, asked true, asked true, asked true]) = some w ∧
    HasStatus w.db (str "v1") .approved ∧ (∀ i ∈ w.db.invites, i.action = .rejected → Blamed (bobsDb bobsInvite) w.log i.key) ∧
    ∀ v, HasStatus w.db v .rejected → Doomed (bobsDb bobsInvite) w.log v := by
  have hrun : (Lts.run (strict.trace bobs) (.idle (bobsDb bobsInvite)) (pass 0 [asked true, asked true, asked true, asked true, asked true])).map (fun w =>
      w.db.requests.any fun r => decide (r.voteId = str "v1" ∧ r.status = .approved)) = some true := by decide +kernel
  obtain ⟨w, hw, h⟩ := Option.map_eq_some_iff.1 hrun
  obtain ⟨r, hr, hst⟩ := List.any_eq_true.1 h
  refine ⟨w, hw, ⟨r, hr, of_decide_eq_true hst⟩, rejections_explained ?_ hw⟩
  have hall : Lts.RunAll (strict.trace bobs) (fun _ a => match a with | .exec _ m => m.look.domains = some [m.look.cert] ∧ m.look.node = m.look.inst | _ => True)
      (.idle (bobsDb bobsInvite)) (pass 0 [asked true, asked true, asked true, asked true, asked true]) := by
    refine .of_mem _ (fun a ha => ?_) _
    simp only [pass, List.map_cons, List.map_nil, List.mem_cons, List.not_mem_nil, or_false] at ha
    rcases ha with rfl | rfl | rfl | rfl | rfl | rfl <;> trivial
  refine hall.imp fun w a ha => ?_
  cases a with
  | start => trivial
  | abandon => trivial
  | exec i m =>
    intro c _
    unfold Answered
    split
    · exact fun _ => ⟨rfl, ha⟩
    · trivial

end Vote
