import Privahub.Vote.Verify

/-!
# Signing a request

The monitor of the initiator signs the request of a vote: the center for the nodes embedded in it, in its own table; an edge
for itself, in a row that it sends to the center and waits to get back. Until the signed row is back the edge signs
again, with a new key, time and nonce, and each signed row replaces the one before it, also when a voter has signed a
reply by then. `Once` is what keeps a request as the voters have signed it.
-/

namespace VoteSign

open Vote (SignMeta Status VoteTypeNodeRoute teeExecutor)

structure VoteRequestMessage where
  certChain : List Bytes
  body : Bytes
  voteRequestSignature : Bytes
  deriving DecidableEq

def VoteRequestMessage.notSigned (m : VoteRequestMessage) : Bool := decide (m.voteRequestSignature = [] ∧ m.certChain = [])

/-- `requestMsg` and `executors` are what the JSON of their columns says. -/
structure VoteRequestDO where
  voteId : Bytes
  initiator : Bytes
  type : Bytes
  executors : List Bytes
  requestMsg : VoteRequestMessage
  status : Status
  executeStatus : Bytes
  deriving DecidableEq

structure KeyCerts where
  key : Bytes
  certChain : List Bytes
  deriving DecidableEq

/-- `stamp` gives the body a time and a nonce unless it has them; a signature is some text. -/
structure Signer where
  isEmbeddedNode : Bytes → Bool
  stamp : SignMeta → Bytes → Bytes
  signSHA256withRSA : Bytes → Bytes → Option Bytes
  signature_ne : ∀ data key sig, signSHA256withRSA data key = some sig → sig ≠ []

abbrev Party := Option Bytes

/-- The tables of the parties, the copies that the monitors are about to sign, the rows on their way; and the requests made, the signatures, and
what the voters have signed against. -/
structure World where
  rows : Party → Bytes → Option VoteRequestDO
  copies : List (Party × VoteRequestDO)
  up : List VoteRequestDO
  down : List (Bytes × VoteRequestDO)
  created : List Bytes
  signatures : List (Bytes × VoteRequestMessage)
  replies : List (Bytes × VoteRequestMessage)

def World.empty : World := ⟨fun _ _ => none, [], [], [], [], [], []⟩

def World.store (w : World) (p : Party) (vr : VoteRequestDO) : World :=
  { w with rows := Function.update w.rows p (Function.update (w.rows p) vr.voteId (some vr)) }

inductive Action
  | create (p : Party) (vr : VoteRequestDO)
  | update (p : Party) (voteId : Bytes) (status : Status) (executeStatus : Bytes)
  | read (p : Party) (voteId : Bytes)
  | sign (p : Party) (vr : VoteRequestDO) (kc : KeyCerts) (m : SignMeta)
  | receive (vr : VoteRequestDO)
  | lose (vr : VoteRequestDO)
  | push (n voteId : Bytes)
  | apply (n : Bytes) (vr : VoteRequestDO)
  | drop (n : Bytes) (vr : VoteRequestDO)
  | reply (p : Party) (voteId : Bytes)

def isTeeNodeRoute (vr : VoteRequestDO) : Bool := decide (vr.type = VoteTypeNodeRoute ∧ teeExecutor ∈ vr.executors)

namespace Signer

variable (k : Signer)

def signs (p : Party) (vr : VoteRequestDO) : Bool :=
  decide (vr.status = .reviewing ∧ vr.executeStatus = str "COMMITTED") &&
  (match p with | none => k.isEmbeddedNode vr.initiator | some n => decide (vr.initiator = n)) &&
  vr.requestMsg.notSigned && !isTeeNodeRoute vr

def sign (vr : VoteRequestDO) (kc : KeyCerts) (m : SignMeta) : Option VoteRequestMessage :=
  let body := k.stamp m vr.requestMsg.body
  (k.signSHA256withRSA body kc.key).map fun sig => ⟨kc.certChain, body, sig⟩

def publish (w : World) (p : Party) (vr : VoteRequestDO) (msg : VoteRequestMessage) : World :=
  match p with
  | none => ((w.rows none vr.voteId).map fun r => w.store none { r with requestMsg := msg }).getD w
  | some _ => { w with up := { vr with requestMsg := msg } :: w.up }

def ignoreEdge (vr : VoteRequestDO) : Bool := decide (vr.executeStatus = str "SUCCESS" ∨ vr.executeStatus = str "OBSERVER")

def step (w : World) : Action → Option World
  | .create p vr =>
    if vr.voteId ∈ w.created ∨ vr.requestMsg.notSigned = false then none
    else some { w.store p vr with created := vr.voteId :: w.created }
  | .update p v status executeStatus => (w.rows p v).map fun vr => w.store p { vr with status := status, executeStatus := executeStatus }
  | .read p v => (w.rows p v).bind fun vr => if k.signs p vr then some { w with copies := (p, vr) :: w.copies } else none
  | .sign p vr kc m =>
    if (p, vr) ∈ w.copies then (k.sign vr kc m).map fun msg =>
      { publish w p vr msg with copies := w.copies.erase (p, vr), signatures := (vr.voteId, msg) :: w.signatures }
    else none
  | .receive vr => if vr ∈ w.up then some { w.store none vr with up := w.up.erase vr } else none
  | .lose vr => if vr ∈ w.up then some { w with up := w.up.erase vr } else none
  | .push n v => (w.rows none v).map fun vr => { w with down := (n, vr) :: w.down }
  | .apply n vr =>
    if (n, vr) ∈ w.down then
      some { (if ignoreEdge vr then w else w.store (some n) vr) with down := w.down.erase (n, vr) }
    else none
  | .drop n vr => if (n, vr) ∈ w.down then some { w with down := w.down.erase (n, vr) } else none
  | .reply p v => (w.rows p v).bind fun vr =>
    if vr.requestMsg.voteRequestSignature ≠ [] ∧ isTeeNodeRoute vr = false then some { w with replies := (v, vr.requestMsg) :: w.replies }
    else none

end Signer

/-- A monitor signs a request that has no signature yet, and an edge that has the signed row takes no row without
a signature in its place. -/
def Once (w : World) : Action → Prop
  | .sign _ vr _ _ => ∀ m, (vr.voteId, m) ∉ w.signatures
  | .apply n vr => vr.requestMsg.notSigned → ∀ r, w.rows (some n) vr.voteId = some r → r.requestMsg.notSigned
  | _ => True

variable {k : Signer} {w w' : World} {a : Action} {vr r : VoteRequestDO} {v : Bytes} {p : Party} {msg : VoteRequestMessage}

def Known (w : World) (vr : VoteRequestDO) : Prop :=
  vr.voteId ∈ w.created ∧ (vr.requestMsg.notSigned ∨ (vr.voteId, vr.requestMsg) ∈ w.signatures)

def SignedAt (w : World) (p : Party) (v : Bytes) : Prop := ∃ r, w.rows p v = some r ∧ r.requestMsg.notSigned = false

abbrev AtCenter (w : World) (v : Bytes) : Prop := SignedAt w none v

structure Inv (w : World) : Prop where
  rows : ∀ p v r, w.rows p v = some r → r.voteId = v ∧ Known w r
  copies : ∀ c ∈ w.copies, Known w c.2
  up : ∀ r ∈ w.up, Known w r ∧ r.requestMsg.notSigned = false
  down : ∀ d ∈ w.down, Known w d.2 ∧ (d.2.requestMsg.notSigned = false → AtCenter w d.2.voteId)
  edges : ∀ n v r, w.rows (some n) v = some r → r.requestMsg.notSigned = false → AtCenter w v
  signatures : ∀ s ∈ w.signatures, s.1 ∈ w.created ∧ s.2.notSigned = false
  unique : ∀ v m m', (v, m) ∈ w.signatures → (v, m') ∈ w.signatures → m = m'
  replies : ∀ s ∈ w.replies, s ∈ w.signatures ∧ AtCenter w s.1

theorem inv_empty : Inv .empty := by
  constructor <;> simp [World.empty]

@[simp] theorem rows_store : (w.store p vr).rows p vr.voteId = some vr := by simp [World.store]

theorem rows_store_cases {q : Party} (h : (w.store p vr).rows q v = some r) : q = p ∧ v = vr.voteId ∧ r = vr ∨ w.rows q v = some r := by
  by_cases hq : q = p
  · subst hq
    by_cases hv : v = vr.voteId
    · subst hv
      exact .inl ⟨rfl, rfl, by simpa using h.symm⟩
    · exact .inr (by simpa [World.store, hv] using h)
  · exact .inr (by simpa [World.store, hq] using h)

theorem Known.mono (h : Known w vr) (hc : ∀ v ∈ w.created, v ∈ w'.created) (hs : ∀ s ∈ w.signatures, s ∈ w'.signatures) : Known w' vr :=
  ⟨hc _ h.1, h.2.imp_right (hs _)⟩

theorem SignedAt.store {q : Party} (h : SignedAt w q v) (hvr : p = q → v = vr.voteId → vr.requestMsg.notSigned = false) :
    SignedAt (w.store p vr) q v := by
  obtain ⟨r, hr, hs⟩ := h
  by_cases hp : p = q
  · subst hp
    by_cases hv : v = vr.voteId
    · subst hv
      exact ⟨vr, rows_store, hvr rfl rfl⟩
    · exact ⟨r, by simpa [World.store, hv] using hr, hs⟩
  · exact ⟨r, by simpa [World.store, Ne.symm hp] using hr, hs⟩

theorem Inv.store (h : Inv w) (hvr : Known w r) (hedge : ∀ n, p = some n → r.requestMsg.notSigned = false → AtCenter w r.voteId)
    (hcenter : p = none → AtCenter w r.voteId → r.requestMsg.notSigned = false) : Inv (w.store p r) := by
  have hat : ∀ {v}, AtCenter w v → AtCenter (w.store p r) v := fun {v} hv => hv.store fun hp he => hcenter hp (he ▸ hv)
  refine ⟨fun q v r hr => ?_, h.copies, h.up, fun d hd => ⟨(h.down d hd).1, fun hs => hat ((h.down d hd).2 hs)⟩, fun n v r hr hs => ?_,
    h.signatures, h.unique, fun s hs => ⟨(h.replies s hs).1, hat (h.replies s hs).2⟩⟩
  · rcases rows_store_cases hr with ⟨_, rfl, rfl⟩ | hr
    · exact ⟨rfl, hvr⟩
    · exact h.rows q v r hr
  · rcases rows_store_cases hr with ⟨hp, rfl, rfl⟩ | hr
    · exact hat (hedge n hp.symm hs)
    · exact hat (h.edges n v r hr hs)

theorem signed_of_signature (h : msg.voteRequestSignature ≠ []) : msg.notSigned = false := by simp [VoteRequestMessage.notSigned, h]

theorem signed_of_sign {kc : KeyCerts} {m : SignMeta} (h : k.sign vr kc m = some msg) : msg.notSigned = false := by
  obtain ⟨sig, hsig, rfl⟩ := Option.map_eq_some_iff.1 h
  exact signed_of_signature (k.signature_ne _ _ _ hsig)

theorem Known.signed (h : Known w vr) (hs : vr.requestMsg.notSigned = false) : (vr.voteId, vr.requestMsg) ∈ w.signatures := by
  rcases h.2 with hn | hn
  · rw [hn] at hs
    cases hs
  · exact hn

theorem Inv.sign (h : Inv w) (hvr : Known w vr) (hm : msg.notSigned = false) (hone : ∀ m, (vr.voteId, m) ∉ w.signatures) :
    Inv { w with signatures := (vr.voteId, msg) :: w.signatures } := by
  have hk : ∀ {r}, Known w r → Known { w with signatures := (vr.voteId, msg) :: w.signatures } r :=
    fun hr => hr.mono (fun _ hv => hv) fun _ hs => .tail _ hs
  refine ⟨fun p v r hr => ⟨(h.rows p v r hr).1, hk (h.rows p v r hr).2⟩, fun c hc => hk (h.copies c hc), fun r hr => ⟨hk (h.up r hr).1, (h.up r hr).2⟩,
    fun d hd => ⟨hk (h.down d hd).1, (h.down d hd).2⟩, h.edges, fun s hs => ?_, fun v m m' hm hm' => ?_, fun s hs => ⟨.tail _ (h.replies s hs).1, (h.replies s hs).2⟩⟩
  · rcases List.mem_cons.1 hs with rfl | hs
    · exact ⟨hvr.1, hm⟩
    · exact h.signatures s hs
  · rcases List.mem_cons.1 hm with he | hm <;> rcases List.mem_cons.1 hm' with he' | hm'
    · rw [(Prod.mk.inj he).2, (Prod.mk.inj he').2]
    · rw [(Prod.mk.inj he).1] at hm'
      exact absurd hm' (hone _)
    · rw [(Prod.mk.inj he').1] at hm
      exact absurd hm (hone _)
    · exact h.unique v m m' hm hm'

theorem inv_create (h : Inv w) (hnew : vr.voteId ∉ w.created) (hn : vr.requestMsg.notSigned) :
    Inv { w.store p vr with created := vr.voteId :: w.created } := by
  have hk : ∀ {r}, Known w r → Known { w.store p vr with created := vr.voteId :: w.created } r :=
    fun hr => hr.mono (fun _ hv => .tail _ hv) fun _ hs => hs
  -- nobody has a row of the new request
  have hnone : ∀ q r, w.rows q vr.voteId = some r → False := by
    intro q r hr
    obtain ⟨he, hkn⟩ := h.rows q _ r hr
    exact hnew (he ▸ hkn.1)
  have hat : ∀ {v}, AtCenter w v → AtCenter { w.store p vr with created := vr.voteId :: w.created } v :=
    fun {v} hv => SignedAt.store hv fun _ he => by
      obtain ⟨r, hr, _⟩ := hv
      exact (hnone _ r (he ▸ hr)).elim
  refine ⟨fun q v r hr => ?_, fun c hc => hk (h.copies c hc), fun r hr => ⟨hk (h.up r hr).1, (h.up r hr).2⟩,
    fun d hd => ⟨hk (h.down d hd).1, fun hs => hat ((h.down d hd).2 hs)⟩, fun n v r hr hs => ?_,
    fun s hs => ⟨.tail _ (h.signatures s hs).1, (h.signatures s hs).2⟩, h.unique, fun s hs => ⟨(h.replies s hs).1, hat (h.replies s hs).2⟩⟩
  · rcases rows_store_cases hr with ⟨_, rfl, rfl⟩ | hr
    · exact ⟨rfl, List.mem_cons_self .., .inl hn⟩
    · exact ⟨(h.rows q v r hr).1, hk (h.rows q v r hr).2⟩
  · rcases rows_store_cases hr with ⟨_, rfl, rfl⟩ | hr
    · rw [hn] at hs
      cases hs
    · exact hat (h.edges n v r hr hs)

theorem inv_step (h : Inv w) (ha : Once w a) (hs : k.step w a = some w') : Inv w' := by
  cases a with
  | create p vr =>
    simp only [Signer.step] at hs
    split_ifs at hs with hc
    obtain rfl := Option.some.inj hs
    simp only [not_or, Bool.not_eq_false] at hc
    exact inv_create h hc.1 hc.2
  | update p v status executeStatus =>
    obtain ⟨vr, hvr, rfl⟩ := Option.map_eq_some_iff.1 hs
    obtain ⟨rfl, hk⟩ := h.rows p v vr hvr
    refine h.store (r := { vr with status := status, executeStatus := executeStatus }) hk (fun n hp hsig => ?_) fun hp hat => ?_
    · subst hp
      exact h.edges n _ vr hvr hsig
    · subst hp
      obtain ⟨r, hr, hsig⟩ := hat
      obtain rfl := Option.some.inj (hvr.symm.trans hr)
      exact hsig
  | read p v =>
    obtain ⟨vr, hvr, hs⟩ := Option.bind_eq_some_iff.1 hs
    split_ifs at hs
    obtain rfl := Option.some.inj hs
    refine { h with copies := fun c hc => ?_ }
    rcases List.mem_cons.1 hc with rfl | hc
    · exact (h.rows p v vr hvr).2
    · exact h.copies c hc
  | sign p vr kc m =>
    simp only [Signer.step] at hs
    split_ifs at hs with hmem
    obtain ⟨msg, hmsg, rfl⟩ := Option.map_eq_some_iff.1 hs
    have hk := h.copies _ hmem
    have hm := signed_of_sign hmsg
    have h₁ := h.sign hk hm ha
    have hcopies : ∀ c ∈ w.copies.erase (p, vr), Known { w with signatures := (vr.voteId, msg) :: w.signatures } c.2 :=
      fun c hc => h₁.copies c (List.mem_of_mem_erase hc)
    cases p with
    | none =>
      cases hrow : w.rows none vr.voteId with
      | none =>
        simp only [Signer.publish, hrow, Option.map_none, Option.getD_none]
        exact { h₁ with copies := hcopies }
      | some r =>
        simp only [Signer.publish, hrow, Option.map_some, Option.getD_some]
        have hr : r.voteId = vr.voteId := (h.rows none _ r hrow).1
        have hkr : Known { w with signatures := (vr.voteId, msg) :: w.signatures } { r with requestMsg := msg } := by
          refine ⟨?_, .inr ?_⟩
          · show r.voteId ∈ w.created
            rw [hr]
            exact hk.1
          · show (r.voteId, msg) ∈ (vr.voteId, msg) :: w.signatures
            rw [hr]
            exact List.mem_cons_self ..
        have h₂ := h₁.store (p := none) hkr nofun fun _ _ => hm
        exact { h₂ with copies := hcopies }
    | some n =>
      refine { h₁ with copies := hcopies, up := fun r hr => ?_ }
      rcases List.mem_cons.1 hr with rfl | hr
      · exact ⟨⟨hk.1, .inr (List.mem_cons_self ..)⟩, hm⟩
      · exact h₁.up r hr
  | receive vr =>
    simp only [Signer.step] at hs
    split_ifs at hs with hmem
    obtain rfl := Option.some.inj hs
    have h₁ := h.store (p := none) (h.up vr hmem).1 nofun fun _ _ => (h.up vr hmem).2
    exact { h₁ with up := fun r hr => h₁.up r (List.mem_of_mem_erase hr) }
  | lose vr =>
    simp only [Signer.step] at hs
    split_ifs at hs
    obtain rfl := Option.some.inj hs
    exact { h with up := fun r hr => h.up r (List.mem_of_mem_erase hr) }
  | push n v =>
    obtain ⟨vr, hvr, rfl⟩ := Option.map_eq_some_iff.1 hs
    refine { h with down := fun d hd => ?_ }
    rcases List.mem_cons.1 hd with rfl | hd
    · obtain ⟨rfl, hk⟩ := h.rows none v vr hvr
      exact ⟨hk, fun hsig => ⟨vr, hvr, hsig⟩⟩
    · exact h.down d hd
  | apply n vr =>
    simp only [Signer.step] at hs
    split_ifs at hs with hmem hig
    · obtain rfl := Option.some.inj hs
      exact { h with down := fun d hd => h.down d (List.mem_of_mem_erase hd) }
    · obtain rfl := Option.some.inj hs
      obtain ⟨hk, hat⟩ := h.down _ hmem
      have h₁ := h.store (p := some n) hk (fun _ _ hsig => hat hsig) nofun
      exact { h₁ with down := fun d hd => h₁.down d (List.mem_of_mem_erase hd) }
  | drop n vr =>
    simp only [Signer.step] at hs
    split_ifs at hs
    obtain rfl := Option.some.inj hs
    exact { h with down := fun d hd => h.down d (List.mem_of_mem_erase hd) }
  | reply p v =>
    obtain ⟨vr, hvr, hs⟩ := Option.bind_eq_some_iff.1 hs
    split_ifs at hs with hsig
    obtain rfl := Option.some.inj hs
    obtain ⟨rfl, hk⟩ := h.rows p v vr hvr
    have hsig := signed_of_signature hsig.1
    refine { h with replies := fun s hs => ?_ }
    rcases List.mem_cons.1 hs with rfl | hs
    · refine ⟨hk.signed hsig, ?_⟩
      cases p with
      | none => exact ⟨vr, hvr, hsig⟩
      | some n => exact h.edges n _ vr hvr hsig
    · exact h.replies s hs

/-- What holds once a voter has signed a reply against the message. -/
structure Stable (w : World) (v : Bytes) (msg : VoteRequestMessage) : Prop where
  center : ∃ r, w.rows none v = some r ∧ r.requestMsg = msg
  parties : ∀ p r, w.rows p v = some r → r.requestMsg.notSigned ∨ r.requestMsg = msg

theorem Inv.stable (h : Inv w) (hr : (v, msg) ∈ w.replies) : Stable w v msg := by
  have hmsg : ∀ p r, w.rows p v = some r → r.requestMsg.notSigned ∨ r.requestMsg = msg := by
    intro p r hrow
    obtain ⟨rfl, _, hn | hsig⟩ := h.rows p v r hrow
    · exact .inl hn
    · exact .inr (h.unique _ _ _ hsig (h.replies _ hr).1)
  obtain ⟨r, hrow, hsig⟩ := (h.replies _ hr).2
  refine ⟨⟨r, hrow, ?_⟩, hmsg⟩
  rcases hmsg none r hrow with hn | he
  · rw [hn] at hsig
    cases hsig
  · exact he

theorem replies_step (hs : k.step w a = some w') (hr : (v, msg) ∈ w.replies) : (v, msg) ∈ w'.replies := by
  cases a with
  | reply p u =>
    obtain ⟨vr, _, hs⟩ := Option.bind_eq_some_iff.1 hs
    split_ifs at hs
    obtain rfl := Option.some.inj hs
    exact .tail _ hr
  | sign p vr kc m =>
    simp only [Signer.step] at hs
    split_ifs at hs
    obtain ⟨msg', _, rfl⟩ := Option.map_eq_some_iff.1 hs
    cases p with
    | none =>
      cases hrow : w.rows none vr.voteId with
      | none => simpa [Signer.publish, hrow] using hr
      | some r => simpa [Signer.publish, hrow, World.store] using hr
    | some n => exact hr
  | read p u =>
    obtain ⟨vr, _, hs⟩ := Option.bind_eq_some_iff.1 hs
    split_ifs at hs
    obtain rfl := Option.some.inj hs
    exact hr
  | update p u status executeStatus =>
    obtain ⟨vr, _, rfl⟩ := Option.map_eq_some_iff.1 hs
    exact hr
  | push n u =>
    obtain ⟨vr, _, rfl⟩ := Option.map_eq_some_iff.1 hs
    exact hr
  | create p vr =>
    simp only [Signer.step] at hs
    split_ifs at hs
    obtain rfl := Option.some.inj hs
    exact hr
  | receive vr =>
    simp only [Signer.step] at hs
    split_ifs at hs
    obtain rfl := Option.some.inj hs
    exact hr
  | lose vr =>
    simp only [Signer.step] at hs
    split_ifs at hs
    obtain rfl := Option.some.inj hs
    exact hr
  | apply n vr =>
    simp only [Signer.step] at hs
    split_ifs at hs <;>
    · obtain rfl := Option.some.inj hs
      exact hr
  | drop n vr =>
    simp only [Signer.step] at hs
    split_ifs at hs
    obtain rfl := Option.some.inj hs
    exact hr

theorem signedAt_step (h : Inv w) (ha : Once w a) (hs : k.step w a = some w') (hat : SignedAt w p v) : SignedAt w' p v := by
  cases a with
  | create q vr =>
    simp only [Signer.step] at hs
    split_ifs at hs with hc
    obtain rfl := Option.some.inj hs
    refine SignedAt.store hat fun hp he => ?_
    obtain ⟨r, hr, _⟩ := hat
    obtain ⟨hv, hk⟩ := h.rows p v r hr
    exact absurd (he ▸ hv ▸ hk.1) (not_or.1 hc).1
  | update q u status executeStatus =>
    obtain ⟨vr, hvr, rfl⟩ := Option.map_eq_some_iff.1 hs
    refine hat.store fun hp he => ?_
    obtain ⟨r, hr, hsig⟩ := hat
    subst hp he
    obtain ⟨hv, _⟩ := h.rows q u vr hvr
    rw [show ({ vr with status := status, executeStatus := executeStatus } : VoteRequestDO).voteId = u from hv, hvr] at hr
    obtain rfl := Option.some.inj hr
    exact hsig
  | read q u =>
    obtain ⟨vr, _, hs⟩ := Option.bind_eq_some_iff.1 hs
    split_ifs at hs
    obtain rfl := Option.some.inj hs
    exact hat
  | sign q vr kc m =>
    simp only [Signer.step] at hs
    split_ifs at hs
    obtain ⟨msg, hmsg, rfl⟩ := Option.map_eq_some_iff.1 hs
    cases q with
    | some n => exact hat
    | none =>
      cases hrow : w.rows none vr.voteId with
      | none =>
        simp only [Signer.publish, hrow, Option.map_none, Option.getD_none]
        exact hat
      | some r =>
        simp only [Signer.publish, hrow, Option.map_some, Option.getD_some]
        exact SignedAt.store hat fun _ _ => signed_of_sign hmsg
  | receive vr =>
    simp only [Signer.step] at hs
    split_ifs at hs with hmem
    obtain rfl := Option.some.inj hs
    exact SignedAt.store hat fun _ _ => (h.up vr hmem).2
  | lose vr =>
    simp only [Signer.step] at hs
    split_ifs at hs
    obtain rfl := Option.some.inj hs
    exact hat
  | push n u =>
    obtain ⟨vr, _, rfl⟩ := Option.map_eq_some_iff.1 hs
    exact hat
  | apply n vr =>
    simp only [Signer.step] at hs
    split_ifs at hs
    · obtain rfl := Option.some.inj hs
      exact hat
    · obtain rfl := Option.some.inj hs
      refine SignedAt.store hat fun hp he => ?_
      obtain ⟨r, hr, hsig⟩ := hat
      subst hp he
      by_contra hn
      rw [ha (by simpa using hn) r hr] at hsig
      cases hsig
  | drop n vr =>
    simp only [Signer.step] at hs
    split_ifs at hs
    obtain rfl := Option.some.inj hs
    exact hat
  | reply q u =>
    obtain ⟨vr, _, hs⟩ := Option.bind_eq_some_iff.1 hs
    split_ifs at hs
    obtain rfl := Option.some.inj hs
    exact hat

structure Kept (w w' : World) (v : Bytes) (msg : VoteRequestMessage) : Prop where
  inv : Inv w'
  reply : (v, msg) ∈ w'.replies
  signed : ∀ p, SignedAt w p v → SignedAt w' p v

/-- In a run that signs each request once, the stored request is the one that a voter has signed a reply against, at the
center and wherever it has come, and stays so. -/
theorem signed_request_stable {as bs : List Action} (has : Lts.RunAll k.step Once .empty (as ++ bs)) (hr : Lts.run k.step .empty as = some w)
    (hr' : Lts.run k.step w bs = some w') (hrep : (v, msg) ∈ w.replies) :
    Stable w' v msg ∧ ∀ p r, w.rows p v = some r → r.requestMsg = msg → ∃ r', w'.rows p v = some r' ∧ r'.requestMsg = msg := by
  obtain ⟨has, hbs⟩ := has.append hr
  have h : Inv w := Lts.run_invariant (fun _ _ _ hi ha hs => inv_step hi ha hs) inv_empty has hr
  have hstep : ∀ u a u', Kept w u v msg → Once u a → k.step u a = some u' → Kept w u' v msg := fun u a u' hi ha hs =>
    ⟨inv_step hi.inv ha hs, replies_step hs hi.reply, fun p hp => signedAt_step hi.inv ha hs (hi.signed p hp)⟩
  have h' : Kept w w' v msg := Lts.run_invariant hstep ⟨h, hrep, fun _ hp => hp⟩ hbs hr'
  have hst := h'.inv.stable h'.reply
  refine ⟨hst, fun p r hrow hmsg => ?_⟩
  have hsig : r.requestMsg.notSigned = false := by
    rw [hmsg]
    exact (h.signatures _ (h.replies _ hrep).1).2
  obtain ⟨r', hrow', hsig'⟩ := h'.signed p ⟨r, hrow, hsig⟩
  refine ⟨r', hrow', ?_⟩
  rcases hst.parties p r' hrow' with hn | he
  · rw [hn] at hsig'
    cases hsig'
  · exact he

def plainRSA : Signer where
  isEmbeddedNode n := decide (n = str "bob")
  stamp m b := b ++ m.nonce
  signSHA256withRSA data key := some (str "signature of " ++ data ++ str " with " ++ key)
  signature_ne := by
    rintro data key _ ⟨⟩ h
    have hne : str "signature of " ≠ [] := by decide
    exact hne (List.append_eq_nil_iff.1 (List.append_eq_nil_iff.1 (List.append_eq_nil_iff.1 h).1).1).1

def unsigned : VoteRequestDO :=
  ⟨str "v1", str "alice", VoteTypeNodeRoute, [str "alice"], ⟨[], str "e30=", []⟩, .reviewing, str "COMMITTED"⟩

def keyCerts (key : String) : KeyCerts := ⟨str key, [str "leaf", str "domain"]⟩

def firstSignature : List Action :=
  [.create none unsigned, .push (str "alice") (str "v1"), .apply (str "alice") unsigned, .read (some (str "alice")) (str "v1"),
    .sign (some (str "alice")) unsigned (keyCerts "k1") ⟨1, str "n1"⟩,
    .receive { unsigned with requestMsg := ⟨[str "leaf", str "domain"], str "e30=n1", str "signature of e30=n1 with k1"⟩ }, .reply none (str "v1")]

def secondSignature : List Action :=
  [.read (some (str "alice")) (str "v1"), .sign (some (str "alice")) unsigned (keyCerts "k2") ⟨2, str "n2"⟩,
    .receive { unsigned with requestMsg := ⟨[str "leaf", str "domain"], str "e30=n2", str "signature of e30=n2 with k2"⟩ }]

def firstMessage : VoteRequestMessage := ⟨[str "leaf", str "domain"], str "e30=n1", str "signature of e30=n1 with k1"⟩

theorem signed_again : ∃ w, Lts.run plainRSA.step .empty (firstSignature ++ secondSignature) = some w ∧ (str "v1", firstMessage) ∈ w.replies ∧
    ¬ Stable w (str "v1") firstMessage := by
  have hrun : (Lts.run plainRSA.step .empty (firstSignature ++ secondSignature)).map (fun w =>
      decide ((str "v1", firstMessage) ∈ w.replies ∧ ((w.rows none (str "v1")).any fun r => decide (r.requestMsg ≠ firstMessage)))) = some true := by
    decide +kernel
  obtain ⟨w, hw, h⟩ := Option.map_eq_some_iff.1 hrun
  obtain ⟨hrep, hne⟩ := of_decide_eq_true h
  refine ⟨w, hw, hrep, ?_⟩
  rintro ⟨⟨r, hr, he⟩, _⟩
  rw [hr] at hne
  exact of_decide_eq_true hne he

/-- alice gets the signed row back. -/
theorem signed_request_stable_alice : ∃ w w', Lts.run plainRSA.step .empty firstSignature = some w ∧
    Lts.run plainRSA.step w [.push (str "alice") (str "v1"), .apply (str "alice") { unsigned with requestMsg := firstMessage }] = some w' ∧
    Stable w' (str "v1") firstMessage ∧
    ∀ p r, w.rows p (str "v1") = some r → r.requestMsg = firstMessage → ∃ r', w'.rows p (str "v1") = some r' ∧ r'.requestMsg = firstMessage := by
  have hrun : (Lts.run plainRSA.step .empty firstSignature).map (fun w => decide ((str "v1", firstMessage) ∈ w.replies ∧
      ((Lts.run plainRSA.step w [.push (str "alice") (str "v1"), .apply (str "alice") { unsigned with requestMsg := firstMessage }]).isSome))) =
      some true := by decide +kernel
  obtain ⟨w, hw, h⟩ := Option.map_eq_some_iff.1 hrun
  obtain ⟨hrep, hsome⟩ := of_decide_eq_true h
  obtain ⟨w', hw'⟩ := Option.isSome_iff_exists.1 hsome
  refine ⟨w, w', hw, hw', signed_request_stable ?_ hw hw' hrep⟩
  -- one signature is made, and no row without one is taken over it
  let OnceB (w : World) : Action → Bool
    | .sign _ vr _ _ => w.signatures.all fun s => decide (s.1 ≠ vr.voteId)
    | .apply n vr => !vr.requestMsg.notSigned || (w.rows (some n) vr.voteId).all fun r => r.requestMsg.notSigned
    | _ => true
  have hall : Lts.RunAll plainRSA.step (fun w a => OnceB w a = true) .empty
      (firstSignature ++ [.push (str "alice") (str "v1"), .apply (str "alice") { unsigned with requestMsg := firstMessage }]) := by
    decide +kernel
  refine hall.imp fun u a ha => ?_
  cases a with
  | sign p vr kc m =>
    intro msg hmem
    exact of_decide_eq_true (List.all_eq_true.1 ha _ hmem) rfl
  | apply n vr =>
    intro hn r hr
    have ha : (!vr.requestMsg.notSigned || (u.rows (some n) vr.voteId).all fun r => r.requestMsg.notSigned) = true := ha
    rw [hn, hr] at ha
    exact ha
  | _ => trivial

end VoteSign
