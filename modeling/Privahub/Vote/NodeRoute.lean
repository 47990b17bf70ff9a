import Privahub.Route.Trace

/-!
# The execution of a NODE_ROUTE vote

`DoCallBackApproved` of an approved vote: each executor that this platform hosts creates the route of its side, and writes how that went
into the one `execute_status` of the vote. `Attempt` is what the database and Kuscia have in store for one executor. The errors of
`CreateRoute` are those of `Route`; `DbFault` is an error of a statement of its transaction, before Kuscia is asked, or of the commit.
-/

namespace Vote.NodeRoute

open Route (Reads Tries Answer CreateRouteRequest)

inductive ExecuteStatus
  | committed
  | success
  | observer
  | failed
  deriving DecidableEq

inductive DbFault
  | statement
  | commit
  deriving DecidableEq

structure NodeRouteApprovalConfigDO where
  srcNodeId : Bytes
  srcNodeAddr : Bytes
  desNodeId : Bytes
  desNodeAddr : Bytes

/-- `counts` and `writes`: the count of the routes and the update of the vote go through. -/
structure Attempt where
  counts : Bool
  fault : Option DbFault
  reads : Reads
  reverse : Tries
  forward : Tries
  rollback : Answer
  writes : Bool

structure World where
  routes : Route.State
  status : ExecuteStatus
  msg : Bytes

/-- `routes` is the route service, if there is one; `errorText` is the text of an error. -/
structure NodeRouteHandler where
  routes : Option Route.Service
  IsCurrentNodeEnvironment : Bytes → Bool
  errorText : Route.Err → Bytes

def setExecute (w : World) (writes : Bool) (status : ExecuteStatus) (msg : Bytes) : World :=
  if writes then { w with status := status, msg := if msg = [] then w.msg else msg } else w

def CreateRoute (s : Route.Service) (st : Route.State) (a : Attempt) (req : CreateRouteRequest) : Route.Result :=
  match a.fault, s.CreateRoute st a.reads req a.reverse a.forward a.rollback with
  | some .statement, _ => (.error .database, st)
  | some .commit, (.ok (), st') => (.error .database, ⟨st.db, st'.domainRoutes⟩)
  | _, r => r

variable (h : NodeRouteHandler) (initiator : Bytes) (cfg : NodeRouteApprovalConfigDO)

def createNodeRoute (w : World) (a : Attempt) (req : CreateRouteRequest) : World :=
  if a.counts ∧ (w.routes.db.findByPair req.srcNodeId req.dstNodeId).isSome then setExecute w a.writes .success []
  else match h.routes with
    | none => setExecute w a.writes .failed (str "node route service not configured")
    | some s => match CreateRoute s w.routes a req with
      | (.error e, st) => setExecute { w with routes := st } a.writes .failed (h.errorText e)
      | (.ok (), st) => setExecute { w with routes := st } a.writes .success []

def request (executor : Bytes) : CreateRouteRequest :=
  if executor = initiator then ⟨cfg.desNodeId, cfg.srcNodeId, cfg.desNodeAddr, cfg.srcNodeAddr, str "HalfDuplex"⟩
  else ⟨cfg.srcNodeId, cfg.desNodeId, cfg.srcNodeAddr, cfg.desNodeAddr, str "HalfDuplex"⟩

def locals (executors : List (Bytes × Attempt)) : List (Bytes × Attempt) := executors.filter fun e => h.IsCurrentNodeEnvironment e.1

def createAll (w : World) (es : List (Bytes × Attempt)) : World :=
  es.foldl (fun w e => createNodeRoute h w e.2 (request initiator cfg e.1)) w

/-- `cfg` is the config of the vote, if it is found; `observes`: the update to OBSERVER goes through. -/
def DoCallBackApproved (w : World) (cfg : Option NodeRouteApprovalConfigDO) (executors : List (Bytes × Attempt)) (observes : Bool) : World :=
  match cfg with
  | none => w
  | some cfg =>
    if locals h executors = [] then setExecute w observes .observer []
    else createAll h initiator cfg w (locals h executors)

def Attempt.creates (a : Attempt) (s : Route.Service) (st : Route.State) (req : CreateRouteRequest) : Bool :=
  a.fault.isNone && decide (req.srcNodeId ≠ [] ∧ req.dstNodeId ≠ [] ∧ req.srcNodeId ≠ req.dstNodeId) &&
  (st.db.findByPair req.srcNodeId req.dstNodeId).isNone &&
  (s.kusciaClient.isNone || decide ((s.createInKuscia a.reads req (Route.Service.createsReverse st.db req) a.reverse a.forward a.rollback
    st.domainRoutes).1 = .ok ()))

def succeeds (w : World) (a : Attempt) (req : CreateRouteRequest) : Bool :=
  (a.counts && (w.routes.db.findByPair req.srcNodeId req.dstNodeId).isSome) || h.routes.any fun s => a.creates s w.routes req

variable {h initiator cfg} {s : Route.Service} {st : Route.State} {a : Attempt} {req : CreateRouteRequest} {w : World}

def Keeps (db db' : Route.Db) : Prop := ∀ pair, db.Stored pair → db'.Stored pair

theorem stored_findByPair {db : Route.Db} {src dst : Bytes} : (db.findByPair src dst).isSome ↔ db.Stored (src, dst) := by
  simp only [Route.Db.findByPair, List.find?_isSome, Route.Db.Stored, decide_eq_true_eq]

theorem createRows_keeps {db db' : Route.Db} {x : Reads} {cr : Bool} (hdb : Route.Service.createRows x req cr db = some db') :
    Keeps db db' ∧ db'.Stored (req.srcNodeId, req.dstNodeId) := by
  obtain ⟨mid, hmid, hdb⟩ := Option.bind_eq_some_iff.1 hdb
  have hrow := (Route.stored_create hmid _).2 (.inr rfl)
  cases cr with
  | false =>
    obtain rfl := Option.some.inj hdb
    exact ⟨fun pair hp => (Route.stored_create hmid pair).2 (.inl hp), hrow⟩
  | true =>
    exact ⟨fun pair hp => (Route.stored_create hdb pair).2 (.inl ((Route.stored_create hmid pair).2 (.inl hp))), (Route.stored_create hdb _).2 (.inl hrow)⟩

/-- What `CreateRoute` of the service comes to. -/
structure Created (s : Route.Service) (st : Route.State) (x : Reads) (req : CreateRouteRequest) (reverse forward : Tries) (rollback : Answer)
    (r : Route.Result) : Prop where
  ok_iff : r.1 = .ok () ↔ (req.srcNodeId ≠ [] ∧ req.dstNodeId ≠ [] ∧ req.srcNodeId ≠ req.dstNodeId) ∧
    st.db.findByPair req.srcNodeId req.dstNodeId = none ∧ (s.kusciaClient.isNone = true ∨
      (s.createInKuscia x req (Route.Service.createsReverse st.db req) reverse forward rollback st.domainRoutes).1 = .ok ())
  keeps : Keeps st.db r.2.db
  stored : r.1 = .ok () → r.2.db.Stored (req.srcNodeId, req.dstNodeId)

theorem created (s : Route.Service) (st : Route.State) (x : Reads) (req : CreateRouteRequest) (reverse forward : Tries) (rollback : Answer) :
    Created s st x req reverse forward rollback (s.CreateRoute st x req reverse forward rollback) := by
  by_cases hadmits : (req.srcNodeId ≠ [] ∧ req.dstNodeId ≠ [] ∧ req.srcNodeId ≠ req.dstNodeId) ∧ st.db.findByPair req.srcNodeId req.dstNodeId = none
  · obtain ⟨⟨hsrc, hdst, hne⟩, hnone⟩ := hadmits
    obtain ⟨db, hdb⟩ := Route.exists_createRows (x := x) hne hnone
    obtain ⟨hkeeps, hstored⟩ := createRows_keeps hdb
    have hrun : s.CreateRoute st x req reverse forward rollback = if s.kusciaClient.isNone then (.ok (), ⟨db, st.domainRoutes⟩)
        else Route.Service.transaction st db
          (s.createInKuscia x req (Route.Service.createsReverse st.db req) reverse forward rollback st.domainRoutes) := by
      unfold Route.Service.CreateRoute
      rw [if_neg (fun h => h.elim hsrc hdst), if_neg hne, if_neg (by rw [hnone]; exact Bool.false_ne_true)]
      simp only [hdb]
    rw [hrun]
    split_ifs with hkuscia
    · exact ⟨⟨fun _ => ⟨⟨hsrc, hdst, hne⟩, hnone, .inl hkuscia⟩, fun _ => rfl⟩, hkeeps, fun _ => hstored⟩
    · unfold Route.Service.transaction
      cases hin : (s.createInKuscia x req (Route.Service.createsReverse st.db req) reverse forward rollback st.domainRoutes).1 with
      | ok _ => exact ⟨⟨fun _ => ⟨⟨hsrc, hdst, hne⟩, hnone, .inr hin⟩, fun _ => rfl⟩, hkeeps, fun _ => hstored⟩
      | error e =>
        refine ⟨⟨nofun, fun h => ?_⟩, fun _ hp => hp, nofun⟩
        rcases h.2.2 with h | h
        · exact absurd h hkuscia
        · rw [hin] at h
          cases h
  · obtain ⟨e, hrun⟩ : ∃ e, s.CreateRoute st x req reverse forward rollback = (.error e, st) := Route.createRoute_refused hadmits
    rw [hrun]
    exact ⟨⟨nofun, fun h => absurd ⟨h.1, h.2.1⟩ hadmits⟩, fun _ hp => hp, nofun⟩

theorem createRoute_spec : ((CreateRoute s st a req).1 = .ok () ↔ a.creates s st req = true) ∧ Keeps st.db (CreateRoute s st a req).2.db ∧
    ((CreateRoute s st a req).1 = .ok () → (CreateRoute s st a req).2.db.Stored (req.srcNodeId, req.dstNodeId)) := by
  have hc := created s st a.reads req a.reverse a.forward a.rollback
  unfold CreateRoute Attempt.creates
  cases hfault : a.fault with
  | none =>
    refine ⟨hc.ok_iff.trans ?_, hc.keeps, hc.stored⟩
    simp only [Option.isNone_none, Bool.true_and, Bool.and_eq_true, Bool.or_eq_true, decide_eq_true_eq, Option.isNone_iff_eq_none, and_assoc]
  | some f =>
    have hfails : ∀ {r : Route.Result} {b : Bool}, (∃ e, r.1 = .error e) → Keeps st.db r.2.db →
        (r.1 = .ok () ↔ (false && b) = true) ∧ Keeps st.db r.2.db ∧ (r.1 = .ok () → r.2.db.Stored (req.srcNodeId, req.dstNodeId)) := by
      rintro r b ⟨e, he⟩ hkeeps
      rw [he]
      exact ⟨⟨nofun, nofun⟩, hkeeps, nofun⟩
    simp only [Option.isNone_some, Bool.and_assoc]
    cases f with
    | statement => exact hfails ⟨_, rfl⟩ fun _ hp => hp
    | commit =>
      cases hr : s.CreateRoute st a.reads req a.reverse a.forward a.rollback with
      | mk res st' =>
        cases res with
        | ok _ => exact hfails ⟨_, rfl⟩ fun _ hp => hp
        | error e => exact hfails ⟨_, rfl⟩ (by rw [hr] at hc; exact hc.keeps)

def statusOf (ok : Bool) : ExecuteStatus := if ok then .success else .failed

structure Attempted (w : World) (ok writes : Bool) (req : CreateRouteRequest) (w' : World) : Prop where
  status : w'.status = if writes then statusOf ok else w.status
  keeps : Keeps w.routes.db w'.routes.db
  stored : ok = true → w'.routes.db.Stored (req.srcNodeId, req.dstNodeId)

theorem setExecute_status {writes : Bool} {status : ExecuteStatus} {msg : Bytes} :
    (setExecute w writes status msg).status = if writes then status else w.status := by
  unfold setExecute
  split_ifs <;> rfl

theorem setExecute_routes {writes : Bool} {status : ExecuteStatus} {msg : Bytes} : (setExecute w writes status msg).routes = w.routes := by
  unfold setExecute
  split_ifs <;> rfl

theorem attempted_of_set {st : Route.State} {ok writes : Bool} {msg : Bytes} (hkeeps : Keeps w.routes.db st.db)
    (hstored : ok = true → st.db.Stored (req.srcNodeId, req.dstNodeId)) :
    Attempted w ok writes req (setExecute { w with routes := st } writes (statusOf ok) msg) := by
  refine ⟨setExecute_status, ?_, ?_⟩
  · rwa [setExecute_routes]
  · rwa [setExecute_routes]

theorem createNodeRoute_spec : Attempted w (succeeds h w a req) a.writes req (createNodeRoute h w a req) := by
  unfold createNodeRoute succeeds
  by_cases hthere : a.counts ∧ (w.routes.db.findByPair req.srcNodeId req.dstNodeId).isSome
  · rw [if_pos hthere, hthere.1, hthere.2]
    exact attempted_of_set (fun _ hp => hp) fun _ => stored_findByPair.1 hthere.2
  · rw [if_neg hthere]
    have hno : (a.counts && (w.routes.db.findByPair req.srcNodeId req.dstNodeId).isSome) = false := by
      rw [Bool.eq_false_iff, ne_eq, Bool.and_eq_true]
      exact hthere
    rw [hno, Bool.false_or]
    cases h.routes with
    | none => exact attempted_of_set (fun _ hp => hp) nofun
    | some s =>
      obtain ⟨hok, hkeeps, hstored⟩ := @createRoute_spec s w.routes a req
      rw [Option.any_some]
      cases hr : CreateRoute s w.routes a req with
      | mk res st =>
        simp only [hr] at hok hkeeps hstored ⊢
        cases res with
        | ok _ =>
          rw [hok.1 rfl]
          exact attempted_of_set hkeeps fun _ => hstored rfl
        | error e =>
          have hfails : a.creates s w.routes req = false := Bool.eq_false_iff.2 fun hc => nomatch hok.2 hc
          rw [hfails]
          exact attempted_of_set hkeeps nofun

def outcomes (h : NodeRouteHandler) (initiator : Bytes) (cfg : NodeRouteApprovalConfigDO) (w : World) : List (Bytes × Attempt) → List (Bool × Bool)
  | [] => []
  | e :: es => (succeeds h w e.2 (request initiator cfg e.1), e.2.writes) ::
      outcomes h initiator cfg (createNodeRoute h w e.2 (request initiator cfg e.1)) es

def lastWritten (os : List (Bool × Bool)) : Option Bool := (os.filter (·.2)).getLast?.map (·.1)

theorem lastWritten_cons {o : Bool × Bool} {os : List (Bool × Bool)} :
    lastWritten (o :: os) = (lastWritten os <|> if o.2 then some o.1 else none) := by
  unfold lastWritten
  rw [List.filter_cons]
  split_ifs
  · rw [List.getLast?_cons]
    cases (os.filter (·.2)).getLast? <;> rfl
  · cases (os.filter (·.2)).getLast? <;> rfl

variable {es : List (Bytes × Attempt)}

theorem createAll_status : (createAll h initiator cfg w es).status = ((lastWritten (outcomes h initiator cfg w es)).map statusOf).getD w.status := by
  induction es generalizing w with
  | nil => rfl
  | cons e es ih =>
    have hspec : Attempted w _ e.2.writes (request initiator cfg e.1) (createNodeRoute h w e.2 (request initiator cfg e.1)) := createNodeRoute_spec
    show (createAll h initiator cfg (createNodeRoute h w e.2 (request initiator cfg e.1)) es).status = _
    rw [ih, outcomes, lastWritten_cons, hspec.status]
    cases lastWritten (outcomes h initiator cfg (createNodeRoute h w e.2 (request initiator cfg e.1)) es) with
    | some ok => rfl
    | none => cases e.2.writes <;> rfl

theorem createAll_keeps : Keeps w.routes.db (createAll h initiator cfg w es).routes.db := by
  induction es generalizing w with
  | nil => exact fun _ hp => hp
  | cons e es ih => exact fun pair hp => ih pair (createNodeRoute_spec.keeps pair hp)

theorem createAll_stored (hall : ∀ o ∈ outcomes h initiator cfg w es, o.1 = true) :
    ∀ e ∈ es, (createAll h initiator cfg w es).routes.db.Stored ((request initiator cfg e.1).srcNodeId, (request initiator cfg e.1).dstNodeId) := by
  induction es generalizing w with
  | nil => exact fun e he => absurd he List.not_mem_nil
  | cons e es ih =>
    rw [outcomes, List.forall_mem_cons] at hall
    have hspec : Attempted w _ e.2.writes (request initiator cfg e.1) (createNodeRoute h w e.2 (request initiator cfg e.1)) := createNodeRoute_spec
    have hkeeps : Keeps (createNodeRoute h w e.2 (request initiator cfg e.1)).routes.db
        (createAll h initiator cfg (createNodeRoute h w e.2 (request initiator cfg e.1)) es).routes.db := createAll_keeps
    exact List.forall_mem_cons.2 ⟨hkeeps _ (hspec.stored hall.1), ih hall.2⟩

/-- The outcomes of the executors that are hosted here. -/
def voteOutcomes (h : NodeRouteHandler) (initiator : Bytes) (w : World) (cfg : Option NodeRouteApprovalConfigDO) (executors : List (Bytes × Attempt)) :
    List (Bool × Bool) :=
  match cfg with
  | none => []
  | some cfg => outcomes h initiator cfg w (locals h executors)

def voteRoutes (h : NodeRouteHandler) (initiator : Bytes) (cfg : Option NodeRouteApprovalConfigDO) (executors : List (Bytes × Attempt)) :
    List (Bytes × Bytes) :=
  match cfg with
  | none => []
  | some cfg => (locals h executors).map fun e => ((request initiator cfg e.1).srcNodeId, (request initiator cfg e.1).dstNodeId)

/-- A vote that comes to SUCCESS has all its routes, and none of its executors has failed, just if no attempt fails or the last status
that is written is not that of a success. -/
theorem success_iff {cfg : Option NodeRouteApprovalConfigDO} {executors : List (Bytes × Attempt)} {observes : Bool} (hw : w.status ≠ .success) :
    ((DoCallBackApproved h initiator w cfg executors observes).status = .success →
      (∀ pair ∈ voteRoutes h initiator cfg executors, (DoCallBackApproved h initiator w cfg executors observes).routes.db.Stored pair) ∧
      ∀ o ∈ voteOutcomes h initiator w cfg executors, o.1 = true) ↔
    (∀ o ∈ voteOutcomes h initiator w cfg executors, o.1 = true) ∨ lastWritten (voteOutcomes h initiator w cfg executors) ≠ some true := by
  cases cfg with
  | none => exact ⟨fun _ => .inl nofun, fun _ hs => absurd hs hw⟩
  | some cfg =>
    by_cases hlocals : locals h executors = []
    · have hnone : voteOutcomes h initiator w (some cfg) executors = [] := by
        unfold voteOutcomes
        rw [hlocals]
        rfl
      have hstatus : (DoCallBackApproved h initiator w (some cfg) executors observes).status ≠ .success := by
        have hrun : DoCallBackApproved h initiator w (some cfg) executors observes = setExecute w observes .observer [] := if_pos hlocals
        rw [hrun, setExecute_status]
        split_ifs
        · nofun
        · exact hw
      exact ⟨fun _ => .inl (hnone ▸ nofun), fun _ hs => absurd hs hstatus⟩
    · have hrun : DoCallBackApproved h initiator w (some cfg) executors observes = createAll h initiator cfg w (locals h executors) := if_neg hlocals
      have hstatus : (createAll h initiator cfg w (locals h executors)).status = .success ↔
          lastWritten (outcomes h initiator cfg w (locals h executors)) = some true := by
        rw [createAll_status]
        cases lastWritten (outcomes h initiator cfg w (locals h executors)) with
        | none => exact ⟨fun hs => absurd hs hw, nofun⟩
        | some ok => cases ok <;> simp [statusOf]
      rw [hrun, hstatus]
      show (lastWritten (outcomes h initiator cfg w (locals h executors)) = some true → _) ↔ _
      constructor
      · intro hsound
        by_cases hlast : lastWritten (outcomes h initiator cfg w (locals h executors)) = some true
        · exact .inl (hsound hlast).2
        · exact .inr hlast
      · rintro (hall | hlast) hs
        · refine ⟨fun pair hpair => ?_, hall⟩
          obtain ⟨e, he, rfl⟩ := List.mem_map.1 hpair
          exact createAll_stored hall e he
        · exact absurd hs hlast

def center : NodeRouteHandler where
  routes := some ⟨false, fun _ => none, some 0, fun addr => some ⟨addr, 80, false⟩⟩
  IsCurrentNodeEnvironment _ := true
  errorText e := e.msg

def aliceToBob : NodeRouteApprovalConfigDO := ⟨str "alice", str "alice:80", str "bob", str "bob:80"⟩

def attempt (create : Answer) : Attempt :=
  ⟨true, none, ⟨none, fun _ => none, fun _ _ => .ok false⟩, ⟨.done, .done, .done⟩, ⟨.done, .done, create⟩, .done, true⟩

def noRoutes : World := ⟨⟨⟨[], 0, by simp, by simp, by simp⟩, []⟩, .committed, []⟩

theorem success_iff_both :
    (DoCallBackApproved center (str "alice") noRoutes (some aliceToBob) [(str "alice", attempt .done), (str "bob", attempt .done)] true).status = .success ∧
    (∀ pair ∈ voteRoutes center (str "alice") (some aliceToBob) [(str "alice", attempt .done), (str "bob", attempt .done)],
      (DoCallBackApproved center (str "alice") noRoutes (some aliceToBob) [(str "alice", attempt .done), (str "bob", attempt .done)] true).routes.db.Stored pair) ∧
    ∀ o ∈ voteOutcomes center (str "alice") noRoutes (some aliceToBob) [(str "alice", attempt .done), (str "bob", attempt .done)], o.1 = true := by
  have hsuccess : (DoCallBackApproved center (str "alice") noRoutes (some aliceToBob)
      [(str "alice", attempt .done), (str "bob", attempt .done)] true).status = .success := by
    decide +kernel
  exact ⟨hsuccess, (success_iff (by decide)).2 (.inl (by decide +kernel)) hsuccess⟩

/-- Kuscia refuses the first route and takes the second. -/
theorem success_overwritten :
    (DoCallBackApproved center (str "alice") noRoutes (some aliceToBob) [(str "alice", attempt .refused), (str "bob", attempt .done)] true).status = .success ∧
    (str "bob", str "alice") ∈ voteRoutes center (str "alice") (some aliceToBob) [(str "alice", attempt .refused), (str "bob", attempt .done)] ∧
    ¬(DoCallBackApproved center (str "alice") noRoutes (some aliceToBob) [(str "alice", attempt .refused), (str "bob", attempt .done)] true).routes.db.Stored
      (str "bob", str "alice") := by
  unfold Route.Db.Stored
  decide +kernel

end Vote.NodeRoute
