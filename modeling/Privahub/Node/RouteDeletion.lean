import Privahub.Node.Lifecycle
import Privahub.Node.Partner

/-!
# What the deletion of a partner's route leaves

`DeleteNodeRoute` deletes both directions and the domain in Kuscia before it deletes rows, and of these the one row of the route and, if no
route from the node is left, the node. `deletion_iff` says exactly which calls leave everything as it was when they fail, and Kuscia and the
database in step when they succeed.
-/

namespace Node

open Route (Answer DomainRoute NodeRouteDO)

/-- A deletion takes away the domain of a node only with its last route, and of the routes that Kuscia and the database have, both or none. -/
def InStep (s : P2PService) (st : State) (routerId : Bytes) (x : RouteDeletion) : Prop :=
  let st' := (s.DeleteNodeRoute st routerId x).2
  (∀ d ∈ st.domains, d ∉ st'.domains → st'.db.routesOf d.domainId = []) ∧
  ∀ f route channel, s.kuscia = some f → s.deletable st.db routerId x = .ok (route, channel) → ∀ r ∈ st.db.routes.routes, ∀ d ∈ st.domainRoutes,
    d.key = (f channel, r.pair) → (d ∈ st'.domainRoutes ↔ r ∈ st'.db.routes.routes)

/-- A deletion fails without a trace or leaves Kuscia and the database in step. -/
def DeletionKept (s : P2PService) (st : State) (routerId : Bytes) (x : RouteDeletion) : Prop :=
  (∀ e, (s.DeleteNodeRoute st routerId x).1 = .error e → ∀ n, (s.DeleteNodeRoute st routerId x).2.view n = st.view n) ∧
  ((s.DeleteNodeRoute st routerId x).1 = .ok () → InStep s st routerId x)

namespace Direction

variable (t : Direction) (held : Bool)

def asks : Bool := decide (t.query = .done) && held

def goes : Bool := !t.asks held || decide (t.delete = .done)

def removes : Bool := t.asks held && t.delete.takesEffect

end Direction

namespace RouteDeletion

variable (x : RouteDeletion) (st : State) (k : Nat) (route : NodeRouteDO)

def removesThere : Bool := x.there.removes (Route.Kuscia.has st.domainRoutes k route.srcNodeId route.dstNodeId)

def heldBack : Bool :=
  Route.Kuscia.has st.domainRoutes k route.dstNodeId route.srcNodeId && !(decide (route.srcNodeId = route.dstNodeId) && x.removesThere st k route)

def goesThere : Bool := x.there.goes (Route.Kuscia.has st.domainRoutes k route.srcNodeId route.dstNodeId)

def goesBack : Bool := x.back.goes (x.heldBack st k route)

def goesDomain : Bool := decide (x.domain = .done) && Kuscia.has st.domains k route.srcNodeId

def goesInKuscia : Bool := x.goesThere st k route && x.goesBack st k route && x.goesDomain st k route

/-- The statements of the transaction and its commit go through. -/
def rowsGo (routerId : Bytes) : Bool :=
  x.deleteRoute && x.commits && (!P2PService.lastRoute st.db.routes.routes routerId route.srcNodeId x || x.deleteNode && x.deletePermission)

def Untouched : Prop :=
  x.removesThere st k route = false ∧ (x.goesThere st k route → x.back.removes (x.heldBack st k route) = false) ∧
    (x.goesThere st k route → x.goesBack st k route → x.domain.takesEffect → Kuscia.has st.domains k route.srcNodeId = false)

/-- The two directions that are deleted in Kuscia have no rows but those that are deleted, and these no other domain routes. -/
def Paired (routerId : Bytes) : Prop :=
  ∀ r ∈ st.db.routes.routes, ∀ d ∈ st.domainRoutes, d.key = (k, r.pair) →
    (r.routeId = routerId ↔ (r.pair = (route.srcNodeId, route.dstNodeId) ∧ x.there.query = .done) ∨
      (r.pair = (route.dstNodeId, route.srcNodeId) ∧ x.back.query = .done))

end RouteDeletion

/-- The condition on a deletion: if everything goes through, the route is the last one of the node, and what is deleted in Kuscia are the
domain routes of the deleted rows; or else Kuscia carries out nothing. -/
def DeletionSafe (s : P2PService) (st : State) (routerId : Bytes) (x : RouteDeletion) : Prop :=
  ∀ f route channel, s.kuscia = some f → s.deletable st.db routerId x = .ok (route, channel) →
    if x.goesInKuscia st (f channel) route && x.rowsGo st route routerId
    then (∀ r ∈ st.db.routesOf route.srcNodeId, r.routeId = routerId) ∧ x.Paired st (f channel) route routerId
    else x.Untouched st (f channel) route

variable {s : P2PService} {st : State} {k : Nat} {route : NodeRouteDO} {x : RouteDeletion} {routerId : Bytes} {a : Answer}

section

variable (k) (ds : List DomainRoute) (src dst : Bytes) (t : Direction) (d : DomainRoute)

theorem deleteDirection_fst : (P2PService.deleteDirection ds k src dst t).1 = t.goes (Route.Kuscia.has ds k src dst) := by
  obtain ⟨query, delete⟩ := t
  cases query <;> cases h : Route.Kuscia.has ds k src dst <;>
    simp [P2PService.deleteDirection, Direction.goes, Direction.asks, Route.Kuscia.DomainRouteExists, Route.Kuscia.DeleteDomainRoute, h]

theorem mem_deleteDirection : d ∈ (P2PService.deleteDirection ds k src dst t).2 ↔
    d ∈ ds ∧ (t.removes (Route.Kuscia.has ds k src dst) = true → d.key ≠ (k, src, dst)) := by
  obtain ⟨query, delete⟩ := t
  cases query <;> cases h : Route.Kuscia.has ds k src dst <;>
    simp [P2PService.deleteDirection, Direction.removes, Direction.asks, Route.Kuscia.DomainRouteExists, Route.mem_deleteDomainRoute, h]

end

theorem deleteDomain_ok {ds : List Domain} {nodeId : Bytes} :
    (Kuscia.DeleteDomain ds k nodeId a).1 = .ok ↔ (decide (a = .done) && Kuscia.has ds k nodeId) = true := by
  unfold Kuscia.DeleteDomain
  cases Kuscia.has ds k nodeId <;> by_cases h : a = .done <;> simp [h]

theorem has_after_there : Route.Kuscia.has (P2PService.deleteDirection st.domainRoutes k route.srcNodeId route.dstNodeId x.there).2 k
    route.dstNodeId route.srcNodeId = x.heldBack st k route := by
  rw [Bool.eq_iff_iff, Route.has_iff, RouteDeletion.heldBack, Bool.and_eq_true, Route.has_iff]
  simp only [Route.Held, mem_deleteDirection]
  constructor
  · rintro ⟨d, ⟨hd, hkept⟩, hkey⟩
    refine ⟨⟨d, hd, hkey⟩, ?_⟩
    by_contra hno
    simp only [Bool.not_eq_true', Bool.and_eq_false_iff, not_or, Bool.not_eq_false, decide_eq_true_eq] at hno
    exact hkept hno.2 (by rw [hkey, hno.1])
  · rintro ⟨⟨d, hd, hkey⟩, hno⟩
    refine ⟨d, ⟨hd, fun hrem hkey' => ?_⟩, hkey⟩
    rw [hkey] at hkey'
    have hsame : route.srcNodeId = route.dstNodeId := (congrArg (·.2.2) hkey')
    rw [show x.removesThere st k route = true from hrem, decide_eq_true hsame] at hno
    cases hno

theorem deleteInKuscia_spec (st : State) (k : Nat) (route : NodeRouteDO) (x : RouteDeletion) :
    ((P2PService.deleteInKuscia st k route x).1 = .ok () ↔ x.goesInKuscia st k route = true) ∧
    (P2PService.deleteInKuscia st k route x).2.db = st.db ∧
    (∀ d, d ∈ (P2PService.deleteInKuscia st k route x).2.domainRoutes ↔ d ∈ st.domainRoutes ∧
      (x.removesThere st k route = true → d.key ≠ (k, route.srcNodeId, route.dstNodeId)) ∧
      (x.goesThere st k route = true → x.back.removes (x.heldBack st k route) = true → d.key ≠ (k, route.dstNodeId, route.srcNodeId))) ∧
    ∀ d, d ∈ (P2PService.deleteInKuscia st k route x).2.domains ↔ d ∈ st.domains ∧
      (x.goesThere st k route = true → x.goesBack st k route = true → x.domain.takesEffect = true →
        ¬ (d.kuscia = k ∧ d.domainId = route.srcNodeId)) := by
  have hthere := deleteDirection_fst k st.domainRoutes route.srcNodeId route.dstNodeId x.there
  have hmem := mem_deleteDirection k st.domainRoutes route.srcNodeId route.dstNodeId x.there
  have hback := deleteDirection_fst k (P2PService.deleteDirection st.domainRoutes k route.srcNodeId route.dstNodeId x.there).2
    route.dstNodeId route.srcNodeId x.back
  have hmem₂ := mem_deleteDirection k (P2PService.deleteDirection st.domainRoutes k route.srcNodeId route.dstNodeId x.there).2
    route.dstNodeId route.srcNodeId x.back
  rw [has_after_there] at hback hmem₂
  have hdomains := fun d => @mem_deleteDomain route.srcNodeId k x.domain st.domains d
  have hgoes : (Kuscia.DeleteDomain st.domains k route.srcNodeId x.domain).1 = .ok ↔ x.goesDomain st k route = true := deleteDomain_ok
  have hgt : x.there.goes (Route.Kuscia.has st.domainRoutes k route.srcNodeId route.dstNodeId) = x.goesThere st k route := rfl
  have hgb : x.back.goes (x.heldBack st k route) = x.goesBack st k route := rfl
  rw [hgt] at hthere
  rw [hgb] at hback
  simp only [P2PService.deleteInKuscia, hthere, hback, RouteDeletion.goesInKuscia]
  cases x.goesThere st k route with
  | false =>
    refine ⟨⟨(fun h => nomatch h), (fun h => nomatch h)⟩, rfl, fun d => ?_, fun d => ?_⟩
    · simp only [Bool.not_false, if_true, Bool.false_eq_true, false_implies, and_true]
      exact hmem d
    · simp
  | true =>
    cases x.goesBack st k route with
    | false =>
      refine ⟨⟨(fun h => nomatch h), (fun h => nomatch h)⟩, rfl, fun d => ?_, fun d => ?_⟩
      · simp only [Bool.not_true, Bool.not_false, if_true, Bool.false_eq_true, if_false, forall_const]
        rw [hmem₂ d, hmem d, and_assoc]
        rfl
      · simp
    | true =>
      refine ⟨?_, rfl, fun d => ?_, fun d => ?_⟩
      · simp only [Bool.not_true, Bool.false_eq_true, if_false, Bool.true_and]
        rw [← hgoes]
        split_ifs with h <;> simp [h]
      · simp only [Bool.not_true, Bool.false_eq_true, if_false, forall_const]
        rw [hmem₂ d, hmem d, and_assoc]
        rfl
      · simp only [Bool.not_true, Bool.false_eq_true, if_false, forall_const]
        exact hdomains d

theorem held_of_removes {t : Direction} {held : Bool} (h : t.removes held = true) : held = true := by
  simp only [Direction.removes, Direction.asks, Bool.and_eq_true] at h
  exact h.1.2

theorem untouched_iff : (∀ n, (P2PService.deleteInKuscia st k route x).2.view n = st.view n) ↔ x.Untouched st k route := by
  obtain ⟨-, hdb, hroutes, hdomains⟩ := deleteInKuscia_spec st k route x
  rw [view_eq_iff, hdb]
  simp only [implies_true, true_and, hroutes, hdomains, RouteDeletion.Untouched]
  constructor
  · rintro ⟨hr, hd⟩
    refine ⟨?_, fun hgo => ?_, fun hgo hgo' ht => ?_⟩
    · rw [← Bool.not_eq_true]
      intro hrem
      obtain ⟨d, hmem, hkey⟩ := Route.has_iff.1 (held_of_removes hrem)
      exact ((hr d).2 hmem).2.1 hrem hkey
    · rw [← Bool.not_eq_true]
      intro hrem
      have hheld := held_of_removes hrem
      rw [RouteDeletion.heldBack, Bool.and_eq_true] at hheld
      obtain ⟨d, hmem, hkey⟩ := Route.has_iff.1 hheld.1
      exact ((hr d).2 hmem).2.2 hgo hrem hkey
    · rw [has_false_iff]
      intro d hmem hkey
      exact ((hd d).2 hmem).2 hgo hgo' ht hkey
  · rintro ⟨hthere, hback, hdomain⟩
    refine ⟨fun d => ⟨fun h => h.1, fun h => ⟨h, fun hrem => ?_, fun hgo hrem => ?_⟩⟩, fun d => ⟨fun h => h.1, fun h => ⟨h, fun hgo hgo' ht => ?_⟩⟩⟩
    · rw [hthere] at hrem
      cases hrem
    · rw [hback hgo] at hrem
      cases hrem
    · exact has_false_iff.1 (hdomain hgo hgo' ht) d h

theorem deleteRows_spec (st : State) (route : NodeRouteDO) (x : RouteDeletion) (routerId : Bytes) :
    (x.rowsGo st route routerId = true ∧ ∃ db, P2PService.deleteRows st.db routerId route.srcNodeId x = some db ∧
      ∀ r, r ∈ db.routes.routes ↔ r ∈ st.db.routes.routes ∧ r.routeId ≠ routerId) ∨
    (x.rowsGo st route routerId = false ∧ P2PService.deleteRows st.db routerId route.srcNodeId x = none) := by
  have hroutes : ∀ r, r ∈ (st.db.routes.deleteWhere fun r => decide (r.routeId = routerId)).routes ↔
      r ∈ st.db.routes.routes ∧ r.routeId ≠ routerId := by
    intro r
    simp [Route.Db.deleteWhere]
  simp only [P2PService.deleteRows, RouteDeletion.rowsGo]
  cases x.deleteRoute <;> cases x.commits <;> cases P2PService.lastRoute st.db.routes.routes routerId route.srcNodeId x <;>
    cases x.deleteNode <;> cases x.deletePermission <;>
    first
      | exact .inr ⟨rfl, rfl⟩
      | exact .inl ⟨rfl, _, rfl, hroutes⟩

theorem removes_iff {t : Direction} {held : Bool} (h : t.goes held = true) : t.removes held = true ↔ t.query = .done ∧ held = true := by
  obtain ⟨query, delete⟩ := t
  cases held <;> by_cases hq : query = .done <;> by_cases hd : delete = .done <;>
    simp_all [Direction.goes, Direction.removes, Direction.asks, Answer.takesEffect]

theorem deleted_iff (hgo : x.goesInKuscia st k route = true) {r : NodeRouteDO} {d : DomainRoute} (hd : d ∈ st.domainRoutes)
    (hkey : d.key = (k, r.pair)) : d ∈ (P2PService.deleteInKuscia st k route x).2.domainRoutes ↔
      ¬ ((r.pair = (route.srcNodeId, route.dstNodeId) ∧ x.there.query = .done) ∨
        (r.pair = (route.dstNodeId, route.srcNodeId) ∧ x.back.query = .done)) := by
  simp only [RouteDeletion.goesInKuscia, Bool.and_eq_true] at hgo
  have hthere := removes_iff (t := x.there) hgo.1.1
  have hback := removes_iff (t := x.back) hgo.1.2
  rw [(deleteInKuscia_spec st k route x).2.2.1 d]
  have hpair : ∀ {a b : Bytes}, d.key = (k, a, b) ↔ r.pair = (a, b) := by
    intro a b
    rw [hkey]
    simp
  simp only [hd, true_and, hgo.1.1, forall_const, ne_eq, hpair]
  have hheld : ∀ {a b : Bytes}, r.pair = (a, b) → Route.Kuscia.has st.domainRoutes k a b = true :=
    fun h => Route.has_iff.2 ⟨d, hd, hpair.2 h⟩
  constructor
  · rintro ⟨h₁, h₂⟩ (⟨hp, hq⟩ | ⟨hp, hq⟩)
    · exact h₁ (hthere.2 ⟨hq, hheld hp⟩) hp
    · by_cases hgone : route.srcNodeId = route.dstNodeId ∧ x.removesThere st k route = true
      · exact h₁ hgone.2 (by rw [hp, hgone.1])
      · refine h₂ (hback.2 ⟨hq, ?_⟩) hp
        rw [RouteDeletion.heldBack, hheld hp, Bool.true_and]
        cases hrem : x.removesThere st k route with
        | false => simp
        | true => simpa using fun h => hgone ⟨h, hrem⟩
  · intro h
    exact ⟨fun hrem hp => h (.inl ⟨hp, (hthere.1 hrem).1⟩), fun hrem hp => h (.inr ⟨hp, (hback.1 hrem).1⟩)⟩

theorem deleteNodeRoute_some {f : Bytes → Nat} {channel : Bytes} (hk : s.kuscia = some f)
    (hf : s.deletable st.db routerId x = .ok (route, channel)) :
    (x.goesInKuscia st (f channel) route && x.rowsGo st route routerId) = true ∧
      (∃ db, s.DeleteNodeRoute st routerId x = (.ok (), { (P2PService.deleteInKuscia st (f channel) route x).2 with db := db }) ∧
        ∀ r, r ∈ db.routes.routes ↔ r ∈ st.db.routes.routes ∧ r.routeId ≠ routerId) ∨
    (x.goesInKuscia st (f channel) route && x.rowsGo st route routerId) = false ∧
      ∃ e, s.DeleteNodeRoute st routerId x = (.error e, (P2PService.deleteInKuscia st (f channel) route x).2) := by
  have hfst := (deleteInKuscia_spec st (f channel) route x).1
  simp only [P2PService.DeleteNodeRoute, hf, hk]
  cases hr : (P2PService.deleteInKuscia st (f channel) route x).1 with
  | error e =>
    have hno : x.goesInKuscia st (f channel) route = false := by
      rw [← Bool.not_eq_true, ← hfst, hr]
      exact fun h => nomatch h
    exact .inr ⟨by rw [hno]; rfl, e, rfl⟩
  | ok u =>
    rw [hfst.1 hr, Bool.true_and]
    rcases deleteRows_spec st route x routerId with ⟨hgo, db, hdb, hroutes⟩ | ⟨hno, hdb⟩
    · rw [hdb]
      exact .inl ⟨hgo, db, rfl, hroutes⟩
    · rw [hdb]
      exact .inr ⟨hno, _, rfl⟩

theorem inStep_iff {f : Bytes → Nat} {channel : Bytes} {db : Db} (hk : s.kuscia = some f)
    (hf : s.deletable st.db routerId x = .ok (route, channel)) (hgo : x.goesInKuscia st (f channel) route = true)
    (hcall : s.DeleteNodeRoute st routerId x = (.ok (), { (P2PService.deleteInKuscia st (f channel) route x).2 with db := db }))
    (hroutes : ∀ r, r ∈ db.routes.routes ↔ r ∈ st.db.routes.routes ∧ r.routeId ≠ routerId) :
    InStep s st routerId x ↔ (∀ r ∈ st.db.routesOf route.srcNodeId, r.routeId = routerId) ∧ x.Paired st (f channel) route routerId := by
  simp only [InStep, hcall]
  have hgo' := hgo
  have hgone := (deleteInKuscia_spec st (f channel) route x).2.2.2
  simp only [RouteDeletion.goesInKuscia, RouteDeletion.goesDomain, Bool.and_eq_true, decide_eq_true_eq] at hgo
  obtain ⟨⟨hthere, hback⟩, hdone, hhas⟩ := hgo
  have htakes : x.domain.takesEffect = true := by rw [hdone]; rfl
  simp only [hthere, hback, htakes, forall_const] at hgone
  have hin : ∀ r, r ∈ db.routesOf route.srcNodeId ↔ r ∈ st.db.routesOf route.srcNodeId ∧ r.routeId ≠ routerId := by
    intro r
    simp only [Db.routesOf, List.mem_filter, hroutes r]
    tauto
  refine and_congr ?_ ?_
  · constructor
    · intro h r hr
      have hthat : ∃ d ∈ st.domains, d.kuscia = f channel ∧ d.domainId = route.srcNodeId := by
        simpa [Kuscia.has] using hhas
      obtain ⟨d, hd, hkey⟩ := hthat
      have hnil := h d hd fun hin => ((hgone d).1 hin).2 hkey
      rw [hkey.2] at hnil
      by_contra hne
      have hmem := (hin r).2 ⟨hr, hne⟩
      rw [hnil] at hmem
      cases hmem
    · intro h d hd hout
      have hkey : d.kuscia = f channel ∧ d.domainId = route.srcNodeId := by
        by_contra hno
        exact hout ((hgone d).2 ⟨hd, hno⟩)
      rw [hkey.2, List.eq_nil_iff_forall_not_mem]
      intro r hmem
      obtain ⟨hr, hne⟩ := (hin r).1 hmem
      exact hne (h r hr)
  · constructor
    · intro h r hr d hd hkey
      have hboth := h f route channel hk hf r hr d hd hkey
      rw [deleted_iff hgo' hd hkey, hroutes r] at hboth
      tauto
    · intro h f' route' channel' hk' hf' r hr d hd hkey
      obtain rfl := Option.some.inj (hk.symm.trans hk')
      obtain ⟨rfl, rfl⟩ := Prod.mk.inj (Except.ok.inj (hf.symm.trans hf'))
      have hboth := h r hr d hd hkey
      rw [deleted_iff hgo' hd hkey, hroutes r]
      tauto

theorem deletion_iff : DeletionKept s st routerId x ↔ DeletionSafe s st routerId x := by
  have hquiet : ∀ e : Err, s.DeleteNodeRoute st routerId x = (.error e, st) → DeletionKept s st routerId x := by
    intro e h
    simp only [DeletionKept, h]
    exact ⟨fun _ _ _ => trivial, fun h => nomatch h⟩
  cases hf : s.deletable st.db routerId x with
  | error e =>
    have hcall : s.DeleteNodeRoute st routerId x = (.error e, st) := by simp only [P2PService.DeleteNodeRoute, hf]
    exact iff_of_true (hquiet e hcall) fun f route channel _ h => nomatch hf.symm.trans h
  | ok p =>
  obtain ⟨route, channel⟩ := p
  cases hk : s.kuscia with
  | none =>
    refine iff_of_true ?_ fun f route channel h => nomatch hk.symm.trans h
    cases hdb : P2PService.deleteRows st.db routerId route.srcNodeId x with
    | none => exact hquiet .database (by simp only [P2PService.DeleteNodeRoute, hf, hk, hdb])
    | some db =>
      have hcall : s.DeleteNodeRoute st routerId x = (.ok (), { st with db := db }) := by simp only [P2PService.DeleteNodeRoute, hf, hk, hdb]
      simp only [DeletionKept, InStep, hcall]
      exact ⟨(fun e h => nomatch h), fun _ => ⟨fun d hd hgone => absurd hd hgone, fun f _ _ h => nomatch hk.symm.trans h⟩⟩
  | some f =>
    have hsafe : DeletionSafe s st routerId x ↔ if x.goesInKuscia st (f channel) route && x.rowsGo st route routerId
        then (∀ r ∈ st.db.routesOf route.srcNodeId, r.routeId = routerId) ∧ x.Paired st (f channel) route routerId
        else x.Untouched st (f channel) route := by
      constructor
      · intro h
        exact h f route channel hk hf
      · intro h f' route' channel' hk' hf'
        obtain rfl := Option.some.inj (hk.symm.trans hk')
        obtain ⟨rfl, rfl⟩ := Prod.mk.inj (Except.ok.inj (hf.symm.trans hf'))
        exact h
    rw [hsafe]
    rcases deleteNodeRoute_some hk hf with ⟨hgo, db, hcall, hroutes⟩ | ⟨hno, e, hcall⟩
    · rw [if_pos hgo, ← inStep_iff hk hf (Bool.and_eq_true .. ▸ hgo).1 hcall hroutes]
      simp only [DeletionKept, hcall]
      exact ⟨fun h => h.2 trivial, fun h => ⟨(fun e h => nomatch h), fun _ => h⟩⟩
    · rw [if_neg (by rw [hno]; exact Bool.false_ne_true), ← untouched_iff]
      simp only [DeletionKept, hcall]
      exact ⟨fun h => h.1 e rfl, fun h => ⟨fun _ _ => h, (fun h => nomatch h)⟩⟩

end Node
