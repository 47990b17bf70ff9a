import Privahub.Node.RouteDeletion

/-!
# What a failed call leaves of a partner

`CreateNode` writes Kuscia inside its transaction and compensates a failed route creation as if there had been nothing before.
`partner_kept_iff` says exactly which calls to create a partner or to delete a route of it keep what they have to.
-/

namespace Node

open Route (Answer DomainRoute NodeRouteDO)

def CreationKept (s : P2PService) (st : State) (req : P2PCreateNodeRequest) (x : PartnerCreation) : Prop :=
  ∀ e, (s.CreateNode st req x).1 = .error e → ∀ n, (s.CreateNode st req x).2.view n = st.view n

namespace PartnerCreation

variable (x : PartnerCreation) (rs : Route.Service) (db : Db) (req : P2PCreateNodeRequest) (ds : List DomainRoute)

def reaches : Bool :=
  x.storeRoutes && decide (req.srcNodeId ≠ [] ∧ req.dstNodeId ≠ [] ∧ req.srcNodeId ≠ req.dstNodeId) &&
    (db.routes.findByPair req.srcNodeId req.dstNodeId).isNone

def reverseToo : Bool := Route.Service.createsReverse db.routes (P2PService.routeRequest req)

/-- Both directions are created in the Kuscia `k`. -/
def routesGo (k : Nat) : Bool :=
  (!reverseToo db req || rs.back (P2PService.reads db x) (P2PService.routeRequest req) k ds x.reverse) &&
    rs.there (P2PService.reads db x) (P2PService.routeRequest req) k ds x.forward

def inKuscia : Except Route.Err Unit × List DomainRoute :=
  rs.createInKuscia (P2PService.reads db x) (P2PService.routeRequest req) (reverseToo db req) x.reverse x.forward x.rollbackRoute ds

def routeKuscia : Option Nat :=
  if rs.kusciaClient.isNone then none else rs.kc (if rs.autonomy then req.srcNodeId else [])

def created : Bool := x.reaches db req && (routeKuscia rs req).all (x.routesGo rs db req ds) && x.commitsRoutes

def Traceless : Prop :=
  x.reaches db req → ∀ k ∈ routeKuscia rs req,
    rs.Quiet (P2PService.reads db x) (P2PService.routeRequest req) (reverseToo db req) x.reverse x.forward x.rollbackRoute k ds

end PartnerCreation

/-- The condition on a creation: a domain that Kuscia creates is answered for and committed; and when then the creation of the routes fails, it
leaves no trace in Kuscia, there was no row of the node before, and the compensation deletes what is new and nothing else. -/
def CreationSafe (s : P2PService) (st : State) (req : P2PCreateNodeRequest) (x : PartnerCreation) : Prop :=
  ∀ db, s.prepare st.db req x = .ok db →
    (∀ f, s.kuscia = some f → Kuscia.has st.domains (f req.srcNodeId) req.dstNodeId = false → x.domain.takesEffect → x.domain = .done ∧ x.commits) ∧
    ((∀ f, s.kuscia = some f → Kuscia.has st.domains (f req.srcNodeId) req.dstNodeId = false ∧ x.domain = .done) → x.commits →
      ∀ rs, s.routes = some rs → x.created rs db req st.domainRoutes = false →
        st.db.findUnscoped req.dstNodeId = none ∧ x.rollbackNode ∧ x.rollbackPermission = !st.db.hasPermission req.dstNodeId RoleP2PNode ∧
          (s.kuscia.isSome → x.rollbackDomain.takesEffect) ∧ x.Traceless rs db req st.domainRoutes)

section

variable {s : P2PService} {st : State} {k : Nat} {rs : Route.Service} {req : P2PCreateNodeRequest} {x : PartnerCreation}

theorem routeKuscia_none (h : PartnerCreation.routeKuscia rs req = none) : rs.kusciaClient.isNone = true := by
  by_contra hsome
  obtain ⟨k, hk⟩ := Route.exists_kc (by simpa [Option.isSome_iff_ne_none] using hsome) (if rs.autonomy then req.srcNodeId else [])
  rw [PartnerCreation.routeKuscia, if_neg hsome, hk] at h
  cases h

theorem routeKuscia_some (h : PartnerCreation.routeKuscia rs req = some k) :
    rs.kusciaClient.isNone = false ∧ rs.kc (if rs.autonomy then req.srcNodeId else []) = some k := by
  unfold PartnerCreation.routeKuscia at h
  by_cases hnone : rs.kusciaClient.isNone = true
  · rw [if_pos hnone] at h
    cases h
  · rw [if_neg hnone] at h
    exact ⟨Bool.eq_false_iff.2 hnone, h⟩

theorem inKuscia_spec (st : State) (x : PartnerCreation) (hk : rs.kc (if rs.autonomy then req.srcNodeId else []) = some k) (hne : req.srcNodeId ≠ req.dstNodeId) :
    ((x.inKuscia rs st.db req st.domainRoutes).1 = .ok () ↔ x.routesGo rs st.db req st.domainRoutes k = true) ∧
    ((∀ d, d ∈ (x.inKuscia rs st.db req st.domainRoutes).2 ↔ d ∈ st.domainRoutes) ↔
      rs.Quiet (P2PService.reads st.db x) (P2PService.routeRequest req) (PartnerCreation.reverseToo st.db req) x.reverse x.forward
        x.rollbackRoute k st.domainRoutes) := by
  have hne' : (P2PService.routeRequest req).srcNodeId ≠ (P2PService.routeRequest req).dstNodeId := hne
  refine ⟨?_, Route.quiet_iff hk hne'⟩
  rw [PartnerCreation.inKuscia, (Route.createInKuscia_spec hk hne').1, PartnerCreation.routesGo, Bool.and_eq_true, Bool.or_eq_true,
    Bool.not_eq_true']
  cases PartnerCreation.reverseToo st.db req <;> simp

theorem createRoute_early (rs : Route.Service) (h : x.reaches st.db req = false) : ∃ e, P2PService.createRoute rs st req x = (.error e, st) := by
  cases hstore : x.storeRoutes with
  | false => exact ⟨.database, by simp [P2PService.createRoute, hstore]⟩
  | true =>
    have hreq : ¬ ((req.srcNodeId ≠ [] ∧ req.dstNodeId ≠ [] ∧ req.srcNodeId ≠ req.dstNodeId) ∧
        st.db.routes.findByPair req.srcNodeId req.dstNodeId = none) := by
      rintro ⟨hids, hnew⟩
      simp only [PartnerCreation.reaches, hstore, hnew, decide_eq_true hids] at h
      cases h
    obtain ⟨e, he⟩ := @Route.createRoute_refused rs ⟨st.db.routes, st.domainRoutes⟩ (P2PService.reads st.db x) (P2PService.routeRequest req)
      x.reverse x.forward x.rollbackRoute hreq
    refine ⟨⟨e.code, e.key, e.msg⟩, ?_⟩
    simp only [P2PService.createRoute, hstore, he]
    rfl

theorem createRoute_reached (rs : Route.Service) (h : x.reaches st.db req = true) : ∃ db, P2PService.createRoute rs st req x =
    match (if (PartnerCreation.routeKuscia rs req).isNone then (.ok (), st.domainRoutes) else x.inKuscia rs st.db req st.domainRoutes :
      Except Route.Err Unit × List DomainRoute) with
    | (.error e, ds) => (.error ⟨e.code, e.key, e.msg⟩, { st with domainRoutes := ds })
    | (.ok (), ds) =>
      if x.commitsRoutes then (.ok (), { st with db := { st.db with routes := db }, domainRoutes := ds })
      else (.error .database, { st with domainRoutes := ds }) := by
  simp only [PartnerCreation.reaches, Bool.and_eq_true, decide_eq_true_eq, Option.isNone_iff_eq_none] at h
  obtain ⟨⟨hstore, hids⟩, hnew⟩ := h
  obtain ⟨db, hcall⟩ := @Route.createRoute_stored rs ⟨st.db.routes, st.domainRoutes⟩ (P2PService.reads st.db x) (P2PService.routeRequest req)
    x.reverse x.forward x.rollbackRoute hids hnew
  refine ⟨db, ?_⟩
  simp only [P2PService.createRoute, hstore, hcall]
  cases hk : PartnerCreation.routeKuscia rs req with
  | none => simp [routeKuscia_none hk]
  | some k =>
    have hcr : rs.createInKuscia (P2PService.reads st.db x) (P2PService.routeRequest req)
        (Route.Service.createsReverse st.db.routes (P2PService.routeRequest req)) x.reverse x.forward x.rollbackRoute st.domainRoutes =
        x.inKuscia rs st.db req st.domainRoutes := rfl
    simp only [(routeKuscia_some hk).1, hcr]
    obtain ⟨o, ds⟩ := x.inKuscia rs st.db req st.domainRoutes
    cases o <;> simp [Route.Service.transaction]

theorem createRoute_spec (rs : Route.Service) (st : State) (req : P2PCreateNodeRequest) (x : PartnerCreation) :
    (x.created rs st.db req st.domainRoutes = true ∧ ∃ st', P2PService.createRoute rs st req x = (.ok (), st')) ∨
    (x.created rs st.db req st.domainRoutes = false ∧ ∃ e ds, P2PService.createRoute rs st req x = (.error e, { st with domainRoutes := ds }) ∧
      ((∀ d, d ∈ ds ↔ d ∈ st.domainRoutes) ↔ x.Traceless rs st.db req st.domainRoutes)) := by
  simp only [PartnerCreation.created, PartnerCreation.Traceless]
  cases hreach : x.reaches st.db req with
  | false =>
    obtain ⟨e, hcall⟩ := createRoute_early rs hreach
    exact .inr ⟨rfl, e, st.domainRoutes, hcall, iff_of_true (fun _ => Iff.rfl) fun h => nomatch h⟩
  | true =>
  obtain ⟨db, hcall⟩ := createRoute_reached rs hreach
  rw [hcall]
  cases hk : PartnerCreation.routeKuscia rs req with
  | none =>
    cases hcom : x.commitsRoutes with
    | true => exact .inl ⟨rfl, _, rfl⟩
    | false => exact .inr ⟨rfl, _, st.domainRoutes, rfl, iff_of_true (fun _ => Iff.rfl) fun _ k h => nomatch h⟩
  | some k =>
    have hne : req.srcNodeId ≠ req.dstNodeId := by
      simp only [PartnerCreation.reaches, Bool.and_eq_true, decide_eq_true_eq] at hreach
      exact hreach.1.2.2.2
    have hspec := inKuscia_spec st x (routeKuscia_some hk).2 hne
    simp only [Option.isNone_some, Bool.false_eq_true, if_false, Option.all_some, Bool.true_and, forall_const, Option.mem_def,
      Option.some.injEq, forall_eq']
    rw [← hspec.2]
    obtain ⟨hgo, -⟩ := hspec
    revert hgo
    obtain ⟨o, ds⟩ := x.inKuscia rs st.db req st.domainRoutes
    intro hgo
    cases o with
    | error e =>
      have hno : x.routesGo rs st.db req st.domainRoutes k = false := by
        rw [← Bool.not_eq_true, ← hgo]
        exact fun h => nomatch h
      exact .inr ⟨by rw [hno]; rfl, _, ds, rfl, Iff.rfl⟩
    | ok u =>
      rw [hgo.1 rfl]
      cases hcom : x.commitsRoutes with
      | true => exact .inl ⟨rfl, _, rfl⟩
      | false => exact .inr ⟨rfl, _, ds, rfl, Iff.rfl⟩

theorem of_statement {α : Type} {goes : Bool} {e : Err} {r : Option α} {v : α} (h : statement goes e r = .ok v) : r = some v := by
  cases goes with
  | false => cases h
  | true =>
    cases r with
    | none => cases h
    | some w => exact congrArg some (Except.ok.inj h)

theorem of_findUnscoped {db : Db} {n : Bytes} {node : NodeDO} (h : db.findUnscoped n = some node) : node ∈ db.nodes ∧ node.nodeId = n :=
  ⟨List.mem_of_find?_eq_some h, by simpa using List.find?_some h⟩

theorem findUnscoped_none_iff {db : Db} {n : Bytes} : db.findUnscoped n = none ↔ ∀ r ∈ db.nodes, r.nodeId ≠ n := by
  simp [Db.findUnscoped]

def StoredNode (old new : List NodeDO) (n : Bytes) : Prop :=
  (∃ row : NodeDO, row.nodeId = n ∧ (∀ r ∈ old, r.nodeId ≠ n) ∧ new = old ++ [row]) ∨ ∃ node ∈ old, node.nodeId = n ∧ node ∉ new

theorem not_mem_restoreNode {db : Db} {node : NodeDO} {f : NodeDO → NodeDO} (h : (node.deletedAt || node.isDeleted) = true) :
    node ∉ (db.restoreNode node.id f).nodes := by
  intro hmem
  obtain ⟨r, -, hr⟩ := Table.mem_updateWhere.1 hmem
  split_ifs at hr with hid
  · rw [← hr] at h
    cases h
  · rw [hr] at hid
    exact hid (decide_eq_true rfl)

theorem storeNode_spec {db db' : Db} (h : s.storeNode db req x = .ok db') : StoredNode db.nodes db'.nodes req.dstNodeId ∧
    db' = { db with nodes := db'.nodes, nextNode := db'.nextNode } := by
  unfold P2PService.storeNode at h
  split at h
  next node hfind =>
    split_ifs at h with hdel
    obtain rfl := Option.some.inj (of_statement h)
    cases hf : x.findNode with
    | false =>
      rw [hf] at hfind
      cases hfind
    | true =>
      rw [hf] at hfind
      obtain ⟨hmem, hid⟩ := of_findUnscoped hfind
      exact ⟨.inr ⟨node, hmem, hid, not_mem_restoreNode hdel⟩, rfl⟩
  next =>
    have hins := of_statement h
    unfold Db.insertNode at hins
    split_ifs at hins with hany
    obtain rfl := Option.some.inj hins
    exact ⟨.inl ⟨_, rfl, by simpa using hany, rfl⟩, rfl⟩

theorem storePermission_spec {db db' : Db} {goes : Bool} (h : P2PService.storePermission db req.dstNodeId goes = .ok db') :
    db' = { db with permissions := if db.hasPermission req.dstNodeId RoleP2PNode then db.permissions
      else db.permissions ++ [⟨PermissionUserTypeNode, req.dstNodeId, str "ROLE", RoleP2PNode⟩] } := by
  have hins := of_statement h
  unfold Db.insertPermission at hins
  split_ifs at hins with hhas
  · rw [if_pos hhas, ← Option.some.inj hins]
  · rw [if_neg hhas, ← Option.some.inj hins]

theorem storeInst_spec {db db' : Db} (h : P2PService.storeInst db req x = .ok db') : db' = { db with insts := db'.insts } := by
  unfold P2PService.storeInst at h
  split at h
  · rw [← Except.ok.inj h]
  · split at h
    next =>
      have hins := of_statement h
      unfold Db.insertInst at hins
      split_ifs at hins
      rw [← Option.some.inj hins]
    next =>
      rw [← Except.ok.inj h]
      split <;> rfl

theorem prepare_spec {db db' : Db} (h : s.prepare db req x = .ok db') : StoredNode db.nodes db'.nodes req.dstNodeId ∧
    db'.permissions = (if db.hasPermission req.dstNodeId RoleP2PNode then db.permissions
      else db.permissions ++ [⟨PermissionUserTypeNode, req.dstNodeId, str "ROLE", RoleP2PNode⟩]) ∧
    db'.accounts = db.accounts ∧ db'.routes = db.routes := by
  obtain ⟨u, -, h⟩ := Except.ok_of_bind h
  obtain ⟨db₁, hnode, h⟩ := Except.ok_of_bind h
  obtain ⟨db₂, hpermission, h⟩ := Except.ok_of_bind h
  obtain ⟨hnodes, h₁⟩ := storeNode_spec hnode
  have h₂ := storePermission_spec hpermission
  have h₃ := storeInst_spec h
  rw [h₃, h₂]
  refine ⟨hnodes, ?_, ?_, ?_⟩ <;> rw [h₁]
  rfl

theorem rollback_nodes {old new : List NodeDO} {n : Bytes} {goes : Bool} (h : StoredNode old new n) :
    (∀ m, (if goes then new.filter fun r => !decide (r.nodeId = n) else new).filter (fun r => decide (r.nodeId = m)) =
      old.filter fun r => decide (r.nodeId = m)) ↔ (∀ r ∈ old, r.nodeId ≠ n) ∧ goes = true := by
  rcases h with ⟨row, hrow, hnew, rfl⟩ | ⟨node, hmem, hid, hgone⟩
  · cases goes with
    | true =>
      have hold : (old ++ [row]).filter (fun r => !decide (r.nodeId = n)) = old := by
        rw [List.filter_append, List.filter_eq_self.2 fun r hr => by simpa using hnew r hr]
        simp [hrow]
      exact iff_of_true (fun m => by rw [if_pos rfl, hold]) ⟨hnew, rfl⟩
    | false =>
      refine iff_of_false (fun h => ?_) fun h => nomatch h.2
      have hlen := congrArg List.length (h n)
      simp [List.filter_append, hrow] at hlen
  · refine iff_of_false (fun h => ?_) fun h => h.1 node hmem hid
    have hin : node ∈ old.filter fun r => decide (r.nodeId = n) := List.mem_filter.2 ⟨hmem, decide_eq_true hid⟩
    rw [← h n] at hin
    have hnew := (List.mem_filter.1 hin).1
    split_ifs at hnew
    · exact hgone (List.mem_filter.1 hnew).1
    · exact hgone hnew

theorem rollback_permissions {db : Db} {n : Bytes} {row : SysUserPermissionRelDO} {goes : Bool} (hrow : row.userKey = n ∧ row.targetCode = RoleP2PNode)
    {new : List SysUserPermissionRelDO} (hnew : new = if db.hasPermission n RoleP2PNode then db.permissions else db.permissions ++ [row]) :
    (∀ m, (if goes then new.filter fun p => !decide (p.userKey = n ∧ p.targetCode = RoleP2PNode) else new).filter
        (fun r => decide (r.userKey = m)) = db.permissions.filter fun r => decide (r.userKey = m)) ↔
      goes = !db.hasPermission n RoleP2PNode := by
  cases hhas : db.hasPermission n RoleP2PNode with
  | true =>
    rw [hhas, if_pos rfl] at hnew
    rw [hnew]
    cases goes with
    | false => exact iff_of_true (fun m => rfl) rfl
    | true =>
      -- the permission was there before
      refine iff_of_false (fun h => ?_) Bool.false_ne_true.symm
      obtain ⟨p, hp, hkey⟩ := List.any_eq_true.1 hhas
      have hkey' := of_decide_eq_true hkey
      have hin : p ∈ db.permissions.filter fun r => decide (r.userKey = n) := List.mem_filter.2 ⟨hp, decide_eq_true hkey'.1⟩
      rw [← h n, if_pos rfl] at hin
      have hkept := (List.mem_filter.1 (List.mem_filter.1 hin).1).2
      simp [hkey'] at hkept
  | false =>
    rw [hhas, if_neg Bool.false_ne_true] at hnew
    rw [hnew]
    cases goes with
    | true =>
      have hnone : ∀ p ∈ db.permissions, ¬ (p.userKey = n ∧ p.targetCode = RoleP2PNode) := by
        simpa [Db.hasPermission] using hhas
      have hold : (db.permissions ++ [row]).filter (fun p => !decide (p.userKey = n ∧ p.targetCode = RoleP2PNode)) = db.permissions := by
        rw [List.filter_append, List.filter_eq_self.2 fun p hp => by rw [decide_eq_false (hnone p hp)]; rfl]
        simp [hrow]
      exact iff_of_true (fun m => by rw [if_pos rfl, hold]) rfl
    | false =>
      refine iff_of_false (fun h => ?_) Bool.false_ne_true
      have hlen := congrArg List.length (h n)
      simp [List.filter_append, hrow] at hlen

theorem rollback_domain {ds : List Domain} {d : Domain} {b : Answer} (hhas : Kuscia.has ds d.kuscia d.domainId = false) :
    (∀ d', d' ∈ (Kuscia.DeleteDomain (Kuscia.CreateDomain ds d .done).2 d.kuscia d.domainId b).2 ↔ d' ∈ ds) ↔ b.takesEffect = true := by
  simp only [mem_deleteDomain, mem_createDomain]
  constructor
  · intro h
    by_contra hno
    exact has_false_iff.1 hhas d ((h d).1 ⟨.inr ⟨hhas, rfl, rfl⟩, fun ht => absurd ht hno⟩) ⟨rfl, rfl⟩
  · intro hb d'
    constructor
    · rintro ⟨hin | ⟨-, -, rfl⟩, hkept⟩
      · exact hin
      · exact absurd ⟨rfl, rfl⟩ (hkept hb)
    · intro hin
      exact ⟨.inl hin, fun _ => has_false_iff.1 hhas d' hin⟩

def createdDomain (s : P2PService) (st : State) (req : P2PCreateNodeRequest) (x : PartnerCreation) : Bool × List Domain :=
  match s.kuscia with
  | none => (true, st.domains)
  | some f => Kuscia.CreateDomain st.domains (P2PService.partnerDomain f req) x.domain

theorem rollbackNode_db (s : P2PService) (st : State) (channel nodeId : Bytes) (x : PartnerCreation) :
    (s.rollbackNode st channel nodeId x).db.nodes =
      (if x.rollbackNode then st.db.nodes.filter fun r => !decide (r.nodeId = nodeId) else st.db.nodes) ∧
    (s.rollbackNode st channel nodeId x).db.permissions = (if x.rollbackPermission
      then st.db.permissions.filter fun p => !decide (p.userKey = nodeId ∧ p.targetCode = RoleP2PNode) else st.db.permissions) ∧
    (s.rollbackNode st channel nodeId x).db.accounts = st.db.accounts ∧
    (s.rollbackNode st channel nodeId x).db.routes = st.db.routes ∧
    (s.rollbackNode st channel nodeId x).domainRoutes = st.domainRoutes := by
  unfold P2PService.rollbackNode
  cases x.rollbackNode <;> cases x.rollbackPermission <;> exact ⟨rfl, rfl, rfl, rfl, rfl⟩

theorem rollbackNode_iff (st₁ : State) (hp : s.prepare st.db req x = .ok st₁.db) (hds : st₁.domains = (createdDomain s st req x).2)
    (hd : ∀ f, s.kuscia = some f → Kuscia.has st.domains (f req.srcNodeId) req.dstNodeId = false ∧ x.domain = .done) :
    (∀ n, (s.rollbackNode st₁ req.srcNodeId req.dstNodeId x).view n = st.view n) ↔
      st.db.findUnscoped req.dstNodeId = none ∧ x.rollbackNode ∧ x.rollbackPermission = !st.db.hasPermission req.dstNodeId RoleP2PNode ∧
        (s.kuscia.isSome → x.rollbackDomain.takesEffect) ∧ ∀ d, d ∈ st₁.domainRoutes ↔ d ∈ st.domainRoutes := by
  obtain ⟨hnodes, hpermissions, haccounts, hroutes⟩ := prepare_spec hp
  obtain ⟨hn, hper, hacc, hrou, hdr⟩ := rollbackNode_db s st₁ req.srcNodeId req.dstNodeId x
  have hdomains : (∀ d, d ∈ (s.rollbackNode st₁ req.srcNodeId req.dstNodeId x).domains ↔ d ∈ st.domains) ↔
      (s.kuscia.isSome → x.rollbackDomain.takesEffect) := by
    simp only [P2PService.rollbackNode, hds, createdDomain]
    cases hk : s.kuscia with
    | none => exact iff_of_true (fun _ => Iff.rfl) fun h => by cases h
    | some f =>
      obtain ⟨hhas, hdone⟩ := hd f hk
      rw [hdone]
      exact (rollback_domain (d := P2PService.partnerDomain f req) hhas).trans ⟨fun h _ => h, fun h => h rfl⟩
  rw [view_eq_iff, hn, hper, hacc, hdr, haccounts, rollback_nodes hnodes, rollback_permissions (n := req.dstNodeId) ⟨rfl, rfl⟩ hpermissions, hdomains,
    findUnscoped_none_iff]
  have hsame : ∀ n, (s.rollbackNode st₁ req.srcNodeId req.dstNodeId x).db.routesOf n = st.db.routesOf n := fun n => by
    rw [Db.routesOf, hrou, hroutes, Db.routesOf]
  tauto

theorem createdDomain_fst : (createdDomain s st req x).1 = true ↔
    ∀ f, s.kuscia = some f → Kuscia.has st.domains (f req.srcNodeId) req.dstNodeId = false ∧ x.domain = .done := by
  unfold createdDomain
  cases s.kuscia with
  | none => exact iff_of_true rfl fun f h => nomatch h
  | some f =>
    rw [createDomain_fst]
    exact ⟨fun h f' hf => Option.some.inj hf ▸ h, fun h => h f rfl⟩

theorem createdDomain_same : (∀ n, ({ st with domains := (createdDomain s st req x).2 } : State).view n = st.view n) ↔
    ∀ f, s.kuscia = some f → Kuscia.has st.domains (f req.srcNodeId) req.dstNodeId = false → x.domain.takesEffect = false := by
  unfold createdDomain
  cases s.kuscia with
  | none => exact iff_of_true (fun n => rfl) fun f h => nomatch h
  | some f =>
    have hsame := @view_createDomain st x.domain (P2PService.partnerDomain f req)
    exact hsame.trans ⟨fun h f' hf => Option.some.inj hf ▸ h, fun h => h f rfl⟩

theorem createNode_prepared {db : Db} (hp : s.prepare st.db req x = .ok db) :
    ¬ ((createdDomain s st req x).1 = true ∧ x.commits = true) ∧
        (∃ e, s.CreateNode st req x = (.error e, { st with domains := (createdDomain s st req x).2 })) ∨
      ((createdDomain s st req x).1 = true ∧ x.commits = true) ∧ s.CreateNode st req x =
        match s.routes with
        | none => (.ok req.dstNodeId, { st with db := db, domains := (createdDomain s st req x).2 })
        | some rs =>
          let c := P2PService.createRoute rs { st with db := db, domains := (createdDomain s st req x).2 } req x
          match c.1 with
          | .ok () => (.ok req.dstNodeId, c.2)
          | .error e => (.error e, s.rollbackNode c.2 req.srcNodeId req.dstNodeId x) := by
  have hcall : s.CreateNode st req x =
      if !(createdDomain s st req x).1 then (.error (.NodeCreateError (req.dstNodeId ++ str " node create fail in kuscia :")),
        { st with domains := (createdDomain s st req x).2 })
      else if !x.commits then (.error .database, { st with domains := (createdDomain s st req x).2 })
      else match s.routes with
        | none => (.ok req.dstNodeId, { st with db := db, domains := (createdDomain s st req x).2 })
        | some rs =>
          let c := P2PService.createRoute rs { st with db := db, domains := (createdDomain s st req x).2 } req x
          match c.1 with
          | .ok () => (.ok req.dstNodeId, c.2)
          | .error e => (.error e, s.rollbackNode c.2 req.srcNodeId req.dstNodeId x) := by
    rw [P2PService.CreateNode, hp]
    rfl
  rw [hcall]
  cases (createdDomain s st req x).1 with
  | false => exact .inl ⟨fun h => Bool.false_ne_true h.1, _, rfl⟩
  | true =>
    cases x.commits with
    | false => exact .inl ⟨fun h => Bool.false_ne_true h.2, _, rfl⟩
    | true => exact .inr ⟨⟨rfl, rfl⟩, rfl⟩

theorem creationSafe_prepared {db : Db} (hp : s.prepare st.db req x = .ok db) : CreationSafe s st req x ↔
    (∀ f, s.kuscia = some f → Kuscia.has st.domains (f req.srcNodeId) req.dstNodeId = false → x.domain.takesEffect → x.domain = .done ∧ x.commits) ∧
    ((createdDomain s st req x).1 = true → x.commits → ∀ rs, s.routes = some rs → x.created rs db req st.domainRoutes = false →
      st.db.findUnscoped req.dstNodeId = none ∧ x.rollbackNode ∧ x.rollbackPermission = !st.db.hasPermission req.dstNodeId RoleP2PNode ∧
        (s.kuscia.isSome → x.rollbackDomain.takesEffect) ∧ x.Traceless rs db req st.domainRoutes) := by
  rw [createdDomain_fst]
  constructor
  · intro h
    exact h db hp
  · intro h db' hp'
    obtain rfl := Except.ok.inj (hp.symm.trans hp')
    exact h

theorem creation_iff : CreationKept s st req x ↔ CreationSafe s st req x := by
  unfold CreationKept
  cases hp : s.prepare st.db req x with
  | error e =>
    have hcall : s.CreateNode st req x = (.error e, st) := by simp only [P2PService.CreateNode, hp]
    rw [hcall]
    exact iff_of_true (fun _ _ _ => rfl) fun db h => nomatch hp.symm.trans h
  | ok db =>
  rw [creationSafe_prepared hp]
  rcases createNode_prepared hp with ⟨hnot, e, hcall⟩ | ⟨⟨hfst, hcom⟩, hcall⟩
  · rw [hcall]
    have hkept : (∀ e', (Except.error e : Except Err Bytes) = .error e' →
        ∀ n, ({ st with domains := (createdDomain s st req x).2 } : State).view n = st.view n) ↔
        ∀ f, s.kuscia = some f → Kuscia.has st.domains (f req.srcNodeId) req.dstNodeId = false → x.domain.takesEffect = false := by
      rw [← createdDomain_same]
      exact ⟨fun h => h e rfl, fun h _ _ => h⟩
    rw [hkept]
    constructor
    · intro h
      refine ⟨fun f hf hhas ht => ?_, fun h₁ h₂ => absurd ⟨h₁, h₂⟩ hnot⟩
      rw [h f hf hhas] at ht
      cases ht
    · intro h f hf hhas
      rw [← Bool.not_eq_true]
      intro ht
      obtain ⟨hdone, hcom⟩ := h.1 f hf hhas ht
      refine hnot ⟨createdDomain_fst.2 fun f' hf' => ?_, hcom⟩
      obtain rfl := Option.some.inj (hf.symm.trans hf')
      exact ⟨hhas, hdone⟩
  · have hdone := createdDomain_fst.1 hfst
    have hfirst : ∀ f, s.kuscia = some f → Kuscia.has st.domains (f req.srcNodeId) req.dstNodeId = false → x.domain.takesEffect →
        x.domain = .done ∧ x.commits := fun f hf _ _ => ⟨(hdone f hf).2, hcom⟩
    rw [hcall]
    cases hrs : s.routes with
    | none => exact iff_of_true (fun e h => nomatch h) ⟨hfirst, fun _ _ rs h => nomatch h⟩
    | some rs =>
    rcases createRoute_spec rs { st with db := db, domains := (createdDomain s st req x).2 } req x with
      ⟨hcr, st', hroute⟩ | ⟨hcr, e, ds, hroute, htrace⟩
    · simp only [hroute]
      refine iff_of_true (fun e h => nomatch h) ⟨hfirst, fun _ _ rs' h hno => ?_⟩
      obtain rfl := Option.some.inj h
      exact absurd (hcr.symm.trans hno) Bool.false_ne_true.symm
    · simp only [hroute]
      have hrollback := rollbackNode_iff ⟨db, (createdDomain s st req x).2, ds⟩ hp rfl hdone
      rw [htrace] at hrollback
      constructor
      · intro h
        refine ⟨hfirst, fun _ _ rs' hrs' _ => ?_⟩
        obtain rfl := Option.some.inj hrs'
        exact hrollback.1 (h e rfl)
      · intro h _ _
        exact hrollback.2 (h.2 hfst hcom rs rfl hcr)

end

def PartnerKept (s : P2PService) (st : State) : P2POp → Prop
  | .create req x => CreationKept s st req x
  | .deleteRoute routerId x => DeletionKept s st routerId x

def PartnerSafe (s : P2PService) (st : State) : P2POp → Prop
  | .create req x => CreationSafe s st req x
  | .deleteRoute routerId x => DeletionSafe s st routerId x

/-- From any state and wherever it fails, a call keeps the partner exactly if it meets its condition. -/
theorem partner_kept_iff (s : P2PService) (st : State) (op : P2POp) : PartnerKept s st op ↔ PartnerSafe s st op := by
  cases op with
  | create req x => exact creation_iff
  | deleteRoute routerId x => exact deletion_iff

def desk : P2PService := ⟨str "alice", some fun _ => 0, some Route.center, fun _ => none⟩

def partners : State where
  db :=
    { nodes := [⟨1, str "bob", str "Bob", str "bob", str "http://10.0.0.2:1080", nodeTypeNormal, 0, str "alice", str "inst-b", false, false⟩,
        ⟨2, str "carol", str "Carol", str "carol", str "http://10.0.0.3:1080", nodeTypeNormal, 0, str "alice", str "inst-c", true, true⟩]
      permissions := [⟨PermissionUserTypeNode, str "bob", str "ROLE", RoleP2PNode⟩]
      accounts := []
      userNodes := []
      insts := []
      routes := ⟨[⟨1, str "alice__bob", str "alice", str "bob", str "http://10.0.0.1:1080", str "http://10.0.0.2:1080"⟩,
        ⟨2, str "bob__alice", str "bob", str "alice", str "http://10.0.0.2:1080", str "http://10.0.0.1:1080"⟩], 3, by decide, by decide, by decide⟩
      nextNode := 3 }
  domains := [⟨0, str "bob", str "partner", str "cert", str "RSA-GEN"⟩]
  domainRoutes := [⟨0, str "alice", str "bob", ⟨str "10.0.0.2", 1080, false⟩⟩, ⟨0, str "bob", str "alice", ⟨str "10.0.0.1", 1080, false⟩⟩]

def deletes : RouteDeletion :=
  ⟨true, [], .ok (), [], true, ⟨.done, .done⟩, ⟨.done, .done⟩, .done, true, true, true, true, true⟩

def carolAgain : P2PCreateNodeRequest :=
  ⟨str "Carol", none, [], str "cert", str "carol", str "http://10.0.0.1:1080", str "alice", str "http://10.0.0.3:1080", str "inst-c", []⟩

def unrouted : PartnerCreation :=
  ⟨[], [], true, true, true, true, true, true, .done, true, true, false, ⟨.done, .done, .done⟩, ⟨.done, .done, .done⟩, .done, true, true, true, .done⟩

theorem partner_lost : ¬ PartnerKept desk partners (.deleteRoute (str "bob__alice") deletes) ∧
    ¬ PartnerKept desk partners (.create carolAgain unrouted) := by
  constructor
  · -- the domain is gone, the route to it is not
    intro h
    have hnil := (h.2 rfl).1 ⟨0, str "bob", str "partner", str "cert", str "RSA-GEN"⟩ List.mem_cons_self (fun hin => nomatch hin)
    cases hnil
  · -- the row that was found deleted is gone
    intro h
    have hview := congrArg (fun v => v.nodes.length) (h .database rfl (str "carol"))
    cases hview

end Node
