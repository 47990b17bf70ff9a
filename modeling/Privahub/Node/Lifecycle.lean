import Privahub.Node.Service
import Privahub.Route.Trace

/-!
# What a failed call leaves

`CreateNode` and `DeleteNode` one after the other, with a failure wherever the database is written or committed or Kuscia is called. The
domain and the routes are written in Kuscia before the transaction is committed, a deletion of a node whose domain Kuscia does not have
checks nothing, and the check for votes reads the institutions. `kept_iff` says exactly which calls leave a node as it was when they fail
and delete only a node that is not in use.
-/

namespace Node

open Route (Answer DomainRoute NodeRouteDO)

structure View where
  nodes : List NodeDO
  permissions : List SysUserPermissionRelDO
  accounts : List UserAccountsDO
  routes : List NodeRouteDO
  domainRoutes : DomainRoute → Prop
  domains : Domain → Prop

def State.view (st : State) (n : Bytes) : View where
  nodes := st.db.nodes.filter fun r => decide (r.nodeId = n)
  permissions := st.db.permissions.filter fun r => decide (r.userKey = n)
  accounts := st.db.accounts.filter fun r => decide (r.ownerId = n)
  routes := st.db.routesOf n
  domainRoutes d := d ∈ st.domainRoutes ∧ (d.source = n ∨ d.destination = n)
  domains d := d ∈ st.domains ∧ d.domainId = n

namespace Projects

def Member (p : Projects) (n : Bytes) : Prop := ∃ m ∈ p.members, m.2 = n

/-- A vote on the creation of a project under review names the node. -/
def Named (p : Projects) (n : Bytes) : Prop := ∃ c ∈ p.reviewing, n ∈ c.nodes

end Projects

/-- The call fails without a trace, and deletes no node that is in use. -/
def Kept (s : NodeService) (st : State) : Op → Prop
  | .create req x => ∀ e, (s.CreateNode st req x).1 = .error e → ∀ n, (s.CreateNode st req x).2.view n = st.view n
  | .delete nodeId x => (∀ e, (s.DeleteNode st nodeId x).1 = .error e → ∀ n, (s.DeleteNode st nodeId x).2.view n = st.view n) ∧
    ((s.DeleteNode st nodeId x).1 = .ok () → ¬ x.projects.Member nodeId ∧ (s.autonomy → ¬ x.projects.Named nodeId))

def Untouched (st : State) (k : Nat) (nodeId : Bytes) (x : Deletion) : Prop :=
  (∀ r ∈ if x.findRoutes then st.db.routesOf nodeId else [], (x.route r).takesEffect →
    Route.Kuscia.has st.domainRoutes k r.srcNodeId r.dstNodeId = false) ∧
  (x.domain.takesEffect → Kuscia.has st.domains k nodeId = false)

/-- The condition on a call. A domain that Kuscia creates is answered for and committed. Unless Kuscia says that it has no such domain, either the
deletion goes through and a node that a vote names is found in the vote's parties, or Kuscia carries out none of it; and if it says so, a deletion
that goes through is of a node that is not in use. -/
def Safe (s : NodeService) (st : State) : Op → Prop
  | .create req x => ∀ k id db, s.kusciaClient = some k → s.prepare st.db req x = .ok (id, db) → Kuscia.has st.domains k id = false →
    x.domain.takesEffect → x.domain = .done ∧ x.commits
  | .delete nodeId x => ∀ node, NodeService.findDeletable st.db nodeId x = .ok node → x.deleteRows →
    (s.domainThere st nodeId x.domainExists = .ok false → x.commits → ¬ x.projects.Member nodeId ∧ (s.autonomy → ¬ x.projects.Named nodeId)) ∧
    (s.domainThere st nodeId x.domainExists = .ok true → s.checkNodeNotInUse x nodeId = .ok () →
      if x.commits ∧ ∀ k, s.kusciaClient = some k → x.domain = .done
      then s.autonomy → x.projects.Named nodeId → NodeService.nodeInReviewingProject x.projects nodeId
      else ∀ k, s.kusciaClient = some k → Untouched st k nodeId x)

variable {s : NodeService} {st : State} {n nodeId : Bytes} {k : Nat} {a : Answer}

theorem view_eq_iff {st' : State} : (∀ n, st'.view n = st.view n) ↔
    (∀ n, st'.db.nodes.filter (fun r => decide (r.nodeId = n)) = st.db.nodes.filter fun r => decide (r.nodeId = n)) ∧
    (∀ n, st'.db.permissions.filter (fun r => decide (r.userKey = n)) = st.db.permissions.filter fun r => decide (r.userKey = n)) ∧
    (∀ n, st'.db.accounts.filter (fun r => decide (r.ownerId = n)) = st.db.accounts.filter fun r => decide (r.ownerId = n)) ∧
    (∀ n, st'.db.routesOf n = st.db.routesOf n) ∧ (∀ d, d ∈ st'.domainRoutes ↔ d ∈ st.domainRoutes) ∧ ∀ d, d ∈ st'.domains ↔ d ∈ st.domains := by
  simp only [State.view, View.mk.injEq]
  constructor
  · intro h
    refine ⟨fun n => (h n).1, fun n => (h n).2.1, fun n => (h n).2.2.1, fun n => (h n).2.2.2.1, fun d => ?_, fun d => ?_⟩
    · have hd := congrFun (h d.source).2.2.2.2.1 d
      simpa using hd
    · have hd := congrFun (h d.domainId).2.2.2.2.2 d
      simpa using hd
  · rintro ⟨hn, hp, ha, hr, hdr, hd⟩ n
    refine ⟨hn n, hp n, ha n, hr n, ?_, ?_⟩
    · funext d
      rw [hdr d]
    · funext d
      rw [hd d]

theorem has_false_iff {ds : List Domain} : Kuscia.has ds k n = false ↔ ∀ d ∈ ds, ¬ (d.kuscia = k ∧ d.domainId = n) := by
  simp [Kuscia.has]

theorem createDomain_fst {ds : List Domain} {d : Domain} :
    (Kuscia.CreateDomain ds d a).1 = true ↔ Kuscia.has ds d.kuscia d.domainId = false ∧ a = .done := by
  unfold Kuscia.CreateDomain
  cases h : Kuscia.has ds d.kuscia d.domainId <;> simp

theorem mem_createDomain {ds : List Domain} {d d' : Domain} :
    d' ∈ (Kuscia.CreateDomain ds d a).2 ↔ d' ∈ ds ∨ (Kuscia.has ds d.kuscia d.domainId = false ∧ a.takesEffect ∧ d' = d) := by
  unfold Kuscia.CreateDomain
  cases Kuscia.has ds d.kuscia d.domainId <;> cases a.takesEffect <;> simp

theorem mem_deleteDomain {ds : List Domain} {d : Domain} :
    d ∈ (Kuscia.DeleteDomain ds k nodeId a).2 ↔ d ∈ ds ∧ (a.takesEffect = true → ¬ (d.kuscia = k ∧ d.domainId = nodeId)) := by
  unfold Kuscia.DeleteDomain
  cases a.takesEffect <;> simp [← not_and_or]

theorem createDomain_snd {ds : List Domain} {d : Domain} (h : Kuscia.has ds d.kuscia d.domainId = false → a.takesEffect = false) :
    (Kuscia.CreateDomain ds d a).2 = ds := by
  unfold Kuscia.CreateDomain
  split_ifs with hhas ha
  · rfl
  · rw [h (by simpa using hhas)] at ha
    cases ha
  · rfl

theorem view_createDomain {d : Domain} : (∀ n, ({ st with domains := (Kuscia.CreateDomain st.domains d a).2 } : State).view n = st.view n) ↔
    (Kuscia.has st.domains d.kuscia d.domainId = false → a.takesEffect = false) := by
  rw [view_eq_iff]
  simp only [Db.routesOf, implies_true, true_and]
  constructor
  · intro h hhas
    rw [← Bool.not_eq_true]
    intro ht
    exact has_false_iff.1 hhas d ((h d).1 (mem_createDomain.2 (.inr ⟨hhas, ht, rfl⟩))) ⟨rfl, rfl⟩
  · intro h d'
    rw [createDomain_snd h]

def newDomain (k : Nat) (id : Bytes) : Domain := ⟨k, id, [], [], str "UID-RSA-GEN"⟩

theorem createNode_eq {req : CreateNodeRequest} {x : Creation} {id : Bytes} {db : Db} (hk : s.kusciaClient = some k)
    (hp : s.prepare st.db req x = .ok (id, db)) :
    (∃ e, s.CreateNode st req x = (.error e, { st with domains := (Kuscia.CreateDomain st.domains (newDomain k id) x.domain).2 })) ∧
        ¬ (Kuscia.has st.domains k id = false ∧ x.domain = .done ∧ x.commits = true) ∨
      (∃ st', s.CreateNode st req x = (.ok id, st')) ∧ Kuscia.has st.domains k id = false ∧ x.domain = .done ∧ x.commits = true := by
  have hfst : (Kuscia.CreateDomain st.domains (newDomain k id) x.domain).1 = true ↔ Kuscia.has st.domains k id = false ∧ x.domain = .done :=
    createDomain_fst
  have hcall : s.CreateNode st req x = if !(Kuscia.CreateDomain st.domains (newDomain k id) x.domain).1
      then (.error (.NodeCreateError (str "kuscia: create domain failed")),
        { st with domains := (Kuscia.CreateDomain st.domains (newDomain k id) x.domain).2 })
      else if x.commits then (.ok id, { st with db := db, domains := (Kuscia.CreateDomain st.domains (newDomain k id) x.domain).2 })
      else (.error .database, { st with domains := (Kuscia.CreateDomain st.domains (newDomain k id) x.domain).2 }) := by
    simp only [NodeService.CreateNode, hp, hk, newDomain]
    rfl
  rw [hcall]
  cases hc : (Kuscia.CreateDomain st.domains (newDomain k id) x.domain).1 with
  | false =>
    refine .inl ⟨⟨_, rfl⟩, fun h => ?_⟩
    rw [hfst.2 ⟨h.1, h.2.1⟩] at hc
    cases hc
  | true =>
    obtain ⟨hhas, hdone⟩ := hfst.1 hc
    cases hcom : x.commits with
    | false => exact .inl ⟨⟨_, rfl⟩, fun h => absurd h.2.2 (by decide)⟩
    | true => exact .inr ⟨⟨_, rfl⟩, hhas, hdone, rfl⟩

theorem create_iff {req : CreateNodeRequest} {x : Creation} : Kept s st (.create req x) ↔ Safe s st (.create req x) := by
  simp only [Kept, Safe]
  cases hp : s.prepare st.db req x with
  | error e =>
    have hcall : s.CreateNode st req x = (.error e, st) := by simp only [NodeService.CreateNode, hp]
    rw [hcall]
    exact iff_of_true (fun _ _ _ => rfl) (fun _ _ _ _ h => nomatch h)
  | ok r =>
    obtain ⟨id, db⟩ := r
    cases hk : s.kusciaClient with
    | none =>
      refine iff_of_true ?_ (fun _ _ _ h => nomatch h)
      simp only [NodeService.CreateNode, hp, hk]
      cases x.commits with
      | true => exact fun e h => nomatch h
      | false => exact fun _ _ _ => rfl
    | some k =>
      rcases createNode_eq hk hp with ⟨⟨e, hcall⟩, hnot⟩ | ⟨⟨st', hcall⟩, hhas, hdone, hcom⟩
      · rw [hcall]
        have hsame := @view_createDomain st x.domain (newDomain k id)
        constructor
        · intro hkept k' id' db' hk' hp' hhas htakes
          cases hk'
          cases hp'
          rw [hsame.1 (hkept e rfl) hhas] at htakes
          cases htakes
        · intro hsafe e' _
          refine hsame.2 fun hhas => ?_
          rw [← Bool.not_eq_true]
          intro ht
          obtain ⟨hdone, hcom⟩ := hsafe k id db rfl rfl hhas ht
          exact hnot ⟨hhas, hdone, hcom⟩
      · rw [hcall]
        refine iff_of_true (fun e h => nomatch h) ?_
        intro k' id' db' hk' hp' _ _
        exact ⟨hdone, hcom⟩

def staysAfter (k : Nat) (rows : List NodeRouteDO) (answers : NodeRouteDO → Answer) (d : DomainRoute) : Bool :=
  rows.all fun r => !((answers r).takesEffect && decide (d.key = (k, r.srcNodeId, r.dstNodeId)))

theorem foldl_deleteDomainRoute (answers : NodeRouteDO → Answer) (rows : List NodeRouteDO) (ds : List DomainRoute) :
    rows.foldl (fun ds r => (Route.Kuscia.DeleteDomainRoute ds k r.srcNodeId r.dstNodeId (answers r)).2) ds =
      ds.filter (staysAfter k rows answers) := by
  induction rows generalizing ds with
  | nil => exact (List.filter_eq_self.2 fun _ _ => rfl).symm
  | cons r rows ih =>
    rw [List.foldl_cons, ih]
    cases ht : (answers r).takesEffect with
    | false =>
      simp only [Route.Kuscia.DeleteDomainRoute, ht]
      refine List.filter_congr fun d _ => ?_
      simp [staysAfter, ht]
    | true =>
      simp only [Route.Kuscia.DeleteDomainRoute, ht, if_true, List.filter_filter]
      refine List.filter_congr fun d _ => ?_
      simp [staysAfter, ht, Bool.and_comm]

theorem view_deleteInKuscia {x : Deletion} :
    (∀ n, (NodeService.deleteInKuscia st k nodeId x).2.view n = st.view n) ↔ Untouched st k nodeId x := by
  rw [view_eq_iff]
  simp only [NodeService.deleteInKuscia, foldl_deleteDomainRoute, Db.routesOf, implies_true, true_and, Untouched]
  constructor
  · rintro ⟨hroutes, hdomains⟩
    constructor
    · intro r hr ht
      rw [Route.has_eq_false]
      intro d hd hkey
      have hgone := List.all_eq_true.1 (List.mem_filter.1 ((hroutes d).2 hd)).2 r hr
      simp [ht, hkey] at hgone
    · intro ht
      rw [has_false_iff]
      intro d hd
      exact (mem_deleteDomain.1 ((hdomains d).2 hd)).2 ht
  · rintro ⟨hroutes, hdomain⟩
    refine ⟨fun d => ⟨fun h => (List.mem_filter.1 h).1, fun hd => List.mem_filter.2 ⟨hd, ?_⟩⟩, fun d => ?_⟩
    · refine List.all_eq_true.2 fun r hmem => ?_
      cases ht : (x.route r).takesEffect with
      | false => rfl
      | true => simpa using Route.has_eq_false.1 (hroutes r hmem ht) d hd
    · rw [mem_deleteDomain]
      exact ⟨fun h => h.1, fun hd => ⟨hd, fun ht => has_false_iff.1 (hdomain ht) d hd⟩⟩

theorem ok_of_check {x : Deletion} (h : s.checkNodeNotInUse x nodeId = .ok ()) :
    ¬ x.projects.Member nodeId ∧ (s.autonomy → NodeService.nodeInReviewingProject x.projects nodeId = false) := by
  unfold NodeService.checkNodeNotInUse at h
  split_ifs at h with hcount hmem hauto hfind hrev
  · refine ⟨?_, fun ha => ?_⟩
    · rintro ⟨m, hm, hid⟩
      exact hmem (List.any_eq_true.2 ⟨m, hm, decide_eq_true hid⟩)
    · rw [ha] at hauto
      cases hauto
  · refine ⟨?_, fun _ => by simpa using hrev⟩
    rintro ⟨m, hm, hid⟩
    exact hmem (List.any_eq_true.2 ⟨m, hm, decide_eq_true hid⟩)

theorem failed_iff {x : Deletion} : (NodeService.deleteInKuscia st k nodeId x).1 = .failed ↔ x.domain ≠ .done := by
  simp only [NodeService.deleteInKuscia, Kuscia.DeleteDomain]
  by_cases hd : x.domain = .done
  · rw [if_pos hd]
    split_ifs <;> simp [hd]
  · simp [hd]

section

variable {x : Deletion} {node : NodeDO} (hf : NodeService.findDeletable st.db nodeId x = .ok node)

include hf

theorem deleteNode_missing (ht : s.domainThere st nodeId x.domainExists = .ok false) :
    (x.deleteRows = true ∧ x.commits = true ∧ ∃ st', s.DeleteNode st nodeId x = (.ok (), st')) ∨
      (¬ (x.deleteRows = true ∧ x.commits = true) ∧ s.DeleteNode st nodeId x = (.error .database, st)) := by
  simp only [NodeService.DeleteNode, hf, ht]
  split_ifs with hgo
  · rw [Bool.and_eq_true] at hgo
    exact .inl ⟨hgo.1, hgo.2, _, rfl⟩
  · rw [Bool.and_eq_true] at hgo
    exact .inr ⟨hgo, rfl⟩

theorem deleteNode_there (ht : s.domainThere st nodeId x.domainExists = .ok true) (hc : s.checkNodeNotInUse x nodeId = .ok ())
    (hd : x.deleteRows = true) :
    ((x.commits = true ∧ ∀ k, s.kusciaClient = some k → x.domain = .done) ∧ ∃ st', s.DeleteNode st nodeId x = (.ok (), st')) ∨
      (¬ (x.commits = true ∧ ∀ k, s.kusciaClient = some k → x.domain = .done) ∧ ∃ e, s.DeleteNode st nodeId x =
        (.error e, (s.kusciaClient.map fun k => (NodeService.deleteInKuscia st k nodeId x).2).getD st)) := by
  simp only [NodeService.DeleteNode, hf, ht, hc, hd]
  cases hk : s.kusciaClient with
  | none =>
    cases hcom : x.commits with
    | true => exact .inl ⟨⟨rfl, fun _ h => (nomatch h)⟩, _, rfl⟩
    | false => exact .inr ⟨fun h => (nomatch h.1), _, rfl⟩
  | some k =>
    by_cases hdone : x.domain = .done
    · have hfst : (NodeService.deleteInKuscia st k nodeId x).1 ≠ .failed := fun h => failed_iff.1 h hdone
      cases hcom : x.commits with
      | true => exact .inl ⟨⟨rfl, fun _ _ => hdone⟩, _, if_neg hfst⟩
      | false => exact .inr ⟨fun h => (nomatch h.1), _, if_neg hfst⟩
    · have hfst : (NodeService.deleteInKuscia st k nodeId x).1 = .failed := failed_iff.2 hdone
      exact .inr ⟨fun h => hdone (h.2 k rfl), _, if_pos hfst⟩

end

theorem kept_of_quiet {x : Deletion} {e : Err} (h : s.DeleteNode st nodeId x = (.error e, st)) : Kept s st (.delete nodeId x) := by
  simp only [Kept, h]
  exact ⟨fun _ _ _ => trivial, (fun h => nomatch h)⟩

theorem kept_of_ok {x : Deletion} {st' : State} (h : s.DeleteNode st nodeId x = (.ok (), st')) :
    Kept s st (.delete nodeId x) ↔ ¬ x.projects.Member nodeId ∧ (s.autonomy → ¬ x.projects.Named nodeId) := by
  simp only [Kept, h]
  exact ⟨fun hk => hk.2 trivial, fun hk => ⟨(fun e he => nomatch he), fun _ => hk⟩⟩

theorem delete_iff {x : Deletion} : Kept s st (.delete nodeId x) ↔ Safe s st (.delete nodeId x) := by
  cases hf : NodeService.findDeletable st.db nodeId x with
  | error e =>
    have hcall : s.DeleteNode st nodeId x = (.error e, st) := by simp only [NodeService.DeleteNode, hf]
    exact iff_of_true (kept_of_quiet hcall) fun _ h => nomatch hf.symm.trans h
  | ok node =>
  have hsafe : Safe s st (.delete nodeId x) ↔ (x.deleteRows →
      (s.domainThere st nodeId x.domainExists = .ok false → x.commits → ¬ x.projects.Member nodeId ∧ (s.autonomy → ¬ x.projects.Named nodeId)) ∧
      (s.domainThere st nodeId x.domainExists = .ok true → s.checkNodeNotInUse x nodeId = .ok () →
        if x.commits ∧ ∀ k, s.kusciaClient = some k → x.domain = .done
        then s.autonomy → x.projects.Named nodeId → NodeService.nodeInReviewingProject x.projects nodeId
        else ∀ k, s.kusciaClient = some k → Untouched st k nodeId x)) :=
    ⟨fun h => h node hf, fun h _ _ => h⟩
  rw [hsafe]
  cases ht : s.domainThere st nodeId x.domainExists with
  | error e =>
    have hcall : s.DeleteNode st nodeId x = (.error e, st) := by simp only [NodeService.DeleteNode, hf, ht]
    exact iff_of_true (kept_of_quiet hcall) fun _ => ⟨(fun h => nomatch h), (fun h => nomatch h)⟩
  | ok there =>
  cases there with
  | false =>
    rcases deleteNode_missing hf ht with ⟨hrows, hcom, st', hcall⟩ | ⟨hnot, hcall⟩
    · rw [kept_of_ok hcall]
      exact ⟨fun h _ => ⟨fun _ _ => h, (fun h => nomatch h)⟩, fun h => (h hrows).1 rfl hcom⟩
    · exact iff_of_true (kept_of_quiet hcall) fun hrows => ⟨fun _ hcom => absurd ⟨hrows, hcom⟩ hnot, (fun h => nomatch h)⟩
  | true =>
  cases hc : s.checkNodeNotInUse x nodeId with
  | error e =>
    have hcall : s.DeleteNode st nodeId x = (.error e, st) := by simp only [NodeService.DeleteNode, hf, ht, hc]
    exact iff_of_true (kept_of_quiet hcall) fun _ => ⟨(fun h => nomatch h), (fun _ h => nomatch h)⟩
  | ok u =>
  cases hrows : x.deleteRows with
  | false =>
    have hcall : s.DeleteNode st nodeId x = (.error .database, st) := by simp [NodeService.DeleteNode, hf, ht, hc, hrows]
    exact iff_of_true (kept_of_quiet hcall) fun h => nomatch h
  | true =>
    obtain ⟨hmember, hreviewing⟩ := ok_of_check hc
    rcases deleteNode_there hf ht hc hrows with ⟨hgo, st', hcall⟩ | ⟨hnot, e, hcall⟩
    · rw [kept_of_ok hcall, if_pos hgo]
      constructor
      · intro h _
        exact ⟨(fun h => nomatch h), fun _ _ ha hn => absurd hn (h.2 ha)⟩
      · intro h
        refine ⟨hmember, fun ha hn => ?_⟩
        have hin := (h rfl).2 rfl rfl ha hn
        rw [hreviewing ha] at hin
        cases hin
    · rw [if_neg hnot]
      cases hk : s.kusciaClient with
      | none =>
        rw [hk] at hcall
        exact iff_of_true (kept_of_quiet hcall) fun _ => ⟨(fun h => nomatch h), (fun _ _ _ h => nomatch h)⟩
      | some k =>
        rw [hk] at hcall
        have hkept : Kept s st (.delete nodeId x) ↔ Untouched st k nodeId x := by
          rw [← view_deleteInKuscia]
          simp only [Kept, hcall]
          exact ⟨fun h => h.1 e rfl, fun h => ⟨fun _ _ => h, (fun h => nomatch h)⟩⟩
        rw [hkept]
        constructor
        · intro h _
          refine ⟨(fun h => nomatch h), fun _ _ k' hk' => ?_⟩
          cases hk'
          exact h
        · intro h
          exact (h rfl).2 rfl rfl k rfl

theorem kept_iff_safe (op : Op) : Kept s st op ↔ Safe s st op := by
  cases op with
  | create req x => exact create_iff
  | delete nodeId x => exact delete_iff

/-- In a run of calls, every one of them keeps what it has to exactly if every one meets its condition. -/
theorem kept_iff (s : NodeService) (st : State) (ops : List Op) : Lts.RunAll s.step (Kept s) st ops ↔ Lts.RunAll s.step (Safe s) st ops :=
  ⟨.imp fun _ op => (kept_iff_safe op).1, .imp fun _ op => (kept_iff_safe op).2⟩

def master (autonomy : Bool) : NodeService := ⟨autonomy, some 0, fun p => p, fun _ => false⟩

def office : State where
  db :=
    { nodes := [⟨1, str "alice", str "Alice", str "alice", str "alice:1080", nodeTypeNormal, 0, str "master", [], false, false⟩]
      permissions := [⟨PermissionUserTypeNode, str "alice", str "ROLE", RoleEdgeNode⟩]
      accounts := []
      userNodes := []
      insts := []
      routes := ⟨[⟨1, str "alice__bob", str "alice", str "bob", str "10.0.0.1:1080", str "10.0.0.2:1080"⟩], 2, by decide, by decide, by decide⟩
      nextNode := 2 }
  domains := [⟨0, str "alice", [], [], str "UID-RSA-GEN"⟩]
  domainRoutes := [⟨0, str "alice", str "bob", ⟨str "10.0.0.2", 1080, false⟩⟩]

def deletion (domainExists : Answer) (p : Projects) (commits : Bool) : Deletion :=
  ⟨true, domainExists, p, true, true, true, true, fun _ => .done, .done, commits⟩

def underReview : Projects :=
  ⟨[], [(str "p1", 0)], [⟨str "PROJECT_CREATE", str "p1", str "[\"inst-a\",\"inst-b\"]", [⟨str "alice", [str "bob"]⟩]⟩]⟩

theorem deleted_with_trace : ¬ Kept (master false) office (.delete (str "alice") (deletion .done ⟨[], [], []⟩ false)) ∧
    ¬ Kept (master false) office (.delete (str "alice") (deletion .refused ⟨[(str "p1", str "alice")], [], []⟩ true)) ∧
    ¬ Kept (master true) office (.delete (str "alice") (deletion .done underReview true)) := by
  refine ⟨fun h => ?_, fun h => ?_, fun h => ?_⟩
  · -- the domain is gone, the row is not
    have hview := congrFun (congrArg View.domains (h.1 .database rfl (str "alice"))) ⟨0, str "alice", [], [], str "UID-RSA-GEN"⟩
    have hstays := (hview.mpr ⟨List.mem_cons_self, rfl⟩).1
    cases hstays
  · -- a member of a project
    exact (h.2 rfl).1 ⟨_, List.mem_cons_self, rfl⟩
  · -- named by the vote, which lists institutions
    exact (h.2 rfl).2 rfl ⟨_, List.mem_cons_self, List.mem_cons_self⟩

end Node
