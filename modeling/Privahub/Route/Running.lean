import Privahub.Lib.Calls
import Privahub.Route.Service

/-!
# Routes and running jobs

`Update`, `Delete` and `DeletePair` one statement at a time, interleaved with the jobs of projects, the jobs of schedules and the
members of projects. A route operation reads the projects that its two nodes share, counts the running jobs in them, and
writes later, in a transaction with calls to Kuscia. It counts `project_job` and not `project_schedule_job`, and nothing keeps a job
from starting once it has counted: `at_rest` says which steps leave every change of a route without a running job between its nodes.
-/

namespace Route.Running

structure ProjectNodeDO where
  projectId : Bytes
  nodeId : Bytes
  deriving DecidableEq

structure ProjectApprovalConfigDO where
  projectId : Bytes
  parties : Bytes

structure ProjectJobDO where
  projectId : Bytes
  jobId : Bytes
  status : Bytes

structure ProjectScheduleJobDO where
  projectId : Bytes
  jobId : Bytes
  status : Bytes

/-- One trigger of a schedule; its job stands in `project_schedule_job` from the start. -/
structure ProjectScheduleTaskDO where
  projectId : Bytes
  scheduleJobId : Bytes
  status : Bytes

structure Tables where
  projectNodes : List ProjectNodeDO
  configs : List ProjectApprovalConfigDO
  jobs : List ProjectJobDO
  scheduleJobs : List ProjectScheduleJobDO
  scheduleTasks : List ProjectScheduleTaskDO

structure Db where
  routes : State
  tables : Tables

def JobRunning : Bytes := str "RUNNING"

/-- `like` is the database's `LIKE '%…%'`, in its collation. -/
structure Platform where
  service : Service
  like : Bytes → Bytes → Bool

namespace Tables

variable (t : Tables)

def coMember (src dst : Bytes) : List Bytes :=
  (t.projectNodes.filter fun m => decide (m.nodeId = src) &&
    t.projectNodes.any fun m' => decide (m'.projectId = m.projectId ∧ m'.nodeId = dst)).map (·.projectId)

/-- The projects of the approval configs that list both parties. -/
def approved (p : Platform) (src dst : Bytes) : List Bytes :=
  (t.configs.filter fun c => p.like c.parties src && p.like c.parties dst && decide (c.projectId ≠ [])).map (·.projectId)

def sharedProjectIDs (p : Platform) (src dst : Bytes) : List Bytes := t.coMember src dst ++ t.approved p src dst

def runsJob (projectId : Bytes) : Bool := t.jobs.any fun j => decide (j.projectId = projectId ∧ j.status = JobRunning)

def runsScheduleJob (projectId : Bytes) : Bool :=
  t.scheduleJobs.any fun j => decide (j.projectId = projectId ∧ j.status = JobRunning) &&
    t.scheduleTasks.any fun k => decide (k.projectId = projectId ∧ k.scheduleJobId = j.jobId ∧ k.status = JobRunning)

/-- The projects that both nodes take part in and that have a running job. -/
def busy (p : Platform) (src dst : Bytes) : List Bytes :=
  (t.sharedProjectIDs p src dst).filter fun q => t.runsJob q || t.runsScheduleJob q

end Tables

/-- An operation on a route, with the node that owns its user on an EDGE platform. -/
inductive Op
  | update (edgeOwner : Option Bytes) (req : UpdateNodeRouterRequest)
  | delete (edgeOwner : Option Bytes) (routeId : Bytes)
  | deletePair (src dst : Bytes)

inductive Stage
  | statement
  | query
  | delete
  | deleteBack
  | create
  | commit
  deriving DecidableEq

/-- The first group is `NodeRouteService`, the others are what the rest of the platform does to the tables, one statement each. -/
inductive Call
  | begin (op : Op)
  | shared (op : Op) (route : NodeRouteDO)
  | configs (op : Op) (route : NodeRouteDO) (ids : List Bytes)
  | count (op : Op) (route : NodeRouteDO) (ids : List Bytes)
  | tx (op : Op) (route : NodeRouteDO) (addr : Bytes × Bytes) (stage : Stage)
  /- jobs -/
  | createJob (projectId jobId : Bytes)
  | setJob (projectId jobId status : Bytes)
  | createSchedule (projectId jobId : Bytes)
  | setScheduleJob (projectId jobId status : Bytes)
  | setScheduleTask (projectId jobId status : Bytes)
  /- members -/
  | join (m : ProjectNodeDO)
  | leave (m : ProjectNodeDO)
  | approve (c : ProjectApprovalConfigDO)

/-- How a step goes: whether its statement fails, what Kuscia answers, and the net addresses of the nodes. -/
structure Ending where
  fails : Bool
  answer : Answer
  netAddress : Bytes → Option Bytes

inductive Event
  | touched (src dst : Bytes)
  deriving DecidableEq

abbrev World := Calls.World Db Call Event
abbrev Action := Calls.Action Call Ending
abbrev Effect := Calls.Effect Db Call Event

def Op.edgeOwner : Op → Option Bytes
  | .update o _ | .delete o _ => o
  | .deletePair .. => none

/-- The routes that an operation on `route` is about. -/
def Op.touches (route : NodeRouteDO) : Op → List Event
  | .update .. | .delete .. => [.touched route.srcNodeId route.dstNodeId]
  | .deletePair .. => [.touched route.srcNodeId route.dstNodeId, .touched route.dstNodeId route.srcNodeId]

namespace Platform

variable (p : Platform)

def reads (t : Tables) (op : Op) (x : Ending) : Reads where
  edgeOwner := op.edgeOwner
  netAddress := x.netAddress
  projectJobRunning := fun src dst => .ok ((t.sharedProjectIDs p src dst).any t.runsJob)

def find (db : Db) (x : Ending) : Op → Except Err NodeRouteDO
  | .update _ req => do
    let routeId := firstNonEmpty [req.routerId, req.routerIdAlt]
    if routeId = [] then throw (.ParamError (str "routerId is required"))
    Service.findRoute db.routes.db routeId
  | .delete o routeId => do
    if routeId ∈ defaultRouteIDs then throw (.ParamError (str "default route can not delete"))
    let route ← Service.findRoute db.routes.db routeId
    Service.checkDataPermissions (p.reads db.tables (.delete o routeId) x) route.dstNodeId
    pure route
  | .deletePair src dst =>
    ((db.routes.db.findByPair src dst).map Except.ok).getD (.error (.NodeRouteNotExistError (str "route not found")))

/-- What an operation does once no job was found to run: `Update` looks at the permissions only now. -/
def counted (db : Db) (x : Ending) (route : NodeRouteDO) : Op → Option Call
  | .update o req =>
    match Service.checkDataPermissions (p.reads db.tables (.update o req) x) route.dstNodeId with
    | .error _ => none
    | .ok () => some (.tx (.update o req) route (p.service.newAddresses (p.reads db.tables (.update o req) x) req route) .statement)
  | op => some (.tx op route ([], []) .statement)

def kuscia (route : NodeRouteDO) : Op → Option Nat
  | .deletePair src _ => p.service.kc (if p.service.autonomy then src else [])
  | _ => p.service.kc (p.service.kusciaSrcDst route).2.2

def endpoint (addr : Bytes × Bytes) : Option Endpoint := p.service.endpoint (if p.service.autonomy then addr.1 else addr.2)

def kusciaPair (route : NodeRouteDO) : Op → Bytes × Bytes
  | .deletePair src dst => (src, dst)
  | _ => ((p.service.kusciaSrcDst route).1, (p.service.kusciaSrcDst route).2.1)

def written (db : Route.Db) (route : NodeRouteDO) (addr : Bytes × Bytes) : Op → Route.Db
  | .update .. => db.setAddresses route.id addr.1 addr.2
  | .delete .. => db.deleteWhere fun r => decide (r.id = route.id)
  | .deletePair src dst => db.deleteWhere fun r => decide (r.pair = (src, dst) ∨ r.pair = (dst, src))

/-- The step of the transaction that comes after `stage`, when Kuscia `k` is there. -/
def Stage.after (op : Op) (existing : Bool) : Stage → Stage
  | .statement => match op with
    | .update .. => .query
    | _ => .delete
  | .query => if existing then .delete else .create
  | .delete => match op with
    | .update .. => .create
    | .delete .. => .commit
    | .deletePair .. => .deleteBack
  | .deleteBack | .create | .commit => .commit

def withDomainRoutes (db : Db) (ds : List DomainRoute) : Db := { db with routes := { db.routes with domainRoutes := ds } }

def asked (db : Db) (op : Op) (route : NodeRouteDO) (addr : Bytes × Bytes) (stage : Stage) (r : Bool × List DomainRoute) : Effect :=
  ⟨withDomainRoutes db r.2, if r.1 then some (.tx op route addr (Stage.after op true stage)) else none, op.touches route⟩

def transact (db : Db) (op : Op) (route : NodeRouteDO) (addr : Bytes × Bytes) (x : Ending) (stage : Stage) : Effect :=
  match stage, p.kuscia route op with
  | .statement, none => ⟨db, if x.fails then none else some (.tx op route addr .commit), op.touches route⟩
  | .statement, some _ => ⟨db, if x.fails then none else some (.tx op route addr (Stage.after op true .statement)), op.touches route⟩
  | .query, some k =>
    match p.endpoint addr with
    | none => ⟨db, none, []⟩
    | some _ =>
      match Kuscia.DomainRouteExists db.routes.domainRoutes k (p.kusciaPair route op).1 (p.kusciaPair route op).2 x.answer with
      | none => ⟨db, none, []⟩
      | some existing => ⟨db, some (.tx op route addr (Stage.after op existing .query)), []⟩
  | .delete, some k =>
    asked db op route addr .delete
      (Kuscia.DeleteDomainRoute db.routes.domainRoutes k (p.kusciaPair route op).1 (p.kusciaPair route op).2 x.answer)
  | .deleteBack, some k =>
    asked db op route addr .deleteBack
      (Kuscia.DeleteDomainRoute db.routes.domainRoutes k (p.kusciaPair route op).2 (p.kusciaPair route op).1 x.answer)
  | .create, some k =>
    match p.endpoint addr with
    | none => ⟨db, none, []⟩
    | some e => asked db op route addr .create
      (Kuscia.CreateDomainRoute db.routes.domainRoutes k (p.kusciaPair route op).1 (p.kusciaPair route op).2 e x.answer)
  | .commit, _ =>
    ⟨if x.fails then db else { db with routes := { db.routes with db := written db.routes.db route addr op } }, none, op.touches route⟩
  | _, none => ⟨db, none, []⟩

def other (db : Db) (t : Tables) : Effect := ⟨{ db with tables := t }, none, []⟩

def exec (db : Db) (c : Call) (x : Ending) : Effect :=
  match c with
  | .begin op =>
    match p.find db x op with
    | .error _ => ⟨db, none, []⟩
    | .ok route => ⟨db, some (.shared op route), []⟩
  | .shared op route =>
    ⟨db, if x.fails then none else some (.configs op route (db.tables.coMember route.srcNodeId route.dstNodeId)), []⟩
  | .configs op route ids =>
    -- a read of the configs that fails leaves the projects out
    ⟨db, some (.count op route (ids ++ if x.fails then [] else db.tables.approved p route.srcNodeId route.dstNodeId)), []⟩
  | .count op route ids =>
    -- without a project there is no query, and none that fails
    if (x.fails && !ids.isEmpty) || ids.any db.tables.runsJob then ⟨db, none, []⟩
    else ⟨db, p.counted db x route op, []⟩
  | .tx op route addr stage => p.transact db op route addr x stage
  | .createJob projectId jobId => other db { db.tables with jobs := db.tables.jobs ++ [⟨projectId, jobId, JobRunning⟩] }
  | .setJob projectId jobId status => other db { db.tables with
      jobs := Table.updateWhere (fun j => decide (j.projectId = projectId ∧ j.jobId = jobId)) (fun j => { j with status := status }) db.tables.jobs }
  | .createSchedule projectId jobId => other db { db.tables with
      scheduleJobs := db.tables.scheduleJobs ++ [⟨projectId, jobId, JobRunning⟩]
      scheduleTasks := db.tables.scheduleTasks ++ [⟨projectId, jobId, str "TO_BE_RUN"⟩] }
  | .setScheduleJob projectId jobId status => other db { db.tables with
      scheduleJobs := Table.updateWhere (fun j => decide (j.projectId = projectId ∧ j.jobId = jobId))
        (fun j => { j with status := status }) db.tables.scheduleJobs }
  | .setScheduleTask projectId jobId status => other db { db.tables with
      scheduleTasks := Table.updateWhere (fun k => decide (k.projectId = projectId ∧ k.scheduleJobId = jobId))
        (fun k => { k with status := status }) db.tables.scheduleTasks }
  | .join m => other db { db.tables with projectNodes := db.tables.projectNodes ++ [m] }
  | .leave m => other db { db.tables with projectNodes := db.tables.projectNodes.filter fun m' => !decide (m' = m) }
  | .approve c => other db { db.tables with configs := db.tables.configs ++ [c] }

def first : Call → Bool
  | .shared .. | .configs .. | .count .. | .tx .. => false
  | _ => true

def step : World → Action → Option World := Calls.step first p.exec

end Platform

variable {p : Platform} {db : Db} {t t' : Tables} {c d : Call} {x : Ending} {w w' : World} {a : Action}

def Call.Seen (p : Platform) (t : Tables) : Call → Prop
  | .configs _ r ids => ∀ q ∈ t.coMember r.srcNodeId r.dstNodeId, q ∈ ids ∨ q ∈ t.approved p r.srcNodeId r.dstNodeId
  | .count _ r ids => ∀ q ∈ t.sharedProjectIDs p r.srcNodeId r.dstNodeId, q ∈ ids
  | .tx _ r _ _ => t.busy p r.srcNodeId r.dstNodeId = []
  | _ => True

/-- What may happen to the tables under a call in flight. Until it has read the approval configs, its nodes may come to share a project that one of
them lists; until it has counted they share no further one; from then on no job starts in a project they share, nor do they come to share one that
has a running job. -/
def Call.Calm (p : Platform) (t t' : Tables) : Call → Prop
  | .configs _ r _ =>
    ∀ q ∈ t'.coMember r.srcNodeId r.dstNodeId, q ∈ t.coMember r.srcNodeId r.dstNodeId ∨ q ∈ t'.approved p r.srcNodeId r.dstNodeId
  | .count _ r _ => ∀ q ∈ t'.sharedProjectIDs p r.srcNodeId r.dstNodeId, q ∈ t.sharedProjectIDs p r.srcNodeId r.dstNodeId
  | .tx _ r _ _ => ∀ q ∈ t'.busy p r.srcNodeId r.dstNodeId, q ∈ t.busy p r.srcNodeId r.dstNodeId
  | _ => True

/-- What a call's own step asks of the tables: the approval configs that list both nodes are read, or name no further project, and
when the call counts no running job of a project, no job of a schedule runs in a project the nodes share. -/
def Call.Sighted (p : Platform) (t : Tables) (x : Ending) : Call → Prop
  | .configs _ r ids => x.fails = true → ∀ q ∈ t.approved p r.srcNodeId r.dstNodeId, q ∈ ids
  | .count _ r ids =>
    ids.any t.runsJob = false → ∀ q ∈ t.sharedProjectIDs p r.srcNodeId r.dstNodeId, t.runsScheduleJob q = false
  | _ => True

def Guarded (p : Platform) (w : World) (a : Action) : Prop :=
  ∀ i x c, a = .exec i x → w.calls i = some c → c.Sighted p w.db.tables x ∧
    ∀ j d, w.calls j = some d → j ≠ i → d.Calm p w.db.tables (p.exec w.db c x).db.tables

/-- No route that the step changes lies between two nodes with a running job. -/
def AtRest (p : Platform) (w : World) (a : Action) : Prop :=
  ∀ i x c, a = .exec i x → w.calls i = some c → ∀ src dst, .touched src dst ∈ (p.exec w.db c x).events →
    w.db.tables.busy p src dst = []

theorem mem_coMember {q src dst : Bytes} :
    q ∈ t.coMember src dst ↔ ⟨q, src⟩ ∈ t.projectNodes ∧ ⟨q, dst⟩ ∈ t.projectNodes := by
  constructor
  · intro h
    obtain ⟨⟨q', n⟩, hm, rfl⟩ := List.mem_map.1 h
    obtain ⟨hmem, hp⟩ := List.mem_filter.1 hm
    obtain ⟨hn, hany⟩ := Bool.and_eq_true_iff.1 hp
    obtain rfl : n = src := of_decide_eq_true hn
    obtain ⟨⟨q'', n'⟩, hmem', he⟩ := List.any_eq_true.1 hany
    obtain ⟨rfl, rfl⟩ := of_decide_eq_true he
    exact ⟨hmem, hmem'⟩
  · rintro ⟨hs, hd⟩
    refine List.mem_map.2 ⟨⟨q, src⟩, List.mem_filter.2 ⟨hs, ?_⟩, rfl⟩
    have hany : t.projectNodes.any fun m' => decide (m'.projectId = q ∧ m'.nodeId = dst) := List.any_eq_true.2 ⟨_, hd, by simp⟩
    simpa using hany

theorem mem_approved_comm {q src dst : Bytes} (h : q ∈ t.approved p src dst) : q ∈ t.approved p dst src := by
  obtain ⟨c, hc, rfl⟩ := List.mem_map.1 h
  obtain ⟨hmem, hp⟩ := List.mem_filter.1 hc
  refine List.mem_map.2 ⟨c, List.mem_filter.2 ⟨hmem, ?_⟩, rfl⟩
  rw [Bool.and_comm (p.like c.parties dst)]
  exact hp

theorem mem_shared_comm {q src dst : Bytes} (h : q ∈ t.sharedProjectIDs p src dst) : q ∈ t.sharedProjectIDs p dst src := by
  rcases List.mem_append.1 h with h | h
  · exact List.mem_append_left _ (mem_coMember.2 (mem_coMember.1 h).symm)
  · exact List.mem_append_right _ (mem_approved_comm h)

theorem busy_comm {src dst : Bytes} (h : t.busy p src dst = []) : t.busy p dst src = [] := by
  refine List.eq_nil_iff_forall_not_mem.2 fun q hq => ?_
  obtain ⟨hs, hr⟩ := List.mem_filter.1 hq
  exact List.eq_nil_iff_forall_not_mem.1 h q (List.mem_filter.2 ⟨mem_shared_comm hs, hr⟩)

theorem tables_transact {op : Op} {route : NodeRouteDO} {addr : Bytes × Bytes} {stage : Stage} :
    (p.transact db op route addr x stage).db.tables = db.tables := by
  unfold Platform.transact
  repeat' split
  all_goals rfl

theorem events_transact {op : Op} {route : NodeRouteDO} {addr : Bytes × Bytes} {stage : Stage} {e : Event}
    (h : e ∈ (p.transact db op route addr x stage).events) : e ∈ op.touches route := by
  unfold Platform.transact at h
  repeat' split at h
  all_goals first
    | exact h
    | cases h

theorem next_transact {op : Op} {route : NodeRouteDO} {addr : Bytes × Bytes} {stage : Stage}
    (h : (p.transact db op route addr x stage).next = some d) : ∃ stage', d = .tx op route addr stage' := by
  unfold Platform.transact Platform.asked at h
  repeat' split at h
  all_goals first
    | exact ⟨_, (Option.some.inj h).symm⟩
    | cases h

theorem seen_next (hs : c.Seen p db.tables) (hx : c.Sighted p db.tables x) (h : (p.exec db c x).next = some d) :
    (p.exec db c x).db.tables = db.tables ∧ d.Seen p db.tables := by
  cases c with
  | begin op =>
    simp only [Platform.exec] at h ⊢
    split at h
    · cases h
    · obtain rfl := Option.some.inj h
      exact ⟨rfl, trivial⟩
  | shared op route =>
    simp only [Platform.exec] at h
    split_ifs at h
    obtain rfl := Option.some.inj h
    exact ⟨rfl, fun q hq => .inl hq⟩
  | configs op route ids =>
    obtain rfl := Option.some.inj h
    refine ⟨rfl, fun q hq => ?_⟩
    have happ : q ∈ db.tables.approved p route.srcNodeId route.dstNodeId →
        q ∈ ids ++ if x.fails then [] else db.tables.approved p route.srcNodeId route.dstNodeId := by
      intro ha
      split_ifs with hf
      · exact List.mem_append_left _ (hx hf q ha)
      · exact List.mem_append_right _ ha
    rcases List.mem_append.1 hq with hq | hq
    · exact (hs q hq).elim (List.mem_append_left _) happ
    · exact happ hq
  | count op route ids =>
    simp only [Platform.exec] at h ⊢
    split_ifs at h ⊢ with hc
    refine ⟨rfl, ?_⟩
    have hnone : ids.any db.tables.runsJob = false := by
      rw [Bool.or_eq_true, not_or] at hc
      simpa using hc.2
    have hbusy : db.tables.busy p route.srcNodeId route.dstNodeId = [] := by
      refine List.filter_eq_nil_iff.2 fun q hq hrun => ?_
      rcases Bool.or_eq_true_iff.1 hrun with hj | hj
      · exact Bool.false_ne_true (hnone.symm.trans (List.any_eq_true.2 ⟨q, hs q hq, hj⟩))
      · exact Bool.false_ne_true ((hx hnone q hq).symm.trans hj)
    cases op with
    | update o req =>
      simp only [Platform.counted] at h
      split at h
      · cases h
      · obtain rfl := Option.some.inj h
        exact hbusy
    | delete o id | deletePair src dst =>
      obtain rfl := Option.some.inj h
      exact hbusy
  | tx op route addr stage =>
    obtain ⟨stage', rfl⟩ := next_transact h
    exact ⟨tables_transact, hs⟩
  | _ => cases h

theorem approved_mono {q src dst : Bytes} (h : q ∈ db.tables.approved p src dst) : q ∈ (p.exec db c x).db.tables.approved p src dst := by
  have hconfigs : db.tables.configs.Sublist (p.exec db c x).db.tables.configs := by
    cases c with
    | approve c => exact List.sublist_append_left _ _
    | tx op route addr stage =>
      show db.tables.configs.Sublist (p.transact db op route addr x stage).db.tables.configs
      rw [tables_transact]
    | begin | count =>
      simp only [Platform.exec]
      split <;> exact .refl _
    | _ => exact .refl _
  exact ((hconfigs.filter _).map _).subset h

theorem Call.Seen.calm (hs : d.Seen p db.tables) (h : d.Calm p db.tables (p.exec db c x).db.tables) : d.Seen p (p.exec db c x).db.tables := by
  cases d with
  | configs op r ids =>
    intro q hq
    rcases h q hq with hq | hq
    · exact (hs q hq).imp_right approved_mono
    · exact .inr hq
  | count op r ids => exact fun q hq => hs q (h q hq)
  | tx op r addr stage =>
    refine List.eq_nil_iff_forall_not_mem.2 fun q hq => ?_
    exact List.eq_nil_iff_forall_not_mem.1 hs q (h q hq)
  | _ => trivial

theorem seen_first (h : Platform.first c = true) : c.Seen p t := by
  cases c <;> trivial

theorem seen_step (hi : w.All (Call.Seen p w.db.tables)) (hg : Guarded p w a) (hs : p.step w a = some w') :
    w'.All (Call.Seen p w'.db.tables) := by
  obtain ⟨i, c, rfl, hf, _, rfl⟩ | ⟨i, c, x, rfl, hc, rfl⟩ | ⟨i, c, rfl, hc, rfl⟩ := Calls.step_cases hs
  · exact hi.begin (seen_first hf)
  · obtain ⟨hsight, hcalm⟩ := hg i x c rfl hc
    intro j d hd
    by_cases hj : j = i
    · subst hj
      have hnext : (p.exec w.db c x).next = some d := by simpa [Calls.World.after] using hd
      obtain ⟨htab, hseen⟩ := seen_next (hi j c hc) hsight hnext
      show d.Seen p (p.exec w.db c x).db.tables
      rw [htab]
      exact hseen
    · have hd' : w.calls j = some d := by simpa [Calls.World.after, hj] using hd
      exact (hi j d hd').calm (hcalm j d hd' hj)
  · exact hi.drop

theorem at_rest_step (hi : w.All (Call.Seen p w.db.tables)) : AtRest p w a := by
  rintro i x c rfl hc src dst he
  have hseen := hi i c hc
  cases c with
  | tx op route addr stage =>
    have hb : w.db.tables.busy p route.srcNodeId route.dstNodeId = [] := hseen
    have hmem := events_transact he
    cases op with
    | update o req | delete o id =>
      obtain ⟨rfl, rfl⟩ := Event.touched.inj (List.mem_singleton.1 hmem)
      exact hb
    | deletePair s d =>
      rcases List.mem_cons.1 hmem with h | h
      · obtain ⟨rfl, rfl⟩ := Event.touched.inj h
        exact hb
      · obtain ⟨rfl, rfl⟩ := Event.touched.inj (List.mem_singleton.1 h)
        exact busy_comm hb
  | begin | count =>
    simp only [Platform.exec] at he
    split at he <;> cases he
  | _ => cases he

/-- In every run whose steps are guarded, no route is changed while a job of a project that both its nodes take part in is running. -/
theorem at_rest {as : List Action} (h : Lts.RunAll p.step (Guarded p) (.idle db) as) : Lts.RunAll p.step (AtRest p) (.idle db) as :=
  Lts.RunAll.of_invariant (I := fun w : World => w.All (Call.Seen p w.db.tables)) (fun _ _ _ hi hg hs => seen_step hi hg hs)
    (fun _ _ hi _ => at_rest_step hi) (Calls.World.idle_all _ _) h

instance (p : Platform) (w : World) : (a : Action) → Decidable (AtRest p w a)
  | .start .. | .abandon _ => .isTrue fun _ _ _ ha => nomatch ha
  | .exec i x =>
    match h : w.calls i with
    | none => .isTrue fun _ _ _ ha hc => by
      obtain ⟨rfl, rfl⟩ := Calls.Action.exec.inj ha
      rw [h] at hc
      cases hc
    | some c =>
      decidable_of_iff (∀ e ∈ (p.exec w.db c x).events, match e with | .touched src dst => w.db.tables.busy p src dst = []) <| by
        constructor
        · intro he _ _ _ ha hc src dst hmem
          obtain ⟨rfl, rfl⟩ := Calls.Action.exec.inj ha
          obtain rfl := Option.some.inj (h.symm.trans hc)
          exact he _ hmem
        · rintro hr ⟨src, dst⟩ hmem
          exact hr i x c rfl h src dst hmem

def center : Platform where
  service := ⟨false, fun _ => none, none, fun _ => none⟩
  like parties node := decide (node <:+: parties)

def shared : Db where
  routes :=
    { db :=
        { routes := [⟨1, str "alice__bob", str "alice", str "bob", str "10.0.0.1:80", str "10.0.0.2:80"⟩]
          nextId := 2
          fresh := by decide
          ids := by decide
          pairs := by decide }
      domainRoutes := [] }
  tables :=
    { projectNodes := [⟨str "p1", str "alice"⟩, ⟨str "p1", str "bob"⟩]
      configs := []
      jobs := []
      scheduleJobs := [⟨str "p1", str "job1", JobRunning⟩]
      scheduleTasks := [⟨str "p1", str "job1", str "TO_BE_RUN"⟩] }

def done : Ending := ⟨false, .done, fun _ => none⟩

def steps (i n : Nat) : List Action := List.replicate n (.exec i done)

def moveBob : Call := .begin (.update none ⟨str "alice__bob", [], [], str "10.0.0.9:80", []⟩)

def firedFirst : List Action := [.start 0 (.setScheduleTask (str "p1") (str "job1") JobRunning), .start 1 moveBob] ++ steps 0 1 ++ steps 1 6

def startedBetween : List Action := [.start 0 (.createJob (str "p1") (str "job2")), .start 1 moveBob] ++ steps 1 4 ++ steps 0 1 ++ steps 1 2

def finishedBefore : List Action :=
  [.start 0 (.createJob (str "p1") (str "job2"))] ++ steps 0 1 ++ [.start 0 (.setJob (str "p1") (str "job2") (str "SUCCEED"))] ++ steps 0 1 ++
    [.start 1 moveBob] ++ steps 1 6

def guarded (w : World) : Action → Bool
  | .exec i x => (w.calls i).all fun c =>
    (match c with
      | .configs _ r ids => !x.fails || (w.db.tables.approved center r.srcNodeId r.dstNodeId).all (ids.contains ·)
      | .count _ r _ => (w.db.tables.sharedProjectIDs center r.srcNodeId r.dstNodeId).all fun q => !w.db.tables.runsScheduleJob q
      | _ => true) &&
    (w.calls (1 - i)).isNone
  | _ => true

theorem at_rest_finishedBefore : (Lts.run center.step (.idle shared) finishedBefore).isSome ∧
    Lts.RunAll center.step (AtRest center) (.idle shared) finishedBefore := by
  refine ⟨by decide +kernel, at_rest (Calls.runAll_of_slots (n := 2) (Q := fun v a => guarded v a = true) (fun w a hn ha => ?_)
    (fun _ _ => rfl) (by simp [finishedBefore, steps]) (by decide +kernel))⟩
  rintro i x c rfl hc
  simp only [guarded, hc, Option.all_some, Bool.and_eq_true] at ha
  obtain ⟨hsight, hidle⟩ := ha
  refine ⟨?_, fun j d hd hj => ?_⟩
  · cases c with
    | configs op r ids =>
      intro hf q hq
      have hall : (w.db.tables.approved center r.srcNodeId r.dstNodeId).all (ids.contains ·) = true := by simpa [hf] using hsight
      simpa using List.all_eq_true.1 hall q hq
    | count op r ids =>
      intro _ q hq
      simpa using List.all_eq_true.1 hsight q hq
    | _ => trivial
  · have hlt : ∀ k e, w.calls k = some e → k < 2 := by
      intro k e he
      by_contra hge
      rw [hn k (by omega)] at he
      cases he
    have hi := hlt i c hc
    have hj' := hlt j d hd
    obtain rfl : j = 1 - i := by omega
    rw [hd] at hidle
    cases hidle

theorem moved_under_job :
    (Lts.run center.step (.idle shared) firedFirst).isSome ∧ ¬ Lts.RunAll center.step (AtRest center) (.idle shared) firedFirst ∧
    (Lts.run center.step (.idle shared) startedBetween).isSome ∧
      ¬ Lts.RunAll center.step (AtRest center) (.idle shared) startedBetween := by decide +kernel

end Route.Running
