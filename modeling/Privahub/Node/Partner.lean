import Privahub.Node.Service

/-!
# Partner nodes

`P2PService.CreateNode`, which stores the node of a partner, creates its domain in Kuscia and has the routes created, with the compensation
`rollbackNode`, and `DeleteNodeRoute`, which deletes both directions and the domain in Kuscia before it deletes rows. How every statement,
commit and call to Kuscia goes is part of a call, as is what is read of votes and jobs.
-/

namespace Node

open Route (Answer DomainRoute NodeRouteDO)

namespace Db

variable (db : Db)

def restoreNode (id : Nat) (f : NodeDO → NodeDO) : Db :=
  { db with nodes := Table.updateWhere (fun n => decide (n.id = id)) (fun n => { f n with isDeleted := false, deletedAt := false }) db.nodes }

def findInst (instId : Bytes) : Option InstDO := db.insts.find? fun i => decide (i.instId = instId)

def insertInst (row : InstDO) : Option Db :=
  if db.insts.any fun i => decide (i.instId = row.instId) then none else some { db with insts := db.insts ++ [row] }

def renameInst (instId name : Bytes) : Db :=
  { db with insts := Table.updateWhere (fun i => decide (i.instId = instId)) (fun i => { i with name := name }) db.insts }

end Db

structure P2PCreateNodeRequest where
  name : Bytes
  mode : Option Int
  masterNodeId : Bytes
  certText : Bytes
  dstNodeId : Bytes
  srcNetAddress : Bytes
  srcNodeId : Bytes
  dstNetAddress : Bytes
  dstInstId : Bytes
  dstInstName : Bytes

/-- `kuscia` has the Kuscia of a channel, `routes` is the node route service; `validate` is the check of the request by itself. -/
structure P2PService where
  platformNodeId : Bytes
  kuscia : Option (Bytes → Nat)
  routes : Option Route.Service
  validate : P2PCreateNodeRequest → Option Err

/-- How the creation of a partner goes. `ownCert` is the certificate of the platform's own domain, empty if Kuscia does not tell it. -/
structure PartnerCreation where
  userPlatformNode : Bytes
  ownCert : Bytes
  findNode : Bool
  storeNode : Bool
  storePermission : Bool
  findInst : Bool
  storeInst : Bool
  renameInst : Bool
  domain : Answer
  commits : Bool
  findAddresses : Bool
  storeRoutes : Bool
  reverse : Route.Tries
  forward : Route.Tries
  rollbackRoute : Answer
  commitsRoutes : Bool
  rollbackNode : Bool
  rollbackPermission : Bool
  rollbackDomain : Answer

namespace P2PService

variable (s : P2PService)

def self (x : PartnerCreation) : Bytes := if x.userPlatformNode = [] then s.platformNodeId else x.userPlatformNode

/-- What `CreateNode` checks before its transaction. -/
def check (req : P2PCreateNodeRequest) (x : PartnerCreation) : Except Err Unit :=
  match s.validate req with
  | some e => .error e
  | none =>
    if req.dstNetAddress ≠ [] ∧ req.srcNetAddress = req.dstNetAddress then .error .NodeRouteConfigError
    else if s.self x = req.dstNodeId then .error .NodeCertConfigError
    else if s.kuscia.isSome ∧ x.ownCert ≠ [] ∧ x.ownCert = req.certText then .error .NodeCertConfigError
    else .ok ()

def failInDb (nodeId msg : Bytes) : Err := .NodeCreateError (nodeId ++ str " node create fail in db :" ++ msg)

def orMaster (m : Bytes) : Bytes := if m = [] then str "master" else m

def storeNode (db : Db) (req : P2PCreateNodeRequest) (x : PartnerCreation) : Except Err Db :=
  let master := Route.firstNonEmpty [req.masterNodeId, s.self x]
  let mode := req.mode.getD 0
  match if x.findNode then db.findUnscoped req.dstNodeId else none with
  | some node =>
    if node.deletedAt || node.isDeleted then
      statement x.storeNode (failInDb req.dstNodeId (str "database error")) (some (db.restoreNode node.id fun n =>
        { n with name := req.name, mode := mode, masterNodeId := master, netAddress := req.dstNetAddress, instId := req.dstInstId }))
    else .error (failInDb req.dstNodeId (str " node already exists"))
  | none => statement x.storeNode (failInDb req.dstNodeId (str "database error")) (db.insertNode
      ⟨0, req.dstNodeId, req.name, req.dstNodeId, req.dstNetAddress, nodeTypeNormal, mode, orMaster master, req.dstInstId, false, false⟩)

/-- `FirstOrCreate`. -/
def storePermission (db : Db) (nodeId : Bytes) (goes : Bool) : Except Err Db :=
  statement goes .database (if db.hasPermission nodeId RoleP2PNode then some db
    else db.insertPermission ⟨PermissionUserTypeNode, nodeId, str "ROLE", RoleP2PNode⟩)

def storeInst (db : Db) (req : P2PCreateNodeRequest) (x : PartnerCreation) : Except Err Db :=
  if req.dstInstId = [] then .ok db
  else match if x.findInst then db.findInst req.dstInstId else none with
    | none => statement x.storeInst .database (db.insertInst ⟨req.dstInstId, req.dstInstName⟩)
    | some inst => .ok (if req.dstInstName ≠ [] ∧ inst.name ≠ req.dstInstName ∧ x.renameInst then db.renameInst req.dstInstId req.dstInstName else db)

/-- The database in the transaction of `CreateNode`. -/
def prepare (db : Db) (req : P2PCreateNodeRequest) (x : PartnerCreation) : Except Err Db := do
  s.check req x
  let db ← s.storeNode db req x
  let db ← storePermission db req.dstNodeId x.storePermission
  storeInst db req x

def routeRequest (req : P2PCreateNodeRequest) : Route.CreateRouteRequest :=
  ⟨req.srcNodeId, req.dstNodeId, req.srcNetAddress, req.dstNetAddress, []⟩

/-- What `CreateRoute` reads of the nodes. -/
def reads (db : Db) (x : PartnerCreation) : Route.Reads :=
  ⟨none, fun n => if x.findAddresses then (db.findNode n).map (·.netAddress) else none, fun _ _ => .ok false⟩

/-- `NodeRouteService.CreateRoute`, whose rows may not be stored or not be committed. -/
def createRoute (rs : Route.Service) (st : State) (req : P2PCreateNodeRequest) (x : PartnerCreation) : Except Err Unit × State :=
  if !x.storeRoutes then (.error .database, st)
  else
    let r := rs.CreateRoute ⟨st.db.routes, st.domainRoutes⟩ (reads st.db x) (routeRequest req) x.reverse x.forward x.rollbackRoute
    match r.1 with
    | .error e => (.error ⟨e.code, e.key, e.msg⟩, { st with domainRoutes := r.2.domainRoutes })
    | .ok () =>
      if x.commitsRoutes then (.ok (), { st with db := { st.db with routes := r.2.db }, domainRoutes := r.2.domainRoutes })
      else (.error .database, { st with domainRoutes := r.2.domainRoutes })

/-- The compensation of a failed route creation; its own failures are ignored. -/
def rollbackNode (st : State) (channel nodeId : Bytes) (x : PartnerCreation) : State :=
  let db := if x.rollbackNode then st.db.deleteNodes nodeId else st.db
  { st with
    db := if x.rollbackPermission then db.deletePermission nodeId RoleP2PNode else db
    domains := match s.kuscia with
      | none => st.domains
      | some f => (Kuscia.DeleteDomain st.domains (f channel) nodeId x.rollbackDomain).2 }

def partnerDomain (f : Bytes → Nat) (req : P2PCreateNodeRequest) : Domain :=
  ⟨f req.srcNodeId, req.dstNodeId, str "partner", req.certText, str "RSA-GEN"⟩

def CreateNode (st : State) (req : P2PCreateNodeRequest) (x : PartnerCreation) : Except Err Bytes × State :=
  match s.prepare st.db req x with
  | .error e => (.error e, st)
  | .ok db =>
    let r := match s.kuscia with
      | none => (true, st.domains)
      | some f => Kuscia.CreateDomain st.domains (partnerDomain f req) x.domain
    if !r.1 then (.error (.NodeCreateError (req.dstNodeId ++ str " node create fail in kuscia :")), { st with domains := r.2 })
    else if !x.commits then (.error .database, { st with domains := r.2 })
    else
      let st₁ := { st with db := db, domains := r.2 }
      match s.routes with
      | none => (.ok req.dstNodeId, st₁)
      | some rs =>
        let c := createRoute rs st₁ req x
        match c.1 with
        | .ok () => (.ok req.dstNodeId, c.2)
        | .error e => (.error e, s.rollbackNode c.2 req.srcNodeId req.dstNodeId x)

end P2PService

structure Direction where
  query : Answer
  delete : Answer
  deriving DecidableEq

/-- How a deletion goes. `partiesUnderReview` are the parties of all votes on the creation of projects under review, `runningJobs` is what
`validateNoRunningJobs` returns, `inst` the institution of the platform. -/
structure RouteDeletion where
  findRoute : Bool
  partiesUnderReview : List Bytes
  runningJobs : Except Err Unit
  inst : Bytes
  findMine : Bool
  there : Direction
  back : Direction
  domain : Answer
  deleteRoute : Bool
  countOthers : Bool
  deleteNode : Bool
  deletePermission : Bool
  commits : Bool

namespace P2PService

variable (s : P2PService)

def channelNodeID (db : Db) (route : NodeRouteDO) (x : RouteDeletion) : Except Err Bytes :=
  let mine := if x.inst ≠ [] ∧ x.findMine then db.nodes.filter fun n => decide (n.instId = x.inst) && !n.deletedAt else []
  if mine.any fun n => decide (n.nodeId = route.srcNodeId) then .ok route.srcNodeId
  else if mine.any fun n => decide (n.nodeId = route.dstNodeId) then .ok route.dstNodeId
  else if s.platformNodeId = route.srcNodeId ∨ s.platformNodeId = route.dstNodeId then .ok s.platformNodeId
  else .error (.NodeNotExistError (str "Both nodes--> sourceNode " ++ route.srcNodeId ++ str " and destNode " ++ route.dstNodeId ++
    str " are not within the inst"))

/-- The route of a deletion, and the channel on which it calls Kuscia. -/
def deletable (db : Db) (routerId : Bytes) (x : RouteDeletion) : Except Err (NodeRouteDO × Bytes) := do
  let route ← statement (x.findRoute && decide (routerId ≠ [])) (.NodeRouteNotExistError (str "route not exist " ++ routerId))
    (db.routes.findRoute routerId)
  if route.srcNodeId ∈ x.partiesUnderReview then throw (.NodeDeleteError (str "node have project reviewing"))
  x.runningJobs
  let channel ← s.channelNodeID db route x
  pure (route, channel)

def deleteDirection (ds : List DomainRoute) (k : Nat) (src dst : Bytes) (t : Direction) : Bool × List DomainRoute :=
  if Route.Kuscia.DomainRouteExists ds k src dst t.query = some true then Route.Kuscia.DeleteDomainRoute ds k src dst t.delete else (true, ds)

def deleteInKuscia (st : State) (k : Nat) (route : NodeRouteDO) (x : RouteDeletion) : Except Err Unit × State :=
  let r₁ := deleteDirection st.domainRoutes k route.srcNodeId route.dstNodeId x.there
  if !r₁.1 then (.error .NodeRouteDeleteError, { st with domainRoutes := r₁.2 })
  else
    let r₂ := deleteDirection r₁.2 k route.dstNodeId route.srcNodeId x.back
    if !r₂.1 then (.error .NodeRouteDeleteError, { st with domainRoutes := r₂.2 })
    else
      let d := Kuscia.DeleteDomain st.domains k route.srcNodeId x.domain
      (if d.1 = .ok then .ok () else .error (.NodeDeleteError []), { st with domains := d.2, domainRoutes := r₂.2 })

def lastRoute (routes : List NodeRouteDO) (routerId src : Bytes) (x : RouteDeletion) : Bool :=
  !x.countOthers || !routes.any fun r => decide (r.routeId ≠ routerId ∧ r.srcNodeId = src)

def deleteRows (db : Db) (routerId src : Bytes) (x : RouteDeletion) : Option Db :=
  let db₁ : Db := { db with routes := db.routes.deleteWhere fun r => decide (r.routeId = routerId) }
  if !x.deleteRoute then none
  else if !lastRoute db.routes.routes routerId src x then if x.commits then some db₁ else none
  else if x.deleteNode && x.deletePermission && x.commits then some ((db₁.deleteNodes src).deletePermission src RoleP2PNode)
  else none

def DeleteNodeRoute (st : State) (routerId : Bytes) (x : RouteDeletion) : Except Err Unit × State :=
  match s.deletable st.db routerId x with
  | .error e => (.error e, st)
  | .ok (route, channel) =>
    let r : Except Err Unit × State := match s.kuscia with
      | none => (.ok (), st)
      | some f => deleteInKuscia st (f channel) route x
    match r.1 with
    | .error e => (.error e, r.2)
    | .ok () => match deleteRows st.db routerId route.srcNodeId x with
      | none => (.error .database, r.2)
      | some db => (.ok (), { r.2 with db := db })

end P2PService

inductive P2POp
  | create (req : P2PCreateNodeRequest) (x : PartnerCreation)
  | deleteRoute (routerId : Bytes) (x : RouteDeletion)

end Node
