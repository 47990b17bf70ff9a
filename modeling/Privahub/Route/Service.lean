import Privahub.Lib.Table
import Privahub.Lib.Utf8

/-!
# Node routes

The rows of `node_route`, the domain routes that the Kuscias hold, and the calls of the node route service
that write both: `CreateRoute`, `Update`, `Delete` and `DeletePair`. How each call to a Kuscia goes is part of
the operation (`Answer`), as is what it reads of the other tables (`Reads`).
-/

namespace Route

structure NodeRouteDO where
  id : Nat
  routeId : Bytes
  srcNodeId : Bytes
  dstNodeId : Bytes
  srcNetAddress : Bytes
  dstNetAddress : Bytes
  deriving DecidableEq

def NodeRouteDO.pair (r : NodeRouteDO) : Bytes × Bytes := (r.srcNodeId, r.dstNodeId)

structure Db where
  routes : List NodeRouteDO
  nextId : Nat
  fresh : ∀ r ∈ routes, r.id < nextId
  ids : (routes.map (·.id)).Nodup
  pairs : (routes.map (·.pair)).Nodup

namespace Db

variable (db : Db)

def findRoute (routeId : Bytes) : Option NodeRouteDO := db.routes.find? fun r => decide (r.routeId = routeId)

def findByPair (src dst : Bytes) : Option NodeRouteDO := db.routes.find? fun r => decide (r.pair = (src, dst))

/-- An insertion, refused by the unique index when the pair is there. -/
def create (routeId src dst srcAddr dstAddr : Bytes) : Option Db :=
  if h : (src, dst) ∈ db.routes.map (·.pair) then none
  else some
    { routes := db.routes ++ [⟨db.nextId, routeId, src, dst, srcAddr, dstAddr⟩]
      nextId := db.nextId + 1
      fresh := by
        intro r hr
        rcases List.mem_append.1 hr with hr | hr
        · exact Nat.lt_succ_of_lt (db.fresh r hr)
        · rw [List.mem_singleton.1 hr]
          exact Nat.lt_succ_self _
      ids := by
        rw [List.map_append, List.nodup_append]
        refine ⟨db.ids, List.nodup_singleton _, ?_⟩
        rintro i hi j hj rfl
        obtain ⟨r, hr, rfl⟩ := List.mem_map.1 hi
        exact absurd (List.mem_singleton.1 hj) (Nat.ne_of_lt (db.fresh r hr))
      pairs := by
        rw [List.map_append, List.nodup_append]
        refine ⟨db.pairs, List.nodup_singleton _, ?_⟩
        rintro p hp q hq rfl
        have hq : p = (src, dst) := List.mem_singleton.1 hq
        exact h (hq ▸ hp) }

def setAddresses (id : Nat) (srcAddr dstAddr : Bytes) : Db :=
  { db with
    routes := Table.updateWhere (fun r => decide (r.id = id)) (fun r => { r with srcNetAddress := srcAddr, dstNetAddress := dstAddr }) db.routes
    fresh := by
      intro r hr
      obtain ⟨r₀, hr₀, rfl⟩ := Table.mem_updateWhere.1 hr
      have hlt := db.fresh r₀ hr₀
      split_ifs <;> exact hlt
    ids := Table.nodup_updateWhere (fun _ => rfl) db.ids
    pairs := Table.nodup_updateWhere (fun _ => rfl) db.pairs }

def deleteWhere (p : NodeRouteDO → Bool) : Db :=
  { db with
    routes := db.routes.filter fun r => !p r
    fresh := fun r hr => db.fresh r (List.mem_filter.1 hr).1
    ids := db.ids.sublist (List.filter_sublist.map _)
    pairs := db.pairs.sublist (List.filter_sublist.map _) }

end Db

structure Endpoint where
  host : Bytes
  port : Nat
  tls : Bool
  deriving DecidableEq

structure DomainRoute where
  kuscia : Nat
  source : Bytes
  destination : Bytes
  endpoint : Endpoint
  deriving DecidableEq

def DomainRoute.key (d : DomainRoute) : Nat × Bytes × Bytes := (d.kuscia, d.source, d.destination)

/-- How a call to Kuscia goes: it is carried out, refused with a status code, fails on the way there, or is
carried out and its answer is lost on the way back. -/
inductive Answer
  | done
  | refused
  | failed
  | lost
  deriving DecidableEq

def Answer.takesEffect : Answer → Bool
  | .done | .lost => true
  | .refused | .failed => false

namespace Kuscia

variable (ds : List DomainRoute) (k : Nat) (src dst : Bytes)

def has : Bool := ds.any fun d => decide (d.key = (k, src, dst))

def DomainRouteExists : Answer → Option Bool
  | .done => some (has ds k src dst)
  | .refused => some false
  | .failed | .lost => none

def DeleteDomainRoute (a : Answer) : Bool × List DomainRoute :=
  (decide (a = .done), if a.takesEffect then ds.filter fun d => !decide (d.key = (k, src, dst)) else ds)

def CreateDomainRoute (endpoint : Endpoint) (a : Answer) : Bool × List DomainRoute :=
  if has ds k src dst then (false, ds)
  else (decide (a = .done), if a.takesEffect then ds ++ [⟨k, src, dst, endpoint⟩] else ds)

end Kuscia

structure Err where
  code : Nat
  key : Bytes
  msg : Bytes
  deriving DecidableEq

namespace Err

def AuthFailed (msg : Bytes) : Err := ⟨202011602, str "auth.AUTH_FAILED", msg⟩
def ParamError (msg : Bytes) : Err := ⟨202011100, str "system.VALIDATION_ERROR", msg⟩
def RouteAlreadyExists : Err := ⟨202012901, str "nodeRoute.NODE_ROUTE_ALREADY_EXISTS", str "route already exists"⟩
def NodeRouteCreateError (msg : Bytes) : Err := ⟨202012902, str "nodeRoute.NODE_ROUTE_CREATE_ERROR", msg⟩
def NodeRouteNotExistError (msg : Bytes) : Err := ⟨202012903, str "nodeRoute.NODE_ROUTE_NOT_EXIST_ERROR", msg⟩
def NodeRouteDeleteError : Err := ⟨202012904, str "nodeRoute.NODE_ROUTE_DELETE_ERROR", []⟩
def NodeRouteUpdateError (msg : Bytes) : Err := ⟨202012905, str "nodeRoute.NODE_ROUTE_UPDATE_ERROR", msg⟩
def NodeRouteSrcNodeAndDestNodeSame : Err := ⟨202012907, str "nodeRoute.SRC_NODE_AND_DEST_NODE_SAME", []⟩
def database : Err := ⟨0, [], str "database error"⟩

end Err

def RouteTypeFullDuplex : Bytes := str "FullDuplex"

def defaultRouteIDs : List Bytes := [str "1", str "2", str "3", str "4", str "5", str "6"]

def RouteIDOf (src dst : Bytes) : Bytes := src ++ str "__" ++ dst

def firstNonEmpty (values : List Bytes) : Bytes := (values.find? fun v => decide (v ≠ [])).getD []

/-- `pool` has the Kuscia that a node's own client talks to, `kusciaClient` that of the platform;
`endpoint` parses a net address. -/
structure Service where
  autonomy : Bool
  pool : Bytes → Option Nat
  kusciaClient : Option Nat
  endpoint : Bytes → Option Endpoint

/-- What a call reads besides the routes: the owner of a user of an EDGE platform, the net addresses of the
nodes, and whether a project that two nodes share has a running job. -/
structure Reads where
  edgeOwner : Option Bytes
  netAddress : Bytes → Option Bytes
  projectJobRunning : Bytes → Bytes → Except Err Bool

/-- The calls to Kuscia of one `createKusciaRoute`. -/
structure Tries where
  query : Answer
  delete : Answer
  create : Answer
  deriving DecidableEq

structure CreateRouteRequest where
  srcNodeId : Bytes
  dstNodeId : Bytes
  srcNetAddress : Bytes
  dstNetAddress : Bytes
  routeType : Bytes

structure UpdateNodeRouterRequest where
  routerId : Bytes
  routerIdAlt : Bytes
  srcNetAddress : Bytes
  dstNetAddress : Bytes
  dstNetAddressAlt : Bytes

structure State where
  db : Db
  domainRoutes : List DomainRoute

abbrev Result := Except Err Unit × State

namespace Service

variable (s : Service)

def kc (channel : Bytes) : Option Nat := ((if channel = [] then none else s.pool channel) <|> s.kusciaClient)

def kusciaSrcDst (route : NodeRouteDO) : Bytes × Bytes × Bytes :=
  if s.autonomy then (route.dstNodeId, route.srcNodeId, route.dstNodeId) else (route.srcNodeId, route.dstNodeId, [])

def createKusciaRoute (t : Tries) (src dst dstNetAddress channel : Bytes) (ds : List DomainRoute) :
    Except Err Unit × List DomainRoute :=
  match s.kc channel with
  | none => (.ok (), ds)
  | some k => match s.endpoint dstNetAddress with
    | none => (.error (.NodeRouteCreateError (str "address format error")), ds)
    | some endpoint => match Kuscia.DomainRouteExists ds k src dst t.query with
      | none => (.error (.NodeRouteCreateError []), ds)
      | some existing =>
        let deleted := if existing then Kuscia.DeleteDomainRoute ds k src dst t.delete else (true, ds)
        if !deleted.1 then (.error (.NodeRouteCreateError []), deleted.2)
        else
          let created := Kuscia.CreateDomainRoute deleted.2 k src dst endpoint t.create
          (if created.1 then .ok () else .error (.NodeRouteCreateError (str "create node router failed.")), created.2)

def transaction (st : State) (db : Db) (r : Except Err Unit × List DomainRoute) : Result :=
  match r.1 with
  | .ok () => (.ok (), ⟨db, r.2⟩)
  | .error e => (.error e, ⟨st.db, r.2⟩)

def addressOf (x : Reads) (given node : Bytes) : Bytes :=
  if given = [] then (x.netAddress node).getD given else given

def createsReverse (db : Db) (req : CreateRouteRequest) : Bool :=
  decide (req.routeType = [] ∨ req.routeType = RouteTypeFullDuplex) && (db.findByPair req.dstNodeId req.srcNodeId).isNone

/-- The Kuscia half of `CreateRoute`. -/
def createInKuscia (x : Reads) (req : CreateRouteRequest) (createReverse : Bool) (reverse forward : Tries) (rollback : Answer)
    (ds : List DomainRoute) : Except Err Unit × List DomainRoute :=
  let srcAddr := addressOf x req.srcNetAddress req.srcNodeId
  let dstAddr := addressOf x req.dstNetAddress req.dstNodeId
  let channel := if s.autonomy then req.srcNodeId else []
  let r₁ := if createReverse then s.createKusciaRoute reverse req.dstNodeId req.srcNodeId srcAddr channel ds else (.ok (), ds)
  match r₁.1 with
  | .error e => (.error e, r₁.2)
  | .ok () =>
    let r₂ := s.createKusciaRoute forward req.srcNodeId req.dstNodeId dstAddr channel r₁.2
    match r₂.1 with
    | .ok () => r₂
    | .error e =>
      -- the route back is taken away again, whatever comes of it
      if createReverse then
        (.error e, ((s.kc channel).map fun k => (Kuscia.DeleteDomainRoute r₂.2 k req.dstNodeId req.srcNodeId rollback).2).getD r₂.2)
      else (.error e, r₂.2)

def createRows (x : Reads) (req : CreateRouteRequest) (createReverse : Bool) (db : Db) : Option Db :=
  let srcAddr := addressOf x req.srcNetAddress req.srcNodeId
  let dstAddr := addressOf x req.dstNetAddress req.dstNodeId
  (db.create (RouteIDOf req.srcNodeId req.dstNodeId) req.srcNodeId req.dstNodeId srcAddr dstAddr).bind fun db' =>
    if createReverse then db'.create (RouteIDOf req.dstNodeId req.srcNodeId) req.dstNodeId req.srcNodeId dstAddr srcAddr else some db'

def CreateRoute (st : State) (x : Reads) (req : CreateRouteRequest) (reverse forward : Tries) (rollback : Answer) : Result :=
  if req.srcNodeId = [] ∨ req.dstNodeId = [] then (.error (.ParamError (str "srcNodeId and dstNodeId are required")), st)
  else if req.srcNodeId = req.dstNodeId then (.error .NodeRouteSrcNodeAndDestNodeSame, st)
  else if (st.db.findByPair req.srcNodeId req.dstNodeId).isSome then (.error .RouteAlreadyExists, st)
  else
    let createReverse := createsReverse st.db req
    match createRows x req createReverse st.db with
    | none => (.error .database, st)
    | some db =>
      if s.kusciaClient.isNone then (.ok (), ⟨db, st.domainRoutes⟩)
      else transaction st db (s.createInKuscia x req createReverse reverse forward rollback st.domainRoutes)

def validateNoRunningJobs (x : Reads) (src dst : Bytes) : Except Err Unit := do
  if ← x.projectJobRunning src dst then throw (.NodeRouteUpdateError (str "cannot update node route while a job is running."))

def checkDataPermissions (x : Reads) (nodeId : Bytes) : Except Err Unit :=
  if x.edgeOwner.any fun o => decide (o ≠ nodeId) then .error (.AuthFailed (str "no Permissions")) else .ok ()

def findRoute (db : Db) (routeId : Bytes) : Except Err NodeRouteDO :=
  ((db.findRoute routeId).map Except.ok).getD (.error (.NodeRouteNotExistError (str "route not exist " ++ routeId)))

/-- What `Update` checks. -/
def updatable (db : Db) (x : Reads) (req : UpdateNodeRouterRequest) : Except Err NodeRouteDO := do
  let routeId := firstNonEmpty [req.routerId, req.routerIdAlt]
  if routeId = [] then throw (.ParamError (str "routerId is required"))
  let route ← findRoute db routeId
  validateNoRunningJobs x route.srcNodeId route.dstNodeId
  checkDataPermissions x route.dstNodeId
  pure route

/-- The addresses that `Update` stores. -/
def newAddresses (x : Reads) (req : UpdateNodeRouterRequest) (route : NodeRouteDO) : Bytes × Bytes :=
  let given := firstNonEmpty [req.dstNetAddress, req.dstNetAddressAlt]
  let src := Utf8.trimSpace req.srcNetAddress
  (if s.autonomy && decide (src ≠ []) then src else addressOf x route.srcNetAddress route.srcNodeId,
    if given = [] then addressOf x route.dstNetAddress route.dstNodeId else given)

def Update (st : State) (x : Reads) (req : UpdateNodeRouterRequest) (t : Tries) : Result :=
  match updatable st.db x req with
  | .error e => (.error e, st)
  | .ok route =>
    let addr := s.newAddresses x req route
    let (src, dst, channel) := s.kusciaSrcDst route
    transaction st (st.db.setAddresses route.id addr.1 addr.2)
      (s.createKusciaRoute t src dst (if s.autonomy then addr.1 else addr.2) channel st.domainRoutes)

/-- What `Delete` checks. -/
def deletable (db : Db) (x : Reads) (routeId : Bytes) : Except Err NodeRouteDO := do
  if routeId ∈ defaultRouteIDs then throw (.ParamError (str "default route can not delete"))
  let route ← findRoute db routeId
  checkDataPermissions x route.dstNodeId
  validateNoRunningJobs x route.srcNodeId route.dstNodeId
  pure route

def deleteInKuscia (k : Option Nat) (src dst : Bytes) (a : Answer) (ds : List DomainRoute) : Except Err Unit × List DomainRoute :=
  match k with
  | none => (.ok (), ds)
  | some k =>
    let r := Kuscia.DeleteDomainRoute ds k src dst a
    (if r.1 then .ok () else .error .NodeRouteDeleteError, r.2)

def Delete (st : State) (x : Reads) (routeId : Bytes) (a : Answer) : Result :=
  match deletable st.db x routeId with
  | .error e => (.error e, st)
  | .ok route =>
    let (src, dst, channel) := s.kusciaSrcDst route
    transaction st (st.db.deleteWhere fun r => decide (r.id = route.id)) (deleteInKuscia (s.kc channel) src dst a st.domainRoutes)

/-- The Kuscia half of `DeletePair`. -/
def deletePairInKuscia (k : Option Nat) (src dst : Bytes) (a b : Answer) (ds : List DomainRoute) :
    Except Err Unit × List DomainRoute :=
  let r := deleteInKuscia k src dst a ds
  match r.1 with
  | .error e => (.error e, r.2)
  | .ok () => deleteInKuscia k dst src b r.2

def DeletePair (st : State) (x : Reads) (src dst : Bytes) (a b : Answer) : Result :=
  if (st.db.findByPair src dst).isNone then (.error (.NodeRouteNotExistError (str "route not found")), st)
  else match validateNoRunningJobs x src dst with
    | .error e => (.error e, st)
    | .ok () => transaction st (st.db.deleteWhere fun r => decide (r.pair = (src, dst) ∨ r.pair = (dst, src)))
        (deletePairInKuscia (s.kc (if s.autonomy then src else [])) src dst a b st.domainRoutes)

end Service

inductive Op
  | createRoute (x : Reads) (req : CreateRouteRequest) (reverse forward : Tries) (rollback : Answer)
  | update (x : Reads) (req : UpdateNodeRouterRequest) (t : Tries)
  | delete (x : Reads) (routeId : Bytes) (a : Answer)
  | deletePair (x : Reads) (src dst : Bytes) (a b : Answer)

def Service.exec (s : Service) (st : State) : Op → Result
  | .createRoute x req reverse forward rollback => s.CreateRoute st x req reverse forward rollback
  | .update x req t => s.Update st x req t
  | .delete x routeId a => s.Delete st x routeId a
  | .deletePair x src dst a b => s.DeletePair st x src dst a b

def Service.step (s : Service) (st : State) (op : Op) : Option State := some (s.exec st op).2

end Route
