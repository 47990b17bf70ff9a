import Privahub.Route.Service

/-!
# Nodes

The rows of a node in the database (its own, its permission, its account, its routes), the domains and domain routes of the Kuscias, and
`CreateNode` and `DeleteNode` of the node service. How every statement, every commit and every call to Kuscia goes is part of a call, and
so is what a deletion reads of projects and votes. A transaction that fails leaves the database as it was; what Kuscia did stays.
-/

namespace Node

open Route (Answer DomainRoute NodeRouteDO)

structure NodeDO where
  id : Nat
  nodeId : Bytes
  name : Bytes
  controlNodeId : Bytes
  netAddress : Bytes
  type : Bytes
  mode : Int
  masterNodeId : Bytes
  instId : Bytes
  isDeleted : Bool
  deletedAt : Bool
  deriving DecidableEq

structure SysUserPermissionRelDO where
  userType : Bytes
  userKey : Bytes
  targetType : Bytes
  targetCode : Bytes
  deriving DecidableEq

structure UserAccountsDO where
  name : Bytes
  passwordHash : Bytes
  ownerType : Bytes
  ownerId : Bytes
  mustChangePassword : Bool
  deriving DecidableEq

structure SysUserNodeRelDO where
  userId : Bytes
  nodeId : Bytes
  deriving DecidableEq

structure InstDO where
  instId : Bytes
  name : Bytes
  deriving DecidableEq

structure Db where
  nodes : List NodeDO
  permissions : List SysUserPermissionRelDO
  accounts : List UserAccountsDO
  userNodes : List SysUserNodeRelDO
  insts : List InstDO
  routes : Route.Db
  nextNode : Nat

structure Domain where
  kuscia : Nat
  domainId : Bytes
  role : Bytes
  cert : Bytes
  tokenGenMethod : Bytes
  deriving DecidableEq

structure State where
  db : Db
  domains : List Domain
  domainRoutes : List DomainRoute

namespace Db

variable (db : Db)

def findNode (nodeId : Bytes) : Option NodeDO := db.nodes.find? fun n => decide (n.nodeId = nodeId) && !n.deletedAt

def findUnscoped (nodeId : Bytes) : Option NodeDO := db.nodes.find? fun n => decide (n.nodeId = nodeId)

def insertNode (row : NodeDO) : Option Db :=
  if db.nodes.any fun n => decide (n.nodeId = row.nodeId) then none
  else some { db with nodes := db.nodes ++ [{ row with id := db.nextNode }], nextNode := db.nextNode + 1 }

def hasPermission (userKey targetCode : Bytes) : Bool := db.permissions.any fun p => decide (p.userKey = userKey ∧ p.targetCode = targetCode)

def insertPermission (row : SysUserPermissionRelDO) : Option Db :=
  if db.hasPermission row.userKey row.targetCode then none else some { db with permissions := db.permissions ++ [row] }

def insertAccount (row : UserAccountsDO) : Db := { db with accounts := db.accounts ++ [row] }

def insertUserNode (row : SysUserNodeRelDO) : Option Db :=
  if row ∈ db.userNodes then none else some { db with userNodes := db.userNodes ++ [row] }

def deletePermission (userKey targetCode : Bytes) : Db :=
  { db with permissions := db.permissions.filter fun p => !decide (p.userKey = userKey ∧ p.targetCode = targetCode) }

/-- `tx.Delete(&NodeDO{}, id)`. -/
def softDeleteNode (id : Nat) : Db :=
  { db with nodes := Table.updateWhere (fun n => decide (n.id = id) && !n.deletedAt) (fun n => { n with deletedAt := true }) db.nodes }

def deleteNodes (nodeId : Bytes) : Db := { db with nodes := db.nodes.filter fun n => !decide (n.nodeId = nodeId) }

def deleteRoutesOf (nodeId : Bytes) : Db :=
  { db with routes := db.routes.deleteWhere fun r => decide (r.srcNodeId = nodeId ∨ r.dstNodeId = nodeId) }

def routesOf (nodeId : Bytes) : List NodeRouteDO := db.routes.routes.filter fun r => decide (r.srcNodeId = nodeId ∨ r.dstNodeId = nodeId)

end Db

namespace Kuscia

variable (ds : List Domain) (k : Nat) (domainId : Bytes)

def has : Bool := ds.any fun d => decide (d.kuscia = k ∧ d.domainId = domainId)

def DomainExists : Answer → Option Bool
  | .done => some (has ds k domainId)
  | .refused => some false
  | .failed | .lost => none

def CreateDomain (d : Domain) (a : Answer) : Bool × List Domain :=
  if has ds d.kuscia d.domainId then (false, ds) else (decide (a = .done), if a.takesEffect then ds ++ [d] else ds)

inductive DeleteResult
  | ok
  | notFound
  | failed
  deriving DecidableEq

def DeleteDomain (a : Answer) : DeleteResult × List Domain :=
  (if a = .done then if has ds k domainId then .ok else .notFound else .failed,
    if a.takesEffect then ds.filter fun d => !decide (d.kuscia = k ∧ d.domainId = domainId) else ds)

end Kuscia

structure Err where
  code : Nat
  key : Bytes
  msg : Bytes
  deriving DecidableEq

namespace Err

def ParamError (msg : Bytes) : Err := ⟨202011100, str "system.VALIDATION_ERROR", msg⟩
def SystemValidationError (msg : Bytes) : Err := ⟨202011100, str "system.VALIDATION_ERROR", msg⟩
def NodeCreateError (msg : Bytes) : Err := ⟨202011402, str "node.NODE_CREATE_ERROR", msg⟩
def NodeNotExistError (msg : Bytes) : Err := ⟨202011403, str "node.NODE_NOT_EXIST_ERROR", msg⟩
def NodeDeleteError (msg : Bytes) : Err := ⟨202011404, str "node.NODE_DELETE_ERROR", msg⟩
def NodeCertConfigError : Err := ⟨202011409, str "node.NODE_CERT_CONFIG_ERROR", []⟩
def NodeRouteNotExistError (msg : Bytes) : Err := ⟨202012903, str "nodeRoute.NODE_ROUTE_NOT_EXIST_ERROR", msg⟩
def NodeRouteDeleteError : Err := ⟨202012904, str "nodeRoute.NODE_ROUTE_DELETE_ERROR", []⟩
def NodeRouteConfigError : Err := ⟨202012906, str "nodeRoute.NODE_ROUTE_CONFIG_ERROR", []⟩
def ErrNodeNotFound : Err := NodeNotExistError (str "node not found")
def database : Err := ⟨0, [], str "database error"⟩

end Err

def statement {α : Type} (goes : Bool) (e : Err) (r : Option α) : Except Err α := if goes then (r.map Except.ok).getD (.error e) else .error e

def nodeTypeNormal : Bytes := str "normal"
def nodeTypeEmbedded : Bytes := str "embedded"
def nodeUserInitPwdSuffix : Bytes := str "12#$qwER"
def RoleEdgeNode : Bytes := str "EDGE_NODE"
def RoleP2PNode : Bytes := str "P2P_NODE"
def RoleEdgeUser : Bytes := str "EDGE_USER"
def PermissionUserTypeNode : Bytes := str "NODE"
def PermissionUserTypeEdgeUser : Bytes := str "EDGE_USER"
def OwnerTypeEdge : Bytes := str "EDGE"
def projectStatusReviewing : Int := 0

/-- `HashPassword` is hexadecimal, so that it is the hash a client would send. -/
structure NodeService where
  autonomy : Bool
  kusciaClient : Option Nat
  hashPassword : Bytes → Bytes
  isWeakPasswordHash : Bytes → Bool

structure CreateNodeRequest where
  name : Bytes
  mode : Int

inductive Statement
  | countId (i : Nat)
  | insertNode
  | insertPermission
  | countNode
  | countName
  | insertUser
  | insertUserRole
  | insertUserNode
  deriving DecidableEq

/-- How a creation goes: the ids it draws, its statements, the salted hash of the password, the call to Kuscia, the commit. -/
structure Creation where
  draws : List Bytes
  drawn : draws.length = 10 ∧ ∀ id ∈ draws, id.length = 8
  goes : Statement → Bool
  hashClientPassword : Bytes → Option Bytes
  domain : Answer
  commits : Bool

namespace NodeService

variable (s : NodeService)

def newUniqueNodeID (db : Db) (x : Creation) : Nat → List Bytes → Except Err Bytes
  | _, [] => .error (.NodeCreateError (str "cannot allocate node id"))
  | i, id :: rest =>
    if !x.goes (.countId i) then .error .database
    else if db.nodes.any fun n => decide (n.nodeId = id) then newUniqueNodeID db x (i + 1) rest
    else .ok id

/-- `NodeUserService.Create` with the initial password. -/
def createNodeUser (db : Db) (x : Creation) (nodeId : Bytes) : Except Err Db := do
  let clientHash := s.hashPassword (nodeId ++ nodeUserInitPwdSuffix)
  if nodeId = [] ∨ clientHash = [] then throw (.NodeCreateError (str "invalid parameter"))
  if s.isWeakPasswordHash clientHash then throw (.NodeCreateError (str "password too weak"))
  if !x.goes .countNode then throw (.NodeCreateError (str "database error"))
  if (db.findNode nodeId).isNone then throw (.NodeCreateError (str "node does not exist"))
  if !x.goes .countName then throw (.NodeCreateError (str "database error"))
  if db.accounts.any fun a => decide (a.name = nodeId) then throw (.NodeCreateError (str "node user already exists"))
  let passwordHash ← ((x.hashClientPassword clientHash).map Except.ok).getD (.error (.NodeCreateError (str "auth: generate password salt")))
  let db ← statement (x.goes .insertUser) (.NodeCreateError (str "database error"))
    (some (db.insertAccount ⟨nodeId, passwordHash, OwnerTypeEdge, nodeId, true⟩))
  let db ← statement (x.goes .insertUserRole) (.NodeCreateError (str "database error"))
    (db.insertPermission ⟨PermissionUserTypeEdgeUser, nodeId, str "ROLE", RoleEdgeUser⟩)
  statement (x.goes .insertUserNode) (.NodeCreateError (str "database error")) (db.insertUserNode ⟨nodeId, nodeId⟩)

/-- What `CreateNode` does before it calls Kuscia: the id of the node, and the database in the transaction. -/
def prepare (db : Db) (req : CreateNodeRequest) (x : Creation) : Except Err (Bytes × Db) := do
  if Utf8.trimSpace req.name = [] then throw (.ParamError (str "name is required"))
  let id ← newUniqueNodeID db x 0 x.draws
  let db ← statement (x.goes .insertNode) (.NodeCreateError (str "database error"))
    (db.insertNode ⟨0, id, req.name, id, id ++ str ":1080", nodeTypeNormal, req.mode, str "master", [], false, false⟩)
  let db ← statement (x.goes .insertPermission) (.NodeCreateError (str "database error"))
    (db.insertPermission ⟨PermissionUserTypeNode, id, str "ROLE", RoleEdgeNode⟩)
  let db ← s.createNodeUser db x id
  pure (id, db)

def CreateNode (st : State) (req : CreateNodeRequest) (x : Creation) : Except Err Bytes × State :=
  match s.prepare st.db req x with
  | .error e => (.error e, st)
  | .ok (id, db) =>
    let r := match s.kusciaClient with
      | none => (true, st.domains)
      | some k => Kuscia.CreateDomain st.domains ⟨k, id, [], [], str "UID-RSA-GEN"⟩ x.domain
    if !r.1 then (.error (.NodeCreateError (str "kuscia: create domain failed")), { st with domains := r.2 })
    else if x.commits then (.ok id, { st with db := db, domains := r.2 })
    else (.error .database, { st with domains := r.2 })

end NodeService

structure ParticipantNodeInst where
  initiatorNodeId : Bytes
  invitees : List Bytes
  deriving DecidableEq

/-- `parties` is the JSON text of the institutions; `participantNodeInfo` is parsed. -/
structure ProjectApprovalConfigDO where
  type : Bytes
  projectId : Bytes
  parties : Bytes
  participantNodeInfo : List ParticipantNodeInst
  deriving DecidableEq

def ProjectApprovalConfigDO.nodes (c : ProjectApprovalConfigDO) : List Bytes :=
  c.participantNodeInfo.flatMap fun p => p.initiatorNodeId :: p.invitees

/-- What a deletion reads of projects and votes: members as project and node, and projects with their status. -/
structure Projects where
  members : List (Bytes × Bytes)
  statuses : List (Bytes × Int)
  configs : List ProjectApprovalConfigDO

/-- How a deletion goes. `deleteRows` stands for the three statements of its transaction. -/
structure Deletion where
  findNode : Bool
  domainExists : Answer
  projects : Projects
  countMembers : Bool
  findConfigs : Bool
  findRoutes : Bool
  deleteRows : Bool
  route : NodeRouteDO → Answer
  domain : Answer
  commits : Bool

namespace Projects

variable (p : Projects)

/-- The votes on the creation of a project that is under review. -/
def reviewing : List ProjectApprovalConfigDO :=
  p.configs.filter fun c => decide (c.type = str "PROJECT_CREATE") && p.statuses.any fun q => decide (q = (c.projectId, projectStatusReviewing))

end Projects

namespace NodeService

variable (s : NodeService)

/-- `strings.Contains(c.Parties, nodeID)`. -/
def nodeInReviewingProject (p : Projects) (nodeId : Bytes) : Bool := p.reviewing.any fun c => decide (nodeId <:+: c.parties)

def checkNodeNotInUse (x : Deletion) (nodeId : Bytes) : Except Err Unit :=
  if !x.countMembers then .error .database
  else if x.projects.members.any fun m => decide (m.2 = nodeId) then .error (.NodeDeleteError (str "node have job running"))
  else if !s.autonomy then .ok ()
  else if !x.findConfigs then .error .database
  else if nodeInReviewingProject x.projects nodeId then .error (.NodeDeleteError (str "node have project reviewing"))
  else .ok ()

def roleCode : Bytes := if s.autonomy then RoleP2PNode else RoleEdgeNode

def withoutNode (db : Db) (node : NodeDO) : Db := ((db.softDeleteNode node.id).deleteRoutesOf node.nodeId).deletePermission node.nodeId s.roleCode

def deleteInKuscia (st : State) (k : Nat) (nodeId : Bytes) (x : Deletion) : Kuscia.DeleteResult × State :=
  let routes := if x.findRoutes then st.db.routesOf nodeId else []
  let ds := routes.foldl (fun ds r => (Route.Kuscia.DeleteDomainRoute ds k r.srcNodeId r.dstNodeId (x.route r)).2) st.domainRoutes
  let r := Kuscia.DeleteDomain st.domains k nodeId x.domain
  (r.1, { st with domains := r.2, domainRoutes := ds })

/-- Whether the deletion goes on: `false` for a domain that Kuscia says it does not have. -/
def domainThere (st : State) (nodeId : Bytes) (a : Answer) : Except Err Bool :=
  match s.kusciaClient with
  | none => .ok true
  | some k => ((Kuscia.DomainExists st.domains k nodeId a).map Except.ok).getD (.error (.NodeDeleteError []))

def findDeletable (db : Db) (nodeId : Bytes) (x : Deletion) : Except Err NodeDO := do
  let node ← statement x.findNode .ErrNodeNotFound (db.findNode nodeId)
  if node.type = nodeTypeEmbedded then throw (.SystemValidationError (str "default node can not delete"))
  pure node

def DeleteNode (st : State) (nodeId : Bytes) (x : Deletion) : Except Err Unit × State :=
  match findDeletable st.db nodeId x with
  | .error e => (.error e, st)
  | .ok node => match s.domainThere st nodeId x.domainExists with
    | .error e => (.error e, st)
    | .ok false =>
      if x.deleteRows && x.commits then (.ok (), { st with db := s.withoutNode st.db node }) else (.error .database, st)
    | .ok true => match s.checkNodeNotInUse x nodeId with
      | .error e => (.error e, st)
      | .ok () =>
        if !x.deleteRows then (.error .database, st)
        else
          let r := match s.kusciaClient with
            | none => (Kuscia.DeleteResult.ok, st)
            | some k => deleteInKuscia st k nodeId x
          if r.1 = .failed then (.error (.NodeDeleteError []), r.2)
          else if x.commits then (.ok (), { r.2 with db := s.withoutNode st.db node })
          else (.error .database, r.2)

end NodeService

inductive Op
  | create (req : CreateNodeRequest) (x : Creation)
  | delete (nodeId : Bytes) (x : Deletion)

def NodeService.step (s : NodeService) (st : State) : Op → Option State
  | .create req x => some (s.CreateNode st req x).2
  | .delete nodeId x => some (s.DeleteNode st nodeId x).2

end Node
