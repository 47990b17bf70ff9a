import Privahub.Lib.Calls
import Privahub.Lib.Table
import Privahub.Lib.Unicode

/-!
# The calls of `GraphService` that update a graph

`RefreshNodeMaxIndex`, `UpdateGraphMeta`, `UpdateGraphNode` and `FullUpdateGraph` over the rows of the
graph, its nodes and its datasource bindings. Each call reads the graph row first; `Call.run` is the
next statement with what the code does up to the following one, and a call writes only in its last
statement (`FullUpdateGraph` in one transaction). `Db` carries the unique indexes; a statement that
would break one fails.
-/

namespace Graph

structure ProjectGraphDO where
  id : Int
  projectId : Bytes
  graphId : Bytes
  name : Bytes
  edges : Bytes
  ownerId : Bytes
  nodeMaxIndex : Int64
  maxParallelism : Int
  deriving DecidableEq

structure ProjectGraphNodeDO where
  id : Int
  projectId : Bytes
  graphId : Bytes
  graphNodeId : Bytes
  codeName : Bytes
  label : Bytes
  x : Int
  y : Int
  inputs : Bytes
  outputs : Bytes
  nodeDef : Bytes
  deriving DecidableEq

structure ProjectGraphDomainDatasourceDO where
  projectId : Bytes
  graphId : Bytes
  domainId : Bytes
  datasourceId : Bytes
  datasourceName : Bytes
  editEnable : Option Bool
  deriving DecidableEq

def ProjectGraphDO.key (g : ProjectGraphDO) : Bytes × Bytes := (g.projectId, g.graphId)

def ProjectGraphNodeDO.key (n : ProjectGraphNodeDO) : Bytes × Bytes × Bytes := (n.projectId, n.graphId, n.graphNodeId)

def ProjectGraphDomainDatasourceDO.key (d : ProjectGraphDomainDatasourceDO) : Bytes × Bytes × Bytes :=
  (d.projectId, d.graphId, d.domainId)

/-- `nextNode` is the next primary key of `project_graph_node`. -/
structure Db where
  graphs : List ProjectGraphDO
  nodes : List ProjectGraphNodeDO
  bindings : List ProjectGraphDomainDatasourceDO
  nextNode : Int
  graph_ids : (graphs.map (·.id)).Nodup
  graph_keys : (graphs.map (·.key)).Nodup
  node_ids : (nodes.map (·.id)).Nodup
  node_keys : (nodes.map (·.key)).Nodup
  binding_keys : (bindings.map (·.key)).Nodup

namespace Db

variable (db : Db)

def findGraph (projectId graphId : Bytes) : Option ProjectGraphDO := db.graphs.find? fun g => decide (g.key = (projectId, graphId))

def findNode (projectId graphId graphNodeId : Bytes) : Option ProjectGraphNodeDO :=
  db.nodes.find? fun n => decide (n.key = (projectId, graphId, graphNodeId))

def findBinding (projectId graphId domainId : Bytes) : Option ProjectGraphDomainDatasourceDO :=
  db.bindings.find? fun d => decide (d.key = (projectId, graphId, domainId))

def setGraphs (gs : List ProjectGraphDO) : Option Db :=
  if h : (gs.map (·.id)).Nodup ∧ (gs.map (·.key)).Nodup then
    some { db with graphs := gs, graph_ids := h.1, graph_keys := h.2 }
  else none

def setNodes (ns : List ProjectGraphNodeDO) (next : Int) : Option Db :=
  if h : (ns.map (·.id)).Nodup ∧ (ns.map (·.key)).Nodup then
    some { db with nodes := ns, nextNode := next, node_ids := h.1, node_keys := h.2 }
  else none

def setBindings (ds : List ProjectGraphDomainDatasourceDO) : Option Db :=
  if h : (ds.map (·.key)).Nodup then some { db with bindings := ds, binding_keys := h } else none

/-- `Save` of a graph row: every column of the row with that primary key; a row that is gone is inserted. -/
def saveGraph (g : ProjectGraphDO) : Option Db :=
  if db.graphs.any fun r => decide (r.id = g.id) then
    db.setGraphs (Table.updateWhere (fun r => decide (r.id = g.id)) (fun _ => g) db.graphs)
  else db.setGraphs (db.graphs ++ [g])

def deleteNodes (projectId graphId : Bytes) : Db :=
  { db with
    nodes := db.nodes.filter fun n => !decide (n.projectId = projectId ∧ n.graphId = graphId)
    node_ids := db.node_ids.sublist (List.filter_sublist.map _)
    node_keys := db.node_keys.sublist (List.filter_sublist.map _) }

/-- `saveGraphDatasource`. -/
def saveBinding (d : ProjectGraphDomainDatasourceDO) : Option Db :=
  if db.bindings.any fun r => decide (r.key = d.key) then
    db.setBindings (Table.updateWhere (fun r => decide (r.key = d.key)) (fun _ => d) db.bindings)
  else db.setBindings (db.bindings ++ [d])

end Db

inductive Err
  | pad (code : Nat) (message : Bytes) (args : List Bytes)
  | db (text : Bytes)
  deriving DecidableEq

namespace Err

def GraphNotExists : Err := pad 202011702 (str "graph.GRAPH_NOT_EXISTS") []
def GraphNodeNotExists (args : List Bytes) : Err := pad 202011704 (str "graph.GRAPH_NODE_NOT_EXISTS") args
def GraphNotOwnerCannotUpdate : Err := pad 202011712 (str "graph.GRAPH_NOT_OWNER_CANNOT_UPDATE") []
def GraphNonOurCreationCanViewed : Err := pad 202011713 (str "graph.NON_OUR_CREATION_CAN_VIEWED") []
def SystemValidationError (msg : Bytes) : Err := pad 202011100 (str "system.VALIDATION_ERROR") [msg]

end Err

structure GraphEdge where
  edgeId : Bytes
  source : Bytes
  sourceAnchor : Bytes
  target : Bytes
  targetAnchor : Bytes

structure GraphNodeInfo where
  codeName : Bytes
  graphNodeId : Bytes
  label : Bytes
  x : Int
  y : Int
  inputs : List Bytes
  outputs : List Bytes
  nodeDef : Bytes

structure GraphDataSourceConfig where
  nodeId : Bytes
  dataSourceId : Bytes

structure Operator where
  ownerId : Bytes
  ownerType : Bytes

structure RefreshNodeMaxIndexRequest where
  projectId : Bytes
  graphId : Bytes
  currentIndex : Option Int64

structure UpdateGraphMetaRequest where
  projectId : Bytes
  graphId : Bytes
  name : Bytes
  operator : Operator

structure UpdateGraphNodeRequest where
  projectId : Bytes
  graphId : Bytes
  node : Option GraphNodeInfo
  operator : Operator

/-- The request, with what the rows of other tables and Kuscia say while it is handled: the nodes its
operator controls, and the datasources (id and name) of a node. -/
structure FullUpdateGraphRequest where
  projectId : Bytes
  graphId : Bytes
  nodes : Option (List GraphNodeInfo)
  edges : Option (List GraphEdge)
  maxParallelism : Option Int
  dataSourceConfig : List GraphDataSourceConfig
  operator : Operator
  controlNodeIDs : List Bytes
  domainDataSources : Bytes → Except Bytes (List (Bytes × Bytes))

inductive Request
  | refreshNodeMaxIndex (req : RefreshNodeMaxIndexRequest)
  | updateGraphMeta (req : UpdateGraphMetaRequest)
  | updateGraphNode (req : UpdateGraphNodeRequest)
  | fullUpdateGraph (req : FullUpdateGraphRequest)

/-- `MaxIndex` of the answer, `none` for the calls without one. -/
abbrev Result := Option Int64

/-- The texts stored for edges, lists of strings and node definitions, and what the database makes of the
`Save` of a node row that is gone. -/
structure GraphService where
  edgesJSON : List GraphEdge → Bytes
  jsonStrings : List Bytes → Bytes
  canonicalNodeDef : Bytes → Bytes
  hasKuscia : Bool
  unicode : CaseTables
  insertAgain : Db → ProjectGraphNodeDO → Option Db

def Request.projectId : Request → Bytes
  | .refreshNodeMaxIndex req => req.projectId
  | .updateGraphMeta req => req.projectId
  | .updateGraphNode req => req.projectId
  | .fullUpdateGraph req => req.projectId

def Request.graphId : Request → Bytes
  | .refreshNodeMaxIndex req => req.graphId
  | .updateGraphMeta req => req.graphId
  | .updateGraphNode req => req.graphId
  | .fullUpdateGraph req => req.graphId

inductive Call
  | load (req : Request)
  | saveIndex (req : RefreshNodeMaxIndexRequest) (g : ProjectGraphDO) (index : Int64)
  | saveMeta (req : UpdateGraphMetaRequest) (g : ProjectGraphDO)
  | findNode (req : UpdateGraphNodeRequest) (n : GraphNodeInfo)
  | saveNode (req : UpdateGraphNodeRequest) (n : ProjectGraphNodeDO)
  | binding (req : FullUpdateGraphRequest) (g : ProjectGraphDO) (out : List ProjectGraphDomainDatasourceDO)
      (c : GraphDataSourceConfig) (rest : List GraphDataSourceConfig)
  | commit (req : FullUpdateGraphRequest) (g : ProjectGraphDO) (dsUpdates : List ProjectGraphDomainDatasourceDO)

def Call.request : Call → Request
  | load req => req
  | saveIndex req _ _ => .refreshNodeMaxIndex req
  | saveMeta req _ => .updateGraphMeta req
  | findNode req _ | saveNode req _ => .updateGraphNode req
  | binding req .. | commit req .. => .fullUpdateGraph req

def Call.first : Call → Bool
  | load _ => true
  | _ => false

/-- What follows a statement: another one, or the call returns, having written or not. -/
inductive Next
  | call (c : Call)
  | done (db : Db) (r : Result)
  | fail (e : Err)

def write (db : Option Db) (r : Result) : Next :=
  match db with
  | some db => .done db r
  | none => .fail (.db (str "constraint failed"))

/-- `strings.EqualFold`. -/
def EqualFold (u : CaseTables) (a b : Bytes) : Bool :=
  decide ((Utf8.runes a).map (fun r => u.foldRune r.1) = (Utf8.runes b).map fun r => u.foldRune r.1)

def ownerCheck (op : Operator) (g : ProjectGraphDO) : Bool := decide (op.ownerId = [] ∨ g.ownerId = [] ∨ op.ownerId = g.ownerId)

namespace GraphService

variable (s : GraphService)

def nodeDOFromInfo (projectId graphId : Bytes) (n : GraphNodeInfo) (id : Int) : ProjectGraphNodeDO where
  id := id
  projectId := projectId
  graphId := graphId
  graphNodeId := n.graphNodeId
  codeName := n.codeName
  label := n.label
  x := n.x
  y := n.y
  inputs := s.jsonStrings n.inputs
  outputs := s.jsonStrings n.outputs
  nodeDef := s.canonicalNodeDef n.nodeDef

/-- `Save` of a node row. -/
def putNode (db : Db) (n : ProjectGraphNodeDO) : Option Db :=
  if db.nodes.any fun r => decide (r.id = n.id) then
    db.setNodes (Table.updateWhere (fun r => decide (r.id = n.id)) (fun _ => n) db.nodes) db.nextNode
  else s.insertAgain db n

/-- The rows of a `FullUpdateGraph` with nodes, those without an id left out. -/
def createNodes (db : Db) (projectId graphId : Bytes) : List GraphNodeInfo → Option Db
  | [] => some db
  | n :: rest =>
    if n.graphNodeId = [] then createNodes db projectId graphId rest
    else (db.setNodes (db.nodes ++ [s.nodeDOFromInfo projectId graphId n db.nextNode]) (db.nextNode + 1)).bind
      fun db => createNodes db projectId graphId rest

/-- `validateDataSourceConfig` at the head of its loop. -/
def validate (req : FullUpdateGraphRequest) (g : ProjectGraphDO) (out : List ProjectGraphDomainDatasourceDO) :
    List GraphDataSourceConfig → Next
  | [] => .call (.commit req g out)
  | c :: rest =>
    if c.nodeId ∈ req.controlNodeIDs then .call (.binding req g out c rest)
    else .fail (.SystemValidationError (str "unauthorized access to node " ++ c.nodeId ++ str ", by project " ++ req.projectId))

/-- `validateDataSourceConfig` with the binding it has read. -/
def checkBinding (req : FullUpdateGraphRequest) (g : ProjectGraphDO) (out : List ProjectGraphDomainDatasourceDO)
    (c : GraphDataSourceConfig) (rest : List GraphDataSourceConfig) (existing : ProjectGraphDomainDatasourceDO) : Next :=
  let bind (name : Bytes) : Next :=
    validate req g (out ++ [⟨req.projectId, req.graphId, c.nodeId, c.dataSourceId, name, some false⟩]) rest
  if existing.editEnable = some false then
    if existing.datasourceId = c.dataSourceId then validate req g out rest
    else .fail (.SystemValidationError (str "saved node dataSources are not editable " ++ existing.datasourceId))
  else if s.hasKuscia then
    match req.domainDataSources c.nodeId with
    | .error e => .fail (.SystemValidationError (str "failed to query domain data sources " ++ e))
    | .ok dss => match dss.find? fun ds => decide (ds.1 = c.dataSourceId) with
      | some ds => bind ds.2
      | none => .fail (.SystemValidationError (str "can't find data source " ++ c.dataSourceId))
  else bind c.dataSourceId

def replaceNodes (db : Db) (req : FullUpdateGraphRequest) : Option Db :=
  match req.nodes with
  | some ns => s.createNodes (db.deleteNodes req.projectId req.graphId) req.projectId req.graphId ns
  | none => some db

/-- The transaction of `FullUpdateGraph`. -/
def commitFull (db : Db) (req : FullUpdateGraphRequest) (g : ProjectGraphDO) (dsUpdates : List ProjectGraphDomainDatasourceDO) :
    Option Db := do
  let db ← s.replaceNodes db req
  let db ← db.saveGraph g
  dsUpdates.foldlM Db.saveBinding db

def fullUpdate (req : FullUpdateGraphRequest) (g : ProjectGraphDO) : ProjectGraphDO :=
  { g with
    edges := (req.edges.map s.edgesJSON).getD g.edges
    maxParallelism := match req.maxParallelism with
      | some m => if 0 < m then m else g.maxParallelism
      | none => g.maxParallelism }

/-- The index `RefreshNodeMaxIndex` returns and the one it stores. -/
def nextIndex (req : RefreshNodeMaxIndexRequest) (index : Int64) : Int64 × Int64 :=
  match req.currentIndex with
  | some c => if c > index then (c, c + 1) else (index, index + 1)
  | none => (index, index + 1)

def loaded (g : ProjectGraphDO) : Request → Next
  | .refreshNodeMaxIndex req =>
    .call (.saveIndex req { g with nodeMaxIndex := (nextIndex req g.nodeMaxIndex).2 } (nextIndex req g.nodeMaxIndex).1)
  | .updateGraphMeta req =>
    if EqualFold s.unicode req.operator.ownerType (str "P2P") ∧ g.ownerId ≠ [] ∧
        EqualFold s.unicode req.operator.ownerId g.ownerId = false then .fail .GraphNotOwnerCannotUpdate
    else .call (.saveMeta req { g with name := req.name })
  | .updateGraphNode req =>
    if ownerCheck req.operator g then
      match req.node with
      | some n => if n.graphNodeId = [] then .fail (.GraphNodeNotExists []) else .call (.findNode req n)
      | none => .fail (.GraphNodeNotExists [])
    else .fail .GraphNonOurCreationCanViewed
  | .fullUpdateGraph req =>
    if ownerCheck req.operator g then validate req (s.fullUpdate req g) [] req.dataSourceConfig
    else .fail .GraphNonOurCreationCanViewed

def run (db : Db) : Call → Next
  | .load req => match db.findGraph req.projectId req.graphId with
    | some g => s.loaded g req
    | none => .fail .GraphNotExists
  | .saveIndex _ g index => write (db.saveGraph g) (some index)
  | .saveMeta _ g => write (db.saveGraph g) none
  | .findNode req n => match db.findNode req.projectId req.graphId n.graphNodeId with
    | some existing => .call (.saveNode req (s.nodeDOFromInfo req.projectId req.graphId n existing.id))
    | none => .fail (.GraphNodeNotExists [n.graphNodeId])
  | .saveNode _ n => write (s.putNode db n) none
  | .binding req g out c rest => match db.findBinding req.projectId req.graphId c.nodeId with
    | some existing => s.checkBinding req g out c rest existing
    | none => .fail (.SystemValidationError (str "current node dataSources is empty"))
  | .commit req g dsUpdates => write (s.commitFull db req g dsUpdates) none

end GraphService

def Call.failed (text : Bytes) : Call → Err
  | load _ => .GraphNotExists
  | findNode _ n => .GraphNodeNotExists [n.graphNodeId]
  | binding .. => .SystemValidationError (str "current node dataSources is empty")
  | saveIndex .. | saveMeta .. | saveNode .. | commit .. => .db text

structure Returned where
  request : Request
  result : Except Err Result

abbrev World := Calls.World Db Call Returned

abbrev Action := Calls.Action Call (Option Bytes)

namespace GraphService

variable (s : GraphService)

def exec (db : Db) (c : Call) (failure : Option Bytes) : Calls.Effect Db Call Returned :=
  match failure with
  | some text => ⟨db, none, [⟨c.request, .error (c.failed text)⟩]⟩
  | none => match s.run db c with
    | .call c' => ⟨db, some c', []⟩
    | .done db' r => ⟨db', none, [⟨c.request, .ok r⟩]⟩
    | .fail e => ⟨db, none, [⟨c.request, .error e⟩]⟩

def step (w : World) (a : Action) : Option World := Calls.step Call.first s.exec w a

end GraphService

end Graph
