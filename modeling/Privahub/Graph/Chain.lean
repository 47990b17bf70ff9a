import Privahub.Graph.Service
import Privahub.Job.Service

/-!
# The job chain of a graph

`RunGraphJob`: the reads before the chain, `jobPersistentHandler`, `jobRenderHandler`, `jobSubmittedHandler`, and
`rollbackJob` when one of them fails. The rows of a table stand in the order of their primary keys, and a node holds
its definition parsed. `Answers` is what a run is told by the tables and services that it only reads, and which of its
statements fail.
-/

namespace Graph.Chain

open Sched (NodeStatus)
open Job (JobStatus)

structure NodeDef where
  domain : Bytes
  name : Bytes
  attrPaths : List Bytes
  /-- JSON texts. -/
  attrs : List Bytes
  deriving DecidableEq

namespace NodeDef

def CompID (nd : NodeDef) : Bytes := nd.domain ++ str "/" ++ nd.name

end NodeDef

structure GraphNodeInfo where
  codeName : Bytes
  graphNodeId : Bytes
  inputs : List Bytes
  outputs : List Bytes
  nodeDef : NodeDef
  deriving DecidableEq

def CompReadDataDatatable : Bytes := str "read_data/datatable"

def PadComponents : List Bytes := [CompReadDataDatatable, str "ml.predict/read_model"]

def GraphNodeInfo.IsPad (n : GraphNodeInfo) : Bool :=
  if n.nodeDef.domain ≠ [] ∨ n.nodeDef.name ≠ [] then decide (n.nodeDef.CompID ∈ PadComponents) else decide (n.codeName ∈ PadComponents)

/-- What comes before the last occurrence of `sub`. -/
def beforeLast (sub : Bytes) : Bytes → Option Bytes
  | [] => if sub = [] then some [] else none
  | b :: s => match beforeLast sub s with
    | some p => some (b :: p)
    | none => if sub <+: b :: s then some [] else none

/-- The node that `NodeByInput` finds: the last one with the output, or else the one that the name of the input gives. -/
def inputNodeID (nodes : List GraphNodeInfo) (input : Bytes) : Bytes :=
  match nodes.reverse.find? fun n => decide (input ∈ n.outputs) with
  | some n => n.graphNodeId
  | none => (beforeLast (str "-output-") input).getD []

def NodeByInput (nodes : List GraphNodeInfo) (input : Bytes) : Option GraphNodeInfo :=
  nodes.reverse.find? fun n => decide (n.graphNodeId = inputNodeID nodes input)

def GenTaskID (jobID graphNodeID : Bytes) : Bytes := jobID ++ str "-" ++ graphNodeID

def GenTaskOutputID (jobID outputID : Bytes) : Bytes := jobID ++ str "-" ++ outputID

def GenExtendTaskID (taskID extend : Bytes) : Bytes := taskID ++ str "--" ++ extend

structure ProjectJobDO where
  projectId : Bytes
  jobId : Bytes
  name : Bytes
  status : JobStatus
  graphId : Bytes
  edges : Bytes
  finishedTime : Option Sched.Time
  deriving DecidableEq

structure ProjectJobTaskDO where
  projectId : Bytes
  jobId : Bytes
  taskId : Bytes
  parties : Bytes
  status : NodeStatus
  graphNodeId : Bytes
  graphNode : Bytes
  deriving DecidableEq

structure ProjectJobTaskLogDO where
  projectId : Bytes
  jobId : Bytes
  taskId : Bytes
  log : Bytes
  deriving DecidableEq

structure ProjectGraphNodeKusciaParamsDO where
  projectId : Bytes
  graphId : Bytes
  graphNodeId : Bytes
  jobId : Bytes
  taskId : Bytes
  inputs : Bytes
  outputs : Bytes
  nodeEvalParam : Bytes
  deriving DecidableEq

def ProjectJobTaskDO.key (t : ProjectJobTaskDO) : Bytes × Bytes × Bytes := (t.projectId, t.jobId, t.taskId)

def ProjectGraphNodeKusciaParamsDO.key (p : ProjectGraphNodeKusciaParamsDO) : Bytes × Bytes × Bytes := (p.projectId, p.graphId, p.graphNodeId)

@[ext] structure Db where
  jobs : List ProjectJobDO
  tasks : List ProjectJobTaskDO
  logs : List ProjectJobTaskLogDO
  params : List ProjectGraphNodeKusciaParamsDO
  job_ids : (jobs.map (·.jobId)).Nodup
  task_keys : (tasks.map (·.key)).Nodup
  param_keys : (params.map (·.key)).Nodup

/-- Which statements of `rollbackJob` go through: it does not look. -/
structure Rollback where
  logs : Bool
  tasks : Bool
  jobs : Bool
  params : Bool
  commit : Bool

namespace Db

variable (db : Db)

/-- The transaction of `jobPersistentHandler`. -/
def persist (job : ProjectJobDO) (tasks : List ProjectJobTaskDO) (logs : List ProjectJobTaskLogDO) : Option Db :=
  if h : ((db.jobs ++ [job]).map (·.jobId)).Nodup ∧ ((db.tasks ++ tasks).map (·.key)).Nodup then
    some { db with
      jobs := db.jobs ++ [job]
      tasks := db.tasks ++ tasks
      logs := db.logs ++ logs
      job_ids := h.1
      task_keys := h.2 }
  else none

def saveKusciaParams (p : ProjectGraphNodeKusciaParamsDO) : Db :=
  if h : ∃ r ∈ db.params, r.key = p.key then
    { db with
      params := Table.updateWhere (fun r => decide (r.key = p.key)) (fun _ => p) db.params
      param_keys := by
        have hkeys : (Table.updateWhere (fun r => decide (r.key = p.key)) (fun _ => p) db.params).map (·.key) = db.params.map (·.key) := by
          unfold Table.updateWhere
          rw [List.map_map]
          refine List.map_congr_left fun r _ => ?_
          show ProjectGraphNodeKusciaParamsDO.key (if decide (r.key = p.key) = true then p else r) = r.key
          split_ifs with hr
          · exact (of_decide_eq_true hr).symm
          · rfl
        rw [hkeys]
        exact db.param_keys }
  else
    { db with
      params := db.params ++ [p]
      param_keys := Table.nodup_concat db.param_keys fun r hr he => h ⟨r, hr, he⟩ }

def succeed (projectID jobID : Bytes) (now : Sched.Time) : Db :=
  { db with
    jobs := Table.updateWhere (fun j => decide (j.projectId = projectID ∧ j.jobId = jobID))
      (fun j => { j with status := .succeed, finishedTime := some now }) db.jobs
    job_ids := Table.nodup_updateWhere (fun _ => rfl) db.job_ids }

def rollbackJob (projectID jobID : Bytes) (r : Rollback) : Db :=
  if r.commit then
    { jobs := db.jobs.filter fun j => !(r.jobs && decide (j.projectId = projectID ∧ j.jobId = jobID))
      tasks := db.tasks.filter fun t => !(r.tasks && decide (t.projectId = projectID ∧ t.jobId = jobID))
      logs := db.logs.filter fun l => !(r.logs && decide (l.projectId = projectID ∧ l.jobId = jobID))
      params := db.params.filter fun p => !(r.params && decide (p.projectId = projectID ∧ p.jobId = jobID))
      job_ids := db.job_ids.sublist (List.filter_sublist.map _)
      task_keys := db.task_keys.sublist (List.filter_sublist.map _)
      param_keys := db.param_keys.sublist (List.filter_sublist.map _) }
  else db

end Db

/-- `latestTask`: the last task of the node that has a job. -/
def latestTask (db : Db) (projectID graphNodeID : Bytes) : Option ProjectJobTaskDO :=
  db.tasks.reverse.find? fun t =>
    decide (t.projectId = projectID ∧ t.graphNodeId = graphNodeID) && db.jobs.any fun j => decide (j.jobId = t.jobId)

structure JobTask where
  taskID : Bytes
  parties : List Bytes
  dependencies : List Bytes
  node : GraphNodeInfo
  deriving DecidableEq

structure ProjectJob where
  projectID : Bytes
  graphID : Bytes
  name : Bytes
  jobID : Bytes
  fullNodes : List GraphNodeInfo
  edges : List GraphEdge
  tasks : List JobTask

structure StartGraphRequest where
  projectID : Bytes
  graphID : Bytes
  nodes : List Bytes

structure StartGraphOptions where
  scheduled : Bool
  jobID : Bytes

/-- The graph as it is loaded, with its nodes: `upk_project_graph_node` is unique. -/
structure Loaded where
  name : Bytes
  edges : List GraphEdge
  nodes : List GraphNodeInfo
  node_ids : (nodes.map (·.graphNodeId)).Nodup

/-- `graph` ends with the check of the owner and `health` with that of the routes; `latestErr`, `readData` and
`editedReport` are the reads of the render handler; `evalParam` and `teeConfig` render a task for Kuscia, `saveErr`
is the error of a statement of `saveKusciaParams`, all by position; `kuscia` is the answer to the request, if there is
a client. -/
structure Answers where
  graph : Except Err Loaded
  project : Bool
  parties : Except Err (Bytes → List Bytes)
  teeNodeID : Bytes
  health : Option Err
  newJobID : Bytes
  now : Sched.Time
  persistErr : Option Err
  latestErr : Bytes → Option Err
  readData : GraphNodeInfo → List Bytes → Option Err
  editedReport : Bytes → Bytes → Option Bytes
  padOnlyErr : Option Err
  teeConfig : Nat → JobTask → Option Err
  evalParam : Nat → JobTask → Except Err Bytes
  saveErr : Nat → Option Err
  kuscia : Option (Option Bytes)
  rollback : Rollback

/-- JSON texts and log lines; the string under `s` of an attribute, what `CoverCustomAttrs` makes of it, and the
`modelHash` in it. -/
structure Texts where
  edgesJSON : List GraphEdge → Bytes
  jsonStrings : List Bytes → Bytes
  graphNode : GraphNodeInfo → Bytes
  taskStartLog : Sched.Time → Bytes → Bytes → Bytes
  taskSucceedLog : Sched.Time → Bytes → Bytes → Bytes
  attrString : Bytes → Bytes
  coverCustomAttr : Bytes → Bytes
  typeAttr : Bytes → Bytes
  modelHash : Bytes → Bytes
  setModelHash : Bytes → Bytes → Bytes

def GraphNodeNotExists (args : List Bytes) : Err := .pad 202011704 (str "graph.GRAPH_NODE_NOT_EXISTS") args
def GraphJobInvalid (args : List Bytes) : Err := .pad 202011707 (str "graph.GRAPH_JOB_INVALID") args
def GraphDependentNodeNotRun (args : List Bytes) : Err := .pad 202011710 (str "graph.GRAPH_DEPENDENT_NODE_NOT_RUN") args
def DatatableNotExists (args : List Bytes) : Err := .pad 202011301 (str "datatable.DATATABLE_NOT_EXISTS") args
def ProjectNotExists : Err := .pad 202011501 (str "project.PROJECT_NOT_EXISTS") []
def ProjectJobCreateError (msg : Bytes) : Err := .pad 202011902 (str "project_job.PROJECT_JOB_CREATE_ERROR") [msg]

def selectNodes (nodes : List GraphNodeInfo) (ids : List Bytes) : Except Err (List GraphNodeInfo) :=
  if ids = [] then .ok nodes
  else ids.mapM fun id => match nodes.reverse.find? fun n => decide (n.graphNodeId = id) with
    | some n => .ok n
    | none => .error (GraphNodeNotExists [id])

/-- The job that `RunGraphJob` hands to the chain. -/
def prepare (a : Answers) (req : StartGraphRequest) (opts : StartGraphOptions) : Except Err ProjectJob := do
  let g ← a.graph
  if g.nodes = [] then throw (GraphNodeNotExists [])
  let selected ← selectNodes g.nodes req.nodes
  if !a.project then throw ProjectNotExists
  let parties ← a.parties
  match a.health with
  | some e => throw e
  | none =>
    let jobID := if opts.jobID = [] then a.newJobID else opts.jobID
    return {
      projectID := req.projectID
      graphID := req.graphID
      name := g.name
      jobID := jobID
      fullNodes := g.nodes
      edges := g.edges
      tasks := selected.map fun n => {
        taskID := GenTaskID jobID n.graphNodeId
        parties := if a.teeNodeID = [] then parties n.graphNodeId else [a.teeNodeID]
        dependencies := []
        node := n } }

def truncate (s : Bytes) (n : Nat) : Bytes := if (Utf8.runes s).length ≤ n then s else ((Utf8.runes s).take n).flatMap (·.2)

def jobDO (x : Texts) (job : ProjectJob) : ProjectJobDO :=
  ⟨job.projectID, job.jobID, truncate job.name 40, .running, job.graphID, x.edgesJSON job.edges, none⟩

def taskDO (x : Texts) (job : ProjectJob) (t : JobTask) : ProjectJobTaskDO where
  projectId := job.projectID
  jobId := job.jobID
  taskId := t.taskID
  parties := x.jsonStrings t.parties
  status := if t.node.IsPad then .succeed else .initialized
  graphNodeId := t.node.graphNodeId
  graphNode := x.graphNode t.node

def logDOs (x : Texts) (now : Sched.Time) (job : ProjectJob) (t : JobTask) : List ProjectJobTaskLogDO :=
  if t.node.IsPad then
    [⟨job.projectID, job.jobID, t.taskID, x.taskStartLog now job.jobID t.taskID⟩,
      ⟨job.projectID, job.jobID, t.taskID, x.taskSucceedLog now job.jobID t.taskID⟩]
  else []

def jobPersistentHandler (x : Texts) (a : Answers) (opts : StartGraphOptions) (db : Db) (job : ProjectJob) : Except Err Db :=
  if opts.scheduled then .ok db
  else match a.persistErr with
    | some e => .error e
    | none => match db.persist (jobDO x job) (job.tasks.map (taskDO x job)) (job.tasks.flatMap (logDOs x a.now job)) with
      | some db => .ok db
      | none => .error (.db (str "constraint failed"))

def DatatableID (x : Texts) (nd : NodeDef) : Bytes :=
  match (nd.attrPaths.zip nd.attrs).find? fun pa => decide (pa.1 = str "datatable_selected" ∧ x.attrString pa.2 ≠ []) with
  | some pa => x.attrString pa.2
  | none => match nd.attrs with
    | [] => []
    | attr :: _ => x.attrString attr

def findLatest (a : Answers) (db : Db) (job : ProjectJob) (id : Bytes) : Except Err ProjectJobTaskDO :=
  match a.latestErr id, latestTask db job.projectID id with
  | some e, _ => .error e
  | none, none => .error (GraphDependentNodeNotRun [id])
  | none, some lt => .ok lt

/-- What an input of a task becomes, and the task that it makes the task depend on. -/
def renderInput (x : Texts) (a : Answers) (db : Db) (job : ProjectJob) (t : JobTask) (input : Bytes) : Except Err (Bytes × Option Bytes) :=
  let selected (id : Bytes) : Bool := job.tasks.any fun u => decide (u.node.graphNodeId = id)
  match NodeByInput job.fullNodes input with
  | none => .error (GraphNodeNotExists [input])
  | some dep =>
    if dep.IsPad then do
      if !selected dep.graphNodeId then
        let _ ← findLatest a db job dep.graphNodeId
      if dep.codeName = CompReadDataDatatable ∨ dep.nodeDef.CompID = CompReadDataDatatable then
        match a.readData dep t.parties with
        | some e => throw e
        | none => pure ()
      if a.teeNodeID = [] then return (DatatableID x dep.nodeDef, none)
      else return (a.teeNodeID ++ str "-" ++ DatatableID x dep.nodeDef, none)
    else if selected dep.graphNodeId then .ok (input, some (GenTaskID job.jobID dep.graphNodeId))
    else do
      let lt ← findLatest a db job dep.graphNodeId
      return (GenTaskOutputID lt.jobId input, none)

def renderTaskInputs (x : Texts) (a : Answers) (db : Db) (job : ProjectJob) (t : JobTask) : Except Err JobTask :=
  if t.node.IsPad then
    if DatatableID x t.node.nodeDef = [] then .error (DatatableNotExists [t.node.graphNodeId]) else .ok t
  else do
    let rendered ← t.node.inputs.mapM (renderInput x a db job t)
    return { t with
      dependencies := rendered.filterMap (·.2)
      node := { t.node with
        inputs := rendered.map (·.1)
        nodeDef := { t.node.nodeDef with attrs := t.node.nodeDef.attrs.map x.coverCustomAttr } } }

def renderInputs (x : Texts) (a : Answers) (db : Db) (job : ProjectJob) : Except Err (List JobTask) :=
  job.tasks.mapM (renderTaskInputs x a db job)

def renderOutputs (jobID : Bytes) (tasks : List JobTask) : List JobTask :=
  tasks.map fun t => { t with
    node := { t.node with
      inputs := t.node.inputs.map fun i => if i ∈ tasks.flatMap (·.node.outputs) then GenTaskOutputID jobID i else i
      outputs := t.node.outputs.map (GenTaskOutputID jobID) } }

/-- What a `modelHash` means: the hash, and the node after its first `_`. -/
def splitHash (h graphNodeID : Bytes) : Bytes × Bytes :=
  if 95 ∈ h then (h.takeWhile (· ≠ 95), (h.dropWhile (· ≠ 95)).tail) else (h, graphNodeID)

def reportOutput (id : Bytes) : Bytes :=
  match beforeLast (str "-") id with
  | none | some [] => id ++ str "-0"
  | some p => p ++ str "-0"

def writeInput (x : Texts) (a : Answers) (node : GraphNodeInfo) (attr output : Bytes) : Bytes :=
  let (hash, id) := splitHash (x.modelHash attr) node.graphNodeId
  if hash = [] then output else ((a.editedReport hash id).map reportOutput).getD output

def writeAttr (x : Texts) (attr : Bytes) : Bytes :=
  if 95 ∈ x.modelHash attr then x.setModelHash attr ((x.modelHash attr).takeWhile (· ≠ 95)) else attr

def extraNode (x : Texts) (a : Answers) (node : GraphNodeInfo) (writeType output : Bytes) : GraphNodeInfo :=
  match node.nodeDef.attrs with
  | [] => { node with nodeDef := ⟨str "io", str "identity", [], []⟩, outputs := [output] }
  | attr :: attrs => { node with
    nodeDef := ⟨str "io", str "write_data", [str "write_data", str "write_data_type"], writeAttr x attr :: attrs ++ [x.typeAttr writeType]⟩
    inputs := [writeInput x a node attr output]
    outputs := [output] }

def modificationsAdapter (x : Texts) (a : Answers) (t : JobTask) (writeType : Bytes) : Except Err (List JobTask) :=
  match t.node.outputs with
  | out :: out' :: _ => .ok [
    { taskID := GenExtendTaskID t.taskID (str "1")
      parties := t.parties
      dependencies := t.dependencies
      node := extraNode x a t.node writeType out },
    { t with
      dependencies := [GenExtendTaskID t.taskID (str "1")]
      node := { t.node with nodeDef := ⟨str "io", str "read_data", [], []⟩, inputs := [out], outputs := [out'] } }]
  | _ => .error (GraphJobInvalid [t.node.graphNodeId])

def customize (x : Texts) (a : Answers) (t : JobTask) : Except Err (List JobTask) :=
  if t.node.nodeDef.name = str "binning_modifications" then modificationsAdapter x a t (str "sf.rule.binning")
  else if t.node.nodeDef.name = str "model_param_modifications" then modificationsAdapter x a t (str "sf.model.ss_glm")
  else .ok [t]

def renderCustomizeSpec (x : Texts) (a : Answers) (tasks : List JobTask) : Except Err (List JobTask) := do
  return (← tasks.mapM (customize x a)).flatten

def pruneJob (tasks : List JobTask) : List JobTask := tasks.filter fun t => !t.node.IsPad

def jobRenderHandler (x : Texts) (a : Answers) (db : Db) (job : ProjectJob) : Except Err ProjectJob := do
  let tasks ← renderInputs x a db job
  let tasks ← renderCustomizeSpec x a (renderOutputs job.jobID tasks)
  return { job with tasks := pruneJob tasks }

def paramsDO (x : Texts) (job : ProjectJob) (t : JobTask) (eval : Bytes) : ProjectGraphNodeKusciaParamsDO :=
  ⟨job.projectID, job.graphID, t.node.graphNodeId, job.jobID, t.taskID, x.jsonStrings t.node.inputs, x.jsonStrings t.node.outputs, eval⟩

def convertKusciaJob (x : Texts) (a : Answers) (job : ProjectJob) : Nat → List JobTask → Db → Except Err Unit × Db
  | _, [], db => (.ok (), db)
  | k, t :: ts, db => match a.evalParam k t with
    | .error e => (.error e, db)
    | .ok eval => match a.saveErr k with
      | some e => (.error e, db)
      | none => convertKusciaJob x a job (k + 1) ts (db.saveKusciaParams (paramsDO x job t eval))

def convertTrustedFlowJob (a : Answers) : Nat → List JobTask → Except Err Unit
  | _, [] => .ok ()
  | k, t :: ts => match a.teeConfig k t with
    | some e => .error e
    | none => convertTrustedFlowJob a (k + 1) ts

def createJob (a : Answers) : Except Err Unit :=
  match a.kuscia with
  | none => .error (ProjectJobCreateError (str "kuscia client unavailable"))
  | some (some msg) => .error (ProjectJobCreateError msg)
  | some none => .ok ()

def jobSubmittedHandler (x : Texts) (a : Answers) (opts : StartGraphOptions) (db : Db) (job : ProjectJob) : Except Err Unit × Db :=
  if job.tasks = [] then
    if opts.scheduled then (.ok (), db)
    else match a.padOnlyErr with
      | some e => (.error e, db)
      | none => (.ok (), db.succeed job.projectID job.jobID a.now)
  else
    let converted := if a.teeNodeID = [] then convertKusciaJob x a job 0 job.tasks db else (convertTrustedFlowJob a 0 job.tasks, db)
    match converted with
    | (.error e, db) => (.error e, db)
    | (.ok (), db) => if opts.scheduled then (.ok (), db) else (createJob a, db)

def failed (a : Answers) (opts : StartGraphOptions) (job : ProjectJob) (db : Db) : Db :=
  if opts.scheduled then db else db.rollbackJob job.projectID job.jobID a.rollback

def RunGraphJob (x : Texts) (a : Answers) (req : StartGraphRequest) (opts : StartGraphOptions) (db : Db) : Except Err ProjectJob × Db :=
  match prepare a req opts with
  | .error e => (.error e, db)
  | .ok job => match jobPersistentHandler x a opts db job with
    | .error e => (.error e, db)
    | .ok db => match jobRenderHandler x a db job with
      | .error e => (.error e, failed a opts job db)
      | .ok rendered => match jobSubmittedHandler x a opts db rendered with
        | (.error e, db) => (.error e, failed a opts job db)
        | (.ok (), db) => (.ok rendered, db)

end Graph.Chain
