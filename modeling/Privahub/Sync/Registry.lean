import Privahub.Lib.Json

/-!
# Tables and rows of the data synchronisation

`registry.go` as far as a row is concerned: the tables with the columns of their business keys, the
string columns by which rows are routed and owned, and the route of a row. `fieldString` reads a
column the model of the table has; any other name reads as empty. A row is what its JSON holds: the
soft-delete columns are not part of it.
-/

namespace Sync

def TableNode : Bytes := str "node"
def TableNodeRoute : Bytes := str "node_route"
def TableProject : Bytes := str "project"
def TableProjectNode : Bytes := str "project_node"
def TableProjectInst : Bytes := str "project_inst"
def TableProjectGraph : Bytes := str "project_graph"
def TableProjectGraphNode : Bytes := str "project_graph_node"
def TableProjectGraphNodeKuscia : Bytes := str "project_graph_node_kuscia_params"
def TableProjectJob : Bytes := str "project_job"
def TableProjectJobTask : Bytes := str "project_job_task"
def TableProjectDatatable : Bytes := str "project_datatable"
def TableVoteRequest : Bytes := str "vote_request"
def TableVoteInvite : Bytes := str "vote_invite"
def TableTeeDownloadApprovalConfig : Bytes := str "tee_download_approval_config"
def TableNodeRouteApprovalConfig : Bytes := str "node_route_approval_config"
def TableTeeNodeDatatableManagement : Bytes := str "tee_node_datatable_management"
def TableProjectModelServing : Bytes := str "project_model_serving"
def TableProjectModelPack : Bytes := str "project_model_pack"
def TableFeatureTable : Bytes := str "feature_table"
def TableProjectFeatureTable : Bytes := str "project_feature_table"
def TableProjectGraphDomainDs : Bytes := str "project_graph_domain_datasource"
def TableProjectSchedule : Bytes := str "project_schedule"
def TableProjectScheduleJob : Bytes := str "project_schedule_job"
def TableProjectScheduleTask : Bytes := str "project_schedule_task"
def TableProjectApprovalConfig : Bytes := str "project_approval_config"

def DefaultCenterTables : List Bytes :=
  [TableProject, TableProjectNode, TableNode, TableNodeRoute, TableProjectJob, TableProjectJobTask, TableProjectDatatable,
    TableVoteRequest, TableVoteInvite, TableTeeDownloadApprovalConfig, TableNodeRouteApprovalConfig,
    TableTeeNodeDatatableManagement, TableProjectModelServing, TableProjectGraphNodeKuscia, TableProjectModelPack,
    TableFeatureTable, TableProjectFeatureTable, TableProjectGraphDomainDs, TableProjectSchedule, TableProjectScheduleJob,
    TableProjectScheduleTask]

def DefaultP2PTables : List Bytes :=
  [TableProject, TableProjectGraph, TableProjectGraphNode, TableProjectJob, TableProjectDatatable, TableVoteRequest,
    TableVoteInvite, TableProjectApprovalConfig, TableProjectNode, TableProjectGraphNodeKuscia, TableProjectModelServing,
    TableProjectModelPack, TableProjectFeatureTable, TableProjectGraphDomainDs, TableProjectInst, TableProjectSchedule,
    TableProjectScheduleJob, TableProjectScheduleTask]

structure EntityInfo where
  table : Bytes
  keyCols : List Bytes
  columns : List Bytes

private def entity (table : Bytes) (keyCols columns : List String) : EntityInfo :=
  ⟨table, keyCols.map str, (keyCols ++ columns).map str⟩

/-- `DefaultRegistry`, of the tables that are synchronised unless configured otherwise. -/
def registry : List EntityInfo :=
  [entity TableNode ["node_id"] ["inst_id"],
    entity TableNodeRoute ["src_node_id", "dst_node_id"] [],
    entity TableProject ["project_id"] ["owner_id"],
    entity TableProjectNode ["project_id", "node_id"] [],
    entity TableProjectInst ["project_id", "inst_id"] [],
    entity TableProjectGraph ["project_id", "graph_id"] ["owner_id"],
    entity TableProjectGraphNode ["project_id", "graph_id", "graph_node_id"] [],
    entity TableProjectGraphNodeKuscia ["project_id", "graph_id", "graph_node_id"] [],
    entity TableProjectJob ["job_id"] ["project_id", "graph_id", "status"],
    entity TableProjectJobTask ["project_id", "job_id", "task_id"] ["status"],
    entity TableProjectDatatable ["project_id", "node_id", "datatable_id"] [],
    entity TableVoteRequest ["vote_id"] ["initiator", "voters", "execute_status"],
    entity TableVoteInvite ["vote_id", "vote_participant_id"] ["initiator"],
    entity TableTeeDownloadApprovalConfig ["vote_id"] ["project_id", "all_participants"],
    entity TableNodeRouteApprovalConfig ["vote_id"] ["all_participants"],
    entity TableTeeNodeDatatableManagement ["node_id", "tee_node_id", "datatable_id", "job_id"] ["status"],
    entity TableProjectModelServing ["serving_id"] ["project_id", "initiator"],
    entity TableProjectModelPack ["model_id"] ["project_id", "initiator"],
    entity TableFeatureTable ["feature_table_id"] ["node_id"],
    entity TableProjectFeatureTable ["project_id", "node_id", "feature_table_id"] [],
    entity TableProjectGraphDomainDs ["project_id", "graph_id", "domain_id"] ["datasource_id", "datasource_name"],
    entity TableProjectSchedule ["schedule_id"] ["project_id", "graph_id", "owner", "status"],
    entity TableProjectScheduleJob ["project_id", "job_id"] ["graph_id", "owner", "status"],
    entity TableProjectScheduleTask ["schedule_task_id"] ["project_id", "graph_id", "owner", "status"],
    entity TableProjectApprovalConfig ["vote_id"]
      ["initiator", "type", "parties", "participant_node_info", "project_id", "invite_node_id"]]

def info (table : Bytes) : Option EntityInfo := registry.find? fun i => decide (i.table = table)

/-- A row: the texts of its columns and the time of its last modification in nanoseconds, 0 when it
has none. -/
structure Entity where
  table : Bytes
  cols : List (Bytes × Bytes)
  gmtModified : Int
  deriving DecidableEq

namespace Entity

def fieldString (e : Entity) (col : String) : Bytes :=
  match info e.table with
  | none => []
  | some i => if str col ∈ i.columns then (e.cols.lookup (str col)).getD [] else []

def key (e : Entity) : List Bytes :=
  match info e.table with
  | none => []
  | some i => i.keyCols.map fun c => (e.cols.lookup c).getD []

/-- `keyWhere` refuses an empty key column. -/
def keyed (e : Entity) : Bool := !e.key.contains []

/-- The row that is overwritten, or deleted, by `e`. -/
def SameKey (e f : Entity) : Prop := e.table = f.table ∧ e.key = f.key

instance (e f : Entity) : Decidable (e.SameKey f) := inferInstanceAs (Decidable (_ ∧ _))

theorem SameKey.refl (e : Entity) : e.SameKey e := ⟨rfl, rfl⟩

theorem SameKey.symm {e f : Entity} (h : e.SameKey f) : f.SameKey e := ⟨h.1.symm, h.2.symm⟩

theorem SameKey.trans {e f g : Entity} (h : e.SameKey f) (h' : f.SameKey g) : e.SameKey g :=
  ⟨h.1.trans h'.1, h.2.trans h'.2⟩

end Entity

/-- `compact`: trimmed, without blanks and repetitions. -/
def compact (ids : List Bytes) : List Bytes :=
  ids.foldl (fun out s => let s := Utf8.trimSpace s; if s = [] ∨ s ∈ out then out else out ++ [s]) []

/-- A JSON list as `[]string`. -/
def stringItems : List Json → Option (List Bytes)
  | [] => some []
  | .null :: l => (stringItems l).map ([] :: ·)
  | .str lit :: l => (stringItems l).map (Json.unquote lit :: ·)
  | _ :: _ => none

/-- `strings.Split(s, ",")`. -/
def splitComma : Bytes → List Bytes
  | [] => [[]]
  | b :: s =>
    if b = 44 then [] :: splitComma s
    else match splitComma s with
      | [] => [[b]]
      | t :: ts => (b :: t) :: ts

def ParseIDList (s : Bytes) : List Bytes :=
  let s := Utf8.trimSpace s
  if s = [] then [] else
  let arr := if s.head? = some 91 then
      match Json.parse s with
      | some (.arr items) => stringItems items
      | _ => none
    else none
  match arr with
  | some ids => compact ids
  | none => compact (splitComma s)

structure Route where
  broadcast : Bool
  projectID : Bytes
  nodeIDs : List Bytes
  deriving DecidableEq

def RouteOf (e : Entity) : Route :=
  let f := e.fieldString
  if e.table = TableNode then ⟨true, [], []⟩
  else if e.table = TableNodeRoute then ⟨false, [], compact [f "src_node_id", f "dst_node_id"]⟩
  else if e.table = TableVoteRequest then ⟨false, [], compact (f "initiator" :: ParseIDList (f "voters"))⟩
  else if e.table = TableVoteInvite then ⟨false, [], compact [f "initiator", f "vote_participant_id"]⟩
  else if e.table = TableTeeDownloadApprovalConfig ∨ e.table = TableNodeRouteApprovalConfig then
    ⟨false, f "project_id", ParseIDList (f "all_participants")⟩
  else if e.table = TableProjectApprovalConfig then
    ⟨false, f "project_id", compact (ParseIDList (f "parties") ++ [f "invite_node_id"])⟩
  else if e.table = TableProjectJobTask then ⟨false, f "project_id", []⟩
  else if e.table = TableProjectGraphDomainDs then ⟨false, f "project_id", compact [f "domain_id"]⟩
  else ⟨false, f "project_id", compact [f "node_id"]⟩

end Sync
