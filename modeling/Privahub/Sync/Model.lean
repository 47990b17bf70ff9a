import Privahub.Sync.Registry
import Privahub.Sync.TimeText

/-!
# The models of the synchronised tables

What reflection sees of the models: each field with its column, the key of its JSON tag, its type and what the tags of GORM say of it. The columns and
the business key of a table are computed as in `registry.go`, and agree with what routing and ownership know of the tables (`keyCols_of_registry`).
-/

namespace Sync

inductive Kind where
  | string
  | int (bits : Nat)
  | bool
  | time
  deriving DecidableEq

inductive Value where
  | null
  | text (s : Bytes)
  | int (n : Int)
  | bool (b : Bool)
  | time (t : Timestamp)
  deriving DecidableEq

structure Field where
  column : Bytes
  /-- The key of the JSON, none if the tag excludes the field. -/
  json : Option Bytes
  kind : Kind
  pointer : Bool
  omitempty : Bool
  primary : Bool
  /-- The unique indexes. -/
  unique : List Bytes
  /-- What `Create` writes instead of a zero. -/
  default : Option Value
  /-- Encrypted at rest. -/
  secret : Bool
  deriving DecidableEq

namespace Field

def ofKind (kind : Kind) (column : String) : Field := ⟨str column, some (str column), kind, false, false, false, [], none, false⟩

def text (column : String) : Field := ofKind .string column

def int (column : String) (bits : Nat) : Field := ofKind (.int bits) column

def flag (column : String) : Field := ofKind .bool column

def moment (column : String) : Field := ofKind .time column

def inIndex (f : Field) (name : String) : Field := { f with unique := f.unique ++ [str name] }

def defaults (f : Field) (v : Value) : Field := { f with default := some v }

def sealed (f : Field) : Field := { f with secret := true }

/-- The field is a pointer, or the time of `gorm.DeletedAt`. -/
def nullable (f : Field) : Field := { f with pointer := true }

def optional (f : Field) : Field := { f with omitempty := true }

def hidden (f : Field) : Field := { f with json := none }

def as (f : Field) (key : String) : Field := { f with json := some (str key) }

def primaryKey (f : Field) : Field := { f with primary := true }

end Field

structure Model where
  table : Bytes
  fields : List Field
  deriving DecidableEq

open Sync.Field

def BaseDO : List Field :=
  [(int "id" 64).primaryKey, ((int "is_deleted" 8).defaults (.int 0)).hidden, moment "gmt_create", moment "gmt_modified",
    (moment "deleted_at").nullable.hidden]

def InstDO : Model := ⟨str "inst", BaseDO ++ [
    (text "inst_id").inIndex "upk_inst_id", text "name"]⟩

def NodeDO : Model := ⟨str "node", BaseDO ++ [
    (text "node_id").inIndex "upk_node_id", text "name", text "auth", (text "description").defaults (.text []), text "control_node_id",
    text "net_address", (text "token").sealed, (text "type").defaults (.text (str "normal")), (int "mode" 64).defaults (.int 0),
    (text "master_node_id").defaults (.text (str "master")), (text "inst_id").defaults (.text []), (text "inst_token").sealed.hidden,
    (text "inst_token_state").defaults (.text []), (text "protocol").defaults (.text [])]⟩

def NodeRouteDO : Model := ⟨str "node_route", BaseDO ++ [
    text "route_id", (text "src_node_id").inIndex "upk_route_src_dst", (text "dst_node_id").inIndex "upk_route_src_dst", text "src_net_address",
    text "dst_net_address"]⟩

def ProjectDatatableDO : Model := ⟨str "project_datatable", BaseDO ++ [
    (text "project_id").inIndex "upk_project_datatable_id", (text "node_id").inIndex "upk_project_datatable_id",
    (text "datatable_id").inIndex "upk_project_datatable_id", text "table_configs", text "source"]⟩

def ProjectFedTableDO : Model := ⟨str "project_fed_table", BaseDO ++ [
    (text "project_id").inIndex "upk_project_fed_table_id", (text "fed_table_id").inIndex "upk_project_fed_table_id", text "joins"]⟩

def ProjectGraphNodeDO : Model := ⟨str "project_graph_node", BaseDO ++ [
    (text "project_id").inIndex "upk_project_graph_node", (text "graph_id").inIndex "upk_project_graph_node",
    (text "graph_node_id").inIndex "upk_project_graph_node", text "code_name", text "label", int "x" 64, int "y" 64, text "inputs", text "outputs",
    text "node_def"]⟩

def ProjectGraphDO : Model := ⟨str "project_graph", BaseDO ++ [
    (text "project_id").inIndex "upk_project_graph", (text "graph_id").inIndex "upk_project_graph", text "name", text "edges",
    (text "owner_id").defaults (.text []), int "node_max_index" 64, (int "max_parallelism" 64).defaults (.int 1)]⟩

def ProjectInstDO : Model := ⟨str "project_inst", BaseDO ++ [
    (text "project_id").inIndex "upk_project_inst_id", (text "inst_id").inIndex "upk_project_inst_id"]⟩

def ProjectJobDO : Model := ⟨str "project_job", BaseDO ++ [
    (text "project_id").inIndex "upk_project_job_id", ((text "job_id").inIndex "upk_project_job_id").inIndex "upk_job_id", text "name",
    text "status", text "err_msg", text "graph_id", text "edges", (moment "finished_time").nullable]⟩

def ProjectJobTaskLogDO : Model := ⟨str "project_job_task_log", [
    (int "id" 64).primaryKey, text "project_id", text "job_id", text "task_id", text "log", moment "gmt_create"]⟩

def ProjectJobTaskDO : Model := ⟨str "project_job_task", BaseDO ++ [
    (text "project_id").inIndex "upk_project_job_task_id", (text "job_id").inIndex "upk_project_job_task_id",
    (text "task_id").inIndex "upk_project_job_task_id", text "parties", text "status", text "err_msg", text "graph_node_id", text "graph_node",
    text "extra_info"]⟩

def ProjectModelDO : Model := ⟨str "project_model", BaseDO ++ [
    (text "project_id").inIndex "upk_project_model_id", (text "model_id").inIndex "upk_project_model_id"]⟩

def ProjectNodeDO : Model := ⟨str "project_node", BaseDO ++ [
    (text "project_id").inIndex "upk_project_node_id", (text "node_id").inIndex "upk_project_node_id"]⟩

def ProjectReportDO : Model := ⟨str "project_report", BaseDO ++ [
    (text "project_id").inIndex "upk_project_report_id", (text "report_id").inIndex "upk_project_report_id", text "content"]⟩

def ProjectDO : Model := ⟨str "project", BaseDO ++ [
    (text "project_id").inIndex "upk_project_id", text "name", (text "compute_mode").defaults (.text (str "mpc")),
    (text "compute_func").defaults (.text (str "ALL")), (text "project_info").defaults (.text []), (text "description").defaults (.text []),
    (text "owner_id").defaults (.text []), (int "status" 8).defaults (.int 0)]⟩

def ProjectResultDO : Model := ⟨str "project_result", BaseDO ++ [
    (text "project_id").inIndex "upk_project_result_kind_node_ref_id", (text "kind").inIndex "upk_project_result_kind_node_ref_id",
    (text "node_id").inIndex "upk_project_result_kind_node_ref_id", (text "ref_id").inIndex "upk_project_result_kind_node_ref_id", text "job_id",
    text "task_id"]⟩

def ProjectRuleDO : Model := ⟨str "project_rule", BaseDO ++ [
    (text "project_id").inIndex "upk_project_rule_id", (text "rule_id").inIndex "upk_project_rule_id"]⟩

def TeeDownloadApprovalConfigDO : Model := ⟨str "tee_download_approval_config", BaseDO ++ [
    (text "vote_id").inIndex "upk_tee_download_approval_config_vote_id", text "task_id", text "job_id", text "resource_id", text "resource_type",
    text "project_id", text "graph_id", text "all_participants"]⟩

def TeeNodeDatatableManagementDO : Model := ⟨str "tee_node_datatable_management", BaseDO ++ [
    (text "node_id").inIndex "upk_node_datatable_management", (text "tee_node_id").inIndex "upk_node_datatable_management",
    (text "datatable_id").inIndex "upk_node_datatable_management", text "datasource_id", text "kind",
    (text "job_id").inIndex "upk_node_datatable_management", text "status", text "err_msg", text "operate_info"]⟩

def VoteInviteDO : Model := ⟨str "vote_invite", BaseDO ++ [
    (text "vote_id").inIndex "upk_vote_invite_participant_id", text "initiator",
    (text "vote_participant_id").inIndex "upk_vote_invite_participant_id", text "type", text "vote_msg",
    (text "action").defaults (.text (str "REVIEWING")), text "reason", text "description"]⟩

def VoteRequestDO : Model := ⟨str "vote_request", BaseDO ++ [
    (text "vote_id").inIndex "upk_vote_id", text "initiator", text "type", text "voters", text "vote_counter", text "executors",
    int "approved_threshold" 64, text "request_msg", int "status" 8, (text "execute_status").defaults (.text (str "COMMITTED")), text "msg",
    text "party_vote_info", text "description"]⟩

def NodeRouteApprovalConfigDO : Model := ⟨str "node_route_approval_config", BaseDO ++ [
    (text "vote_id").inIndex "upk_node_route_approval_config_vote_id", int "is_single" 8, text "src_node_id", text "src_node_addr",
    text "des_node_id", text "des_node_addr", text "all_participants"]⟩

def ProjectApprovalConfigDO : Model := ⟨str "project_approval_config", BaseDO ++ [
    (text "vote_id").inIndex "upk_project_approval_config_vote_id", text "initiator", text "type", text "parties", text "participant_node_info",
    text "project_id", text "invite_node_id"]⟩

def ProjectGraphNodeKusciaParamsDO : Model := ⟨str "project_graph_node_kuscia_params", BaseDO ++ [
    (text "project_id").inIndex "upk_project_graph_node_kuscia_params_id", (text "graph_id").inIndex "upk_project_graph_node_kuscia_params_id",
    (text "graph_node_id").inIndex "upk_project_graph_node_kuscia_params_id", text "job_id", text "task_id", text "inputs", text "outputs",
    text "node_eval_param"]⟩

def ProjectModelServingDO : Model := ⟨str "project_model_serving", BaseDO ++ [
    text "project_id", (text "serving_id").inIndex "upk_serving_id", text "initiator", text "serving_input_config", text "parties",
    text "party_endpoints", text "serving_stats", text "error_msg"]⟩

def ProjectModelPackDO : Model := ⟨str "project_model_pack", BaseDO ++ [
    text "project_id", (text "model_id").inIndex "upk_model_id", text "initiator", text "model_name", text "model_desc",
    (int "model_stats" 8).defaults (.int 0), (text "serving_id").defaults (.text []), text "sample_tables", text "model_list", text "train_id",
    text "model_report_id", text "graph_detail", text "model_datasource"]⟩

def ProjectFeatureTableDO : Model := ⟨str "project_feature_table", BaseDO ++ [
    (text "project_id").inIndex "upk_project_feature_table_id", (text "node_id").inIndex "upk_project_feature_table_id",
    (text "feature_table_id").inIndex "upk_project_feature_table_id", text "table_configs", text "source"]⟩

def FeatureTableDO : Model := ⟨str "feature_table", BaseDO ++ [
    (text "feature_table_id").inIndex "upk_feature_table_id", text "feature_table_name", text "node_id",
    (text "datasource_id").defaults (.text (str "http-data-source")), (text "type").defaults (.text (str "HTTP")), text "description", text "url",
    text "columns", text "status"]⟩

def ProjectGraphDomainDatasourceDO : Model := ⟨str "project_graph_domain_datasource", BaseDO ++ [
    (text "project_id").inIndex "upk_project_graph_domain_datasource", (text "graph_id").inIndex "upk_project_graph_domain_datasource",
    (text "domain_id").inIndex "upk_project_graph_domain_datasource", text "datasource_id", text "datasource_name",
    ((flag "edit_enable").defaults (.bool true)).nullable]⟩

def ProjectScheduleDO : Model := ⟨str "project_schedule", BaseDO ++ [
    (text "schedule_id").inIndex "upk_project_schedule_id", text "schedule_desc", text "cron", text "request", text "graph_info",
    text "graph_job_id", text "job_info", text "owner", text "creator", (text "status").defaults (.text (str "UP")), text "project_id",
    text "graph_id", moment "create_time"]⟩

def ProjectScheduleJobDO : Model := ⟨str "project_schedule_job", BaseDO ++ [
    (text "project_id").inIndex "upk_project_schedule_job_id", (text "job_id").inIndex "upk_project_schedule_job_id", text "name", text "status",
    text "err_msg", text "graph_id", text "edges", (moment "finished_time").nullable, text "owner", text "schedule_task_id"]⟩

def ProjectScheduleTaskDO : Model := ⟨str "project_schedule_task", BaseDO ++ [
    text "project_id", text "graph_id", text "schedule_job_id", text "schedule_id",
    (text "schedule_task_id").inIndex "idx_project_schedule_task_schedule_task_id", text "cron",
    (moment "schedule_task_expect_start").as "schedule_task_expect_start_time", (moment "schedule_task_start_time").nullable.optional,
    (moment "schedule_task_end_time").nullable.optional, (text "status").defaults (.text (str "TO_BE_RUN")), text "owner", text "creator",
    text "job_request", (flag "all_re_run").defaults (.bool false)]⟩

def ProjectModelExportDO : Model := ⟨str "project_model_export", BaseDO ++ [
    (text "job_id").inIndex "upk_model_export_job_id", text "project_id", text "status", text "err_msg", text "payload"]⟩

/-- `syncModels` of the registry. -/
def syncModels : List Model :=
  [InstDO, NodeDO, NodeRouteDO, ProjectDatatableDO, ProjectFedTableDO, ProjectGraphNodeDO, ProjectGraphDO, ProjectInstDO, ProjectJobDO,
    ProjectJobTaskLogDO, ProjectJobTaskDO, ProjectModelDO, ProjectNodeDO, ProjectReportDO, ProjectDO, ProjectResultDO, ProjectRuleDO,
    TeeDownloadApprovalConfigDO, TeeNodeDatatableManagementDO, VoteInviteDO, VoteRequestDO, NodeRouteApprovalConfigDO, ProjectApprovalConfigDO,
    ProjectGraphNodeKusciaParamsDO, ProjectModelServingDO, ProjectModelPackDO, ProjectFeatureTableDO, FeatureTableDO, ProjectGraphDomainDatasourceDO,
    ProjectScheduleDO, ProjectScheduleJobDO, ProjectScheduleTaskDO, ProjectModelExportDO]

abbrev Record := Bytes → Value

def Field.zero (f : Field) : Value :=
  if f.pointer then .null
  else match f.kind with
    | .string => .text []
    | .int _ => .int 0
    | .bool => .bool false
    | .time => .time ⟨-62135596800000000000, 0⟩

def Field.Has (f : Field) (v : Value) : Prop := match f.kind, v with
  | _, .null => f.pointer = true
  | .string, .text _ => True
  | .int bits, .int n => -2 ^ (bits - 1) ≤ n ∧ n < 2 ^ (bits - 1)
  | .bool, .bool _ => True
  | .time, .time _ => True
  | _, _ => False

namespace Model

variable (m : Model)

def Typed (e : Record) : Prop := ∀ f ∈ m.fields, f.Has (e f.column)

def columns : List Bytes := m.fields.map Field.column

def hasPK : Bool := m.fields.any fun f => f.column = str "id" ∧ f.primary = true

def index : Option Bytes :=
  let names := (m.fields.flatMap Field.unique).filter fun ix => m.fields.all fun f => !(f.primary && f.unique.contains ix)
  names.foldl (fun best ix => if best.all fun b => decide (ix < b) then some ix else best) none

/-- `businessKey`; no field is tagged `unique` by itself. -/
def businessKey : List Bytes :=
  match m.index with
  | some ix => (m.fields.filter fun f => f.unique.contains ix).map Field.column
  | none => (m.fields.filter Field.primary).map Field.column

end Model

def modelOf (table : Bytes) : Option Model := syncModels.find? fun m => decide (m.table = table)

theorem keyCols_of_registry : ∀ i ∈ registry, ∃ m ∈ syncModels, m.table = i.table ∧ m.businessKey = i.keyCols ∧
    ∀ c ∈ i.columns, ∃ f ∈ m.fields, f.column = c ∧ f.json = some c ∧ f.kind = .string := by
  decide +kernel

theorem modelOf_table : ∀ m ∈ syncModels, modelOf m.table = some m := by decide +kernel

end Sync
