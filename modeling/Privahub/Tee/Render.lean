import Privahub.Lib.Strings
import Privahub.Tee.Calls

/-!
# The text of a job of TEE data management

`RenderTaskInputConfig` as the record that is encoded, and `RebuildTeeResultID`. The id on the side of the TEE node is a node, a dash and
the id proper. Both take it back by removing the node and the dash wherever they occur, so what comes back is the id it was built from
exactly when they do not occur in that id (`recovered_iff`).
-/

namespace Tee

def teeDataManagement : Bytes := str "data_management"
def teeVersion : Bytes := str "0.0.1"
def teePushName : Bytes := str "upload"
def teeDeleteName : Bytes := str "delete"
def teeAuthName : Bytes := str "authorize"
def teePullName : Bytes := str "download"
def teePushAttrPathDomain : Bytes := str "uploader/domain_id"
def teePushAttrPathCert : Bytes := str "uploader/cert_chain"
def teeDeleteAttrPathDomain : Bytes := str "deleter/domain_id"
def teePullAttrPathDomain : Bytes := str "receiver/domain_id"
def teePullAttrVoteResult : Bytes := str "receiver/vote_result"
def teeAuthAttrOwnerDomain : Bytes := str "owner/domain_id"
def teeAuthAttrAuthDomains : Bytes := str "authorization_info/domain_ids"
def teeAuthAttrRootCerts : Bytes := str "authorization_info/root_certs"
def teeAuthAttrColumns : Bytes := str "authorization_info/columns"
def teeAuthAttrProjectID : Bytes := str "authorization_info/project_id"
def teePushInputName : Bytes := str "uploader_input"
def teeDeleteInputName : Bytes := str "deleter_input"
def teeAuthInputName : Bytes := str "authorize_input"
def teePullInputName : Bytes := str "downloader_input"
def teePushInputType : Bytes := str "sf.table.individual"
def teeDataRef : Bytes := str "dm://input?id="
def teeOutputDatasourceRef : Bytes := str "dm://output?datasource_id="
def teeOutputIDRef : Bytes := str "&id="
def teeOutputRelativeURIRef : Bytes := str "&uri="
def teeDefaultDS : Bytes := str "default-data-source"

structure TeeAttr where
  s : Bytes
  ss : List Bytes
  deriving DecidableEq

/-- `dataRefs` are the URIs. -/
structure TeeDistData where
  name : Bytes
  type : Bytes
  dataRefs : List Bytes
  deriving DecidableEq

structure TeeNodeEvalParam where
  version : Bytes
  compID : Bytes
  attrPaths : List Bytes
  attrs : List TeeAttr
  inputs : List TeeDistData
  outputURIs : List Bytes
  deriving DecidableEq

structure TeeTaskConfig where
  scope : Bytes
  capsuleManagerEndpoint : Bytes
  deriving DecidableEq

structure TeeTaskInputConfig where
  sfDatasourceConfig : List (Bytes × Bytes)
  sfNodeEvalParam : Option TeeNodeEvalParam
  teeTaskConfig : TeeTaskConfig
  deriving DecidableEq

structure TeeJobConverter where
  capsuleManager : Bytes
  maxParallelism : Int

def NewTeeJobConverter (capsuleManager : Bytes) (maxParallelism : Int) : TeeJobConverter where
  capsuleManager := if capsuleManager = [] then str "capsule-manager.#.svc" else capsuleManager
  maxParallelism := if maxParallelism ≤ 0 then 1 else maxParallelism

def teeBuildURI (datatableID pre : Bytes) : Bytes :=
  if pre = [] then teeDataRef ++ datatableID else teeDataRef ++ Bytes.replaceAll datatableID pre []

def teeBuildOutputURI (j : TeeJob) : Bytes :=
  let s := teeOutputDatasourceRef ++ j.datasourceID ++ teeOutputIDRef ++ j.datatableID
  if Utf8.trimSpace j.relativeURI ≠ [] then s ++ teeOutputRelativeURIRef ++ j.relativeURI else s

def compID (name : Bytes) : Bytes := teeDataManagement ++ str "/" ++ name ++ str ":" ++ teeVersion

def evalParam (j : TeeJob) : Option TeeNodeEvalParam :=
  match j.kind with
  | .push => some {
      version := teeVersion
      compID := compID teePushName
      attrPaths := [teePushAttrPathDomain, teePushAttrPathCert]
      attrs := [⟨j.nodeID, []⟩, ⟨[], []⟩]
      inputs := [⟨teePushInputName, teePushInputType, [teeBuildURI j.datatableID (j.teeNodeID ++ str "-")]⟩]
      outputURIs := [teeBuildOutputURI j] }
  | .auth => some {
      version := teeVersion
      compID := compID teeAuthName
      attrPaths := [teeAuthAttrOwnerDomain, teeAuthAttrAuthDomains, teeAuthAttrRootCerts, teeAuthAttrColumns, teeAuthAttrProjectID]
      attrs := [⟨j.nodeID, []⟩, ⟨[], j.authNodeIDs⟩, ⟨[], j.authNodeCerts⟩, ⟨[], [str "*"]⟩, ⟨j.projectID, []⟩]
      inputs := [⟨teeAuthInputName, teePushInputType, [teeBuildURI j.datatableID []]⟩]
      outputURIs := [] }
  | .pull => some {
      version := teeVersion
      compID := compID teePullName
      attrPaths := [teePullAttrPathDomain, teePullAttrVoteResult]
      attrs := [⟨j.nodeID, []⟩, ⟨j.voteResult, []⟩]
      inputs := [⟨teePullInputName, teePushInputType, [teeBuildURI j.datatableID (j.nodeID ++ str "-")]⟩]
      outputURIs := [teeBuildOutputURI j] }
  | .delete => some {
      version := teeVersion
      compID := compID teeDeleteName
      attrPaths := [teeDeleteAttrPathDomain]
      attrs := [⟨j.nodeID, []⟩]
      inputs := [⟨teeDeleteInputName, teePushInputType, [teeBuildURI j.datatableID []]⟩]
      outputURIs := [] }
  | .pushAuth | .cancelAuth => none

def TeeJobConverter.RenderTaskInputConfig (c : TeeJobConverter) (j : TeeJob) : TeeTaskInputConfig where
  sfDatasourceConfig := j.parties.dedup.map fun p => (p, teeDefaultDS)
  sfNodeEvalParam := evalParam j
  teeTaskConfig := {
    scope := if j.kind = .auth then j.projectID else []
    capsuleManagerEndpoint := Bytes.replaceAll c.capsuleManager (str "#") j.teeNodeID }

def RebuildTeeResultID (nodeID resultID teeNodeID : Bytes) : Bytes × Bytes := (teeNodeID, Bytes.replaceAll resultID (nodeID ++ str "-") [])

def TeeTaskInputConfig.inputURIs (c : TeeTaskInputConfig) : List Bytes :=
  (c.sfNodeEvalParam.map fun p => p.inputs.flatMap fun i => i.dataRefs).getD []

theorem dash_ne_nil (nodeID : Bytes) : nodeID ++ str "-" ≠ [] := List.append_ne_nil_of_right_ne_nil _ (by decide)

theorem replaceAll_build (nodeID id : Bytes) :
    Bytes.replaceAll (BuildTeeDatatableID nodeID id) (nodeID ++ str "-") [] = Bytes.replaceAll id (nodeID ++ str "-") [] :=
  Bytes.replaceAll_append (dash_ne_nil nodeID) id

theorem buildURI_build (nodeID id : Bytes) : teeBuildURI (BuildTeeDatatableID nodeID id) (nodeID ++ str "-") = teeDataRef ++ id ↔
    ¬ nodeID ++ str "-" <:+: id := by
  rw [teeBuildURI, if_neg (dash_ne_nil nodeID), replaceAll_build, List.append_cancel_left_eq, Bytes.removeAll_eq_iff (dash_ne_nil nodeID)]

/-- A push, a pull and the view of a result read the id that a TEE id was built from, exactly when the node and the dash are not in it. -/
theorem recovered_iff (c : TeeJobConverter) (j : TeeJob) (nodeID teeNodeID id : Bytes) :
    ((c.RenderTaskInputConfig { j with kind := .push, datatableID := BuildTeeDatatableID j.teeNodeID id }).inputURIs = [teeDataRef ++ id] ↔
      ¬ j.teeNodeID ++ str "-" <:+: id) ∧
    ((c.RenderTaskInputConfig { j with kind := .pull, datatableID := BuildTeeDatatableID j.nodeID id }).inputURIs = [teeDataRef ++ id] ↔
      ¬ j.nodeID ++ str "-" <:+: id) ∧
    (RebuildTeeResultID nodeID (BuildTeeDatatableID nodeID id) teeNodeID = (teeNodeID, id) ↔ ¬ nodeID ++ str "-" <:+: id) := by
  refine ⟨?_, ?_, ?_⟩
  · rw [← buildURI_build]
    exact List.singleton_inj
  · rw [← buildURI_build]
    exact List.singleton_inj
  · rw [← Bytes.removeAll_eq_iff (dash_ne_nil nodeID), ← replaceAll_build]
    exact Prod.mk_right_inj

private def resultID : Bytes := str "abcd-g1-node-3-output-0"
private def conv : TeeJobConverter := NewTeeJobConverter [] 1
private def jobOf (kind : TeeJobKind) (nodeID teeNodeID id : Bytes) : TeeJob :=
  ⟨nodeID, [], [], [], teeNodeID, id, str "aaaa", kind, str "p", [], [], [], []⟩

/-- The results of a node called node lose a part of their id, and so does a table whose id has the name of the TEE node before a dash. -/
theorem not_recovered : RebuildTeeResultID (str "node") (BuildTeeDatatableID (str "node") resultID) (str "tee") = (str "tee", str "abcd-g1-3-output-0") ∧
    (conv.RenderTaskInputConfig (jobOf .pull (str "node") (str "tee") (BuildTeeDatatableID (str "node") resultID))).inputURIs =
      [teeDataRef ++ str "abcd-g1-3-output-0"] ∧
    (conv.RenderTaskInputConfig (jobOf .push (str "alice") (str "tee") (BuildTeeDatatableID (str "tee") (str "guarantee-cases")))).inputURIs =
      [teeDataRef ++ str "guarancases"] := by
  decide +kernel

end Tee
