import Privahub.Node.Service
import Privahub.Tee.Sync

/-!
# Calls that submit a job of TEE data management

`PullResult`, `PushDatatableToTee`, `AuthDatatableToTee` and `DeleteDatatable`. Each saves a row and creates its job in one transaction.
An edge keeps no rows: it sends them to the center, and a transaction that fails does not take them back. How every query, statement,
commit and request goes is part of a call, and so are the letters it draws. A request for a job holds the job that its text is made from.
-/

namespace Tee

open Route (Answer)
open Node (Err)

structure TeeJob where
  nodeID : Bytes
  nodeCert : Bytes
  authNodeIDs : List Bytes
  authNodeCerts : List Bytes
  teeNodeID : Bytes
  datatableID : Bytes
  jobID : Bytes
  kind : TeeJobKind
  projectID : Bytes
  datasourceID : Bytes
  relativeURI : Bytes
  voteResult : Bytes
  parties : List Bytes
  deriving DecidableEq

structure CreateJobRequest where
  jobID : Bytes
  initiator : Bytes
  maxParallelism : Int
  taskID : Bytes
  alias_ : Bytes
  appImage : Bytes
  parties : List Bytes
  input : TeeJob
  deriving DecidableEq

def teeImage : Bytes := str "tee-dm-image"
def DefaultLocalDatasourceID : Bytes := str "default-data-source"
def DatasourceTypeHTTP : Bytes := str "HTTP"
def DatasourceTypeLocal : Bytes := str "LOCAL"
def DefaultLocalKusciaType : Bytes := str "localfs"
def systemDomainID : Bytes := str "kuscia-system"

def BuildTeeDatatableID (nodeID datatableID : Bytes) : Bytes := nodeID ++ str "-" ++ datatableID

def GenTeeJob (m : TeeNodeDatatableManagementDO) (parties : List Bytes) (cert : Bytes) (authNodeIDs authNodeCerts : List Bytes) : TeeJob where
  projectID := operateInfoString m teeOperateProjectID
  nodeID := m.nodeId
  nodeCert := cert
  authNodeIDs := authNodeIDs
  authNodeCerts := authNodeCerts
  datatableID := m.datatableId
  teeNodeID := m.teeNodeId
  jobID := m.jobId
  kind := m.kind
  datasourceID := m.datasourceId
  relativeURI := operateInfoString m teeOperateRelativeURI
  voteResult := operateInfoString m teeOperateVoteResult
  parties := parties

def Convert (maxParallelism : Int) (j : TeeJob) : CreateJobRequest where
  jobID := j.jobID
  initiator := j.parties.headD []
  maxParallelism := maxParallelism
  taskID := j.jobID ++ str "-" ++ j.nodeID
  alias_ := j.jobID ++ str "-" ++ j.nodeID
  appImage := teeImage
  parties := j.parties
  input := j

/-- `strings.ToUpper`. -/
def ToUpper (u : CaseTables) (s : Bytes) : Bytes := (Utf8.runes s).flatMap fun r => Utf8.encodeRune (u.toUpper r.1)

def firstNonEmpty (values : List Bytes) : Bytes := (values.find? fun v => decide (v ≠ [])).getD []

/-- A row of node_route is its two ends, one of feature_table and of the two tables of projects its keys. -/
structure State where
  db : World
  routes : List (Bytes × Bytes)
  featureTables : List (Bytes × Bytes)
  projects : List Bytes
  projectDatatables : List (Bytes × Bytes × Bytes)
  projectFeatureTables : List (Bytes × Bytes × Bytes)
  center : List TeeNodeDatatableManagementDO
  jobs : List CreateJobRequest

/-- `kuscia` says whether there is a client, `edge` whether the platform is one. -/
structure DatatableService where
  unicode : CaseTables
  teeNodeID : Bytes
  maxParallelism : Int
  kuscia : Bool
  edge : Bool

namespace Err

def KusciaRpcError (msg : Bytes) : Err := ⟨202012101, str "kuscia.RPC_ERROR", msg⟩
def DatatableCreateTeeJobFailed (msg : Bytes) : Err := ⟨202011308, str "datatable.CREATE_TEE_JOB_FAILED", msg⟩
def DatatableCreateDatatableGrantFailed (msg : Bytes) : Err := ⟨202011307, str "datatable.CREATE_DATATABLE_GRANT_FAILED", msg⟩
def DatatableDuplicatedAuthorized : Err := ⟨202011305, str "datatable.DATATABLE_DUPLICATED_AUTHORIZED", []⟩
def DatatableDeleteDatatableFailed (msg : Bytes) : Err := ⟨202011304, str "datatable.DELETE_DATATABLE_FAILED", msg⟩

end Err

/-- How the saving of a row goes, and the submission of its job: the letters drawn, the clock, the answers with the text of their errors. -/
structure Saving where
  jobId : Bytes
  now : Int
  answer : Answer
  errMsg : Bytes

structure Submission where
  save : Saving
  create : Answer
  createErr : Bytes
  commits : Bool

abbrev Result (α : Type) := Except Err α × State

def andThen {α β : Type} (f : α → State → Result β) : Result α → Result β
  | (.error e, st) => (.error e, st)
  | (.ok a, st) => f a st

def transaction {α : Type} (commits : Bool) (st : State) : Result α → Result α
  | (.error e, st') => (.error e, { st' with db := st.db })
  | (.ok a, st') => if commits then (.ok a, st') else (.error .database, { st' with db := st.db })

namespace DatatableService

variable (s : DatatableService)

def requireKuscia : Except Err Unit := if s.kuscia then .ok () else .error (Err.KusciaRpcError (str "kuscia client not configured"))

def teeDomain (req : Bytes) : Bytes := if Utf8.trimSpace req ≠ [] then req else s.teeNodeID

def routeExists (st : State) (counts : Bool) (src dst : Bytes) : Bool := counts && decide ((src, dst) ∈ st.routes)

def saveTeeManagement (st : State) (m : TeeNodeDatatableManagementDO) (x : Saving) : Result Unit :=
  let r : Except Err Unit := if x.answer = .done then .ok () else .error ⟨0, [], x.errMsg⟩
  if s.edge then (r, if x.answer.takesEffect then { st with center := st.center ++ [m] } else st)
  else (r, if x.answer = .done then { st with db := st.db.create m } else st)

def submit (st : State) (m : TeeNodeDatatableManagementDO) (job : TeeJob) (x : Submission) : Result Unit :=
  andThen (fun _ st =>
    (if x.create = .done then .ok () else .error (Err.DatatableCreateTeeJobFailed x.createErr),
      if x.create.takesEffect then { st with jobs := st.jobs ++ [Convert s.maxParallelism job] } else st))
    (s.saveTeeManagement st m x.save)

structure TeePullRequest where
  nodeID : Bytes
  resourceID : Bytes
  teeNodeID : Bytes
  datasourceID : Bytes
  relativeURI : Bytes
  voteResult : Bytes
  projectID : Bytes
  projectJobID : Bytes
  taskID : Bytes
  resourceType : Bytes

def pullRecord (req : TeePullRequest) (x : Saving) : TeeNodeDatatableManagementDO where
  id := 0
  nodeId := req.nodeID
  teeNodeId := s.teeDomain req.teeNodeID
  datatableId := BuildTeeDatatableID req.nodeID req.resourceID
  datasourceId := firstNonEmpty [req.datasourceID, DefaultLocalDatasourceID]
  kind := .pull
  jobId := x.jobId
  status := .running
  errMsg := []
  operateInfo := [(teeOperateRelativeURI, firstNonEmpty [req.relativeURI, BuildTeeDatatableID req.nodeID req.resourceID]),
    (teeOperateVoteResult, req.voteResult), (teeOperateProjectID, req.projectID), (teeOperateProjectJobID, req.projectJobID),
    (teeOperateProjectTaskID, req.taskID), (teeOperateResultType, req.resourceType)]
  gmtCreate := x.now

def PullResult (st : State) (req : TeePullRequest) (x : Submission) : Result TeeNodeDatatableManagementDO :=
  if req.nodeID = [] ∨ req.resourceID = [] then (.error (.ParamError (str "nodeId/resourceId cannot be blank")), st)
  else match s.requireKuscia with
    | .error e => (.error e, st)
    | .ok () =>
      let pull := s.pullRecord req x.save
      andThen (fun _ st => (.ok pull, st))
        (transaction x.commits st (s.submit st pull (GenTeeJob pull [req.nodeID, s.teeDomain req.teeNodeID] [] [] []) x))

structure PushDatatableToTeeRequest where
  nodeID : Bytes
  datatableID : Bytes
  teeNodeID : Bytes
  datasourceID : Bytes
  relativeURI : Bytes

/-- `granted` is the query for the row of the grant, `queryGrant` the one for the grant in Kuscia. -/
structure Push where
  countForth : Bool
  countBack : Bool
  granted : Bool
  queryGrant : Bool
  grantID : Bytes
  grant : Answer
  grantErr : Bytes
  saveGrant : Saving
  submission : Submission

def pushAuthRecord (req : PushDatatableToTeeRequest) (x : Push) : TeeNodeDatatableManagementDO where
  id := 0
  nodeId := req.nodeID
  teeNodeId := s.teeDomain req.teeNodeID
  datatableId := req.datatableID
  datasourceId := if req.datasourceID = [] then DefaultLocalDatasourceID else req.datasourceID
  kind := .pushAuth
  jobId := x.saveGrant.jobId
  status := .success
  errMsg := []
  operateInfo := [(teeOperateGrantID, x.grantID)]
  gmtCreate := x.saveGrant.now

def pushRecord (req : PushDatatableToTeeRequest) (x : Saving) : TeeNodeDatatableManagementDO where
  id := 0
  nodeId := req.nodeID
  teeNodeId := s.teeDomain req.teeNodeID
  datatableId := BuildTeeDatatableID (s.teeDomain req.teeNodeID) req.datatableID
  datasourceId := if req.datasourceID = [] then DefaultLocalDatasourceID else req.datasourceID
  kind := .push
  jobId := x.jobId
  status := .running
  errMsg := []
  operateInfo := [(teeOperateRelativeURI,
    if req.relativeURI = [] then BuildTeeDatatableID (s.teeDomain req.teeNodeID) req.datatableID else req.relativeURI)]
  gmtCreate := x.now

def pushAuth (st : State) (req : PushDatatableToTeeRequest) (x : Push) : Bool :=
  match if x.granted then st.db.records.find? fun m => decide (m.nodeId = req.nodeID ∧ m.teeNodeId = s.teeDomain req.teeNodeID ∧
      m.datatableId = req.datatableID ∧ m.kind = .pushAuth) else none with
  | none => false
  | some pa => decide (operateInfoString pa teeOperateGrantID ≠ []) && x.queryGrant

def createGrant (st : State) (req : PushDatatableToTeeRequest) (x : Push) : Result Unit :=
  if s.pushAuth st req x then (.ok (), st)
  else if x.grant = .done then s.saveTeeManagement st (s.pushAuthRecord req x) x.saveGrant
  else (.error (Err.DatatableCreateDatatableGrantFailed x.grantErr), st)

def PushDatatableToTee (st : State) (req : PushDatatableToTeeRequest) (x : Push) : Result Unit :=
  if req.nodeID = [] ∨ req.datatableID = [] then (.error (.ParamError (str "nodeId/datatableId cannot be blank")), st)
  else match s.requireKuscia with
    | .error e => (.error e, st)
    | .ok () =>
      let teeDomain := s.teeDomain req.teeNodeID
      if routeExists st x.countForth req.nodeID teeDomain = false then
        (.error (.NodeRouteNotExistError (str "route not exist " ++ req.nodeID ++ str "->" ++ teeDomain)), st)
      else if routeExists st x.countBack teeDomain req.nodeID = false then
        (.error (.NodeRouteNotExistError (str "route not exist " ++ teeDomain ++ str "->" ++ req.nodeID)), st)
      else
        let push := s.pushRecord req x.submission.save
        transaction x.submission.commits st
          (andThen (fun _ st => s.submit st push (GenTeeJob push [req.nodeID, teeDomain] [] [] []) x.submission) (s.createGrant st req x))

structure AuthRequest where
  projectID : Bytes
  nodeID : Bytes
  datatableID : Bytes
  teeNodeID : Bytes
  datasourceID : Bytes

/-- `cert` is what Kuscia answers for the system domain, if it does; `find` is the query for the last push. -/
structure Auth where
  countForth : Bool
  countBack : Bool
  find : Bool
  push : Push
  cert : Option Bytes
  submission : Submission

def authRecord (req : AuthRequest) (x : Saving) : TeeNodeDatatableManagementDO where
  id := 0
  nodeId := req.nodeID
  teeNodeId := s.teeDomain req.teeNodeID
  datatableId := BuildTeeDatatableID (s.teeDomain req.teeNodeID) req.datatableID
  datasourceId := firstNonEmpty [req.datasourceID, DefaultLocalDatasourceID]
  kind := .auth
  jobId := x.jobId
  status := .running
  errMsg := []
  operateInfo := [(teeOperateProjectID, req.projectID)]
  gmtCreate := x.now

def needsPush (st : State) (req : AuthRequest) (x : Auth) : Bool :=
  match if x.find then (st.db.records.filter fun m => decide (m.nodeId = req.nodeID ∧ m.teeNodeId = s.teeDomain req.teeNodeID ∧
      m.datatableId = BuildTeeDatatableID (s.teeDomain req.teeNodeID) req.datatableID ∧ m.kind = .push)).getLast? else none with
  | none => true
  | some push => decide (push.status = .failed)

/-- The push within a call, which does not pass the TEE node on. -/
def pushFirst (st : State) (req : AuthRequest) (x : Auth) : Result Unit :=
  if s.needsPush st req x then s.PushDatatableToTee st ⟨req.nodeID, req.datatableID, [], [], []⟩ x.push else (.ok (), st)

def AuthDatatableToTee (st : State) (req : AuthRequest) (x : Auth) : Result TeeNodeDatatableManagementDO :=
  match s.requireKuscia with
  | .error e => (.error e, st)
  | .ok () =>
    let teeDomain := s.teeDomain req.teeNodeID
    if routeExists st x.countForth req.nodeID teeDomain = false then
      (.error (.NodeRouteNotExistError (str "route not exist " ++ req.nodeID ++ str "->" ++ teeDomain)), st)
    else if routeExists st x.countBack teeDomain req.nodeID = false then
      (.error (.NodeRouteNotExistError (str "route not exist " ++ teeDomain ++ str "->" ++ req.nodeID)), st)
    else
      let auth := s.authRecord req x.submission.save
      andThen (fun _ st => andThen (fun _ st => (.ok auth, st)) (transaction x.submission.commits st
        (s.submit st auth (GenTeeJob auth [req.nodeID] [] [systemDomainID] [x.cert.getD []]) x.submission))) (s.pushFirst st req x)

structure DeleteDatatableRequest where
  nodeID : Bytes
  datatableID : Bytes
  teeNodeID : Bytes
  datasourceID : Bytes
  datasourceType : Bytes
  relativeURI : Bytes
  type : Bytes

/-- `domainData` is the type of the data source that Kuscia has for the table, if it answers; the other flags are those of the queries. -/
structure Delete where
  countFeature : Bool
  domainData : Option Bytes
  findRows : Bool
  findProjects : Bool
  deleteFeature : Bool
  find : Bool
  submission : Submission
  deleteDomainData : Answer
  deleteErr : Bytes

/-- `fromDomainData`, as far as it is about the type of the data source. -/
def domainDataType (dsType : Bytes) : Bytes :=
  if dsType = [] ∨ Graph.EqualFold s.unicode dsType DefaultLocalKusciaType then DatasourceTypeLocal else dsType

def resolveDatasourceType (st : State) (req : DeleteDatatableRequest) (x : Delete) : Bytes :=
  if req.datasourceType ≠ [] then ToUpper s.unicode req.datasourceType
  else if Graph.EqualFold s.unicode req.type DatasourceTypeHTTP then DatasourceTypeHTTP
  else if x.countFeature && decide ((req.datatableID, req.nodeID) ∈ st.featureTables) then DatasourceTypeHTTP
  else match if s.kuscia then x.domainData else none with
    | some dsType => s.domainDataType dsType
    | none => DatasourceTypeLocal

def authProjects (st : State) (rows : List (Bytes × Bytes × Bytes)) (req : DeleteDatatableRequest) (x : Delete) : Bool :=
  x.findRows && x.findProjects && rows.any fun r => decide (r.1 ∈ st.projects ∧ r.2 = (req.nodeID, req.datatableID))

/-- `ORDER BY gmt_create DESC, id LIMIT 1` over rows in the order of their ids. -/
def latest (rows : List TeeNodeDatatableManagementDO) : Option TeeNodeDatatableManagementDO :=
  rows.foldl (fun best r => match best with
    | none => some r
    | some b => if b.gmtCreate < r.gmtCreate then some r else some b) none

def lastPush (st : State) (req : DeleteDatatableRequest) (x : Delete) : Option TeeNodeDatatableManagementDO :=
  if x.find then latest (st.db.records.filter fun m => decide (m.nodeId = req.nodeID ∧ m.teeNodeId = s.teeDomain req.teeNodeID ∧
    (m.datatableId = BuildTeeDatatableID (s.teeDomain req.teeNodeID) req.datatableID ∨
      m.datatableId = BuildTeeDatatableID s.teeNodeID req.datatableID) ∧ m.kind = .push))
  else none

def pushed (st : State) (req : DeleteDatatableRequest) (x : Delete) : Option TeeNodeDatatableManagementDO :=
  (s.lastPush st req x).filter fun push => decide (push.status = .success)

def deleteRecord (req : DeleteDatatableRequest) (push : TeeNodeDatatableManagementDO) (x : Saving) : TeeNodeDatatableManagementDO where
  id := 0
  nodeId := req.nodeID
  teeNodeId := s.teeDomain req.teeNodeID
  datatableId := push.datatableId
  datasourceId := if req.datasourceID = [] then DefaultLocalDatasourceID else req.datasourceID
  kind := .delete
  jobId := x.jobId
  status := .running
  errMsg := []
  operateInfo := [(teeOperatePushToTeeJobID, push.jobId), (teeOperateRelativeURI, req.relativeURI)]
  gmtCreate := x.now

def undoPush (st : State) (req : DeleteDatatableRequest) (x : Delete) : Result Unit :=
  match s.pushed st req x with
  | none => (.ok (), st)
  | some push =>
    let del := s.deleteRecord req push x.submission.save
    let r := transaction x.submission.commits st (s.submit st del (GenTeeJob del [req.nodeID] [] [] []) x.submission)
    (r.1.mapError fun e => Err.DatatableCreateTeeJobFailed e.msg, r.2)

def deleteDomainData (x : Delete) (st : State) : Result Unit :=
  (if x.deleteDomainData = .done then .ok () else .error (Err.DatatableDeleteDatatableFailed x.deleteErr), st)

def DeleteDatatable (st : State) (req : DeleteDatatableRequest) (x : Delete) : Result Unit :=
  if req.nodeID = [] ∨ req.datatableID = [] then (.error (.ParamError (str "nodeId/datatableId cannot be blank")), st)
  else if s.resolveDatasourceType st req x = DatasourceTypeHTTP then
    if authProjects st st.projectFeatureTables req x then (.error Err.DatatableDuplicatedAuthorized, st)
    else if x.deleteFeature then (.ok (), { st with featureTables := st.featureTables.filter fun f => decide (f ≠ (req.datatableID, req.nodeID)) })
    else (.error .database, st)
  else if authProjects st st.projectDatatables req x then (.error Err.DatatableDuplicatedAuthorized, st)
  else match s.requireKuscia with
    | .error e => (.error e, st)
    | .ok () => andThen (fun _ st => deleteDomainData x st) (s.undoPush st req x)

inductive Call
  | pull (req : TeePullRequest) (x : Submission)
  | push (req : PushDatatableToTeeRequest) (x : Push)
  | auth (req : AuthRequest) (x : Auth)
  | delete (req : DeleteDatatableRequest) (x : Delete)

/-- A call, with the row that it returns if it returns one. -/
def run (st : State) : Call → Result (Option TeeNodeDatatableManagementDO)
  | .pull req x => ((s.PullResult st req x).1.map some, (s.PullResult st req x).2)
  | .push req x => ((s.PushDatatableToTee st req x).1.map fun _ => none, (s.PushDatatableToTee st req x).2)
  | .auth req x => ((s.AuthDatatableToTee st req x).1.map some, (s.AuthDatatableToTee st req x).2)
  | .delete req x => ((s.DeleteDatatable st req x).1.map fun _ => none, (s.DeleteDatatable st req x).2)

def store (st : State) : List TeeNodeDatatableManagementDO := if s.edge then st.center else st.db.records

def live (rows : List TeeNodeDatatableManagementDO) : List TeeNodeDatatableManagementDO := rows.filter fun m => decide (m.status = .running)

/-- `rows` are new, and the jobs are one under the id of each RUNNING one of them, and then `more`. -/
structure Grew (st st' : State) (rows : List TeeNodeDatatableManagementDO) (more : List CreateJobRequest) : Prop where
  store : s.store st' = s.store st ++ rows
  other : if s.edge then st'.db = st.db else st'.center = st.center
  jobs : ∃ js, st'.jobs = st.jobs ++ (js ++ more) ∧ js.map (fun j => j.jobID) = (live rows).map fun m => m.jobId

def pushKinds (st : State) (req : AuthRequest) (x : Auth) : List TeeJobKind := if s.needsPush st req x then [.push] else []

def undoKinds (st : State) (req : DeleteDatatableRequest) (x : Delete) : List TeeJobKind := if (s.pushed st req x).isSome then [.delete] else []

def makes (st : State) : Call → List TeeJobKind
  | .pull _ _ => [.pull]
  | .push _ _ => [.push]
  | .auth req x => s.pushKinds st req x ++ [.auth]
  | .delete req x => if s.resolveDatasourceType st req x = DatasourceTypeHTTP then [] else s.undoKinds st req x

/-- What a call that fails leaves: the push that an authorization began with, and the deletion of a push when the table itself cannot be deleted
after it. -/
def Leaves (st : State) : Call → List TeeJobKind → Prop
  | .pull _ _, ks | .push _ _, ks => ks = []
  | .auth req x, ks => ks = [] ∨ ks = s.pushKinds st req x ∧ (s.pushFirst st req x).1 = .ok ()
  | .delete req x, ks => ks = [] ∨ ks = s.undoKinds st req x ∧ (s.undoPush st req x).1 = .ok () ∧ x.deleteDomainData ≠ .done

/-- After an error the database of an edge is as it was. -/
def Failed (st st' : State) (call : Call) : Prop :=
  if s.edge then st'.db = st.db else ∃ rows more, s.Grew st st' rows more ∧ s.Leaves st call ((live rows).map fun m => m.kind)

def Succeeded (st st' : State) (call : Call) (m : Option TeeNodeDatatableManagementDO) : Prop :=
  ∃ rows, s.Grew st st' rows [] ∧ (live rows).map (fun r => r.kind) = s.makes st call ∧
    ∀ m' ∈ m, ∃ r ∈ live rows, r.kind = m'.kind ∧ r.jobId = m'.jobId

variable {s} {st st' st₁ st₂ : State} {m : TeeNodeDatatableManagementDO} {rows rows' : List TeeNodeDatatableManagementDO}
  {more more' : List CreateJobRequest} {α : Type}

structure Loose (s : DatatableService) (st st' : State) : Prop where
  center : s.edge = false → st'.center = st.center
  jobs : ∃ more, st'.jobs = st.jobs ++ more

theorem Loose.refl : Loose s st st := ⟨fun _ => rfl, [], (List.append_nil _).symm⟩

theorem Loose.trans (h : Loose s st st₁) (h' : Loose s st₁ st₂) : Loose s st st₂ := by
  obtain ⟨more, hmore⟩ := h.jobs
  obtain ⟨more', hmore'⟩ := h'.jobs
  exact ⟨fun hedge => (h'.center hedge).trans (h.center hedge), more ++ more', by rw [hmore', hmore, List.append_assoc]⟩

theorem Grew.refl : s.Grew st st [] [] := by
  refine ⟨(List.append_nil _).symm, ?_, [], (List.append_nil _).symm, rfl⟩
  split_ifs <;> rfl

theorem Grew.loose (h : s.Grew st st' rows more) : Loose s st st' := by
  obtain ⟨js, hjs, -⟩ := h.jobs
  refine ⟨fun hedge => ?_, js ++ more, hjs⟩
  have := h.other
  rwa [hedge, if_neg Bool.false_ne_true] at this

theorem live_append : live (rows ++ rows') = live rows ++ live rows' := List.filter_append ..

theorem Grew.trans (h : s.Grew st st₁ rows []) (h' : s.Grew st₁ st₂ rows' more) : s.Grew st st₂ (rows ++ rows') more := by
  obtain ⟨js, hjs, hids⟩ := h.jobs
  obtain ⟨js', hjs', hids'⟩ := h'.jobs
  refine ⟨by rw [h'.store, h.store, List.append_assoc], ?_, js ++ js', ?_, ?_⟩
  · have hother := h.other
    have hother' := h'.other
    split_ifs at hother hother' ⊢
    · exact hother'.trans hother
    · exact hother'.trans hother
  · rw [hjs', hjs, List.append_nil, List.append_assoc, List.append_assoc]
  · rw [List.map_append, hids, hids', live_append, List.map_append]

theorem Loose.grew (h : Loose s st st') (hdb : st'.db = st.db) : if s.edge then st'.db = st.db else ∃ more, s.Grew st st' [] more := by
  split_ifs with hedge
  · exact hdb
  · obtain ⟨more, hmore⟩ := h.jobs
    refine ⟨more, ?_, ?_, [], hmore, rfl⟩
    · rw [store, store, if_neg hedge, if_neg hedge, hdb, List.append_nil]
    · rw [if_neg hedge]
      exact h.center (Bool.eq_false_iff.2 hedge)

/-- What holds after a call that goes through, and after one that fails. -/
def Spec (p : α → State → Prop) (q : State → Prop) : Result α → Prop
  | (.ok a, st) => p a st
  | (.error _, st) => q st

namespace Spec

variable {p p' : α → State → Prop} {q q' : State → Prop} {r : Result α}

theorem mono (h : Spec p q r) (hp : ∀ a st, p a st → p' a st) (hq : ∀ st, q st → q' st) : Spec p' q' r := by
  obtain ⟨res, st⟩ := r
  cases res with
  | ok a => exact hp a st h
  | error e => exact hq st h

theorem map {β : Type} {f : α → β} {p' : β → State → Prop} (h : Spec p q r) (hp : ∀ a st, p a st → p' (f a) st) (hq : ∀ st, q st → q' st) :
    Spec p' q' (r.1.map f, r.2) := by
  obtain ⟨res, st⟩ := r
  cases res with
  | ok a => exact hp a st h
  | error e => exact hq st h

theorem mapError {f : Err → Err} (h : Spec p q r) : Spec p q (r.1.mapError f, r.2) := by
  obtain ⟨res, st⟩ := r
  cases res with
  | ok a => exact h
  | error e => exact h

theorem andThen {β : Type} {f : α → State → Result β} {p' : β → State → Prop} (h : Spec p q r) (hf : ∀ a st, p a st → Spec p' q' (f a st))
    (hq : ∀ st, q st → q' st) : Spec p' q' (andThen f r) := by
  obtain ⟨res, st⟩ := r
  cases res with
  | ok a => exact hf a st h
  | error e => exact hq st h

end Spec

def Undone (s : DatatableService) (st st' : State) : Prop := st'.db = st.db ∧ Loose s st st'

theorem transaction_spec {commits : Bool} {r : Result α} {p : State → Prop} (h : Spec (fun _ st' => p st') (Loose s st) r)
    (hp : ∀ st', p st' → Loose s st st') : Spec (fun _ st' => p st') (Undone s st) (transaction commits st r) := by
  obtain ⟨res, st'⟩ := r
  cases res with
  | error e => exact ⟨rfl, h.center, h.jobs⟩
  | ok a =>
    cases commits with
    | true => exact h
    | false => exact ⟨rfl, (hp st' h).center, (hp st' h).jobs⟩

structure Saved (s : DatatableService) (st st' : State) (rows : List TeeNodeDatatableManagementDO) : Prop where
  store : s.store st' = s.store st ++ rows
  other : if s.edge then st'.db = st.db else st'.center = st.center
  jobs : st'.jobs = st.jobs

theorem Saved.grew (h : Saved s st st' rows) (hrows : live rows = []) : s.Grew st st' rows [] :=
  ⟨h.store, h.other, [], by rw [h.jobs, List.append_nil, List.append_nil], by rw [hrows]; rfl⟩

theorem Saved.loose (h : Saved s st st' rows) : Loose s st st' := by
  refine ⟨fun hedge => ?_, [], by rw [h.jobs, List.append_nil]⟩
  have := h.other
  rwa [hedge, if_neg Bool.false_ne_true] at this

theorem save_spec {x : Saving} :
    Spec (fun _ st' => ∃ id, Saved s st st' [{ m with id := id }]) (Loose s st) (s.saveTeeManagement st m x) := by
  unfold saveTeeManagement
  cases hedge : s.edge with
  | true =>
    have hstore (st : State) : s.store st = st.center := if_pos hedge
    cases x.answer with
    | done => exact ⟨m.id, by rw [hstore, hstore]; rfl, by rw [hedge]; rfl, rfl⟩
    | refused => exact Loose.refl
    | failed => exact Loose.refl
    | lost => exact ⟨fun h => absurd (hedge.symm.trans h) nofun, [], (List.append_nil _).symm⟩
  | false =>
    have hstore (st : State) : s.store st = st.db.records := if_neg (by rw [hedge]; exact Bool.false_ne_true)
    cases x.answer with
    | done => exact ⟨st.db.nextId, by rw [hstore, hstore]; rfl, by rw [hedge]; rfl, rfl⟩
    | refused => exact Loose.refl
    | failed => exact Loose.refl
    | lost => exact Loose.refl

def Submitted (s : DatatableService) (m : TeeNodeDatatableManagementDO) (st st' : State) : Prop := ∃ id, s.Grew st st' [{ m with id := id }] []

theorem Submitted.loose (h : Submitted s m st st') : Loose s st st' := h.elim fun _ h => h.loose

theorem live_row {id : Nat} (hm : m.status = .running) : live [{ m with id := id }] = [{ m with id := id }] :=
  List.filter_cons_of_pos (decide_eq_true hm)

theorem submit_spec {job : TeeJob} {x : Submission} (hm : m.status = .running) (hjob : job.jobID = m.jobId) :
    Spec (fun _ st' => Submitted s m st st') (Loose s st) (s.submit st m job x) := by
  refine save_spec.andThen (fun _ st' ⟨id, h⟩ => ?_) fun _ h => h
  cases x.create with
  | done =>
    refine ⟨id, h.store, h.other, [Convert s.maxParallelism job], congrArg (· ++ _) h.jobs, ?_⟩
    rw [live_row hm]
    exact congrArg (fun i => [i]) hjob
  | refused => exact h.loose
  | failed => exact h.loose
  | lost => exact ⟨h.loose.center, [Convert s.maxParallelism job], congrArg (· ++ _) h.jobs⟩

theorem createGrant_spec {req : PushDatatableToTeeRequest} {x : Push} :
    Spec (fun _ st' => ∃ rows, (∀ r ∈ rows, r.kind = .pushAuth ∧ r.status = .success) ∧ s.Grew st st' rows []) (Loose s st)
      (s.createGrant st req x) := by
  unfold createGrant
  split_ifs
  · exact ⟨[], (fun _ hr => nomatch hr), .refl⟩
  · refine save_spec.mono (fun _ _ ⟨id, h⟩ => ⟨_, fun r hr => ?_, h.grew rfl⟩) fun _ h => h
    obtain rfl := List.mem_singleton.1 hr
    exact ⟨rfl, rfl⟩
  · exact Loose.refl

theorem pullResult_spec {req : TeePullRequest} {x : Submission} :
    Spec (fun m st' => m = s.pullRecord req x.save ∧ Submitted s m st st') (Undone s st) (s.PullResult st req x) := by
  unfold PullResult requireKuscia
  split_ifs
  · exact ⟨rfl, .refl⟩
  · exact (transaction_spec (submit_spec rfl rfl) fun _ h => h.loose).andThen (fun _ _ h => ⟨rfl, h⟩) fun _ h => h
  · exact ⟨rfl, .refl⟩

def Pushed (s : DatatableService) (m : TeeNodeDatatableManagementDO) (st st' : State) : Prop :=
  ∃ rows id, live rows = [] ∧ s.Grew st st' (rows ++ [{ m with id := id }]) []

def PushedAfter (s : DatatableService) (m : TeeNodeDatatableManagementDO) (st st' : State) : Prop :=
  ∃ rows id, (∀ r ∈ rows, r.kind = .pushAuth ∧ r.status = .success) ∧ s.Grew st st' (rows ++ [{ m with id := id }]) []

theorem live_granted (h : ∀ r ∈ rows, r.kind = .pushAuth ∧ r.status = .success) : live rows = [] :=
  List.filter_eq_nil_iff.2 fun r hr => by rw [(h r hr).2]; decide

theorem PushedAfter.pushed (h : PushedAfter s m st st') : Pushed s m st st' := by
  obtain ⟨rows, id, hrows, hgrew⟩ := h
  exact ⟨rows, id, live_granted hrows, hgrew⟩

theorem pushDatatableToTee_rows {req : PushDatatableToTeeRequest} {x : Push} :
    Spec (fun _ st' => PushedAfter s (s.pushRecord req x.submission.save) st st') (Undone s st) (s.PushDatatableToTee st req x) := by
  unfold PushDatatableToTee requireKuscia
  split_ifs
  · exact ⟨rfl, .refl⟩
  · dsimp only
    split_ifs
    · exact ⟨rfl, .refl⟩
    · exact ⟨rfl, .refl⟩
    · refine transaction_spec (createGrant_spec.andThen (fun _ st₁ ⟨rows, hrows, hgrew⟩ => ?_) fun _ h => h)
        fun st' ⟨_, _, _, h⟩ => h.loose
      refine (submit_spec rfl rfl).mono (fun _ st' ⟨id, h⟩ => ⟨rows, id, hrows, hgrew.trans h⟩) fun _ h => hgrew.loose.trans h
  · exact ⟨rfl, .refl⟩

theorem pushDatatableToTee_spec {req : PushDatatableToTeeRequest} {x : Push} :
    Spec (fun _ st' => Pushed s (s.pushRecord req x.submission.save) st st') (Undone s st) (s.PushDatatableToTee st req x) :=
  pushDatatableToTee_rows.mono (fun _ _ h => h.pushed) fun _ h => h

def Made (s : DatatableService) (ks : List TeeJobKind) (st st' : State) : Prop :=
  ∃ rows, s.Grew st st' rows [] ∧ (live rows).map (fun m => m.kind) = ks

theorem pushFirst_spec {req : AuthRequest} {x : Auth} :
    Spec (fun _ st' => Made s (s.pushKinds st req x) st st') (Undone s st) (s.pushFirst st req x) := by
  unfold pushFirst pushKinds
  split_ifs with hneeds
  · refine pushDatatableToTee_spec.mono (fun _ st' ⟨rows, id, hrows, h⟩ => ?_) fun _ h => h
    refine ⟨_, h, ?_⟩
    rw [live_append, hrows, live_row rfl]
    rfl
  · exact ⟨[], .refl, rfl⟩

theorem auth_after_push {req : AuthRequest} {x : Auth} {p : State → Prop}
    (hpush : Spec (fun _ st' => p st') (Undone s st) (s.pushFirst st req x)) :
    Spec (fun m st' => m = s.authRecord req x.submission.save ∧ ∃ st₁, p st₁ ∧ Submitted s m st₁ st')
      (fun st' => Undone s st st' ∨ (s.pushFirst st req x).1 = .ok () ∧ ∃ st₁, p st₁ ∧ Undone s st₁ st')
      (s.AuthDatatableToTee st req x) := by
  unfold AuthDatatableToTee requireKuscia
  split_ifs
  · dsimp only
    split_ifs
    · exact .inl ⟨rfl, .refl⟩
    · exact .inl ⟨rfl, .refl⟩
    · cases hr : s.pushFirst st req x with
      | mk res st₁ =>
        rw [hr] at hpush
        cases res with
        | error e => exact .inl hpush
        | ok _ =>
          refine (transaction_spec (submit_spec rfl rfl) fun _ h => h.loose).andThen (fun _ st₂ h => ?_) fun st₂ h => ?_
          · exact ⟨rfl, st₁, hpush, h⟩
          · exact .inr ⟨rfl, st₁, hpush, h⟩
  · exact .inl ⟨rfl, .refl⟩

theorem authDatatableToTee_spec {req : AuthRequest} {x : Auth} :
    Spec (fun m st' => m = s.authRecord req x.submission.save ∧ ∃ st₁, Made s (s.pushKinds st req x) st st₁ ∧ Submitted s m st₁ st')
      (fun st' => Undone s st st' ∨ (s.pushFirst st req x).1 = .ok () ∧ ∃ st₁, Made s (s.pushKinds st req x) st st₁ ∧ Undone s st₁ st')
      (s.AuthDatatableToTee st req x) :=
  auth_after_push pushFirst_spec

theorem undoPush_spec {req : DeleteDatatableRequest} {x : Delete} :
    Spec (fun _ st' => Made s (s.undoKinds st req x) st st') (Undone s st) (s.undoPush st req x) := by
  unfold undoPush undoKinds
  cases s.pushed st req x with
  | none => exact ⟨[], .refl, rfl⟩
  | some push =>
    refine ((transaction_spec (submit_spec rfl rfl) fun _ h => h.loose).mono (fun _ st' ⟨id, h⟩ => ?_) fun _ h => h).mapError
    exact ⟨_, h, by rw [live_row rfl]; rfl⟩

theorem deleteDatatable_spec {req : DeleteDatatableRequest} {x : Delete} :
    Spec (fun _ st' => Made s (s.makes st (.delete req x)) st st')
      (fun st' => Undone s st st' ∨ ((s.undoPush st req x).1 = .ok () ∧ x.deleteDomainData ≠ .done) ∧ Made s (s.undoKinds st req x) st st')
      (s.DeleteDatatable st req x) := by
  unfold DeleteDatatable requireKuscia
  split_ifs with _ hhttp
  · exact .inl ⟨rfl, .refl⟩
  · exact .inl ⟨rfl, .refl⟩
  · exact ⟨[], ⟨(@Grew.refl s st).store, (@Grew.refl s st).other, (@Grew.refl s st).jobs⟩, (if_pos hhttp).symm⟩
  · exact .inl ⟨rfl, .refl⟩
  · exact .inl ⟨rfl, .refl⟩
  · have hundo := @undoPush_spec s st req x
    have hmakes : s.makes st (.delete req x) = s.undoKinds st req x := if_neg hhttp
    rw [hmakes]
    cases hr : s.undoPush st req x with
    | mk res st₁ =>
      rw [hr] at hundo
      cases res with
      | error e => exact .inl hundo
      | ok _ =>
        show Spec _ _ (deleteDomainData x st₁)
        unfold deleteDomainData
        split_ifs with hdone
        · exact hundo
        · exact .inr ⟨⟨rfl, hdone⟩, hundo⟩
  · exact .inl ⟨rfl, .refl⟩

theorem Undone.failed {call : Call} (h : Undone s st st') (hnone : s.Leaves st call []) : s.Failed st st' call := by
  have hgrew := h.2.grew h.1
  unfold Failed
  split_ifs at hgrew ⊢
  · exact hgrew
  · obtain ⟨more, hmore⟩ := hgrew
    exact ⟨[], more, hmore, hnone⟩

theorem Made.failed {call : Call} {ks : List TeeJobKind} (h : Made s ks st st₁) (h' : Undone s st₁ st') (hks : s.Leaves st call ks) :
    s.Failed st st' call := by
  obtain ⟨rows, hgrew, hkinds⟩ := h
  have hother := hgrew.other
  have hundone := h'.2.grew h'.1
  unfold Failed
  split_ifs at hother hundone ⊢
  · exact hundone.trans hother
  · obtain ⟨more, hmore⟩ := hundone
    exact ⟨_, more, hgrew.trans hmore, by rw [List.append_nil, hkinds]; exact hks⟩

/-- A call that goes through makes its rows, and one job under the id of each RUNNING one; one that fails leaves what `Leaves` says. -/
theorem run_spec (s : DatatableService) (st : State) (call : Call) :
    Spec (fun m st' => s.Succeeded st st' call m) (fun st' => s.Failed st st' call) (s.run st call) := by
  cases call with
  | pull req x =>
    refine pullResult_spec.map (fun m st' ⟨hm, id, h⟩ => ?_) fun st' h => h.failed rfl
    obtain rfl := hm
    refine ⟨_, h, by rw [live_row rfl]; rfl, fun m' hm' => ?_⟩
    obtain rfl := Option.some.inj hm'
    exact ⟨_, List.mem_filter.2 ⟨List.mem_singleton_self _, rfl⟩, rfl, rfl⟩
  | push req x =>
    refine pushDatatableToTee_spec.map (fun _ st' ⟨rows, id, hrows, h⟩ => ?_) fun st' h => h.failed rfl
    exact ⟨_, h, by rw [live_append, hrows, live_row rfl]; rfl, fun m' hm' => nomatch hm'⟩
  | auth req x =>
    refine authDatatableToTee_spec.map (fun m st' ⟨hm, st₁, ⟨rows, hgrew, hkinds⟩, id, h⟩ => ?_) fun st' h => ?_
    · obtain rfl := hm
      refine ⟨_, hgrew.trans h, ?_, fun m' hm' => ?_⟩
      · rw [live_append, List.map_append, hkinds, live_row rfl]
        rfl
      · obtain rfl := Option.some.inj hm'
        exact ⟨_, List.mem_filter.2 ⟨List.mem_append_right _ (List.mem_singleton_self _), rfl⟩, rfl, rfl⟩
    · obtain h | ⟨hok, st₁, hmade, h⟩ := h
      · exact h.failed (.inl rfl)
      · exact hmade.failed h (.inr ⟨rfl, hok⟩)
  | delete req x =>
    refine deleteDatatable_spec.map (fun _ st' ⟨rows, h, hkinds⟩ => ?_) fun st' h => ?_
    · exact ⟨rows, h, hkinds, fun m' hm' => nomatch hm'⟩
    · obtain h | ⟨hleft, hmade⟩ := h
      · exact h.failed (.inl rfl)
      · exact hmade.failed ⟨rfl, .refl⟩ (.inr ⟨rfl, hleft⟩)

private def onCenter : DatatableService := ⟨.asciiCase, str "tee", 1, true, false⟩
private def onEdge : DatatableService := ⟨.asciiCase, str "tee", 1, true, true⟩

private def pushedRow : TeeNodeDatatableManagementDO :=
  ⟨1, str "alice", str "tee", str "tee-t", str "default-data-source", .push, str "aaaa", .success, [], [], 0⟩

private def holding (rows : List TeeNodeDatatableManagementDO) : State := ⟨⟨rows, [], 2⟩, [], [], [], [], [], [], []⟩

private def deletion (answer : Answer) : Call :=
  .delete ⟨str "alice", str "t", [], [], str "LOCAL", [], []⟩
    ⟨true, none, true, true, true, true, ⟨⟨str "bbbb", 1, .done, []⟩, .done, [], true⟩, answer, []⟩

private def pull (answer : Answer) : Call :=
  .pull ⟨str "alice", str "r", [], [], [], [], str "p", [], [], []⟩ ⟨⟨str "cccc", 1, .done, []⟩, answer, [], true⟩

/-- Kuscia has the job that undoes the push, and then refuses to delete the table; a table that is not pushed is deleted without a job;
the row that an edge has sent stays at the center when Kuscia refuses its job. -/
theorem run_leaves :
    ((onCenter.run (holding [pushedRow]) (deletion .refused)).1.isOk = false ∧
      (live (onCenter.run (holding [pushedRow]) (deletion .refused)).2.db.records).map (fun m => (m.kind, m.jobId)) = [(.delete, str "bbbb")]) ∧
    ((onCenter.run (holding []) (deletion .done)).1.isOk = true ∧ (onCenter.run (holding []) (deletion .done)).2.jobs = []) ∧
    (onEdge.run (holding []) (pull .refused)).1.isOk = false ∧
      (live (onEdge.run (holding []) (pull .refused)).2.center).map (fun m => (m.kind, m.jobId)) = [(.pull, str "cccc")] := by
  decide +kernel

end DatatableService

end Tee
