import Privahub.Lib.Table
import Privahub.Lib.Utf8

/-!
# Model packs and their servings

The rows of `project_model_pack` and `project_model_serving`, the servings that the Kuscias hold, and the operations of the model
service that write them, in the parts between which other calls may run: what is read and checked, what Kuscia is asked, and what is
written. How a call to Kuscia goes is part of the operation.
-/

namespace Serving

inductive ModelStats
  | Init
  | Publishing
  | Published
  | Offline
  | PublishFail
  | Discarded
  deriving DecidableEq

structure ProjectModelPackDO where
  id : Nat
  projectId : Bytes
  modelId : Bytes
  initiator : Bytes
  modelStats : ModelStats
  servingId : Bytes
  parties : List Bytes
  deleted : Bool
  deriving DecidableEq

structure PartyEndpoint where
  nodeId : Bytes
  endpoints : Bytes
  deriving DecidableEq

structure ProjectModelServingDO where
  servingId : Bytes
  projectId : Bytes
  initiator : Bytes
  servingInputConfig : Bytes
  partyEndpoints : List PartyEndpoint
  servingStats : Bytes
  errorMsg : Bytes
  deriving DecidableEq

structure Db where
  packs : List ProjectModelPackDO
  servings : List ProjectModelServingDO
  ids : (packs.map (·.id)).Nodup
  modelIds : (packs.map (·.modelId)).Nodup
  servingIds : (servings.map (·.servingId)).Nodup

/-- A serving in the Kuscia `kuscia`; the model is named in its input config. -/
structure KusciaServing where
  kuscia : Nat
  servingId : Bytes
  modelId : Bytes
  deriving DecidableEq

structure State where
  db : Db
  kuscia : List KusciaServing

/-- How a call to Kuscia goes: it is carried out, refused (with a code that `IsNotFound` knows, or another), fails on the way there, or is
carried out and its answer is lost on the way back. -/
inductive Answer
  | done
  | refused (notFound : Bool)
  | failed
  | lost
  deriving DecidableEq

def Answer.takesEffect : Answer → Bool
  | .done | .lost => true
  | .refused _ | .failed => false

structure Err where
  code : Nat
  key : Bytes
  msg : Bytes
  deriving DecidableEq

namespace Err

def ProjectModelNotFound (msg : Bytes) : Err := ⟨202011511, str "project.PROJECT_MODEL_NOT_FOUND", msg⟩
def ProjectServingNotFound : Err := ⟨202011512, str "project.PROJECT_SERVING_NOT_FOUND", []⟩
def ProjectServingNotOffline : Err := ⟨202011514, str "project.PROJECT_SERVING_NOT_OFFLINE", []⟩
def SystemValidationError (msg : Bytes) : Err := ⟨202011100, str "system.VALIDATION_ERROR", msg⟩
def SystemError (msg : Bytes) : Err := ⟨202011101, str "system.UNKNOWN_ERROR", msg⟩
def database : Err := ⟨0, [], str "database error"⟩

end Err

namespace Db

variable (db : Db)

def findPack (modelId : Bytes) : Except Err ProjectModelPackDO :=
  if modelId = [] then .error (.ProjectModelNotFound [])
  else ((db.packs.find? fun p => decide (p.modelId = modelId) && !p.deleted).map Except.ok).getD (.error (.ProjectModelNotFound []))

def findProjectPack (modelId projectId : Bytes) : Except Err ProjectModelPackDO := do
  let pack ← db.findPack modelId
  if projectId = [] ∨ pack.projectId ≠ projectId then throw (.ProjectModelNotFound [])
  pure pack

def findServing (servingId : Bytes) : Except Err ProjectModelServingDO :=
  if servingId = [] then .error .ProjectServingNotFound
  else ((db.servings.find? fun r => decide (r.servingId = servingId)).map Except.ok).getD (.error .ProjectServingNotFound)

def packOfServing (servingId : Bytes) : Except Err ProjectModelPackDO :=
  ((db.packs.find? fun p => decide (p.servingId = servingId) && !p.deleted).map Except.ok).getD (.error (.ProjectModelNotFound []))

/-- `UPDATE project_model_pack … WHERE model_id`; a pack that was deleted is not there. -/
def updatePack (modelId : Bytes) (f : ProjectModelPackDO → ProjectModelPackDO) (hid : ∀ p, (f p).id = p.id)
    (hf : ∀ p, (f p).modelId = p.modelId) : Db :=
  { db with
    packs := Table.updateWhere (fun p => decide (p.modelId = modelId) && !p.deleted) f db.packs
    ids := Table.nodup_updateWhere hid db.ids
    modelIds := Table.nodup_updateWhere hf db.modelIds }

def setStats (modelId : Bytes) (st : ModelStats) : Db :=
  db.updatePack modelId (fun p => { p with modelStats := st }) (fun _ => rfl) fun _ => rfl

def updateServing (servingId : Bytes) (f : ProjectModelServingDO → ProjectModelServingDO) (hf : ∀ r, (f r).servingId = r.servingId) : Db :=
  { db with
    servings := Table.updateWhere (fun r => decide (r.servingId = servingId)) f db.servings
    servingIds := Table.nodup_updateWhere hf db.servingIds }

def saveServing (row : ProjectModelServingDO) : Db :=
  { db with
    servings := db.servings.filter (fun r => !decide (r.servingId = row.servingId)) ++ [row]
    servingIds := by
      rw [List.map_append, List.nodup_append]
      refine ⟨db.servingIds.sublist (List.filter_sublist.map _), List.nodup_singleton _, ?_⟩
      rintro a ha b hb rfl
      obtain ⟨r, hr, rfl⟩ := List.mem_map.1 ha
      have hne : r.servingId ≠ row.servingId := by simpa using (List.mem_filter.1 hr).2
      exact hne (List.mem_singleton.1 hb) }

end Db

namespace Kuscia

variable (ks : List KusciaServing)

def has (k : Nat) (servingId : Bytes) : Bool := ks.any fun s => decide (s.kuscia = k ∧ s.servingId = servingId)

def CreateServing (new : KusciaServing) (a : Answer) : Bool × List KusciaServing :=
  if has ks new.kuscia new.servingId then (false, ks) else (decide (a = .done), if a.takesEffect then ks ++ [new] else ks)

def DeleteServing (k : Nat) (servingId : Bytes) (a : Answer) : Bool × List KusciaServing :=
  (decide (a = .done ∨ a = .refused true),
    if a.takesEffect then ks.filter fun s => !decide (s.kuscia = k ∧ s.servingId = servingId) else ks)

end Kuscia

/-- `pool` has the Kuscia that a node's own client talks to, `kusciaClient` that of the platform. -/
structure ModelService where
  autonomy : Bool
  platformNodeId : Bytes
  isNodeInCurrentInst : Bytes → Bool
  pool : Bytes → Option Nat
  kusciaClient : Option Nat

structure ServingResourceVO where
  minCPU : Bytes
  maxCPU : Bytes
  minMemory : Bytes
  maxMemory : Bytes

structure ServingPartyConfig where
  nodeId : Bytes
  featureTableId : Bytes
  isMock : Option Bool
  resources : List ServingResourceVO

structure CreateModelServingRequest where
  projectId : Bytes
  modelId : Bytes
  partyConfigs : List ServingPartyConfig

abbrev RandomLetters := { s : Bytes // s.length = 8 }

def isBlank (s : Bytes) : Bool := decide (Utf8.trimSpace s = [])

def validateResource (at' : Bytes) (r : ServingResourceVO) : Option Bytes :=
  if isBlank r.minCPU then some (at' ++ str "minCPU must not be blank")
  else if isBlank r.maxCPU then some (at' ++ str "maxCPU must not be blank")
  else if isBlank r.minMemory then some (at' ++ str "minMemory must not be blank")
  else if isBlank r.maxMemory then some (at' ++ str "maxMemory must not be blank")
  else none

def validateParty (seen : List Bytes) (i : Nat) (p : ServingPartyConfig) : Option Bytes :=
  let at' := str "partyConfigs[" ++ Bytes.digits i ++ str "]."
  if isBlank p.nodeId then some (at' ++ str "nodeId must not be blank")
  else if isBlank p.featureTableId then some (at' ++ str "featureTableId must not be blank")
  else if p.isMock = none then some (at' ++ str "isMock must not be null")
  else if p.nodeId ∈ seen then some (at' ++ str "nodeId must be unique")
  else (p.resources.zipIdx.map fun rj => validateResource (at' ++ str "resources[" ++ Bytes.digits rj.2 ++ str "].") rj.1).findSome? id

def validateParties : List Bytes → Nat → List ServingPartyConfig → Option Bytes
  | _, _, [] => none
  | seen, i, p :: ps => validateParty seen i p <|> validateParties (seen ++ [p.nodeId]) (i + 1) ps

def ValidateServingPartyConfigs (parties : List ServingPartyConfig) : Option Bytes :=
  if parties = [] then some (str "partyConfigs must not be empty") else validateParties [] 0 parties

namespace ModelService

variable (s : ModelService)

def kc (nodeId : Bytes) : Option Nat := s.pool nodeId <|> s.kusciaClient

def localParty (parties : List Bytes) : Bytes := (parties.find? s.isNodeInCurrentInst).getD []

def packExecNode (pack : ProjectModelPackDO) : Bytes :=
  if pack.initiator = s.platformNodeId then (if s.autonomy then s.localParty pack.parties else s.platformNodeId) else pack.initiator

def initiator (nodeIds : List Bytes) : Bytes :=
  if s.autonomy && decide (s.localParty nodeIds ≠ []) then s.localParty nodeIds else nodeIds.headD []

/-- What a creation has checked. `prepared` is what the domain data, the feature tables and the resources of the parties come to: the
input config of the serving, or an error. -/
def servable (db : Db) (req : CreateModelServingRequest) (prepared : Except Err Bytes) : Except Err (ProjectModelPackDO × Bytes) := do
  let pack ← db.findProjectPack req.modelId req.projectId
  match ValidateServingPartyConfigs req.partyConfigs with
  | some msg => throw (.SystemValidationError msg)
  | none => prepared.map (pack, ·)

def servingIdFor (pack : ProjectModelPackDO) (random : RandomLetters) : Bytes :=
  if pack.modelStats = .Offline ∧ pack.servingId ≠ [] then pack.servingId else random

def servingRow (req : CreateModelServingRequest) (servingId initiator config : Bytes) : ProjectModelServingDO where
  servingId := servingId
  projectId := req.projectId
  initiator := initiator
  servingInputConfig := config
  partyEndpoints := []
  servingStats := str "init"
  errorMsg := []

def commitServing (db : Db) (modelId : Bytes) (row : ProjectModelServingDO) : Db :=
  (db.saveServing row).updatePack modelId (fun p => { p with servingId := row.servingId, modelStats := .Publishing })
    (fun _ => rfl) fun _ => rfl

def nodeIds (req : CreateModelServingRequest) : List Bytes := req.partyConfigs.map (·.nodeId)

def requested (req : CreateModelServingRequest) (pack : ProjectModelPackDO) (config : Bytes) (random : RandomLetters) :
    Except Err (KusciaServing × ProjectModelServingDO) :=
  let initiator := s.initiator (nodeIds req)
  let servingId := servingIdFor pack random
  match s.kc initiator with
  | none => .error (.SystemError (str "kuscia client not configured"))
  | some k => .ok (⟨k, servingId, pack.modelId⟩, servingRow req servingId initiator config)

def deletableServing (db : Db) (servingId : Bytes) : Except Err (ProjectModelServingDO × ProjectModelPackDO) := do
  let sv ← db.findServing servingId
  let pack ← db.packOfServing servingId
  pure (sv, pack)

def discardable (db : Db) (modelId : Bytes) : Except Err ProjectModelPackDO := do
  let pack ← db.findPack modelId
  if pack.modelStats ≠ .Offline ∧ pack.modelStats ≠ .Init then throw .ProjectServingNotOffline
  pure pack

def removable (db : Db) (modelId : Bytes) : Except Err ProjectModelPackDO := do
  let pack ← db.findPack modelId
  if pack.modelStats ≠ .Discarded then throw .ProjectServingNotOffline
  pure pack

def remove (db : Db) (pack : ProjectModelPackDO) : Db :=
  { db with
    packs := Table.updateWhere (fun p => decide (p.id = pack.id)) (fun p => { p with deleted := true }) db.packs
    ids := Table.nodup_updateWhere (fun _ => rfl) db.ids
    modelIds := Table.nodup_updateWhere (fun _ => rfl) db.modelIds }

end ModelService

end Serving
