import Privahub.Job.Service
import Privahub.Serving.Service

/-!
# Exports of models

The rows of project_model_export, which the poller of jobs asks Kuscia for, and the packs that they come to. A report that a job has
succeeded makes its row SUCCEED and then saves the pack, in two statements; a row that is finished is not polled again and goes after a
day. Payloads are held parsed. Besides the polls a query for the status of an export looks at its job, and saves its pack once more.
-/

namespace Export

open Table (updateWhere)
open Job (JobStatusDetailInfo IsKusciaFinishedState)

inductive ExportStatus
  | initialized
  | running
  | succeed
  | failed
  deriving DecidableEq

structure PartyDataSource where
  partyId : Bytes
  datasource : Bytes
  deriving DecidableEq

structure ModelExportDTO where
  projectID : Bytes
  graphID : Bytes
  initiator : Bytes
  modelID : Bytes
  modelName : Bytes
  modelDesc : Bytes
  sampleTables : Bytes
  modelList : List Bytes
  jobID : Bytes
  taskID : Bytes
  trainID : Bytes
  graphDetail : Bytes
  modelReportID : Bytes
  partyDataSources : List PartyDataSource
  status : ExportStatus
  errMsg : Bytes
  deriving DecidableEq

structure ProjectModelExportDO where
  id : Nat
  jobId : Bytes
  projectId : Bytes
  status : ExportStatus
  errMsg : Bytes
  payload : ModelExportDTO
  gmtModified : Int
  deriving DecidableEq

structure ProjectModelPackDO where
  modelId : Bytes
  initiator : Bytes
  projectId : Bytes
  modelName : Bytes
  modelDesc : Bytes
  modelStats : Serving.ModelStats
  sampleTables : Bytes
  trainId : Bytes
  modelList : List Bytes
  graphDetail : Bytes
  modelReportId : Bytes
  modelDatasource : List PartyDataSource
  deriving DecidableEq

structure State where
  exports : List ProjectModelExportDO
  packs : List ProjectModelPackDO
  nextId : Nat

/-- Which of the statements for an export go through; `now` is the clock of the update. -/
structure Ends where
  load : Bool
  update : Bool
  now : Int
  find : Bool
  insert : Bool
  deriving DecidableEq

/-- `modelExportRetention` in seconds. -/
def modelExportRetention : Int := 24 * 60 * 60

def isExportFinished (status : ExportStatus) : Bool := decide (status = .succeed ∨ status = .failed)

def exportStatusFromKuscia (state : Bytes) : ExportStatus :=
  if state = str "Succeeded" then .succeed
  else if state = str "Failed" then .failed
  else if state = str "Running" then .running
  else .initialized

def packOf (dto : ModelExportDTO) : ProjectModelPackDO where
  modelId := dto.modelID
  initiator := dto.initiator
  projectId := dto.projectID
  modelName := dto.modelName
  modelDesc := dto.modelDesc
  modelStats := .Init
  sampleTables := if dto.sampleTables ≠ [] then dto.sampleTables else str "\x7b\x7d"
  trainId := dto.trainID
  modelList := dto.modelList
  graphDetail := dto.graphDetail
  modelReportId := dto.modelReportID
  modelDatasource := dto.partyDataSources

def savePack (x : Ends) (dto : ModelExportDTO) (packs : List ProjectModelPackDO) : Bool × List ProjectModelPackDO :=
  if x.find = false then (false, packs)
  else if packs.any fun p => decide (p.modelId = dto.modelID) then (true, packs)
  else if x.insert then (true, packs ++ [packOf dto])
  else (false, packs)

def loadExport (goes : Bool) (st : State) (jobID : Bytes) : Option ProjectModelExportDO :=
  if goes then st.exports.find? fun r => decide (r.jobId = jobID) else none

def reported (detail : JobStatusDetailInfo) (rec : ProjectModelExportDO) : ExportStatus × Bytes :=
  if IsKusciaFinishedState detail.state ∧ detail.endTime = [] then (rec.status, rec.errMsg)
  else match detail.tasks with
    | t :: _ => (exportStatusFromKuscia t.state, t.errMsg)
    | [] => (exportStatusFromKuscia detail.state, detail.errMsg)

def report (detail : JobStatusDetailInfo) (rec : ProjectModelExportDO) : ExportStatus × Bytes :=
  if (reported detail rec).1 = .failed ∧ (reported detail rec).2 = [] then ((reported detail rec).1, detail.errMsg) else reported detail rec

/-- The update of a row, and the pack of one that has succeeded; an error of `savePack` is only logged. -/
def writeExport (x : Ends) (rec : ProjectModelExportDO) (status : ExportStatus) (msg : Bytes) (st : State) : State :=
  let dto := { rec.payload with status := status, errMsg := msg }
  { st with
    exports := updateWhere (fun r => decide (r.id = rec.id))
      (fun r => { r with status := status, errMsg := msg, payload := dto, gmtModified := x.now }) st.exports
    packs := if status = .succeed then (savePack x dto st.packs).2 else st.packs }

def HandleJob (x : Ends) (st : State) (jobID : Bytes) (detail : Option JobStatusDetailInfo) : Bool × State :=
  match loadExport x.load st jobID with
  | none => (false, st)
  | some rec => match detail with
    | none => (true, st)
    | some detail =>
      if isExportFinished rec.status then (true, st)
      else
        let r := report detail rec
        if r = (rec.status, rec.errMsg) then (true, st)
        else if x.update then (true, writeExport x rec r.1 r.2 st)
        else (true, st)

/-- `kc.QueryJobDetail` gives `answer`; `reload` and `pack` are for the second look at the row and its pack. -/
structure Query where
  load : Bool
  answer : Option JobStatusDetailInfo
  handle : Ends
  reload : Bool
  pack : Ends

def refresh (q : Query) (st : State) (rec : ProjectModelExportDO) : ProjectModelExportDO × State :=
  if isExportFinished rec.status then (rec, st)
  else match q.answer with
    | none => (rec, st)
    | some detail =>
      let st := (HandleJob q.handle st rec.jobId (some detail)).2
      ((loadExport q.reload st rec.jobId).getD rec, st)

def QueryModelExport (q : Query) (st : State) (projectID jobID : Bytes) : Option ProjectModelExportDO × State :=
  match loadExport q.load st jobID with
  | none => (none, st)
  | some rec =>
    if projectID ≠ [] ∧ rec.projectId ≠ projectID then (none, st)
    else
      let r := refresh q st rec
      if r.1.status = .succeed then
        let p := savePack q.pack r.1.payload r.2.packs
        (if p.1 then some r.1 else none, { r.2 with packs := p.2 })
      else (some r.1, r.2)

def evict (now : Int) (st : State) : State :=
  { st with exports := st.exports.filter fun r => !(isExportFinished r.status && decide (r.gmtModified < now - modelExportRetention)) }

def pending (st : State) : List Bytes :=
  ((st.exports.filter fun r => !isExportFinished r.status).map fun r => r.jobId).mergeSort fun a b => decide (a ≤ b)

def PendingJobIDs (deletes find : Bool) (now : Int) (st : State) : List Bytes × State :=
  let st := if deletes then evict now st else st
  (if find then pending st else [], st)

/-- `syncOnce` over the exports: a job for which Kuscia does not answer is passed over. -/
def syncIds (x : Bytes → Ends) (answer : Bytes → Option JobStatusDetailInfo) (ids : List Bytes) (st : State) : State :=
  ids.foldl (fun st id => match answer id with
    | none => st
    | some detail => (HandleJob (x id) st id (some detail)).2) st

def syncOnce (deletes find : Bool) (now : Int) (x : Bytes → Ends) (answer : Bytes → Option JobStatusDetailInfo) (st : State) : State :=
  syncIds x answer (PendingJobIDs deletes find now st).1 (PendingJobIDs deletes find now st).2

/-- `made` has the id and the model of every export. -/
structure Run where
  st : State
  made : List (Nat × Bytes)

/-- A new export, one whose job Kuscia has refused, the beginning of a poll, a report from the poller or the watch, and a query. -/
inductive Act
  | export_ (dto : ModelExportDTO)
  | withdraw (id : Nat)
  | evict (now : Int)
  | handle (jobID : Bytes) (detail : Option JobStatusDetailInfo) (x : Ends)
  | query (q : Query) (projectID jobID : Bytes)

def newExport (id : Nat) (dto : ModelExportDTO) : ProjectModelExportDO :=
  ⟨id, dto.jobID, dto.projectID, .initialized, [], { dto with status := .initialized }, 0⟩

def step (r : Run) : Act → Option Run
  | .export_ dto =>
    if r.st.exports.any fun e => decide (e.jobId = dto.jobID) then none
    else some
      ⟨{ r.st with exports := r.st.exports ++ [newExport r.st.nextId dto], nextId := r.st.nextId + 1 }, r.made ++ [(r.st.nextId, dto.modelID)]⟩
  | .withdraw id => some ⟨{ r.st with exports := r.st.exports.filter fun e => decide (e.id ≠ id) }, r.made.filter fun e => decide (e.1 ≠ id)⟩
  | .evict now => some { r with st := evict now r.st }
  | .handle jobID detail x => some { r with st := (HandleJob x r.st jobID detail).2 }
  | .query q projectID jobID => some { r with st := (QueryModelExport q r.st projectID jobID).2 }

-- by the id of an export, whether its job succeeds
variable (succeeded : Nat → Bool)

def Saves (x : Ends) : Prop := x.find = true ∧ x.insert = true

/-- A report that is applied saves the pack of a row that it makes SUCCEED, and no row of a job that succeeds becomes FAILED. -/
def CleanHandle (x : Ends) (st : State) (jobID : Bytes) (detail : Option JobStatusDetailInfo) : Prop :=
  ∀ rec ∈ loadExport x.load st jobID, ∀ d ∈ detail, isExportFinished rec.status = false → x.update = true →
    ((report d rec).1 = .succeed → Saves x) ∧ ((report d rec).1 = .failed → succeeded rec.id = false)

def Clean (r : Run) : Act → Prop
  | .handle jobID detail x => CleanHandle succeeded x r.st jobID detail
  | .query q _ jobID => CleanHandle succeeded q.handle r.st jobID q.answer
  | _ => True

/-- An export whose job succeeds is not finished yet, or it has its pack. -/
structure Inv (r : Run) : Prop where
  ids : (r.st.exports.map fun e => e.id).Nodup
  jobIds : (r.st.exports.map fun e => e.jobId).Nodup
  below : ∀ e ∈ r.st.exports, e.id < r.st.nextId
  made : ∀ e ∈ r.made, e.1 < r.st.nextId ∧ ∀ rec ∈ r.st.exports, rec.id = e.1 → rec.payload.modelID = e.2
  packs : (r.st.packs.map fun p => p.modelId).Nodup
  kept : ∀ e ∈ r.made, succeeded e.1 = true →
    (∃ rec ∈ r.st.exports, rec.id = e.1 ∧ isExportFinished rec.status = false) ∨ e.2 ∈ r.st.packs.map fun p => p.modelId

def Packed (packs : List ProjectModelPackDO) (modelID : Bytes) : Prop := (packs.filter fun p => decide (p.modelId = modelID)).length = 1

def Reported (detail : JobStatusDetailInfo) : Prop :=
  detail.state = str "Succeeded" ∧ detail.endTime ≠ [] ∧ ∀ t ∈ detail.tasks.head?, t.state = str "Succeeded"

variable {succeeded} {x : Ends} {st st' : State} {r r' : Run} {jobID : Bytes} {dto : ModelExportDTO} {packs : List ProjectModelPackDO}
  {rec rec' : ProjectModelExportDO} {detail : Option JobStatusDetailInfo} {d : JobStatusDetailInfo} {modelID : Bytes}

theorem mem_savePack (h : modelID ∈ packs.map fun p => p.modelId) : modelID ∈ (savePack x dto packs).2.map fun p => p.modelId := by
  unfold savePack
  split_ifs
  · exact h
  · exact h
  · rw [List.map_append]
    exact List.mem_append_left _ h
  · exact h

theorem savePack_nodup (h : (packs.map fun p => p.modelId).Nodup) : ((savePack x dto packs).2.map fun p => p.modelId).Nodup := by
  unfold savePack
  split_ifs with _ hany
  · exact h
  · exact h
  · exact Table.nodup_concat h fun p hp heq => hany (List.any_eq_true.2 ⟨p, hp, decide_eq_true heq⟩)
  · exact h

theorem savePack_saves (h : Saves x) : dto.modelID ∈ (savePack x dto packs).2.map fun p => p.modelId := by
  unfold savePack
  rw [if_neg (by rw [h.1]; exact nofun), if_pos h.2]
  split_ifs with hany
  · obtain ⟨p, hp, heq⟩ := List.any_eq_true.1 hany
    exact List.mem_map.2 ⟨p, hp, of_decide_eq_true heq⟩
  · rw [List.map_append]
    exact List.mem_append_right _ (List.mem_singleton_self _)

theorem packed_of_mem (hnodup : (packs.map fun p => p.modelId).Nodup) (h : modelID ∈ packs.map fun p => p.modelId) : Packed packs modelID := by
  have hcount : (packs.filter fun p => decide (p.modelId = modelID)).length = (packs.map fun p => p.modelId).count modelID := by
    rw [← List.countP_eq_length_filter, List.count, List.countP_map]
    exact List.countP_congr fun p _ => by simp
  rw [Packed, hcount]
  exact List.count_eq_one_of_mem hnodup h

theorem mem_of_load {goes : Bool} (h : loadExport goes st jobID = some rec) : rec ∈ st.exports ∧ rec.jobId = jobID := by
  unfold loadExport at h
  split_ifs at h
  have hid := List.find?_some h
  exact ⟨List.mem_of_find?_eq_some h, of_decide_eq_true hid⟩

theorem handle_cases : (HandleJob x st jobID detail).2 = st ∨
    ∃ rec d, loadExport x.load st jobID = some rec ∧ detail = some d ∧ isExportFinished rec.status = false ∧ x.update = true ∧
      (HandleJob x st jobID detail).2 = writeExport x rec (report d rec).1 (report d rec).2 st := by
  unfold HandleJob
  cases hload : loadExport x.load st jobID with
  | none => exact .inl rfl
  | some rec =>
    cases detail with
    | none => exact .inl rfl
    | some d =>
      dsimp only
      split_ifs with hfinished _ hupdate
      · exact .inl rfl
      · exact .inl rfl
      · exact .inr ⟨rec, d, rfl, rfl, Bool.eq_false_iff.2 hfinished, hupdate, rfl⟩
      · exact .inl rfl

variable {status : ExportStatus} {msg : Bytes}

theorem mem_write (h : rec' ∈ (writeExport x rec status msg st).exports) :
    ∃ e ∈ st.exports, rec'.id = e.id ∧ rec'.jobId = e.jobId ∧
      rec'.payload.modelID = (if e.id = rec.id then rec.payload.modelID else e.payload.modelID) ∧
      rec'.status = if e.id = rec.id then status else e.status := by
  obtain ⟨e, he, rfl⟩ := Table.mem_updateWhere.1 h
  refine ⟨e, he, ?_⟩
  by_cases hid : e.id = rec.id
  · rw [if_pos (decide_eq_true hid), if_pos hid, if_pos hid]
    exact ⟨rfl, rfl, rfl, rfl⟩
  · rw [if_neg fun h => hid (of_decide_eq_true h), if_neg hid, if_neg hid]
    exact ⟨rfl, rfl, rfl, rfl⟩

theorem write_mem {e : ProjectModelExportDO} (he : e ∈ st.exports) : ∃ rec' ∈ (writeExport x rec status msg st).exports,
    rec'.id = e.id ∧ rec'.status = if e.id = rec.id then status else e.status := by
  refine ⟨_, Table.mem_updateWhere.2 ⟨e, he, rfl⟩, ?_⟩
  by_cases hid : e.id = rec.id
  · rw [if_pos (decide_eq_true hid), if_pos hid]
    exact ⟨rfl, rfl⟩
  · rw [if_neg fun h => hid (of_decide_eq_true h), if_neg hid]
    exact ⟨rfl, rfl⟩

theorem inv_write (h : Inv succeeded r) (hrec : rec ∈ r.st.exports)
    (hsaves : status = .succeed → Saves x) (hfailed : status = .failed → succeeded rec.id = false) :
    Inv succeeded { r with st := writeExport x rec status msg r.st } := by
  have hids : (writeExport x rec status msg r.st).exports.map (fun e => e.id) = r.st.exports.map fun e => e.id :=
    Table.map_updateWhere _ fun _ => rfl
  have hjobIds : (writeExport x rec status msg r.st).exports.map (fun e => e.jobId) = r.st.exports.map fun e => e.jobId :=
    Table.map_updateWhere _ fun _ => rfl
  have hpacks {m : Bytes} (hm : m ∈ r.st.packs.map fun p => p.modelId) : m ∈ (writeExport x rec status msg r.st).packs.map fun p => p.modelId := by
    unfold writeExport
    dsimp only
    split_ifs
    · exact mem_savePack hm
    · exact hm
  refine ⟨by rw [hids]; exact h.ids, by rw [hjobIds]; exact h.jobIds, fun e he => ?_, fun e he => ⟨(h.made e he).1, fun rec' hrec' hid => ?_⟩, ?_, ?_⟩
  · obtain ⟨e₀, he₀, hid, -⟩ := mem_write he
    exact hid ▸ h.below e₀ he₀
  · obtain ⟨e₀, he₀, hid₀, -, hmodel, -⟩ := mem_write hrec'
    rw [hmodel]
    split_ifs with heq
    · exact (h.made e he).2 rec hrec (heq.symm.trans (hid₀.symm.trans hid))
    · exact (h.made e he).2 e₀ he₀ (hid₀.symm.trans hid)
  · unfold writeExport
    dsimp only
    split_ifs
    · exact savePack_nodup h.packs
    · exact h.packs
  · intro e he hsucceeded
    rcases h.kept e he hsucceeded with ⟨rec₀, hrec₀, hid, hpending⟩ | hpack
    · obtain ⟨rec', hrec', hid', hstatus'⟩ := @write_mem x r.st rec status msg rec₀ hrec₀
      by_cases hid₀ : rec₀.id = rec.id
      · rw [if_pos hid₀] at hstatus'
        have hrecId : rec.id = e.1 := hid₀.symm.trans hid
        cases hfinished : isExportFinished status with
        | false => exact .inl ⟨rec', hrec', hid'.trans hid, hstatus' ▸ hfinished⟩
        | true =>
          rcases of_decide_eq_true hfinished with hstatus | hstatus
          · have hmodel : rec.payload.modelID = e.2 := (h.made e he).2 rec hrec hrecId
            have hpack := @savePack_saves x { rec.payload with status := status, errMsg := msg } r.st.packs (hsaves hstatus)
            have hnew : (writeExport x rec status msg r.st).packs = (savePack x { rec.payload with status := status, errMsg := msg } r.st.packs).2 :=
              if_pos hstatus
            rw [← hnew, hmodel] at hpack
            exact .inr hpack
          · have hno := hfailed hstatus
            rw [hrecId, hsucceeded] at hno
            cases hno
      · rw [if_neg hid₀] at hstatus'
        exact .inl ⟨rec', hrec', hid'.trans hid, hstatus' ▸ hpending⟩
    · exact .inr (hpacks hpack)

theorem inv_handle (h : Inv succeeded r) (hc : CleanHandle succeeded x r.st jobID detail) :
    Inv succeeded { r with st := (HandleJob x r.st jobID detail).2 } := by
  obtain hst | ⟨rec, d, hload, rfl, hunfinished, hupdate, hst⟩ := @handle_cases x r.st jobID detail
  · rw [hst]
    exact h
  · rw [hst]
    obtain ⟨hsaves, hfailed⟩ := hc rec hload d rfl hunfinished hupdate
    exact inv_write h (mem_of_load hload).1 hsaves hfailed

theorem inv_savePack {dto : ModelExportDTO} (h : Inv succeeded r) :
    Inv succeeded { r with st := { r.st with packs := (savePack x dto r.st.packs).2 } } :=
  ⟨h.ids, h.jobIds, h.below, h.made, savePack_nodup h.packs, fun e he hs => (h.kept e he hs).imp_right mem_savePack⟩

theorem inv_query {q : Query} {projectID : Bytes} (h : Inv succeeded r) (hc : CleanHandle succeeded q.handle r.st jobID q.answer) :
    Inv succeeded { r with st := (QueryModelExport q r.st projectID jobID).2 } := by
  have hrefresh {rec : ProjectModelExportDO} (hjob : rec.jobId = jobID) : Inv succeeded { r with st := (refresh q r.st rec).2 } := by
    unfold refresh
    split_ifs
    · exact h
    · cases hanswer : q.answer with
      | none => exact h
      | some d =>
        rw [hanswer] at hc
        exact hjob ▸ inv_handle h hc
  unfold QueryModelExport
  cases hload : loadExport q.load r.st jobID with
  | none => exact h
  | some rec =>
    dsimp only
    split_ifs
    · exact h
    · exact inv_savePack (hrefresh (mem_of_load hload).2)
    · exact inv_savePack (hrefresh (mem_of_load hload).2)
    · exact hrefresh (mem_of_load hload).2

theorem inv_evict {now : Int} (h : Inv succeeded r) : Inv succeeded { r with st := evict now r.st } := by
  have hsub : (evict now r.st).exports.Sublist r.st.exports := List.filter_sublist
  refine ⟨h.ids.sublist (hsub.map _), h.jobIds.sublist (hsub.map _), fun e he => h.below e (hsub.subset he),
    fun e he => ⟨(h.made e he).1, fun rec hrec => (h.made e he).2 rec (hsub.subset hrec)⟩, h.packs, fun e he hs => ?_⟩
  refine (h.kept e he hs).imp_left fun ⟨rec, hrec, hid, hpending⟩ => ⟨rec, List.mem_filter.2 ⟨hrec, ?_⟩, hid, hpending⟩
  rw [hpending]
  rfl

theorem inv_withdraw {id : Nat} (h : Inv succeeded r) :
    Inv succeeded ⟨{ r.st with exports := r.st.exports.filter fun e => decide (e.id ≠ id) }, r.made.filter fun e => decide (e.1 ≠ id)⟩ := by
  have hsub : (r.st.exports.filter fun e => decide (e.id ≠ id)).Sublist r.st.exports := List.filter_sublist
  refine ⟨h.ids.sublist (hsub.map _), h.jobIds.sublist (hsub.map _), fun e he => h.below e (hsub.subset he), fun e he => ?_, h.packs,
    fun e he hs => ?_⟩
  · obtain ⟨hlt, hmodel⟩ := h.made e (List.mem_filter.1 he).1
    exact ⟨hlt, fun rec hrec => hmodel rec (hsub.subset hrec)⟩
  · obtain ⟨he, hne⟩ := List.mem_filter.1 he
    refine (h.kept e he hs).imp_left fun ⟨rec, hrec, hid, hpending⟩ => ⟨rec, List.mem_filter.2 ⟨hrec, ?_⟩, hid, hpending⟩
    rw [hid]
    exact hne

theorem inv_export (h : Inv succeeded r) (hnew : ∀ e ∈ r.st.exports, e.jobId ≠ dto.jobID) :
    Inv succeeded ⟨{ r.st with exports := r.st.exports ++ [newExport r.st.nextId dto], nextId := r.st.nextId + 1 },
      r.made ++ [(r.st.nextId, dto.modelID)]⟩ := by
  have hmem {e : ProjectModelExportDO} (he : e ∈ r.st.exports ++ [newExport r.st.nextId dto]) : e ∈ r.st.exports ∨ e = newExport r.st.nextId dto :=
    (List.mem_append.1 he).imp_right List.mem_singleton.1
  refine ⟨?_, ?_, fun e he => ?_, fun e he => ?_, h.packs, fun e he hs => ?_⟩
  · exact Table.nodup_concat h.ids fun e he => Nat.ne_of_lt (h.below e he)
  · exact Table.nodup_concat h.jobIds hnew
  · rcases hmem he with he | rfl
    · exact Nat.lt_succ_of_lt (h.below e he)
    · exact Nat.lt_succ_self _
  · rcases List.mem_append.1 he with he | he
    · refine ⟨Nat.lt_succ_of_lt (h.made e he).1, fun rec hrec hid => ?_⟩
      rcases hmem hrec with hrec | rfl
      · exact (h.made e he).2 rec hrec hid
      · exact absurd hid (Nat.ne_of_gt (h.made e he).1)
    · obtain rfl := List.mem_singleton.1 he
      refine ⟨Nat.lt_succ_self _, fun rec hrec hid => ?_⟩
      rcases hmem hrec with hrec | rfl
      · exact absurd hid (Nat.ne_of_lt (h.below rec hrec))
      · rfl
  · rcases List.mem_append.1 he with he | he
    · exact (h.kept e he hs).imp_left fun ⟨rec, hrec, hid⟩ => ⟨rec, List.mem_append_left _ hrec, hid⟩
    · obtain rfl := List.mem_singleton.1 he
      exact .inl ⟨_, List.mem_append_right _ (List.mem_singleton_self _), rfl, rfl⟩

theorem inv_step {a : Act} (h : Inv succeeded r) (hc : Clean succeeded r a) (hs : step r a = some r') : Inv succeeded r' := by
  cases a with
  | export_ dto =>
    obtain ⟨hnew, hs⟩ := Option.ite_none_left_eq_some.1 hs
    obtain rfl := Option.some.inj hs
    exact inv_export h fun e he heq => hnew (List.any_eq_true.2 ⟨e, he, decide_eq_true heq⟩)
  | withdraw id =>
    obtain rfl := Option.some.inj hs
    exact inv_withdraw h
  | evict now =>
    obtain rfl := Option.some.inj hs
    exact inv_evict h
  | handle jobID detail x =>
    obtain rfl := Option.some.inj hs
    exact inv_handle h hc
  | query q projectID jobID =>
    obtain rfl := Option.some.inj hs
    exact inv_query h hc

def works : Ends := ⟨true, true, 0, true, true⟩

def Older (st st' : State) : Prop := ∀ rec' ∈ st'.exports, isExportFinished rec'.status = false →
  ∃ rec ∈ st.exports, rec.id = rec'.id ∧ rec.jobId = rec'.jobId ∧ isExportFinished rec.status = false

theorem older_handle (hids : (st.exports.map fun e => e.id).Nodup) : Older st (HandleJob x st jobID detail).2 := by
  obtain hst | ⟨rec, d, hload, rfl, hunfinished, -, hst⟩ := @handle_cases x st jobID detail
  · rw [hst]
    exact fun rec' hrec' hu => ⟨rec', hrec', rfl, rfl, hu⟩
  · rw [hst]
    intro rec' hrec' hu
    obtain ⟨e, he, hid, hjob, -, hstatus⟩ := mem_write hrec'
    refine ⟨e, he, hid.symm, hjob.symm, ?_⟩
    by_cases heq : e.id = rec.id
    · obtain rfl := List.inj_on_of_nodup_map hids he (mem_of_load hload).1 heq
      exact hunfinished
    · rwa [hstatus, if_neg heq] at hu

theorem Older.trans {st₁ st₂ : State} (h : Older st st₁) (h' : Older st₁ st₂) : Older st st₂ := by
  intro rec₂ hrec₂ hu₂
  obtain ⟨rec₁, hrec₁, hid₁, hjob₁, hu₁⟩ := h' rec₂ hrec₂ hu₂
  obtain ⟨rec, hrec, hid, hjob, hu⟩ := h rec₁ hrec₁ hu₁
  exact ⟨rec, hrec, hid.trans hid₁, hjob.trans hjob₁, hu⟩

theorem report_status : (report d rec).1 = (reported d rec).1 := by
  unfold report
  split_ifs <;> rfl

theorem report_of_reported (h : Reported d) : (report d rec).1 = .succeed := by
  obtain ⟨hstate, hend, htasks⟩ := h
  rw [report_status, reported, if_neg fun h => hend h.2]
  cases hd : d.tasks with
  | nil =>
    dsimp only
    rw [hstate]
    rfl
  | cons t ts =>
    have ht : t.state = str "Succeeded" := htasks t (by rw [hd]; rfl)
    dsimp only
    rw [ht]
    rfl

theorem handle_reported (hjobIds : (st.exports.map fun e => e.jobId).Nodup) (hd : Reported d)
    (hrec : rec ∈ st.exports) (hunfinished : isExportFinished rec.status = false) :
    ∀ rec' ∈ (HandleJob works st rec.jobId (some d)).2.exports, rec'.id = rec.id → isExportFinished rec'.status = true := by
  have hload : loadExport works.load st rec.jobId = some rec := by
    cases hfind : loadExport works.load st rec.jobId with
    | none =>
      have hnone := List.find?_eq_none.1 hfind rec hrec
      exact absurd (decide_eq_true rfl) hnone
    | some rec₁ =>
      obtain ⟨hrec₁, hjob⟩ := mem_of_load hfind
      exact congrArg some (List.inj_on_of_nodup_map hjobIds hrec₁ hrec hjob)
  have hreport := @report_of_reported rec d hd
  have hne : report d rec ≠ (rec.status, rec.errMsg) := by
    intro heq
    rw [heq] at hreport
    rw [show rec.status = .succeed from hreport] at hunfinished
    cases hunfinished
  have hst : (HandleJob works st rec.jobId (some d)).2 = writeExport works rec (report d rec).1 (report d rec).2 st := by
    have hupdate : works.update = true := rfl
    unfold HandleJob
    rw [hload]
    dsimp only
    rw [if_neg (by rw [hunfinished]; exact nofun), if_neg hne, if_pos hupdate]
  rw [hst]
  intro rec' hrec' hid
  obtain ⟨e, he, hid', -, -, hstatus⟩ := mem_write hrec'
  rw [hstatus, if_pos (hid'.symm.trans hid), hreport]
  rfl

variable {answer : Bytes → Option JobStatusDetailInfo} {made : List (Nat × Bytes)}

theorem syncIds_works (hanswer : ∀ rec ∈ st.exports, isExportFinished rec.status = false → succeeded rec.id = true →
      ∃ d, answer rec.jobId = some d ∧ Reported d)
    (ids : List Bytes) {st₁ : State} (h : Inv succeeded ⟨st₁, made⟩) (hold : Older st st₁) :
    Inv succeeded ⟨syncIds (fun _ => works) answer ids st₁, made⟩ ∧ Older st₁ (syncIds (fun _ => works) answer ids st₁) ∧
      ∀ rec ∈ (syncIds (fun _ => works) answer ids st₁).exports,
        rec.jobId ∈ ids → isExportFinished rec.status = false → succeeded rec.id = false := by
  induction ids generalizing st₁ with
  | nil => exact ⟨h, fun rec hrec hu => ⟨rec, hrec, rfl, rfl, hu⟩, fun _ _ hno => absurd hno List.not_mem_nil⟩
  | cons id ids ih =>
    have hfirst : ∃ st₂, syncIds (fun _ => works) answer (id :: ids) st₁ = syncIds (fun _ => works) answer ids st₂ ∧
        Inv succeeded ⟨st₂, made⟩ ∧ Older st₁ st₂ ∧ ∀ rec ∈ st₂.exports, rec.jobId = id → isExportFinished rec.status = false → succeeded rec.id = false := by
      cases hid : answer id with
      | none =>
        refine ⟨st₁, by rw [syncIds, List.foldl_cons, hid]; rfl, h, fun rec hrec hu => ⟨rec, hrec, rfl, rfl, hu⟩, fun rec hrec hjob hu => ?_⟩
        by_contra hs
        obtain ⟨rec₀, hrec₀, hid₀, hjob₀, hu₀⟩ := hold rec hrec hu
        obtain ⟨d, hd, -⟩ := hanswer rec₀ hrec₀ hu₀ (by rw [hid₀]; exact Bool.eq_true_of_not_eq_false hs)
        rw [hjob₀, hjob, hid] at hd
        cases hd
      | some d =>
        have hreported {rec : ProjectModelExportDO} (hrec : rec ∈ st₁.exports) (hjob : rec.jobId = id) (hu : isExportFinished rec.status = false)
            (hs : succeeded rec.id = true) : Reported d := by
          obtain ⟨rec₀, hrec₀, hid₀, hjob₀, hu₀⟩ := hold rec hrec hu
          obtain ⟨d', hd', hreported⟩ := hanswer rec₀ hrec₀ hu₀ (hid₀ ▸ hs)
          rw [hjob₀, hjob, hid] at hd'
          exact Option.some.inj hd' ▸ hreported
        refine ⟨(HandleJob works st₁ id (some d)).2, by rw [syncIds, List.foldl_cons, hid]; rfl, inv_handle h ?_, older_handle h.ids,
          fun rec₂ hrec₂ hjob₂ hu₂ => ?_⟩
        · intro rec hload d' hd' hu _
          obtain rfl := Option.some.inj hd'
          obtain ⟨hrec, hjob⟩ := mem_of_load hload
          refine ⟨fun _ => ⟨rfl, rfl⟩, fun hfailed => ?_⟩
          by_contra hs
          have hsucceed := @report_of_reported rec d (hreported hrec hjob hu (Bool.eq_true_of_not_eq_false hs))
          rw [hfailed] at hsucceed
          cases hsucceed
        · by_contra hs
          obtain ⟨rec₁, hrec₁, hid₁, hjob₁, hu₁⟩ := older_handle h.ids rec₂ hrec₂ hu₂
          have hd := hreported hrec₁ (hjob₁.trans hjob₂) hu₁ (by rw [hid₁]; exact Bool.eq_true_of_not_eq_false hs)
          have hfinished := handle_reported h.jobIds hd hrec₁ hu₁ rec₂ (by rw [hjob₁, hjob₂]; exact hrec₂) hid₁.symm
          rw [hfinished] at hu₂
          cases hu₂
    obtain ⟨st₂, hst₂, hinv₂, hold₂, hdone⟩ := hfirst
    obtain ⟨hinv, hold', hrest⟩ := ih hinv₂ (hold.trans hold₂)
    rw [hst₂]
    refine ⟨hinv, hold₂.trans hold', fun rec hrec hjob hu => ?_⟩
    rcases List.mem_cons.1 hjob with hjob | hjob
    · obtain ⟨rec₂, hrec₂, hid₂, hjob₂, hu₂⟩ := hold' rec hrec hu
      exact hid₂ ▸ hdone rec₂ hrec₂ (hjob₂.trans hjob) hu₂
    · exact hrest rec hrec hjob hu

private def exported : ModelExportDTO :=
  ⟨str "p", str "g", str "alice", str "jobs-task-model-export", str "m", [], [], [], str "jobs", str "task-model-export", [], [], [], [], .initialized, []⟩

private def goodReport : JobStatusDetailInfo := ⟨str "Succeeded", [], str "2024-01-01 00:00:00", []⟩

private def noExports : Run := ⟨⟨[], [], 1⟩, []⟩

private def first : Run := ⟨⟨[newExport 1 exported], [], 2⟩, [(1, exported.modelID)]⟩

theorem syncOnce_finished {now : Int} {y : Bytes → Ends} (h : ∀ rec ∈ st.exports, isExportFinished rec.status = true) :
    (syncOnce true true now y answer st).packs = st.packs := by
  have hnone : (evict now st).exports.filter (fun r => !isExportFinished r.status) = [] :=
    List.filter_eq_nil_iff.2 fun rec hrec => by rw [h rec (List.mem_filter.1 hrec).1]; exact nofun
  have hpending : pending (evict now st) = [] := by
    rw [pending, hnone, List.map_nil, List.mergeSort_nil]
  show (syncIds y answer (pending (evict now st)) (evict now st)).packs = st.packs
  rw [hpending]
  rfl

end Export
