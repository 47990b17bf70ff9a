import Privahub.Graph.Parties
import Privahub.Graph.Rendered
import Privahub.Http.CaseKeys
import Privahub.Lib.Strings

/-!
# What an SCQL analysis may see

`renderScqlInputConfig` makes the tables and the access constraints of an SCQL task from the tables that the nodes at the top of it name.
The maps it fills are keyed by the owner of a table, so of two tables of one owner the later stays, and of the tables of one id in the
project the first is taken. Every root table is listed, and each of its columns has the one constraint that is configured for a party,
exactly when none of this happens and no column or party is there twice (`rendered_iff`).
-/

namespace Graph.Chain

open Http (Floats decodeAny)

structure ColumnConfig where
  colName : Bytes
  colType : Bytes
  colComment : Bytes
  isAssociateKey : Bool
  isGroupKey : Bool
  isLabelKey : Bool
  isProtection : Bool
  deriving DecidableEq

def stringAt (m : List (Bytes × Json)) (keys : List String) : Bytes :=
  (keys.findSome? fun k => match m.lookup (str k) with
    | some (.str s) => some s
    | _ => none).getD []

def boolAt (m : List (Bytes × Json)) (keys : List String) : Bool :=
  (keys.findSome? fun k => match m.lookup (str k) with
    | some (.bool b) => some b
    | _ => none).getD false

def columnConfig (m : List (Bytes × Json)) : ColumnConfig where
  colName := stringAt m ["colName", "col_name", "name"]
  colType := stringAt m ["colType", "col_type", "type"]
  colComment := stringAt m ["colComment", "col_comment", "comment"]
  isAssociateKey := boolAt m ["isAssociateKey", "is_associate_key", "associateKey", "associate_key"]
  isGroupKey := boolAt m ["isGroupKey", "is_group_key", "groupKey", "group_key"]
  isLabelKey := boolAt m ["isLabelKey", "is_label_key", "labelKey", "label_key"]
  isProtection := boolAt m ["isProtection", "is_protection", "protection"]

/-- An item of the array, `null` being a map without entries. -/
def decodeMap (fl : Floats) : Json → Option (List (Bytes × Json))
  | .null => some []
  | .obj ms => match decodeAny fl (.obj ms) with
    | some (.obj ms) => some ms
    | _ => none
  | _ => none

def ParseColumnConfigs (fl : Floats) (raw : Bytes) : List ColumnConfig :=
  if Utf8.trimSpace raw = [] then []
  else match Json.parse raw with
    | some (.arr items) => ((items.mapM (decodeMap fl)).getD []).map columnConfig
    | _ => []

inductive Constraint
  | plaintext
  | plaintextAfterJoin
  | plaintextAfterGroupBy
  | plaintextAfterAggregate
  deriving DecidableEq

structure ScqlColumn where
  name : Bytes
  dtype : Bytes
  deriving DecidableEq

structure ScqlTableMeta where
  tableName : Bytes
  refTable : Bytes
  dbType : Bytes
  tableOwner : Bytes
  columns : List ScqlColumn
  deriving DecidableEq

structure ScqlTableList where
  tbls : List ScqlTableMeta
  deriving DecidableEq

structure ScqlColumnDef where
  columnName : Bytes
  tableName : Bytes
  deriving DecidableEq

structure ScqlColumnControl where
  col : ScqlColumnDef
  partyCode : Bytes
  constraint : Constraint
  deriving DecidableEq

structure ScqlPrivacyPolicy where
  columnControlList : List ScqlColumnControl
  deriving DecidableEq

structure ScqlTaskInputConfig where
  projectID : Bytes
  query : Bytes
  tables : Bytes → Option ScqlTableList
  ccls : Bytes → Option ScqlPrivacyPolicy
  outputIDs : Bytes → Option Bytes
  initiator : Bytes

def scqlAttrScriptInput : Bytes := str "script_input"
def scqlAttrTaskInitiator : Bytes := str "task_initiator"
def jobIDLength : Nat := 4

def ScqlConstraint (c : ColumnConfig) (party tableOwner : Bytes) : Constraint :=
  if party = tableOwner ∨ c.isProtection = false then .plaintext
  else if c.isAssociateKey then .plaintextAfterJoin
  else if c.isGroupKey then .plaintextAfterGroupBy
  else .plaintextAfterAggregate

def scqlTableName (input nodeID : Bytes) : Bytes :=
  if str "-" <:+: input then Bytes.replaceAll (nodeID ++ input.drop jobIDLength) (str "-") (str "_")
  else Bytes.replaceAll nodeID (str "-") (str "_") ++ str "_" ++ input

def scqlDBType (datasourceID : Bytes) : Bytes :=
  if str "mysql" <+: datasourceID then str "mysql"
  else if str "odps" <+: datasourceID then str "odps"
  else str "csvdb"

/-- With what an attribute is decoded to, its `s` and its `ss`. -/
structure ScqlTexts extends PartyTexts where
  floats : Floats
  attrS : Bytes → Bytes
  attrSS : Bytes → List Bytes

def scqlAttrs (x : ScqlTexts) (nd : NodeDef) : Bytes × Bytes :=
  (nd.attrPaths.zip nd.attrs).foldl (fun acc pa =>
    if pa.1 = scqlAttrScriptInput then (x.attrS pa.2, acc.2)
    else if pa.1 = scqlAttrTaskInitiator then (acc.1, ((x.attrSS pa.2).head?).getD acc.2)
    else acc) ([], [])

def topTable (x : PartyTexts) (r : PartyReads) (job : ProjectJob) (id topID : Bytes) : Except Err (List ProjectDatatableDO) :=
  match byID job.fullNodes topID with
  | none => .ok []
  | some n =>
    match r.tableErr id topID with
    | some e => .error e
    | none => match r.tables job.projectID (DatatableID x.toTexts n.nodeDef) with
      | [] => .error (DatatableNotExists [DatatableID x.toTexts n.nodeDef])
      | dt :: _ => .ok [dt]

section config

variable (fl : Floats) (input : Bytes) (parties : List Bytes) (dsCfg : Bytes → Bytes)

def columnControl (dt : ProjectDatatableDO) (c : ColumnConfig) (party : Bytes) : ScqlColumnControl where
  col := ⟨c.colName, scqlTableName input dt.nodeId⟩
  partyCode := party
  constraint := ScqlConstraint c party dt.nodeId

def tableMeta (dt : ProjectDatatableDO) : ScqlTableMeta where
  tableName := scqlTableName input dt.nodeId
  refTable := input
  dbType := scqlDBType (dsCfg dt.nodeId)
  tableOwner := dt.nodeId
  columns := (ParseColumnConfigs fl dt.tableConfigs).map fun c => ⟨c.colName, c.colType⟩

def tableControls (dt : ProjectDatatableDO) : List ScqlColumnControl :=
  (ParseColumnConfigs fl dt.tableConfigs).flatMap fun c => parties.map (columnControl input dt c)

end config

def byOwner {α : Type} (f : ProjectDatatableDO → α) (tables : List ProjectDatatableDO) : Bytes → Option α :=
  tables.foldl (fun m dt => Function.update m dt.nodeId (some (f dt))) fun _ => none

def scqlConfig (x : ScqlTexts) (t : JobTask) (dsCfg : Bytes → Bytes) (tables : List ProjectDatatableDO) :
    Except Err (ScqlTaskInputConfig × JobTask) :=
  let (query, initiator) := scqlAttrs x t.node.nodeDef
  let parties := if initiator ≠ [] ∧ initiator ∉ t.parties then t.parties ++ [initiator] else t.parties
  match t.node.inputs with
  | [] => .error (GraphJobInvalid [str "stats/scql_analysis has no input"])
  | input :: _ =>
    .ok ({
      projectID := Bytes.replaceAll t.taskID (str "-") []
      query := query
      tables := byOwner (fun dt => ⟨[tableMeta x.floats input dsCfg dt]⟩) tables
      ccls := byOwner (fun dt => ⟨tableControls x.floats input parties dt⟩) tables
      outputIDs := Function.update (fun _ => none) initiator t.node.outputs.head?
      initiator := initiator }, { t with parties := parties })

def renderScqlInputConfig (x : ScqlTexts) (r : PartyReads) (job : ProjectJob) (t : JobTask) (dsCfg : Bytes → Bytes) :
    Except Err (ScqlTaskInputConfig × JobTask) := do
  let tops := (FindTopNodes job.edges t.node.graphNodeId).mergeSort fun a b => decide (a ≤ b)
  let tables ← tops.mapM (topTable x.toPartyTexts r job t.node.graphNodeId)
  scqlConfig x t dsCfg tables.flatten

/-- The rows of the project for the tables that the nodes at the top name. -/
def rootTables (x : PartyTexts) (r : PartyReads) (job : ProjectJob) (id : Bytes) : List ProjectDatatableDO :=
  ((FindTopNodes job.edges id).flatMap fun top => match byID job.fullNodes top with
    | none => []
    | some n => r.tables job.projectID (DatatableID x.toTexts n.nodeDef)).dedup

section spec

variable (fl : Floats) (input : Bytes) (parties : List Bytes) (dsCfg : Bytes → Bytes)

def ScqlTaskInputConfig.tablesOf (cfg : ScqlTaskInputConfig) (owner : Bytes) : List ScqlTableMeta := ((cfg.tables owner).map fun l => l.tbls).getD []

def ScqlTaskInputConfig.controlsOf (cfg : ScqlTaskInputConfig) (owner : Bytes) : List ScqlColumnControl :=
  ((cfg.ccls owner).map fun p => p.columnControlList).getD []

/-- Each root table has an entry of its own under its owner, and each column of it one constraint for each party, the configured one. -/
structure Discloses (roots : List ProjectDatatableDO) (cfg : ScqlTaskInputConfig) : Prop where
  listed : ∀ owner, ((roots.filter fun dt => decide (dt.nodeId = owner)).map (tableMeta fl input dsCfg)).Subperm (cfg.tablesOf owner)
  constrained : ∀ dt ∈ roots, ∀ c ∈ ParseColumnConfigs fl dt.tableConfigs, ∀ p ∈ parties,
    (cfg.controlsOf dt.nodeId).filter (fun k => decide (k.col = ⟨c.colName, scqlTableName input dt.nodeId⟩ ∧ k.partyCode = p)) =
      [⟨⟨c.colName, scqlTableName input dt.nodeId⟩, p, ScqlConstraint c p dt.nodeId⟩]

/-- No two root tables have one owner or one id, and no root table with columns has one twice, or a party that is there twice. -/
structure TablesApart (roots : List ProjectDatatableDO) : Prop where
  one : ∀ dt ∈ roots, ∀ dt' ∈ roots, dt.nodeId = dt'.nodeId ∨ dt.datatableId = dt'.datatableId → dt = dt'
  columns : ∀ dt ∈ roots, ParseColumnConfigs fl dt.tableConfigs ≠ [] → parties ≠ [] →
    ((ParseColumnConfigs fl dt.tableConfigs).map fun c => c.colName).Nodup ∧ parties.Nodup

end spec

variable {fl : Floats} {input : Bytes} {parties : List Bytes} {dsCfg : Bytes → Bytes} {dt dt' : ProjectDatatableDO}
  {tables roots : List ProjectDatatableDO}

theorem byOwner_concat {α : Type} (f : ProjectDatatableDO → α) : byOwner f (tables ++ [dt]) = Function.update (byOwner f tables) dt.nodeId (some (f dt)) := by
  rw [byOwner, List.foldl_append]
  rfl

theorem byOwner_eq {α : Type} (f : ProjectDatatableDO → α) (hdt : dt ∈ tables) (hone : ∀ dt' ∈ tables, dt'.nodeId = dt.nodeId → dt' = dt) :
    byOwner f tables dt.nodeId = some (f dt) := by
  induction tables using List.reverseRecOn with
  | nil => cases hdt
  | append_singleton tables last ih =>
    rw [byOwner_concat]
    by_cases hlast : last.nodeId = dt.nodeId
    · obtain rfl := hone last (List.mem_append_right _ (List.mem_singleton_self _)) hlast
      exact Function.update_self ..
    · rw [Function.update_of_ne (Ne.symm hlast)]
      refine ih ?_ fun dt' hdt' => hone dt' (List.mem_append_left _ hdt')
      obtain hdt | hdt := List.mem_append.1 hdt
      · exact hdt
      · exact absurd (congrArg _ (List.mem_singleton.1 hdt).symm) hlast

theorem byOwner_some {α : Type} {f : ProjectDatatableDO → α} {owner : Bytes} {a : α} (h : byOwner f tables owner = some a) :
    ∃ dt ∈ tables, dt.nodeId = owner ∧ a = f dt := by
  induction tables using List.reverseRecOn with
  | nil => cases h
  | append_singleton tables last ih =>
    rw [byOwner_concat] at h
    by_cases hlast : last.nodeId = owner
    · obtain rfl := hlast
      rw [Function.update_self] at h
      exact ⟨last, List.mem_append_right _ (List.mem_singleton_self _), rfl, (Option.some.inj h).symm⟩
    · rw [Function.update_of_ne (Ne.symm hlast)] at h
      obtain ⟨dt, hdt, hrest⟩ := ih h
      exact ⟨dt, List.mem_append_left _ hdt, hrest⟩

theorem filter_tableControls (n p : Bytes) :
    (tableControls fl input parties dt).filter (fun k => decide (k.col = ⟨n, scqlTableName input dt.nodeId⟩ ∧ k.partyCode = p)) =
      ((ParseColumnConfigs fl dt.tableConfigs).filter fun c => decide (c.colName = n)).flatMap fun c =>
        (parties.filter fun q => decide (q = p)).map (columnControl input dt c) := by
  unfold tableControls
  induction ParseColumnConfigs fl dt.tableConfigs with
  | nil => rfl
  | cons c cs ih =>
    rw [List.flatMap_cons, List.filter_append, ih, List.filter_map, List.filter_cons]
    by_cases hc : c.colName = n
    · rw [if_pos (decide_eq_true hc), List.flatMap_cons]
      congr 3
      funext q
      exact decide_eq_decide.2 ⟨And.right, fun hq => ⟨by rw [← hc]; rfl, hq⟩⟩
    · rw [if_neg (by simpa using hc)]
      refine (List.append_left_eq_self).2 ?_
      rw [List.map_eq_nil_iff, List.filter_eq_nil_iff]
      rintro q - h
      exact hc (congrArg ScqlColumnDef.columnName (of_decide_eq_true h).1)

theorem eq_of_length_le_one {α : Type} {l : List α} {a b : α} (h : l.length ≤ 1) (ha : a ∈ l) (hb : b ∈ l) : a = b := by
  match l, h with
  | [c], _ => exact (List.mem_singleton.1 ha).trans (List.mem_singleton.1 hb).symm

theorem filter_eq_singleton {α β : Type} [DecidableEq β] {f : α → β} {l : List α} (h : (l.map f).Nodup) {a : α} (ha : a ∈ l) :
    (l.filter fun b => decide (f b = f a)) = [a] := by
  induction l with
  | nil => cases ha
  | cons b l ih =>
    rw [List.map_cons, List.nodup_cons] at h
    rw [List.filter_cons]
    obtain rfl | ha := List.mem_cons.1 ha
    · rw [if_pos (decide_eq_true rfl), List.filter_eq_nil_iff.2]
      intro c hc hfc
      exact h.1 (of_decide_eq_true hfc ▸ List.mem_map_of_mem hc)
    · rw [if_neg, ih h.2 ha]
      intro hfb
      exact h.1 (of_decide_eq_true hfb ▸ List.mem_map_of_mem ha)

theorem nodup_of_filter {α β : Type} [DecidableEq β] {f : α → β} {l : List α} (h : ∀ a ∈ l, (l.filter fun b => decide (f b = f a)).length = 1) :
    (l.map f).Nodup := by
  rw [List.nodup_iff_count_eq_one]
  intro b hb
  obtain ⟨a, ha, rfl⟩ := List.mem_map.1 hb
  rw [List.count_eq_countP, List.countP_map, List.countP_eq_length_filter, ← h a ha]
  rfl

variable (input) in
/-- A table has the configured constraint and no other for each column and party exactly when no column and no party is there twice. -/
theorem tableControls_iff : (∀ c ∈ ParseColumnConfigs fl dt.tableConfigs, ∀ p ∈ parties,
      (tableControls fl input parties dt).filter (fun k => decide (k.col = ⟨c.colName, scqlTableName input dt.nodeId⟩ ∧ k.partyCode = p)) =
        [⟨⟨c.colName, scqlTableName input dt.nodeId⟩, p, ScqlConstraint c p dt.nodeId⟩]) ↔
    (ParseColumnConfigs fl dt.tableConfigs ≠ [] → parties ≠ [] →
      ((ParseColumnConfigs fl dt.tableConfigs).map fun c => c.colName).Nodup ∧ parties.Nodup) := by
  refine ⟨fun h hcols hparties => ?_, fun h c hc p hp => ?_⟩
  · have hcount : ∀ c ∈ ParseColumnConfigs fl dt.tableConfigs, ∀ p ∈ parties,
        ((ParseColumnConfigs fl dt.tableConfigs).filter fun c' => decide (c'.colName = c.colName)).length = 1 ∧
          (parties.filter fun q => decide (q = p)).length = 1 := by
      intro c hc p hp
      have hlen := congrArg List.length ((filter_tableControls c.colName p).symm.trans (h c hc p hp))
      rw [List.length_flatMap] at hlen
      simp only [List.length_map, List.map_const', List.sum_replicate_nat, List.length_singleton] at hlen
      exact ⟨Nat.eq_one_of_mul_eq_one_right hlen, Nat.eq_one_of_mul_eq_one_left hlen⟩
    obtain ⟨p, hp⟩ := List.exists_mem_of_ne_nil _ hparties
    obtain ⟨c, hc⟩ := List.exists_mem_of_ne_nil _ hcols
    refine ⟨nodup_of_filter fun c hc => (hcount c hc p hp).1, ?_⟩
    rw [← List.map_id parties]
    exact nodup_of_filter fun p hp => (hcount c hc p hp).2
  · obtain ⟨hcols, hparties⟩ := h (List.ne_nil_of_mem hc) (List.ne_nil_of_mem hp)
    have hp' : (parties.filter fun q => decide (q = p)) = [p] := filter_eq_singleton (by rwa [List.map_id']) hp
    rw [filter_tableControls, filter_eq_singleton hcols hc, hp']
    rfl

variable {x : ScqlTexts} {r : PartyReads} {job : ProjectJob} {t t' : JobTask} {cfg : ScqlTaskInputConfig} {id top : Bytes}

def IsFirst (r : PartyReads) (job : ProjectJob) (dt : ProjectDatatableDO) : Prop := (r.tables job.projectID dt.datatableId).head? = some dt

theorem mem_tables {dtID : Bytes} (h : dt ∈ r.tables job.projectID dtID) : dt.datatableId = dtID := (of_decide_eq_true (List.mem_filter.1 h).2).2

theorem mem_rootTables : dt ∈ rootTables x.toPartyTexts r job id ↔
    ∃ top ∈ FindTopNodes job.edges id, ∃ n, byID job.fullNodes top = some n ∧ dt ∈ r.tables job.projectID (DatatableID x.toTexts n.nodeDef) := by
  rw [rootTables, List.mem_dedup, List.mem_flatMap]
  refine exists_congr fun top => and_congr_right fun _ => ?_
  cases byID job.fullNodes top with
  | none => exact ⟨nofun, nofun⟩
  | some n => exact ⟨fun h => ⟨n, rfl, h⟩, fun ⟨_, hn, h⟩ => Option.some.inj hn ▸ h⟩

theorem topTable_spec {dts : List ProjectDatatableDO} (h : topTable x.toPartyTexts r job id top = .ok dts) :
    (byID job.fullNodes top = none ∧ dts = []) ∨
      ∃ n dt, byID job.fullNodes top = some n ∧ dts = [dt] ∧ (r.tables job.projectID (DatatableID x.toTexts n.nodeDef)).head? = some dt := by
  unfold topTable at h
  cases hn : byID job.fullNodes top with
  | none =>
    rw [hn] at h
    exact .inl ⟨rfl, (Except.ok.inj h).symm⟩
  | some n =>
    rw [hn] at h
    dsimp only at h
    cases herr : r.tableErr id top with
    | some e =>
      rw [herr] at h
      cases h
    | none =>
      rw [herr] at h
      dsimp only at h
      cases hdts : r.tables job.projectID (DatatableID x.toTexts n.nodeDef) with
      | nil =>
        rw [hdts] at h
        cases h
      | cons dt rest =>
        rw [hdts] at h
        exact .inr ⟨n, dt, rfl, (Except.ok.inj h).symm, by rw [hdts]; rfl⟩

theorem mem_taken {tops : List Bytes} {tables : List (List ProjectDatatableDO)}
    (h : tops.mapM (topTable x.toPartyTexts r job id) = .ok tables) (htops : ∀ top, top ∈ tops ↔ top ∈ FindTopNodes job.edges id) :
    dt ∈ tables.flatten ↔ dt ∈ rootTables x.toPartyTexts r job id ∧ IsFirst r job dt := by
  have hall : List.Forall₂ (fun top dts => topTable x.toPartyTexts r job id top = .ok dts) tops tables := Except.forall₂_of_mapM h
  rw [mem_rootTables, List.mem_flatten]
  constructor
  · rintro ⟨dts, hdts, hdt⟩
    obtain ⟨top, htop, hok⟩ := hall.exists_left dts hdts
    obtain ⟨-, rfl⟩ | ⟨n, dt', hn, rfl, hhead⟩ := topTable_spec hok
    · cases hdt
    · obtain rfl := List.mem_singleton.1 hdt
      have hmem := List.mem_of_mem_head? hhead
      exact ⟨⟨top, (htops top).1 htop, n, hn, hmem⟩, by rw [IsFirst, mem_tables hmem]; exact hhead⟩
  · rintro ⟨⟨top, htop, n, hn, hmem⟩, hfirst⟩
    obtain ⟨dts, hdts, hok⟩ := hall.exists_right top ((htops top).2 htop)
    refine ⟨dts, hdts, ?_⟩
    obtain ⟨hnone, -⟩ | ⟨n', dt', hn', rfl, hhead⟩ := topTable_spec hok
    · cases hnone.symm.trans hn
    · obtain rfl := Option.some.inj (hn'.symm.trans hn)
      rw [IsFirst, mem_tables hmem, hhead] at hfirst
      exact List.mem_singleton.2 (Option.some.inj hfirst).symm

theorem renderScqlInputConfig_ok {dsCfg : Bytes → Bytes} (h : renderScqlInputConfig x r job t dsCfg = .ok (cfg, t')) :
    ∃ input rest tables, t.node.inputs = input :: rest ∧
      (∀ dt, dt ∈ tables ↔ dt ∈ rootTables x.toPartyTexts r job t.node.graphNodeId ∧ IsFirst r job dt) ∧
      cfg.tables = byOwner (fun dt => ⟨[tableMeta x.floats input dsCfg dt]⟩) tables ∧
      cfg.ccls = byOwner (fun dt => ⟨tableControls x.floats input t'.parties dt⟩) tables := by
  obtain ⟨tables, htables, h⟩ := Except.ok_of_bind h
  unfold scqlConfig at h
  cases hin : t.node.inputs with
  | nil =>
    rw [hin] at h
    cases h
  | cons input rest =>
    rw [hin] at h
    obtain ⟨rfl, rfl⟩ := Prod.mk.inj (Except.ok.inj h)
    exact ⟨input, rest, tables.flatten, rfl, fun dt => mem_taken htables fun _ => List.mem_mergeSort, rfl, rfl⟩

theorem exists_first (h : dt ∈ rootTables x.toPartyTexts r job id) :
    ∃ first ∈ rootTables x.toPartyTexts r job id, IsFirst r job first ∧ first.datatableId = dt.datatableId := by
  obtain ⟨top, htop, n, hn, hmem⟩ := mem_rootTables.1 h
  cases hdts : r.tables job.projectID (DatatableID x.toTexts n.nodeDef) with
  | nil =>
    rw [hdts] at hmem
    cases hmem
  | cons first rest =>
    have hfirst : first ∈ r.tables job.projectID (DatatableID x.toTexts n.nodeDef) := hdts ▸ List.mem_cons_self
    refine ⟨first, mem_rootTables.2 ⟨top, htop, n, hn, hfirst⟩, ?_, (mem_tables hfirst).trans (mem_tables hmem).symm⟩
    rw [IsFirst, mem_tables hfirst, hdts]
    rfl

section made

variable (htables : ∀ dt, dt ∈ tables ↔ dt ∈ roots ∧ IsFirst r job dt)
  (hcfg : cfg.tables = byOwner (fun dt => ⟨[tableMeta fl input dsCfg dt]⟩) tables)
  (hccls : cfg.ccls = byOwner (fun dt => ⟨tableControls fl input parties dt⟩) tables)

include htables

include hcfg in
theorem taken_of_listed (h : Discloses fl input parties dsCfg roots cfg) (hdt : dt ∈ roots) :
    dt ∈ tables ∧ ∀ dt' ∈ roots, dt'.nodeId = dt.nodeId → dt' = dt := by
  have hlen := (h.listed dt.nodeId).length_le
  have hmem {dt' : ProjectDatatableDO} (hdt' : dt' ∈ roots) (hid : dt'.nodeId = dt.nodeId) :
      dt' ∈ roots.filter fun dt' => decide (dt'.nodeId = dt.nodeId) := List.mem_filter.2 ⟨hdt', decide_eq_true hid⟩
  rw [ScqlTaskInputConfig.tablesOf, hcfg, List.length_map] at hlen
  cases hentry : byOwner (fun dt => (⟨[tableMeta fl input dsCfg dt]⟩ : ScqlTableList)) tables dt.nodeId with
  | none =>
    rw [hentry] at hlen
    exact absurd (List.length_pos_of_mem (hmem hdt rfl)) (Nat.not_lt.2 hlen)
  | some l =>
    obtain ⟨first, hfirst, howner, rfl⟩ := byOwner_some hentry
    rw [hentry] at hlen
    have hall : ∀ dt' ∈ roots, dt'.nodeId = dt.nodeId → dt' = dt := fun dt' hdt' hid =>
      eq_of_length_le_one hlen (hmem hdt' hid) (hmem hdt rfl)
    obtain rfl := hall first ((htables first).1 hfirst).1 howner
    exact ⟨hfirst, hall⟩

include hccls

theorem controlsOf_eq (hdt : dt ∈ tables) (hone : ∀ dt' ∈ roots, dt'.nodeId = dt.nodeId → dt' = dt) :
    cfg.controlsOf dt.nodeId = tableControls fl input parties dt := by
  rw [ScqlTaskInputConfig.controlsOf, hccls, byOwner_eq _ hdt fun dt' hdt' => hone dt' ((htables dt').1 hdt').1]
  rfl

include hcfg

theorem apart_of_discloses (h : Discloses fl input parties dsCfg roots cfg) : TablesApart fl parties roots := by
  have hone {dt : ProjectDatatableDO} (hdt : dt ∈ roots) := taken_of_listed htables hcfg h hdt
  refine ⟨fun dt hdt dt' hdt' hor => ?_, fun dt hdt => (tableControls_iff input).1 fun c hc p hp => ?_⟩
  · obtain hid | hid := hor
    · exact (hone hdt').2 dt hdt hid
    · have hhead := ((htables dt).1 (hone hdt).1).2
      have hhead' := ((htables dt').1 (hone hdt').1).2
      rw [IsFirst, hid, hhead'] at hhead
      exact (Option.some.inj hhead).symm
  · rw [← controlsOf_eq htables hccls (hone hdt).1 (hone hdt).2]
    exact h.constrained dt hdt c hc p hp

theorem discloses_of_apart (hnodup : roots.Nodup)
    (hfirst : ∀ dt ∈ roots, ∃ first ∈ roots, IsFirst r job first ∧ first.datatableId = dt.datatableId) (h : TablesApart fl parties roots) :
    Discloses fl input parties dsCfg roots cfg := by
  have htaken : ∀ dt ∈ roots, dt ∈ tables := by
    intro dt hdt
    obtain ⟨first, hmem, hhead, hid⟩ := hfirst dt hdt
    obtain rfl := h.one first hmem dt hdt (.inr hid)
    exact (htables first).2 ⟨hmem, hhead⟩
  have hone {dt : ProjectDatatableDO} (hdt : dt ∈ roots) : ∀ dt' ∈ roots, dt'.nodeId = dt.nodeId → dt' = dt :=
    fun dt' hdt' hid => h.one dt' hdt' dt hdt (.inl hid)
  refine ⟨fun owner => ?_, fun dt hdt c hc p hp => ?_⟩
  · by_cases howner : ∃ dt ∈ roots, dt.nodeId = owner
    · obtain ⟨dt, hdt, rfl⟩ := howner
      have hfilter : (roots.filter fun dt' => decide (dt'.nodeId = dt.nodeId)) = [dt] :=
        filter_eq_singleton (hnodup.map_on fun a ha b hb hab => h.one a ha b hb (.inl hab)) hdt
      rw [hfilter, ScqlTaskInputConfig.tablesOf, hcfg, byOwner_eq _ (htaken dt hdt) fun dt' hdt' => hone hdt dt' ((htables dt').1 hdt').1]
      exact List.Subperm.refl _
    · have hnone : (roots.filter fun dt => decide (dt.nodeId = owner)) = [] :=
        List.filter_eq_nil_iff.2 fun dt hdt hid => howner ⟨dt, hdt, of_decide_eq_true hid⟩
      rw [hnone]
      exact List.nil_subperm
  · rw [controlsOf_eq htables hccls (htaken dt hdt) (hone hdt)]
    exact (tableControls_iff input).2 (h.columns dt hdt) c hc p hp

end made

/-- After a rendering that goes through, every root table is listed, and each column of it has the one configured constraint for each
party, exactly when the root tables are apart. -/
theorem rendered_iff (h : renderScqlInputConfig x r job t dsCfg = .ok (cfg, t')) :
    Discloses x.floats (t.node.inputs.headD []) t'.parties dsCfg (rootTables x.toPartyTexts r job t.node.graphNodeId) cfg ↔
      TablesApart x.floats t'.parties (rootTables x.toPartyTexts r job t.node.graphNodeId) := by
  obtain ⟨input, rest, tables, hin, htables, hcfg, hccls⟩ := renderScqlInputConfig_ok h
  rw [hin, List.headD_cons]
  exact ⟨apart_of_discloses htables hcfg hccls,
    discloses_of_apart htables hcfg hccls (List.nodup_dedup _) fun dt hdt => exists_first hdt⟩

def scqlTexts : ScqlTexts where
  edgesJSON _ := str "[]"
  jsonStrings _ := str "[]"
  graphNode n := n.graphNodeId
  taskStartLog _ _ id := id
  taskSucceedLog _ _ id := id
  attrString attr := attr
  coverCustomAttr attr := attr
  typeAttr _ := []
  modelHash _ := []
  setModelHash attr _ := attr
  unicode := .asciiCase
  attrStrings _ := []
  floats := .integers
  attrS attr := attr
  attrSS attr := [attr]

def readNode (id table : String) : GraphNodeInfo :=
  ⟨CompReadDataDatatable, str id, [], [str id ++ str "-output-0"], ⟨str "read_data", str "datatable", [str "datatable_selected"], [str table]⟩⟩

def scqlNode : GraphNodeInfo where
  codeName := str "stats/scql_analysis"
  graphNodeId := str "n3"
  inputs := [str "pays"]
  outputs := [str "abcd-n3-output-0"]
  nodeDef := ⟨str "stats", str "scql_analysis", [str "task_initiator", str "script_input"], [str "bob", str "select 1"]⟩

def scqlJob (first second : String) : ProjectJob where
  projectID := str "p"
  graphID := str "g"
  name := str "scql"
  jobID := str "abcd"
  fullNodes := [readNode "n1" first, readNode "n2" second, scqlNode]
  edges := [⟨str "e2", str "n2", [], str "n3", []⟩, ⟨str "e1", str "n1", [], str "n3", []⟩]
  tasks := []

def scqlTask : JobTask := ⟨str "abcd-n3", [str "alice", str "bob"], [], scqlNode⟩

def scqlReads : PartyReads where
  datatables := [⟨str "p", str "alice", str "pays", str "[\x7b\"colName\":\"x\",\"isProtection\":true\x7d]"⟩,
    ⟨str "p", str "alice", str "people", str "[\x7b\"colName\":\"id\",\"isProtection\":true,\"isAssociateKey\":true\x7d]"⟩,
    ⟨str "p", str "bob", str "visits", str "[\x7b\"colName\":\"y\"\x7d]"⟩]
  nodes := []
  tableErr _ _ := none
  nodeErr := false

theorem tops_scqlJob (first second : String) : FindTopNodes (scqlJob first second).edges (str "n3") = [str "n1", str "n2"] := by
  have hin : Roots.incoming [(str "n2", str "n3"), (str "n1", str "n3")] (str "n3") = some [str "n2", str "n1"] := by decide +kernel
  show Roots.loop [(str "n2", str "n3"), (str "n1", str "n3")] [] [] [str "n3"] = _
  rw [Roots.loop_push (by decide) hin]
  show Roots.loop _ _ _ [str "n1", str "n2"] = _
  rw [Roots.loop_root (by decide +kernel) (by decide +kernel), Roots.loop_root (by decide +kernel) (by decide +kernel), Roots.loop]
  rfl

def scqlRendered (first second : String) : Except Err (ScqlTaskInputConfig × JobTask) :=
  renderScqlInputConfig scqlTexts scqlReads (scqlJob first second) scqlTask fun _ => str "default-data-source"

def scqlRoots (first second : String) : List ProjectDatatableDO :=
  rootTables scqlTexts.toPartyTexts scqlReads (scqlJob first second) scqlTask.node.graphNodeId

theorem scqlRendered_eq (first second : String) : scqlRendered first second =
    [str "n1", str "n2"].mapM (topTable scqlTexts.toPartyTexts scqlReads (scqlJob first second) (str "n3")) >>= fun tables =>
      scqlConfig scqlTexts scqlTask (fun _ => str "default-data-source") tables.flatten := by
  have htops : ((FindTopNodes (scqlJob first second).edges (str "n3")).mergeSort fun a b => decide (a ≤ b)) = [str "n1", str "n2"] := by
    rw [tops_scqlJob]
    exact List.mergeSort_of_pairwise (by decide +kernel)
  rw [← htops]
  rfl

theorem scqlRoots_eq (first second : String) : scqlRoots first second =
    ([str "n1", str "n2"].flatMap fun top => match byID (scqlJob first second).fullNodes top with
      | none => []
      | some n => scqlReads.tables (str "p") (DatatableID scqlTexts.toTexts n.nodeDef)).dedup := by
  rw [← tops_scqlJob first second]
  rfl

/-- Of the two tables of alice the first is not listed, and nothing is said of its column. -/
theorem scqlRendered_lost : ∃ r, scqlRendered "pays" "people" = .ok r ∧
    (r.1.tablesOf (str "alice")).map (fun m => m.columns.map fun c => c.name) = [[str "id"]] ∧
    (r.1.controlsOf (str "alice")).filter (fun k => decide (k.col.columnName = str "x")) = [] ∧
    ¬ Discloses scqlTexts.floats (str "pays") r.2.parties (fun _ => str "default-data-source") (scqlRoots "pays" "people") r.1 := by
  obtain ⟨r, hr, htrue⟩ : ∃ r, scqlRendered "pays" "people" = .ok r ∧
      decide (((r.1.tablesOf (str "alice")).map (fun m => m.columns.map fun c => c.name) = [[str "id"]] ∧
        (r.1.controlsOf (str "alice")).filter (fun k => decide (k.col.columnName = str "x")) = [])) = true := by
    rw [scqlRendered_eq]
    exact exists_of_okWith (by decide +kernel)
  obtain ⟨hcols, hcontrols⟩ := of_decide_eq_true htrue
  refine ⟨r, hr, hcols, hcontrols, fun h => ?_⟩
  have hlen := (h.listed (str "alice")).length_le
  have htwo : ((scqlRoots "pays" "people").filter fun dt => decide (dt.nodeId = str "alice")).length = 2 := by
    rw [scqlRoots_eq]
    decide +kernel
  rw [List.length_map, htwo, ← List.length_map (f := fun m : ScqlTableMeta => m.columns.map fun c => c.name), hcols] at hlen
  exact absurd hlen (by decide)

theorem rendered_iff_scql : ∃ r, scqlRendered "pays" "visits" = .ok r ∧
    (Discloses scqlTexts.floats (str "pays") r.2.parties (fun _ => str "default-data-source") (scqlRoots "pays" "visits") r.1 ↔
      TablesApart scqlTexts.floats r.2.parties (scqlRoots "pays" "visits")) := by
  obtain ⟨r, hr, -⟩ : ∃ r, scqlRendered "pays" "visits" = .ok r ∧ decide ((r.1.tablesOf (str "bob")).length = 1) = true := by
    rw [scqlRendered_eq]
    exact exists_of_okWith (by decide +kernel)
  exact ⟨r, hr, rendered_iff hr⟩

end Graph.Chain
