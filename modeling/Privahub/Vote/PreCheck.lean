import Privahub.Vote.Service
import Privahub.Lib.Outcome
import Mathlib.Data.List.Perm.Subperm

/-!
# The check before a project is created

`ProjectCreateHandler.preCheck` holds the lists of a PROJECT_CREATE request against the rows of `node`. Of the nodes that initiate it
counts the rows, of those that are invited it looks at the institutions of the rows that there are. `projects` are the projects that are
not deleted; `Lookups` says which of the three queries go through.
-/

namespace Vote.PreCheck

structure NodeDO where
  nodeId : Bytes
  instId : Bytes
  isDeleted : Bool
  deriving DecidableEq

structure Db where
  projects : List Bytes
  nodes : List NodeDO
  node_ids : (nodes.map (·.nodeId)).Nodup

structure Lookups where
  project : Bool
  count : Bool
  pluck : Bool

structure ParticipantNodeInstVO where
  initiatorNodeId : Bytes
  invitees : List Bytes

structure VoteConfig where
  projectId : Bytes
  participants : List Bytes
  participantNodeInstVOS : List ParticipantNodeInstVO

def ProjectNotExists : Err := ⟨202011501, str "project.PROJECT_NOT_EXISTS", []⟩
def VoteParticipantNotExist : Err := ⟨202012206, str "vote.PARTICIPANT_NOT_EXIST", []⟩
def VoteInitiatorNodeDuplicate : Err := ⟨202012207, str "vote.INITIATOR_NODE_DUPLICATE", []⟩
def InstInitiatorInstNodeMismatch : Err := ⟨202011209, str "inst.INITIATOR_INST_NODE_MISMATCH", []⟩
def InstInviteeInstNodeMismatch : Err := ⟨202011210, str "inst.INVITEE_INST_NODE_MISMATCH", []⟩

variable (db : Db) (l : Lookups) (initiator : Bytes) (cfg : VoteConfig)

def without (list : List Bytes) (v : Bytes) : List Bytes := list.filter fun x => decide (x ≠ v)

def collect (seen : List Bytes) : List ParticipantNodeInstVO → Except Err (List Bytes × List Bytes)
  | [] => .ok ([], [])
  | p :: ps =>
    if p.initiatorNodeId ∈ seen then .error VoteInitiatorNodeDuplicate
    else do
      let (initiatorNodes, invitees) ← collect (p.initiatorNodeId :: seen) ps
      return (p.initiatorNodeId :: initiatorNodes, p.invitees ++ invitees)

/-- `node_id IN ? AND inst_id = ?`. -/
def nodesInInst (ids : List Bytes) : List NodeDO := db.nodes.filter fun n => decide (n.isDeleted = false ∧ n.nodeId ∈ ids ∧ n.instId = initiator)

/-- `node_id IN ?`. -/
def pluckInstIDs (ids : List Bytes) : List Bytes :=
  (db.nodes.filter fun n => decide (n.isDeleted = false ∧ n.nodeId ∈ ids)).map (·.instId)

def preCheck : Except Err Unit :=
  if cfg.projectId = [] ∨ l.project = false ∨ cfg.projectId ∉ db.projects then .error ProjectNotExists
  else if without cfg.participants initiator = [] then .error VoteParticipantNotExist
  else do
    let (initiatorNodes, invitees) ← collect [] cfg.participantNodeInstVOS
    -- A count that fails stays at zero, and a query that fails finds no institution.
    let n := if l.count then (nodesInInst db initiator initiatorNodes).length else 0
    let instIDs := if l.pluck then pluckInstIDs db invitees else []
    if initiatorNodes ≠ [] ∧ n ≠ initiatorNodes.length then .error InstInitiatorInstNodeMismatch
    else if invitees ≠ [] ∧ ∃ id ∈ instIDs, id ∉ cfg.participants ∨ id = initiator then .error InstInviteeInstNodeMismatch
    else .ok ()

def VoteConfig.initiatorNodes : List Bytes := cfg.participantNodeInstVOS.map (·.initiatorNodeId)

def VoteConfig.invitees : List Bytes := cfg.participantNodeInstVOS.flatMap (·.invitees)

/-- There is a row of the node, and what `p` says is true of its institution. -/
def HasNode (p : Bytes → Prop) (id : Bytes) : Prop := ∃ n ∈ db.nodes, n.isDeleted = false ∧ n.nodeId = id ∧ p n.instId

/-- An institution that takes part beside the initiator. -/
def Participates (inst : Bytes) : Prop := inst ∈ cfg.participants ∧ inst ≠ initiator

structure Sound : Prop where
  invited : ∀ id ∈ cfg.invitees, HasNode db (Participates initiator cfg) id
  distinct : cfg.initiatorNodes.Nodup
  initiators : ∀ id ∈ cfg.initiatorNodes, HasNode db (· = initiator) id

structure Passes : Prop where
  project : cfg.projectId ≠ [] ∧ l.project = true ∧ cfg.projectId ∈ db.projects
  others : ∃ inst ∈ cfg.participants, inst ≠ initiator
  distinct : cfg.initiatorNodes.Nodup
  initiators : ∀ id ∈ cfg.initiatorNodes, l.count = true ∧ HasNode db (· = initiator) id
  found : l.pluck = true → ∀ n ∈ db.nodes, n.isDeleted = false → n.nodeId ∈ cfg.invitees → Participates initiator cfg n.instId

/-- Every invited node has its row, and the institutions of these rows are looked at, unless they take part anyway. -/
structure Seen : Prop where
  rows : ∀ id ∈ cfg.invitees, HasNode db (fun _ => True) id
  insts : l.pluck = true ∨ ∀ n ∈ db.nodes, n.isDeleted = false → n.nodeId ∈ cfg.invitees → Participates initiator cfg n.instId

variable {db : Db} {l : Lookups} {initiator : Bytes} {cfg : VoteConfig}

theorem collect_ok {seen : List Bytes} {ps : List ParticipantNodeInstVO} {r : List Bytes × List Bytes} :
    collect seen ps = .ok r ↔ ((ps.map (·.initiatorNodeId)).Nodup ∧ ∀ p ∈ ps, p.initiatorNodeId ∉ seen) ∧
      r = (ps.map (·.initiatorNodeId), ps.flatMap (·.invitees)) := by
  induction ps generalizing seen r with
  | nil => simp [collect, eq_comm]
  | cons p ps ih =>
    unfold collect
    by_cases hseen : p.initiatorNodeId ∈ seen
    · rw [if_pos hseen]
      refine ⟨nofun, fun h => absurd hseen (h.1.2 p List.mem_cons_self)⟩
    · rw [if_neg hseen]
      constructor
      · intro h
        obtain ⟨⟨ns, is⟩, hrest, h⟩ := Except.ok_of_bind h
        obtain ⟨⟨hnodup, hfresh⟩, hlists⟩ := ih.1 hrest
        obtain ⟨rfl, rfl⟩ := Prod.mk.inj hlists
        obtain rfl := Except.ok.inj h
        refine ⟨⟨List.nodup_cons.2 ⟨fun hp => ?_, hnodup⟩, List.forall_mem_cons.2 ⟨hseen, fun q hq => ?_⟩⟩, rfl⟩
        · obtain ⟨q, hq, hid⟩ := List.mem_map.1 hp
          exact hfresh q hq (hid ▸ List.mem_cons_self)
        · exact fun hs => hfresh q hq (List.mem_cons_of_mem _ hs)
      · rintro ⟨⟨hnodup, hfresh⟩, rfl⟩
        obtain ⟨hp, hnodup⟩ := List.nodup_cons.1 hnodup
        have hrest : collect (p.initiatorNodeId :: seen) ps = .ok (ps.map (·.initiatorNodeId), ps.flatMap (·.invitees)) := by
          refine ih.2 ⟨⟨hnodup, fun q hq => ?_⟩, rfl⟩
          rw [List.mem_cons, not_or]
          exact ⟨fun hid => hp (List.mem_map.2 ⟨q, hq, hid⟩), hfresh q (List.mem_cons_of_mem _ hq)⟩
        rw [hrest]
        rfl

theorem count_iff {ids : List Bytes} (hids : ids.Nodup) :
    (nodesInInst db initiator ids).length = ids.length ↔ ∀ id ∈ ids, HasNode db (· = initiator) id := by
  have hrow {id : Bytes} : id ∈ (nodesInInst db initiator ids).map (·.nodeId) ↔ id ∈ ids ∧ HasNode db (· = initiator) id := by
    simp only [nodesInInst, List.mem_map, List.mem_filter, decide_eq_true_eq]
    constructor
    · rintro ⟨n, ⟨hn, hlive, hid, hinst⟩, rfl⟩
      exact ⟨hid, n, hn, hlive, rfl, hinst⟩
    · rintro ⟨hid, n, hn, hlive, rfl, hinst⟩
      exact ⟨n, ⟨hn, hlive, hid, hinst⟩, rfl⟩
  have hnodup : ((nodesInInst db initiator ids).map (·.nodeId)).Nodup := db.node_ids.sublist (List.filter_sublist.map _)
  have hsub : (nodesInInst db initiator ids).map (·.nodeId) ⊆ ids := fun _ hid => (hrow.1 hid).1
  rw [← List.length_map (·.nodeId)]
  constructor
  · intro hlen id hid
    have hperm := (hnodup.subperm hsub).perm_of_length_le (Nat.le_of_eq hlen.symm)
    exact (hrow.1 (hperm.mem_iff.2 hid)).2
  · intro hall
    exact Nat.le_antisymm (hnodup.subperm hsub).length_le (hids.subperm fun id hid => hrow.2 ⟨hid, hall id hid⟩).length_le

theorem mem_pluckInstIDs {ids : List Bytes} {inst : Bytes} :
    inst ∈ pluckInstIDs db ids ↔ ∃ n ∈ db.nodes, n.isDeleted = false ∧ n.nodeId ∈ ids ∧ n.instId = inst := by
  simp only [pluckInstIDs, List.mem_map, List.mem_filter, decide_eq_true_eq, and_assoc]

theorem without_ne_nil : without cfg.participants initiator ≠ [] ↔ ∃ inst ∈ cfg.participants, inst ≠ initiator := by
  simp [without, List.filter_eq_nil_iff]

theorem initiators_iff (hdistinct : cfg.initiatorNodes.Nodup) :
    ¬(cfg.initiatorNodes ≠ [] ∧ (if l.count then (nodesInInst db initiator cfg.initiatorNodes).length else 0) ≠ cfg.initiatorNodes.length) ↔
      ∀ id ∈ cfg.initiatorNodes, l.count = true ∧ HasNode db (· = initiator) id := by
  cases hnodes : cfg.initiatorNodes with
  | nil => simp
  | cons id ids =>
    rw [← hnodes]
    have hne : cfg.initiatorNodes ≠ [] := by simp [hnodes]
    cases l.count with
    | false =>
      simp only [hne, ne_eq, not_false_eq_true, true_and, Bool.false_eq_true, if_false, false_and, imp_false]
      constructor
      · exact fun h => absurd (fun hlen => hne (List.length_eq_zero_iff.1 hlen.symm)) h
      · exact fun h => absurd (hnodes ▸ List.mem_cons_self) (h id)
    | true =>
      simp only [hne, ne_eq, not_false_eq_true, true_and, if_true, not_not]
      exact count_iff hdistinct

theorem invitees_iff :
    ¬(cfg.invitees ≠ [] ∧ ∃ id ∈ (if l.pluck then pluckInstIDs db cfg.invitees else []), id ∉ cfg.participants ∨ id = initiator) ↔
      (l.pluck = true → ∀ n ∈ db.nodes, n.isDeleted = false → n.nodeId ∈ cfg.invitees → Participates initiator cfg n.instId) := by
  constructor
  · intro h hpluck n hn hlive hid
    rw [if_pos hpluck] at h
    by_contra hno
    refine h ⟨List.ne_nil_of_mem hid, n.instId, mem_pluckInstIDs.2 ⟨n, hn, hlive, hid, rfl⟩, ?_⟩
    exact (not_and_or.1 hno).imp_right not_not.1
  · rintro h ⟨-, inst, hinst, hno⟩
    split_ifs at hinst with hpluck
    · obtain ⟨n, hn, hlive, hid, rfl⟩ := mem_pluckInstIDs.1 hinst
      obtain ⟨hmem, hne⟩ := h hpluck n hn hlive hid
      rcases hno with hno | hno
      · exact hno hmem
      · exact hne hno
    · cases hinst

theorem preCheck_ok_iff : preCheck db l initiator cfg = .ok () ↔ Passes db l initiator cfg := by
  unfold preCheck
  by_cases hproject : cfg.projectId = [] ∨ l.project = false ∨ cfg.projectId ∉ db.projects
  · rw [if_pos hproject]
    refine ⟨(fun h => by cases h), fun h => ?_⟩
    obtain ⟨h₁, h₂, h₃⟩ := h.project
    rcases hproject with h | h | h
    · exact absurd h h₁
    · exact absurd (h.symm.trans h₂) (by decide)
    · exact absurd h₃ h
  rw [if_neg hproject]
  by_cases hothers : without cfg.participants initiator = []
  · rw [if_pos hothers]
    exact ⟨(fun h => by cases h), fun h => absurd hothers (without_ne_nil.2 h.others)⟩
  rw [if_neg hothers]
  have hproject' : cfg.projectId ≠ [] ∧ l.project = true ∧ cfg.projectId ∈ db.projects := by
    simpa [not_or] using hproject
  cases hcollect : collect [] cfg.participantNodeInstVOS with
  | error e =>
    refine ⟨(fun h => by cases h), fun h => ?_⟩
    rw [collect_ok.2 ⟨⟨h.distinct, fun _ _ => List.not_mem_nil⟩, rfl⟩] at hcollect
    cases hcollect
  | ok r =>
    obtain ⟨⟨hdistinct, -⟩, hr⟩ := collect_ok.1 hcollect
    obtain rfl : r = (cfg.initiatorNodes, cfg.invitees) := hr
    constructor
    · intro h
      obtain ⟨hinitiators, h⟩ := Except.ok_of_check h
      obtain ⟨hinvitees, -⟩ := Except.ok_of_check h
      exact {
        project := hproject'
        others := without_ne_nil.1 hothers
        distinct := hdistinct
        initiators := (initiators_iff hdistinct).1 hinitiators
        found := invitees_iff.1 hinvitees }
    · intro h
      exact (if_neg ((initiators_iff h.distinct).2 h.initiators)).trans (if_neg (invitees_iff.2 h.found))

theorem HasNode.row {p : Bytes → Prop} {n : NodeDO} (h : HasNode db p n.nodeId) (hn : n ∈ db.nodes) : p n.instId := by
  obtain ⟨m, hm, -, hid, hp⟩ := h
  exact Table.eq_of_col_eq db.node_ids hm hn hid ▸ hp

theorem sound_iff (h : Passes db l initiator cfg) : Sound db initiator cfg ↔ Seen db l initiator cfg := by
  constructor
  · intro hs
    refine ⟨fun id hid => ?_, .inr fun n hn _ hid => (hs.invited n.nodeId hid).row hn⟩
    obtain ⟨n, hn, hlive, hnode, -⟩ := hs.invited id hid
    exact ⟨n, hn, hlive, hnode, trivial⟩
  · intro hs
    refine ⟨fun id hid => ?_, h.distinct, fun id hid => (h.initiators id hid).2⟩
    obtain ⟨n, hn, hlive, rfl, -⟩ := hs.rows id hid
    refine ⟨n, hn, hlive, rfl, ?_⟩
    rcases hs.insts with hpluck | hinsts
    · exact h.found hpluck n hn hlive hid
    · exact hinsts n hn hlive hid

/-- What is accepted is sound just if the other checks refuse the request or the invited nodes are seen. -/
theorem preCheck_sound_iff : (preCheck db l initiator cfg = .ok () → Sound db initiator cfg) ↔
    (Passes db l initiator cfg → Seen db l initiator cfg) := by
  rw [preCheck_ok_iff]
  exact forall_congr' sound_iff

def ghostRequest : VoteConfig := ⟨str "p", [str "inst-a", str "inst-b"], [⟨str "a1", [str "ghost"]⟩]⟩

def oneNode : Db := ⟨[str "p"], [⟨str "a1", str "inst-a", false⟩], List.nodup_singleton _⟩

theorem preCheck_ghost : preCheck oneNode ⟨true, true, true⟩ (str "inst-a") ghostRequest = .ok () ∧
    ¬Sound oneNode (str "inst-a") ghostRequest := by
  constructor
  · decide +kernel
  · intro h
    obtain ⟨n, hn, -, hid, -⟩ := h.invited (str "ghost") (List.mem_singleton_self _)
    obtain rfl := List.mem_singleton.1 hn
    exact absurd hid (by decide +kernel)

end Vote.PreCheck
