import Privahub.Lib.Bytes
import Privahub.Lib.Calls

/-!
# Archived projects

`ArchiveProject`, the callbacks of the votes on a project's creation and on its archiving, and the status that the last approving reply
writes. Each reads the status of the project before the transaction that writes it. `archived_for_good`: as long as no creation is
approved that finds the project archived by then, and a vote to archive that is executed leaves no member behind, an archived project
stays archived, and one that is reported as archived has no members.
-/

namespace Vote.Archive

inductive ProjectStatus
  | reviewing
  | approved
  | archived
  deriving DecidableEq

def ProjectStatusName : ProjectStatus → Bytes
  | .reviewing => str "REVIEWING"
  | .approved => str "APPROVED"
  | .archived => str "ARCHIVED"

structure ProjectDO where
  projectId : Bytes
  name : Bytes
  ownerId : Bytes
  status : ProjectStatus
  deriving DecidableEq

/-- A row of `project_inst` or of `project_node`. -/
structure Member where
  projectId : Bytes
  id : Bytes
  deriving DecidableEq

/-- `configs` are the votes and their projects. -/
structure Db where
  projects : List ProjectDO
  insts : List Member
  nodes : List Member
  configs : List (Bytes × Bytes)

structure CallbackProject where
  projectId : Bytes
  name : Bytes
  deriving DecidableEq

structure ProjectCallBackAction where
  projectDO : CallbackProject
  projectNodeDOS : List Member
  projectInstDOS : List Member
  deriving DecidableEq

def ProjectCallBackAction.hasInst (a : ProjectCallBackAction) (instId : Bytes) : Bool := a.projectInstDOS.any fun i => i.id == instId

namespace Db

variable (db : Db)

def openProject (projectId : Bytes) : Option ProjectDO :=
  if projectId = [] then none else db.projects.find? fun p => p.projectId == projectId

def setProjectStatus (projectId : Bytes) (status : ProjectStatus) : Db :=
  { db with projects := db.projects.map fun p => if p.projectId = projectId then { p with status } else p }

def deleteMembersOf (projectId : Bytes) : Db :=
  { db with
    insts := db.insts.filter fun m => !decide (m.projectId = projectId)
    nodes := db.nodes.filter fun m => !decide (m.projectId = projectId) }

def deleteProjectMembers (a : ProjectCallBackAction) : Db :=
  { db with
    insts := db.insts.filter fun m => !a.projectInstDOS.contains m
    nodes := db.nodes.filter fun m => !a.projectNodeDOS.contains m }

def upsertMembers (members rows : List Member) : List Member :=
  members.foldl (fun rows m => (rows.filter fun n => !decide (n = m)) ++ [m]) rows

def upsertProjectMembers (a : ProjectCallBackAction) : Db :=
  { db with
    insts := upsertMembers a.projectInstDOS db.insts
    nodes := upsertMembers a.projectNodeDOS db.nodes }

end Db

/-- A vote that calls back. `action` is the approved or the rejected action, if it can be read. -/
structure VoteRequestDO where
  initiator : Bytes
  action : Option ProjectCallBackAction

/-- `flush` is what the last approving reply calls. -/
inductive Call
  | archiveProject (projectId : Bytes) (owner : Option Bytes)
  | archiveCommit (p : ProjectDO)
  | createApproved (vr : VoteRequestDO)
  | createApprovedCommit (p : ProjectDO) (a : ProjectCallBackAction)
  | createRejected (vr : VoteRequestDO)
  | archiveApproved (vr : VoteRequestDO)
  | archiveApprovedCommit (p : ProjectDO) (a : ProjectCallBackAction)
  | flush (voteId : Bytes)
  | flushWrite (projectId : Bytes)

/-- `archived`: the operation, or the execution of the vote, has archived the project and reports success. -/
inductive Event
  | archived (projectId : Bytes)
  | success
  | failed (msg : Bytes)
  deriving DecidableEq

/-- Whether the query finds its row, and whether the transaction commits. -/
structure Ending where
  reads : Bool
  commits : Bool

abbrev World := Calls.World Db Call Event
abbrev Action := Calls.Action Call Ending
abbrev Effect := Calls.Effect Db Call Event

def fail (db : Db) (msg : Bytes) : Effect := ⟨db, none, [.failed msg]⟩

def find (db : Db) (x : Ending) (projectId : Bytes) : Option ProjectDO := if x.reads then db.openProject projectId else none

def commit (db : Db) (x : Ending) (db' : Db) (e : Event) : Effect := if x.commits then ⟨db', none, [e]⟩ else fail db (str "database error")

def executed (inst : Bytes) (db : Db) (vr : VoteRequestDO) (act : ProjectCallBackAction → Effect) : Effect :=
  if vr.initiator = [] ∨ vr.initiator ≠ inst then ⟨db, none, []⟩
  else match vr.action with
    | none => fail db (str "invalid callback action")
    | some a => act a

def noParty (inst callback : Bytes) : Bytes := callback ++ str " error,voters does not has party : " ++ inst

/-- One step of a call at the institution `inst`. -/
def exec (inst : Bytes) (db : Db) (c : Call) (x : Ending) : Effect :=
  match c with
  | .archiveProject projectId owner => match find db x projectId, owner with
    | none, _ => fail db (str "project.PROJECT_NOT_EXISTS")
    | some _, none => fail db (str "no login user")
    | some p, some owner =>
      if p.ownerId ≠ owner then fail db (str "project.PROJECT_ARCHIVE_FAIL")
      else if p.status ≠ .reviewing then fail db (str "project.PROJECT_CAN_NOT_ARCHIVE")
      else ⟨db, some (.archiveCommit p), []⟩
  | .archiveCommit p => commit db x ((db.deleteMembersOf p.projectId).setProjectStatus p.projectId .archived) (.archived p.projectId)
  | .createApproved vr => executed inst db vr fun a =>
    if a.hasInst inst = false then fail db (noParty inst (str "doCallBackApproved"))
    else match find db x a.projectDO.projectId with
      | none => fail db (str "doCallBack create project Approved error,project [" ++ a.projectDO.name ++ str "] does not exist ")
      | some p =>
        if p.status ≠ .reviewing then
          fail db (str "project [" ++ p.name ++ str "] status Is not reviewing,status Is [" ++ ProjectStatusName p.status ++ str "]")
        else ⟨db, some (.createApprovedCommit p a), []⟩
  | .createApprovedCommit p a => commit db x ((db.upsertProjectMembers a).setProjectStatus p.projectId .approved) .success
  | .createRejected vr => executed inst db vr fun a =>
    if a.hasInst inst = false then fail db (noParty inst (str "doCallBackRejected"))
    else commit db x ((db.setProjectStatus a.projectDO.projectId .archived).deleteProjectMembers a) .success
  | .archiveApproved vr => executed inst db vr fun a => match find db x a.projectDO.projectId with
    | none => fail db (str "doCallBack archive project Approved error,project [" ++ a.projectDO.name ++ str "] does not exist ")
    | some p =>
      if a.hasInst inst = false then fail db (noParty inst (str "doCallBackApproved")) else ⟨db, some (.archiveApprovedCommit p a), []⟩
  | .archiveApprovedCommit p a =>
    commit db x ((if p.status = .approved then db.deleteProjectMembers a else db).setProjectStatus p.projectId .archived) (.archived p.projectId)
  | .flush voteId => match if x.reads then db.configs.find? fun c => c.1 == voteId else none with
    | none => fail db (str "vote.VOTE_NOT_EXISTS")
    | some c => ⟨db, some (.flushWrite c.2), []⟩
  | .flushWrite projectId => commit db x (db.setProjectStatus projectId .archived) .success

def first : Call → Bool
  | .archiveProject .. | .createApproved _ | .createRejected _ | .archiveApproved _ | .flush _ => true
  | _ => false

def step (inst : Bytes) : World → Action → Option World := Calls.step first (exec inst)

def callbackAction (p : ProjectDO) (participants : List Bytes) (pairs : List (Bytes × List Bytes)) : ProjectCallBackAction where
  projectDO := ⟨p.projectId, p.name⟩
  projectInstDOS := participants.map fun inst => ⟨p.projectId, inst⟩
  projectNodeDOS := pairs.flatMap fun pn => ⟨p.projectId, pn.1⟩ :: pn.2.map fun invitee => ⟨p.projectId, invitee⟩

def archiveAction (db : Db) (p : ProjectDO) : ProjectCallBackAction where
  projectDO := ⟨p.projectId, p.name⟩
  projectInstDOS := db.insts.filter fun m => decide (m.projectId = p.projectId)
  projectNodeDOS := db.nodes.filter fun m => decide (m.projectId = p.projectId)

def ProjectCallBackAction.OfProject (a : ProjectCallBackAction) (projectId : Bytes) : Prop :=
  (∀ m ∈ a.projectInstDOS, m.projectId = projectId) ∧ ∀ m ∈ a.projectNodeDOS, m.projectId = projectId

def Db.statusOf (db : Db) (projectId : Bytes) : Option ProjectStatus :=
  (db.projects.find? fun p => p.projectId == projectId).map ProjectDO.status

def Db.NoMembers (db : Db) (projectId : Bytes) : Prop :=
  (∀ m ∈ db.insts, m.projectId ≠ projectId) ∧ ∀ m ∈ db.nodes, m.projectId ≠ projectId

/-- The step leaves an archived project archived, and a project that is reported as archived has no members after it. -/
def Kept (inst : Bytes) (w : World) (a : Action) : Prop :=
  ∀ w', step inst w a = some w' →
    (∀ projectId, w.db.statusOf projectId = some .archived → w'.db.statusOf projectId = some .archived) ∧
      ∀ projectId, Event.archived projectId ∈ w'.log → w'.db.NoMembers projectId

/-- What is asked of a transaction: it approves a project that is not archived, with its members; where it executes a vote to archive and the
project has members, it has read APPROVED and its action lists them all. -/
def Call.Settled (db : Db) : Call → Prop
  | .createApprovedCommit p a => db.statusOf p.projectId ≠ some .archived ∧ a.OfProject p.projectId
  | .archiveApprovedCommit p a => (∀ m ∈ db.insts, m.projectId = p.projectId → p.status = .approved ∧ m ∈ a.projectInstDOS) ∧
      ∀ m ∈ db.nodes, m.projectId = p.projectId → p.status = .approved ∧ m ∈ a.projectNodeDOS
  | _ => True

def Settled (w : World) (a : Action) : Prop := ∀ i x c, a = .exec i x → w.calls i = some c → x.commits = true → c.Settled w.db

variable {inst : Bytes} {db : Db} {c d : Call} {x : Ending} {w w' : World} {a : Action} {projectId q : Bytes} {p : ProjectDO}
  {act : ProjectCallBackAction} {status : ProjectStatus} {ms rows : List Member} {m : Member}

theorem statusOf_setProjectStatus : (db.setProjectStatus q status).statusOf projectId =
    if projectId = q then (db.statusOf projectId).map fun _ => status else db.statusOf projectId := by
  have hid : (fun r : ProjectDO => r.projectId == projectId) ∘ (fun r => if r.projectId = q then { r with status } else r) =
      fun r => r.projectId == projectId := by
    funext r
    simp only [Function.comp_apply]
    split_ifs <;> rfl
  show ((db.projects.map _).find? _).map ProjectDO.status = _
  rw [List.find?_map, hid]
  unfold Db.statusOf
  cases hf : db.projects.find? fun r => r.projectId == projectId with
  | none => split_ifs <;> rfl
  | some r =>
    have hr : r.projectId = projectId := by
      have := List.find?_some hf
      exact eq_of_beq this
    simp only [Option.map_some, hr]
    split_ifs <;> rfl

theorem isSome_setProjectStatus : ((db.setProjectStatus q status).statusOf projectId).isSome = (db.statusOf projectId).isSome := by
  rw [statusOf_setProjectStatus]
  split_ifs
  · exact Option.isSome_map ..
  · rfl

theorem archived_setProjectStatus (h : db.statusOf projectId = some .archived) :
    (db.setProjectStatus q .archived).statusOf projectId = some .archived := by
  rw [statusOf_setProjectStatus, h]
  split_ifs <;> rfl

theorem setProjectStatus_self (h : (db.statusOf q).isSome) : (db.setProjectStatus q status).statusOf q = some status := by
  obtain ⟨_, hs⟩ := Option.isSome_iff_exists.1 h
  rw [statusOf_setProjectStatus, if_pos rfl, hs]
  rfl

theorem mem_upsertMembers (h : m ∈ Db.upsertMembers ms rows) : m ∈ ms ∨ m ∈ rows := by
  induction ms generalizing rows with
  | nil => exact .inr h
  | cons n ms ih =>
    rcases ih h with h | h
    · exact .inl (.tail _ h)
    · rcases List.mem_append.1 h with h | h
      · exact .inr (List.mem_filter.1 h).1
      · exact .inl (List.mem_singleton.1 h ▸ List.mem_cons_self ..)

theorem noMembers_deleteMembersOf : (db.deleteMembersOf projectId).NoMembers projectId := by
  constructor <;>
  · intro m hm
    have hp := (List.mem_filter.1 hm).2
    simpa using hp

theorem Db.NoMembers.of_subset {db' : Db} (h : db.NoMembers projectId) (hi : ∀ m ∈ db'.insts, m ∈ db.insts) (hn : ∀ m ∈ db'.nodes, m ∈ db.nodes) :
    db'.NoMembers projectId := ⟨fun m hm => h.1 m (hi m hm), fun m hm => h.2 m (hn m hm)⟩

theorem Db.NoMembers.delete (h : db.NoMembers projectId) : (db.deleteProjectMembers act).NoMembers projectId :=
  h.of_subset (fun _ hm => (List.mem_filter.1 hm).1) fun _ hm => (List.mem_filter.1 hm).1

theorem Db.NoMembers.deleteMembersOf (h : db.NoMembers projectId) : (db.deleteMembersOf q).NoMembers projectId :=
  h.of_subset (fun _ hm => (List.mem_filter.1 hm).1) fun _ hm => (List.mem_filter.1 hm).1

theorem Db.NoMembers.upsert (h : db.NoMembers projectId) (ha : act.OfProject q) (hne : projectId ≠ q) :
    (db.upsertProjectMembers act).NoMembers projectId := by
  constructor
  · intro m hm he
    rcases mem_upsertMembers hm with hm | hm
    · exact hne (he.symm.trans (ha.1 m hm))
    · exact h.1 m hm he
  · intro m hm he
    rcases mem_upsertMembers hm with hm | hm
    · exact hne (he.symm.trans (ha.2 m hm))
    · exact h.2 m hm he

def Call.archives : Call → Option Bytes
  | .archiveCommit p | .archiveApprovedCommit p _ => some p.projectId
  | _ => none

def Call.Known (db : Db) (c : Call) : Prop := ∀ projectId, c.archives = some projectId → (db.statusOf projectId).isSome

inductive Does (db : Db) : Call → Ending → Effect → Prop
  | nothing {c : Call} {x : Ending} {next : Option Call} {events : List Event} (hnext : ∀ d, next = some d → d.Known db)
      (hev : ∀ projectId, Event.archived projectId ∉ events) : Does db c x ⟨db, next, events⟩
  | archive {x : Ending} (p : ProjectDO) : Does db (.archiveCommit p) x
      ⟨(db.deleteMembersOf p.projectId).setProjectStatus p.projectId .archived, none, [.archived p.projectId]⟩
  | approve {x : Ending} (p : ProjectDO) (act : ProjectCallBackAction) (hx : x.commits = true) : Does db (.createApprovedCommit p act) x
      ⟨(db.upsertProjectMembers act).setProjectStatus p.projectId .approved, none, [.success]⟩
  | reject {x : Ending} (vr : VoteRequestDO) (act : ProjectCallBackAction) : Does db (.createRejected vr) x
      ⟨(db.setProjectStatus act.projectDO.projectId .archived).deleteProjectMembers act, none, [.success]⟩
  | execute {x : Ending} (p : ProjectDO) (act : ProjectCallBackAction) (hx : x.commits = true) : Does db (.archiveApprovedCommit p act) x
      ⟨(if p.status = .approved then db.deleteProjectMembers act else db).setProjectStatus p.projectId .archived, none, [.archived p.projectId]⟩
  | flush {x : Ending} (projectId : Bytes) : Does db (.flushWrite projectId) x ⟨db.setProjectStatus projectId .archived, none, [.success]⟩

theorem Does.fail {msg : Bytes} : Does db c x (Archive.fail db msg) := .nothing nofun (by simp)

theorem statusOf_find {p : ProjectDO} (h : find db x projectId = some p) : (db.statusOf p.projectId).isSome := by
  unfold find Db.openProject at h
  split_ifs at h
  have hp : p.projectId = projectId := by
    have := List.find?_some h
    exact eq_of_beq this
  rw [hp, Db.statusOf, h]
  rfl

theorem does : Does db c x (exec inst db c x) := by
  cases c with
  | archiveProject projectId owner =>
    simp only [exec]
    split
    · exact .fail
    · exact .fail
    · rename_i p owner hp
      split_ifs
      · exact .fail
      · exact .fail
      · refine .nothing (fun d hd q hq => ?_) (by simp)
        obtain rfl := Option.some.inj hd
        obtain rfl := Option.some.inj hq
        exact statusOf_find hp
  | archiveCommit p =>
    simp only [exec, commit]
    split_ifs
    · exact .archive p
    · exact .fail
  | createApproved vr =>
    simp only [exec, executed]
    split_ifs
    · exact .nothing nofun (by simp)
    · split
      · exact .fail
      · split_ifs
        · exact .fail
        · split
          · exact .fail
          · split_ifs
            · exact .fail
            · refine .nothing (fun d hd q hq => ?_) (by simp)
              obtain rfl := Option.some.inj hd
              cases hq
  | createApprovedCommit p act =>
    simp only [exec, commit]
    split_ifs with hx
    · exact .approve p act hx
    · exact .fail
  | createRejected vr =>
    simp only [exec, executed]
    split_ifs
    · exact .nothing nofun (by simp)
    · split
      · exact .fail
      · split_ifs
        · exact .fail
        · unfold commit
          split_ifs
          · exact .reject vr _
          · exact .fail
  | archiveApproved vr =>
    simp only [exec, executed]
    split_ifs
    · exact .nothing nofun (by simp)
    · split
      · exact .fail
      · split
        · exact .fail
        · rename_i p hp
          split_ifs
          · exact .fail
          · refine .nothing (fun d hd q hq => ?_) (by simp)
            obtain rfl := Option.some.inj hd
            obtain rfl := Option.some.inj hq
            exact statusOf_find hp
  | archiveApprovedCommit p act =>
    simp only [exec, commit]
    by_cases hx : x.commits = true
    · rw [if_pos hx]
      exact .execute p act hx
    · rw [if_neg hx]
      exact .fail
  | flush voteId =>
    simp only [exec]
    split
    · exact .fail
    · refine .nothing (fun d hd q hq => ?_) (by simp)
      obtain rfl := Option.some.inj hd
      cases hq
  | flushWrite projectId =>
    simp only [exec, commit]
    split_ifs
    · exact .flush projectId
    · exact .fail

variable {eff : Effect}

theorem Does.isSome (h : Does db c x eff) (hp : (db.statusOf projectId).isSome) : (eff.db.statusOf projectId).isSome := by
  cases h with
  | nothing => exact hp
  | archive | approve | execute | flush =>
    rw [isSome_setProjectStatus]
    first | exact hp | (split_ifs <;> exact hp)
  | reject =>
    show ((db.setProjectStatus _ _).statusOf projectId).isSome
    rw [isSome_setProjectStatus]
    exact hp

theorem Does.known (h : Does db c x eff) (hd : eff.next = some d) : d.Known eff.db := by
  cases h with
  | nothing hnext => exact hnext d hd
  | archive | approve | reject | execute | flush => cases hd

theorem Does.archived (h : Does db c x eff) (hc : x.commits = true → c.Settled db) (hp : db.statusOf projectId = some .archived) :
    eff.db.statusOf projectId = some .archived := by
  cases h with
  | nothing => exact hp
  | archive p =>
    have hp' : (db.deleteMembersOf p.projectId).statusOf projectId = some .archived := hp
    exact archived_setProjectStatus hp'
  | approve p act hx =>
    have hne : projectId ≠ p.projectId := fun he => (hc hx).1 (he ▸ hp)
    show ((db.upsertProjectMembers act).setProjectStatus _ _).statusOf projectId = _
    rw [statusOf_setProjectStatus, if_neg hne]
    exact hp
  | reject vr act => exact archived_setProjectStatus hp
  | execute p act hx =>
    refine archived_setProjectStatus ?_
    split_ifs <;> exact hp
  | flush => exact archived_setProjectStatus hp

theorem Does.noMembers (h : Does db c x eff) (hc : x.commits = true → c.Settled db) (hp : db.statusOf projectId = some .archived)
    (hm : db.NoMembers projectId) : eff.db.NoMembers projectId := by
  cases h with
  | nothing => exact hm
  | archive p => exact hm.deleteMembersOf
  | approve p act hx =>
    have hne : projectId ≠ p.projectId := fun he => (hc hx).1 (he ▸ hp)
    exact hm.upsert (hc hx).2 hne
  | reject vr act => exact hm.delete
  | execute p act hx =>
    show (if _ then _ else _ : Db).NoMembers projectId
    split_ifs
    · exact hm.delete
    · exact hm
  | flush => exact hm

theorem Does.reported (h : Does db c x eff) (hk : c.Known db) (hc : x.commits = true → c.Settled db)
    (he : Event.archived projectId ∈ eff.events) : eff.db.statusOf projectId = some .archived ∧ eff.db.NoMembers projectId := by
  cases h with
  | nothing _ hev => exact absurd he (hev projectId)
  | archive p =>
    obtain rfl := Event.archived.inj (List.mem_singleton.1 he)
    have hp : ((db.deleteMembersOf p.projectId).statusOf p.projectId).isSome := hk _ rfl
    have hm : (db.deleteMembersOf p.projectId).NoMembers p.projectId := noMembers_deleteMembersOf
    exact ⟨setProjectStatus_self hp, hm⟩
  | approve | reject | flush => cases List.mem_singleton.1 he
  | execute p act hx =>
    obtain rfl := Event.archived.inj (List.mem_singleton.1 he)
    constructor
    · refine setProjectStatus_self ?_
      split_ifs <;> exact hk _ rfl
    · show (if _ then _ else _ : Db).NoMembers p.projectId
      obtain ⟨hi, hn⟩ := hc hx
      split_ifs with ha
      · constructor
        · intro m hm hmp
          obtain ⟨hm, hnot⟩ := List.mem_filter.1 hm
          rw [List.contains_iff_mem.2 (hi m hm hmp).2] at hnot
          cases hnot
        · intro m hm hmp
          obtain ⟨hm, hnot⟩ := List.mem_filter.1 hm
          rw [List.contains_iff_mem.2 (hn m hm hmp).2] at hnot
          cases hnot
      · exact ⟨fun m hm hmp => ha (hi m hm hmp).1, fun m hm hmp => ha (hn m hm hmp).1⟩

structure Inv (w : World) : Prop where
  known : w.All fun c => c.Known w.db
  reported : ∀ projectId, Event.archived projectId ∈ w.log → w.db.statusOf projectId = some .archived ∧ w.db.NoMembers projectId

theorem Inv.step (hi : Inv w) (hc : Settled w a) (h : step inst w a = some w') : Inv w' := by
  obtain ⟨i, c, rfl, hf, _, rfl⟩ | ⟨i, c, x, rfl, hcall, rfl⟩ | ⟨i, c, rfl, _, rfl⟩ := Calls.step_cases h
  · refine ⟨hi.known.begin ?_, hi.reported⟩
    intro q hq
    cases c with
    | archiveProject | createApproved | createRejected | archiveApproved | flush => cases hq
    | archiveCommit | createApprovedCommit | archiveApprovedCommit | flushWrite => cases hf
  · have hdoes : Does w.db c x (exec inst w.db c x) := does
    have hset := hc i x c rfl hcall
    refine ⟨fun j d hd => ?_, fun q hq => ?_⟩
    · by_cases hj : j = i
      · subst hj
        refine hdoes.known ?_
        simpa [Calls.World.after] using hd
      · have hd' : w.calls j = some d := by simpa [Calls.World.after, hj] using hd
        exact fun q hq => hdoes.isSome (hi.known j d hd' q hq)
    · rcases List.mem_append.1 hq with hq | hq
      · obtain ⟨hp, hm⟩ := hi.reported q hq
        exact ⟨hdoes.archived hset hp, hdoes.noMembers hset hp hm⟩
      · exact hdoes.reported (hi.known i c hcall) hset hq
  · exact ⟨hi.known.drop, hi.reported⟩

theorem kept_of_settled (hi : Inv w) (hc : Settled w a) : Kept inst w a := by
  intro w' h
  refine ⟨fun q hq => ?_, fun q hq => ((hi.step hc h).reported q hq).2⟩
  obtain ⟨i, c, rfl, _, _, rfl⟩ | ⟨i, c, x, rfl, hcall, rfl⟩ | ⟨i, c, rfl, _, rfl⟩ := Calls.step_cases h
  · exact hq
  · have hdoes : Does w.db c x (exec inst w.db c x) := does
    exact hdoes.archived (hc i x c rfl hcall) hq
  · exact hq

/-- In every run whose transactions are as asked, an archived project stays archived, and one that is reported as archived has no members
from then on. -/
theorem archived_for_good {as : List Action} (h : Lts.RunAll (step inst) Settled (.idle db) as) :
    Lts.RunAll (step inst) (Kept inst) (.idle db) as := by
  have hinit : Inv (.idle db) := ⟨Calls.World.idle_all _ _, fun _ hq => absurd hq List.not_mem_nil⟩
  exact Lts.RunAll.of_invariant (I := Inv) (fun _ _ _ hi hc hs => hi.step hc hs) (fun _ _ hi hc => kept_of_settled hi hc) hinit h

theorem statusOf_mem (h : db.statusOf projectId = some status) : ∃ p ∈ db.projects, p.projectId = projectId := by
  obtain ⟨p, hp, -⟩ := Option.map_eq_some_iff.1 h
  have hid := List.find?_some hp
  exact ⟨p, List.mem_of_find?_eq_some hp, eq_of_beq hid⟩

instance (inst : Bytes) (w : World) (a : Action) : Decidable (Kept inst w a) :=
  match h : step inst w a with
  | none => .isTrue fun w' hs => nomatch h.symm.trans hs
  | some v =>
    decidable_of_iff ((∀ p ∈ w.db.projects, w.db.statusOf p.projectId = some .archived → v.db.statusOf p.projectId = some .archived) ∧
      ∀ m ∈ v.db.insts ++ v.db.nodes, Event.archived m.projectId ∉ v.log) <| by
    constructor
    · rintro ⟨hkeep, hnone⟩ w' hs
      obtain rfl := Option.some.inj (h.symm.trans hs)
      refine ⟨fun q hq => ?_, fun q hq => ⟨fun m hm he => ?_, fun m hm he => ?_⟩⟩
      · obtain ⟨p, hp, rfl⟩ := statusOf_mem hq
        exact hkeep p hp hq
      · exact hnone m (List.mem_append_left _ hm) (he ▸ hq)
      · exact hnone m (List.mem_append_right _ hm) (he ▸ hq)
    · intro hk
      obtain ⟨hkeep, hnone⟩ := hk v h
      refine ⟨fun p _ hp => hkeep _ hp, fun m hm hq => ?_⟩
      rcases List.mem_append.1 hm with hm | hm
      · exact (hnone _ hq).1 m hm rfl
      · exact (hnone _ hq).2 m hm rfl

def project : ProjectDO := ⟨str "p1", str "demo", str "instA", .reviewing⟩

def created : VoteRequestDO := ⟨str "instA", some (callbackAction project [str "instA", str "instB"] [(str "a1", [str "b1"])])⟩

def reviewing : Db := ⟨[project], [], [], [(str "v2", str "p1")]⟩

def approved : Db :=
  ⟨[{ project with status := .approved }], [⟨str "p1", str "instA"⟩, ⟨str "p1", str "instB"⟩], [⟨str "p1", str "a1"⟩, ⟨str "p1", str "b1"⟩],
    [(str "v2", str "p1")]⟩

def archiving : VoteRequestDO := ⟨str "instA", some (archiveAction approved project)⟩

def ok (i : Nat) : Action := .exec i ⟨true, true⟩

def raced : List Action :=
  [.start 0 (.createApproved created), ok 0, .start 1 (.archiveProject (str "p1") (some (str "instA"))), ok 1, ok 1, ok 0]

def flushed : List Action := [.start 0 (.flush (str "v2")), ok 0, ok 0, .start 0 (.archiveApproved archiving), ok 0, ok 0]

theorem approved_again : ¬Lts.RunAll (step (str "instA")) (Kept (str "instA")) (.idle reviewing) raced ∧
    ¬Lts.RunAll (step (str "instA")) (Kept (str "instA")) (.idle approved) flushed := by decide +kernel

def settled (w : World) : Action → Bool
  | .exec i _ => match w.calls i with
    | some (.createApprovedCommit p a) => decide (w.db.statusOf p.projectId ≠ some .archived) &&
        (a.projectInstDOS ++ a.projectNodeDOS).all fun m => decide (m.projectId = p.projectId)
    | some (.archiveApprovedCommit p a) => decide (p.status = .approved) && w.db.insts.all (fun m => a.projectInstDOS.contains m) &&
        w.db.nodes.all fun m => a.projectNodeDOS.contains m
    | _ => true
  | _ => true

theorem settled_of (h : settled w a = true) : Settled w a := by
  rintro i x c rfl hc -
  simp only [settled, hc] at h
  cases c with
  | createApprovedCommit p act =>
    rw [Bool.and_eq_true, List.all_append, Bool.and_eq_true] at h
    obtain ⟨hne, hi, hn⟩ := h
    exact ⟨of_decide_eq_true hne, fun m hm => of_decide_eq_true (List.all_eq_true.1 hi m hm),
      fun m hm => of_decide_eq_true (List.all_eq_true.1 hn m hm)⟩
  | archiveApprovedCommit p act =>
    rw [Bool.and_eq_true, Bool.and_eq_true] at h
    obtain ⟨⟨hp, hi⟩, hn⟩ := h
    exact ⟨fun m hm _ => ⟨of_decide_eq_true hp, List.contains_iff_mem.1 (List.all_eq_true.1 hi m hm)⟩,
      fun m hm _ => ⟨of_decide_eq_true hp, List.contains_iff_mem.1 (List.all_eq_true.1 hn m hm)⟩⟩
  | archiveProject | archiveCommit | createApproved | createRejected | archiveApproved | flush | flushWrite => trivial

def inOrder : List Action :=
  [.start 0 (.createApproved created), ok 0, ok 0, .start 0 (.archiveApproved archiving), ok 0, ok 0, .start 1 (.flush (str "v2")), ok 1, ok 1]

theorem archived_for_good_inOrder : (Lts.run (step (str "instA")) (.idle reviewing) inOrder).isSome = true ∧
    Lts.RunAll (step (str "instA")) (Kept (str "instA")) (.idle reviewing) inOrder := by
  have hset : Lts.RunAll (step (str "instA")) (fun w a => settled w a = true) (.idle reviewing) inOrder := by decide +kernel
  exact ⟨by decide +kernel, archived_for_good (hset.imp fun _ _ => settled_of)⟩

end Vote.Archive
