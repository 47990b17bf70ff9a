import Privahub.Lib.Calls
import Privahub.Serving.Service

/-!
# The status of a model pack

The operations on packs and servings with the background refresh, one statement or call to Kuscia at a time and interleaved. Every write
of `model_stats` is by model id alone, after a read that may be old. `moves_only`: as long as each write finds the status that its call
has read, a pack is published from INIT or OFFLINE only and its serving deleted from PUBLISHED or PUBLISH_FAIL only, the status moves
along the intended edges.
-/

namespace Serving.Status

structure ServingStatus where
  state : Bytes
  message : Bytes
  reason : Bytes
  partyStatuses : List (Bytes × List (Bytes × Bytes))

structure Ending where
  prepared : Except Err Bytes
  random : RandomLetters
  answer : Answer
  query : Option ServingStatus
  commits : Bool

/-- `refresh` is one turn of the status sync, or the conversion of a row of the model page, on one pack. -/
inductive Call
  | createServing (req : CreateModelServingRequest)
  | createKuscia (req : CreateModelServingRequest) (pack : ProjectModelPackDO)
  | createCommit (pack : ProjectModelPackDO) (row : ProjectModelServingDO)
  | deleteServing (servingId : Bytes)
  | deletePack (sv : ProjectModelServingDO)
  | deleteKuscia (sv : ProjectModelServingDO) (pack : ProjectModelPackDO)
  | deleteWrite (pack : ProjectModelPackDO)
  | discard (modelId : Bytes)
  | discardWrite (pack : ProjectModelPackDO)
  | delete (modelId : Bytes)
  | deleteCommit (pack : ProjectModelPackDO)
  | refresh (modelId : Bytes)
  | refreshQuery (pack : ProjectModelPackDO)
  | refreshServing (pack : ProjectModelPackDO) (st : ServingStatus) (stats : ModelStats)
  | refreshSave (pack : ProjectModelPackDO) (st : ServingStatus) (stats : ModelStats) (sv : ProjectModelServingDO)
  | refreshWrite (pack : ProjectModelPackDO) (stats : ModelStats)

inductive Event
  | failed (e : Err)

abbrev World := Calls.World State Call Event
abbrev Action := Calls.Action Call Ending
abbrev Effect := Calls.Effect State Call Event

def newStats (st : ServingStatus) : Option ModelStats :=
  if st.state = str "Available" then some .Published
  else if st.state = str "Failed" then some .PublishFail
  else none

def endpointOf (endpoints : List (Bytes × Bytes)) : Bytes :=
  ((endpoints.find? fun e => decide (e.1 = str "service")).map (·.2)).getD []

def fail (st : State) (e : Err) : Effect := ⟨st, none, [.failed e]⟩

def go (st : State) (c : Call) : Effect := ⟨st, some c, []⟩

def save (st : State) (x : Ending) (db : Db) : State := if x.commits then { st with db := db } else st

def write (st : State) (x : Ending) (db : Db) : Effect := if x.commits then ⟨{ st with db := db }, none, []⟩ else fail st .database

end Serving.Status

namespace Serving.ModelService

open Status

variable (s : ModelService)

def refreshedServing (st : ServingStatus) (stats : ModelStats) (sv r : ProjectModelServingDO) : ProjectModelServingDO :=
  if stats = .Published then
    { r with
      partyEndpoints := (st.partyStatuses.filter fun ps => !(s.autonomy && decide (ps.1 ≠ sv.initiator))).map fun ps => ⟨ps.1, endpointOf ps.2⟩
      servingStats := str "success"
      errorMsg := [] }
  else { r with servingStats := str "failed", errorMsg := if st.message = [] then st.reason else st.message }

theorem refreshedServing_servingId (st : ServingStatus) (stats : ModelStats) (sv r : ProjectModelServingDO) :
    (s.refreshedServing st stats sv r).servingId = r.servingId := by
  unfold refreshedServing
  split_ifs <;> rfl

def exec (st : State) (c : Call) (x : Ending) : Effect :=
  match c with
  | .createServing req =>
    match st.db.findProjectPack req.modelId req.projectId with
    | .error e => fail st e
    | .ok pack => match ValidateServingPartyConfigs req.partyConfigs with
      | some msg => fail st (.SystemValidationError msg)
      | none => go st (.createKuscia req pack)
  | .createKuscia req pack =>
    match x.prepared.bind fun config => s.requested req pack config x.random with
    | .error e => fail st e
    | .ok (new, row) =>
      let r := Kuscia.CreateServing st.kuscia new x.answer
      if r.1 then go { st with kuscia := r.2 } (.createCommit pack row)
      else fail { st with kuscia := r.2 } (.SystemError (str "create serving failed: "))
  | .createCommit pack row => write st x (commitServing st.db pack.modelId row)
  | .deleteServing servingId =>
    match st.db.findServing servingId with
    | .error e => fail st e
    | .ok sv => go st (.deletePack sv)
  | .deletePack sv =>
    match st.db.packOfServing sv.servingId with
    | .error e => fail st e
    | .ok pack => go st (.deleteKuscia sv pack)
  | .deleteKuscia sv pack =>
    match s.kc sv.initiator with
    | none => fail st (.SystemError (str "kuscia client not configured"))
    | some k =>
      let r := Kuscia.DeleteServing st.kuscia k sv.servingId x.answer
      if r.1 then go { st with kuscia := r.2 } (.deleteWrite pack)
      else fail { st with kuscia := r.2 } (.SystemError (str "delete serving failed: "))
  | .deleteWrite pack => write st x (st.db.setStats pack.modelId .Offline)
  | .discard modelId =>
    match discardable st.db modelId with
    | .error e => fail st e
    | .ok pack => go st (.discardWrite pack)
  | .discardWrite pack => write st x (st.db.setStats pack.modelId .Discarded)
  | .delete modelId =>
    match removable st.db modelId with
    | .error e => fail st e
    | .ok pack => go st (.deleteCommit pack)
  | .deleteCommit pack => write st x (remove st.db pack)
  | .refresh modelId =>
    match st.db.findPack modelId with
    | .error _ => ⟨st, none, []⟩
    | .ok pack =>
      if pack.servingId = [] ∨ pack.modelStats ≠ .Publishing then ⟨st, none, []⟩ else go st (.refreshQuery pack)
  | .refreshQuery pack =>
    match s.kc (s.packExecNode pack), x.query with
    | some _, some a => match newStats a with
      | some stats => go st (.refreshServing pack a stats)
      | none => ⟨st, none, []⟩
    | _, _ => ⟨st, none, []⟩
  | .refreshServing pack a stats =>
    match st.db.findServing pack.servingId with
    | .error _ => go st (.refreshWrite pack stats)
    | .ok sv => go st (.refreshSave pack a stats sv)
  | .refreshSave pack a stats sv =>
    -- whether the row was saved is not looked at
    go (save st x (st.db.updateServing sv.servingId (s.refreshedServing a stats sv) (s.refreshedServing_servingId a stats sv)))
      (.refreshWrite pack stats)
  | .refreshWrite pack stats => ⟨save st x (st.db.setStats pack.modelId stats), none, []⟩

end Serving.ModelService

namespace Serving.Status

def first : Call → Bool
  | .createServing _ | .deleteServing _ | .discard _ | .delete _ | .refresh _ => true
  | _ => false

def step (s : ModelService) : World → Action → Option World := Calls.step first s.exec

/-- The status that the call is about to write, with the pack as it has read it. -/
def Call.writes : Call → Option (ProjectModelPackDO × ModelStats)
  | .createCommit pack _ => some (pack, .Publishing)
  | .deleteWrite pack => some (pack, .Offline)
  | .discardWrite pack => some (pack, .Discarded)
  | .refreshWrite pack stats => some (pack, stats)
  | _ => none

/-- The statuses from which the operations that look at none are meant. -/
def Call.admits (st : ModelStats) : Call → Prop
  | .createCommit .. => st = .Init ∨ st = .Offline
  | .deleteWrite _ => st = .Published ∨ st = .PublishFail
  | _ => True

inductive Moves : ModelStats → ModelStats → Prop
  | publish : Moves .Init .Publishing
  | republish : Moves .Offline .Publishing
  | published : Moves .Publishing .Published
  | publishFail : Moves .Publishing .PublishFail
  | offline : Moves .Published .Offline
  | failOffline : Moves .PublishFail .Offline
  | discardInit : Moves .Init .Discarded
  | discard : Moves .Offline .Discarded

/-- The condition: a write finds the status that its call has read, one from which the operation is meant (or the status it writes). -/
def Fresh (w : World) (a : Action) : Prop :=
  ∀ i x c, a = .exec i x → w.calls i = some c → ∀ pack stats, c.writes = some (pack, stats) →
    ∀ p ∈ w.db.db.packs, p.modelId = pack.modelId → p.deleted = false →
      p.modelStats = stats ∨ p.modelStats = pack.modelStats ∧ c.admits pack.modelStats

/-- The step moves the status of a pack along the edges of `Moves` only. -/
def Legal (s : ModelService) (w : World) (a : Action) : Prop :=
  ∀ w', step s w a = some w' → ∀ p ∈ w.db.db.packs, ∀ p' ∈ w'.db.db.packs, p'.id = p.id →
    p'.modelStats = p.modelStats ∨ Moves p.modelStats p'.modelStats

variable {s : ModelService} {st : State} {db db' : Db} {c d : Call} {x : Ending} {w w' : World} {a : Action} {p p' pack : ProjectModelPackDO}

def Call.Read : Call → Prop
  | .discardWrite pack => pack.modelStats = .Init ∨ pack.modelStats = .Offline
  | .refreshQuery pack => pack.modelStats = .Publishing
  | .refreshServing pack _ stats | .refreshSave pack _ stats _ | .refreshWrite pack stats =>
    pack.modelStats = .Publishing ∧ (stats = .Published ∨ stats = .PublishFail)
  | _ => True

theorem newStats_eq {a : ServingStatus} {stats : ModelStats} (h : newStats a = some stats) : stats = .Published ∨ stats = .PublishFail := by
  unfold newStats at h
  split_ifs at h
  · exact .inl (Option.some.inj h).symm
  · exact .inr (Option.some.inj h).symm

theorem discardable_ok {modelId : Bytes} (h : ModelService.discardable db modelId = .ok pack) :
    pack.modelStats = .Init ∨ pack.modelStats = .Offline := by
  unfold ModelService.discardable at h
  cases hf : db.findPack modelId with
  | error e =>
    rw [hf] at h
    cases h
  | ok q =>
    rw [hf] at h
    by_cases hc : q.modelStats ≠ .Offline ∧ q.modelStats ≠ .Init
    · simp only [bind, Except.bind, if_pos hc] at h
      cases h
    · simp only [bind, Except.bind, if_neg hc] at h
      obtain rfl : q = pack := Except.ok.inj h
      rw [not_and_or, not_not, not_not] at hc
      exact hc.symm

theorem read_next (hc : c.Read) (h : (s.exec st c x).next = some d) : d.Read := by
  cases c with
  | discard modelId =>
    simp only [ModelService.exec, fail, go] at h
    split at h
    · cases h
    · rename_i hok
      obtain rfl := Option.some.inj h
      exact discardable_ok hok
  | refresh modelId =>
    simp only [ModelService.exec, go] at h
    split at h
    · cases h
    · split_ifs at h with hp
      obtain rfl := Option.some.inj h
      exact not_not.1 (not_or.1 hp).2
  | refreshQuery pack =>
    simp only [ModelService.exec, go] at h
    split at h
    · split at h
      · rename_i hst
        obtain rfl := Option.some.inj h
        exact ⟨hc, newStats_eq hst⟩
      · cases h
    · cases h
  | refreshServing pack a stats =>
    simp only [ModelService.exec, go] at h
    split at h
    · obtain rfl := Option.some.inj h
      exact hc
    · obtain rfl := Option.some.inj h
      exact hc
  | refreshSave pack a stats sv =>
    obtain rfl := Option.some.inj h
    exact hc
  | createServing | createKuscia | deleteServing | deletePack | deleteKuscia | delete =>
    simp only [ModelService.exec, fail, go] at h
    repeat' split at h
    all_goals first
      | (obtain rfl := Option.some.inj h; exact trivial)
      | cases h
  | refreshWrite => cases h
  | createCommit | deleteWrite | discardWrite | deleteCommit =>
    simp only [ModelService.exec, write, fail] at h
    split_ifs at h

theorem read_step (hi : w.All Call.Read) (hs : step s w a = some w') : w'.All Call.Read := by
  obtain ⟨i, c, rfl, hf, _, rfl⟩ | ⟨i, c, x, rfl, hc, rfl⟩ | ⟨i, c, rfl, hc, rfl⟩ := Calls.step_cases hs
  · refine hi.begin ?_
    cases c <;> trivial
  · intro j d hd
    by_cases hj : j = i
    · subst hj
      exact read_next (hi j c hc) (by simpa [Calls.World.after] using hd)
    · exact hi j d (by simpa [Calls.World.after, hj] using hd)
  · exact hi.drop

theorem packs_exec (hp' : p' ∈ (s.exec st c x).db.db.packs) : ∃ p ∈ st.db.packs, p'.id = p.id ∧ (p'.modelStats = p.modelStats ∨
    ∃ pack stats, c.writes = some (pack, stats) ∧ p.modelId = pack.modelId ∧ p.deleted = false ∧ p'.modelStats = stats) := by
  -- a write of one status for one model
  have hwrite : ∀ (modelId : Bytes) (f : ProjectModelPackDO → ProjectModelPackDO) (stats : ModelStats) (pack : ProjectModelPackDO),
      (∀ q, (f q).id = q.id ∧ (f q).modelStats = stats) → modelId = pack.modelId → c.writes = some (pack, stats) →
      p' ∈ Table.updateWhere (fun q => decide (q.modelId = modelId) && !q.deleted) f st.db.packs →
      ∃ p ∈ st.db.packs, p'.id = p.id ∧ (p'.modelStats = p.modelStats ∨
        ∃ pack stats, c.writes = some (pack, stats) ∧ p.modelId = pack.modelId ∧ p.deleted = false ∧ p'.modelStats = stats) := by
    intro modelId f stats pack hf hm hc hmem
    obtain ⟨p, hp, rfl⟩ := Table.mem_updateWhere.1 hmem
    by_cases hq : (decide (p.modelId = modelId) && !p.deleted) = true
    · obtain ⟨hmodel, hdel⟩ := Bool.and_eq_true_iff.1 hq
      rw [if_pos hq]
      exact ⟨p, hp, (hf p).1, .inr ⟨pack, stats, hc, (of_decide_eq_true hmodel).trans hm, by simpa using hdel, (hf p).2⟩⟩
    · rw [if_neg hq]
      exact ⟨p, hp, rfl, .inl rfl⟩
  cases c with
  | createCommit pack row =>
    simp only [ModelService.exec, write, fail] at hp'
    split_ifs at hp'
    · exact hwrite _ (fun q => { q with servingId := row.servingId, modelStats := .Publishing }) .Publishing pack (fun _ => ⟨rfl, rfl⟩) rfl rfl hp'
    · exact ⟨p', hp', rfl, .inl rfl⟩
  | deleteWrite pack =>
    simp only [ModelService.exec, write, fail] at hp'
    split_ifs at hp'
    · exact hwrite _ (fun q => { q with modelStats := .Offline }) .Offline pack (fun _ => ⟨rfl, rfl⟩) rfl rfl hp'
    · exact ⟨p', hp', rfl, .inl rfl⟩
  | discardWrite pack =>
    simp only [ModelService.exec, write, fail] at hp'
    split_ifs at hp'
    · exact hwrite _ (fun q => { q with modelStats := .Discarded }) .Discarded pack (fun _ => ⟨rfl, rfl⟩) rfl rfl hp'
    · exact ⟨p', hp', rfl, .inl rfl⟩
  | refreshWrite pack stats =>
    simp only [ModelService.exec, save] at hp'
    split_ifs at hp'
    · exact hwrite _ (fun q => { q with modelStats := stats }) stats pack (fun _ => ⟨rfl, rfl⟩) rfl rfl hp'
    · exact ⟨p', hp', rfl, .inl rfl⟩
  | deleteCommit pack =>
    simp only [ModelService.exec, write, fail] at hp'
    split_ifs at hp'
    · obtain ⟨p, hp, rfl⟩ := Table.mem_updateWhere.1 hp'
      split_ifs
      · exact ⟨p, hp, rfl, .inl rfl⟩
      · exact ⟨p, hp, rfl, .inl rfl⟩
    · exact ⟨p', hp', rfl, .inl rfl⟩
  | refreshSave pack a stats sv =>
    simp only [ModelService.exec, go, save] at hp'
    split_ifs at hp' <;> exact ⟨p', hp', rfl, .inl rfl⟩
  | _ =>
    simp only [ModelService.exec, fail, go] at hp'
    repeat' split at hp'
    all_goals exact ⟨p', hp', rfl, .inl rfl⟩

theorem moves_of_write {stats : ModelStats} (hread : c.Read) (hw : c.writes = some (pack, stats)) (ha : c.admits pack.modelStats) :
    Moves pack.modelStats stats := by
  cases c with
  | createCommit =>
    obtain ⟨rfl, rfl⟩ := Prod.mk.inj (Option.some.inj hw)
    rcases ha with h | h <;> rw [h]
    · exact .publish
    · exact .republish
  | deleteWrite =>
    obtain ⟨rfl, rfl⟩ := Prod.mk.inj (Option.some.inj hw)
    rcases ha with h | h <;> rw [h]
    · exact .offline
    · exact .failOffline
  | discardWrite =>
    obtain ⟨rfl, rfl⟩ := Prod.mk.inj (Option.some.inj hw)
    rcases hread with h | h <;> rw [h]
    · exact .discardInit
    · exact .discard
  | refreshWrite =>
    obtain ⟨rfl, rfl⟩ := Prod.mk.inj (Option.some.inj hw)
    obtain ⟨hp, h | h⟩ := hread <;> rw [hp, h]
    · exact .published
    · exact .publishFail
  | _ => cases hw

theorem legal_of_fresh (hi : w.All Call.Read) (hf : Fresh w a) : Legal s w a := by
  intro w' hs p hp p' hp' hid
  obtain ⟨i, c, rfl, _, _, rfl⟩ | ⟨i, c, x, rfl, hc, rfl⟩ | ⟨i, c, rfl, _, rfl⟩ := Calls.step_cases hs
  · exact .inl (congrArg _ (Table.eq_of_col_eq w.db.db.ids hp' hp hid))
  · obtain ⟨q, hq, hqid, hcases⟩ := packs_exec hp'
    obtain rfl : q = p := Table.eq_of_col_eq w.db.db.ids hq hp (hqid.symm.trans hid)
    rcases hcases with h | ⟨pack, stats, hw, hm, hdel, hst⟩
    · exact .inl h
    · rcases hf i x c rfl hc pack stats hw q hq hm hdel with h | ⟨h, hadm⟩
      · exact .inl (hst.trans h.symm)
      · refine .inr ?_
        rw [hst, h]
        exact moves_of_write (hi i c hc) hw hadm
  · exact .inl (congrArg _ (Table.eq_of_col_eq w.db.db.ids hp' hp hid))

/-- In every run whose writes find what their calls have read, the status of a pack only moves along the edges of `Moves`. -/
theorem moves_only {as : List Action} (h : Lts.RunAll (step s) Fresh (.idle st) as) : Lts.RunAll (step s) (Legal s) (.idle st) as :=
  Lts.RunAll.of_invariant (I := fun w : World => w.All Call.Read) (fun _ _ _ hi _ hs => read_step hi hs)
    (fun _ _ hi hf => legal_of_fresh hi hf) (Calls.World.idle_all _ _) h

def edges : List (ModelStats × ModelStats) :=
  [(.Init, .Publishing), (.Offline, .Publishing), (.Publishing, .Published), (.Publishing, .PublishFail), (.Published, .Offline),
    (.PublishFail, .Offline), (.Init, .Discarded), (.Offline, .Discarded)]

instance (a b : ModelStats) : Decidable (Moves a b) := decidable_of_iff ((a, b) ∈ edges) <| by
  constructor
  · intro h
    simp only [edges, List.mem_cons, Prod.mk.injEq, List.not_mem_nil, or_false] at h
    rcases h with ⟨rfl, rfl⟩ | ⟨rfl, rfl⟩ | ⟨rfl, rfl⟩ | ⟨rfl, rfl⟩ | ⟨rfl, rfl⟩ | ⟨rfl, rfl⟩ | ⟨rfl, rfl⟩ | ⟨rfl, rfl⟩ <;> constructor
  · intro h
    cases h <;> decide

instance (s : ModelService) (w : World) (a : Action) : Decidable (Legal s w a) :=
  match h : step s w a with
  | none => .isTrue fun w' hs => by
    rw [h] at hs
    cases hs
  | some w' => decidable_of_iff (∀ p ∈ w.db.db.packs, ∀ p' ∈ w'.db.db.packs, p'.id = p.id →
      p'.modelStats = p.modelStats ∨ Moves p.modelStats p'.modelStats) <| by
    constructor
    · intro hl w'' hs
      obtain rfl := Option.some.inj (h.symm.trans hs)
      exact hl
    · intro hl
      exact hl w' h

def center : ModelService := ⟨false, str "master", fun _ => false, fun _ => none, some 0⟩

def publishing : State where
  db :=
    { packs := [⟨1, str "p1", str "m1", str "alice", .Publishing, str "aaaaaaaa", [str "alice"], false⟩]
      servings := [⟨str "aaaaaaaa", str "p1", str "alice", [], [], str "init", []⟩]
      ids := by decide
      modelIds := by decide
      servingIds := by decide }
  kuscia := [⟨0, str "aaaaaaaa", str "m1"⟩]

theorem length_bs : (str "bbbbbbbb").length = 8 := by decide

def available : Ending := ⟨.ok [], ⟨str "bbbbbbbb", length_bs⟩, .done, some ⟨str "Available", [], [], []⟩, true⟩

def steps (i n : Nat) : List Action := List.replicate n (.exec i available)

def revive : List Action :=
  [.start 0 (.refresh (str "m1")), .start 1 (.deleteServing (str "aaaaaaaa")), .start 2 (.discard (str "m1"))] ++
    steps 0 4 ++ steps 1 4 ++ steps 2 2 ++ steps 0 1

/-- The refresh has revived a discarded pack. -/
theorem revived : (Lts.run (step center) (.idle publishing) revive).any
      (fun w => w.db.db.packs.all fun p => decide (p.modelStats = .Published)) = true ∧
    ¬ Lts.RunAll (step center) (Legal center) (.idle publishing) revive := by decide +kernel

def republish : List Action :=
  [.start 0 (.refresh (str "m1"))] ++ steps 0 5 ++ [.start 1 (.deleteServing (str "aaaaaaaa"))] ++ steps 1 4 ++
    [.start 0 (.createServing ⟨str "p1", str "m1", [⟨str "alice", str "mock", some true, []⟩]⟩)] ++ steps 0 3

def fresh (w : World) : Action → Bool
  | .exec i _ => (w.calls i).all fun c => c.writes.all fun ps => w.db.db.packs.all fun p =>
    decide (p.modelId = ps.1.modelId → p.deleted = false → p.modelStats = ps.1.modelStats) &&
      match c with
      | .createCommit .. => decide (ps.1.modelStats = .Init ∨ ps.1.modelStats = .Offline)
      | .deleteWrite _ => decide (ps.1.modelStats = .Published ∨ ps.1.modelStats = .PublishFail)
      | _ => true
  | _ => true

theorem moves_only_republish : (Lts.run (step center) (.idle publishing) republish).isSome ∧
    Lts.RunAll (step center) (Legal center) (.idle publishing) republish := by
  have hfresh : Lts.RunAll (step center) (fun w a => fresh w a = true) (.idle publishing) republish := by decide +kernel
  refine ⟨by decide +kernel, moves_only (hfresh.imp fun w a ha => ?_)⟩
  rintro i x c rfl hc pack stats hw p hp hm hdel
  simp only [fresh, hc, hw, Option.all_some] at ha
  obtain ⟨hst, hadm⟩ := Bool.and_eq_true_iff.1 (List.all_eq_true.1 ha p hp)
  refine .inr ⟨of_decide_eq_true hst hm hdel, ?_⟩
  cases c with
  | createCommit | deleteWrite => simpa [Call.admits] using hadm
  | _ => trivial

end Serving.Status
