import Privahub.Lib.Run
import Privahub.Serving.Service

/-!
# Servings without a pack

The operations on packs and servings one after the other, with a failure wherever Kuscia is called or a transaction is committed.
`CreateModelServing` looks at the state of a pack only to choose the serving id, and what Kuscia has created by the time the transaction
fails stays there. `no_orphan_iff` says exactly which calls keep every serving of Kuscia in reach of `DeleteModelServing`.
-/

namespace Serving

structure Creation where
  prepared : Except Err Bytes
  random : RandomLetters
  answer : Answer
  commits : Bool

inductive Op
  | create (req : CreateModelServingRequest) (x : Creation)
  | deleteServing (servingId : Bytes) (answer : Answer) (commits : Bool)
  | discard (modelId : Bytes) (commits : Bool)
  | delete (modelId : Bytes) (commits : Bool)

abbrev Result := Except Err Unit × State

def written (st : State) (commits : Bool) (db : Db) : Result := if commits then (.ok (), { st with db := db }) else (.error .database, st)

namespace ModelService

variable (s : ModelService)

def CreateModelServing (st : State) (req : CreateModelServingRequest) (x : Creation) : Result :=
  match servable st.db req x.prepared with
  | .error e => (.error e, st)
  | .ok (pack, config) => match s.requested req pack config x.random with
    | .error e => (.error e, st)
    | .ok (new, row) =>
      let r := Kuscia.CreateServing st.kuscia new x.answer
      if r.1 then written { st with kuscia := r.2 } x.commits (commitServing st.db pack.modelId row)
      else (.error (.SystemError (str "create serving failed: ")), { st with kuscia := r.2 })

def DeleteModelServing (st : State) (servingId : Bytes) (answer : Answer) (commits : Bool) : Result :=
  match deletableServing st.db servingId with
  | .error e => (.error e, st)
  | .ok (sv, pack) => match s.kc sv.initiator with
    | none => (.error (.SystemError (str "kuscia client not configured")), st)
    | some k =>
      let r := Kuscia.DeleteServing st.kuscia k servingId answer
      if r.1 then written { st with kuscia := r.2 } commits (st.db.setStats pack.modelId .Offline)
      else (.error (.SystemError (str "delete serving failed: ")), { st with kuscia := r.2 })

def DiscardModelPack (st : State) (modelId : Bytes) (commits : Bool) : Result :=
  match discardable st.db modelId with
  | .error e => (.error e, st)
  | .ok _ => written st commits (st.db.setStats modelId .Discarded)

def DeleteModelPack (st : State) (modelId : Bytes) (commits : Bool) : Result :=
  match removable st.db modelId with
  | .error e => (.error e, st)
  | .ok pack => written st commits (remove st.db pack)

def call (st : State) : Op → Result
  | .create req x => s.CreateModelServing st req x
  | .deleteServing servingId answer commits => s.DeleteModelServing st servingId answer commits
  | .discard modelId commits => DiscardModelPack st modelId commits
  | .delete modelId commits => DeleteModelPack st modelId commits

def step (st : State) (op : Op) : Option State := some (s.call st op).2

end ModelService

variable {s : ModelService} {db db' : Db} {st : State} {k new : KusciaServing} {pack : ProjectModelPackDO} {row : ProjectModelServingDO}

/-- The pack of the serving's model has its id, and the row of that id names the Kuscia it is in. -/
structure Referenced (s : ModelService) (db : Db) (k : KusciaServing) : Prop where
  id : k.servingId ≠ []
  pack : ∃ p ∈ db.packs, p.deleted = false ∧ p.modelId = k.modelId ∧ p.servingId = k.servingId
  row : ∃ r ∈ db.servings, r.servingId = k.servingId ∧ s.kc r.initiator = some k.kuscia

/-- A deletion of the serving that goes well takes it out of Kuscia. -/
def Deletable (s : ModelService) (st : State) (k : KusciaServing) : Prop :=
  (s.DeleteModelServing st k.servingId .done true).1.toBool = true ∧ k ∉ (s.DeleteModelServing st k.servingId .done true).2.kuscia

def NoOrphan (s : ModelService) (st : State) : Prop := ∀ k ∈ st.kuscia, Referenced s st.db k ∧ Deletable s st k

/-- What a creation creates in Kuscia, with the row it will store. -/
def created (s : ModelService) (st : State) (req : CreateModelServingRequest) (x : Creation) : Option (KusciaServing × ProjectModelServingDO) :=
  match ModelService.servable st.db req x.prepared with
  | .error _ => none
  | .ok (pack, config) => match s.requested req pack config x.random with
    | .error _ => none
    | .ok (new, row) => if !Kuscia.has st.kuscia new.kuscia new.servingId && x.answer.takesEffect then some (new, row) else none

/-- The condition on a call. What Kuscia creates is committed, while it holds no other serving of the model and none of another model
under the same id; or else it is a serving that the pack refers to already. And a pack goes only when Kuscia holds no serving of its
model. -/
def Safe (s : ModelService) (st : State) : Op → Prop
  | .create req x => ∀ new row, created s st req x = some (new, row) →
    if x.answer = .done ∧ x.commits then ∀ k ∈ st.kuscia, k.modelId ≠ new.modelId ∧ k.servingId ≠ new.servingId
    else Referenced s st.db new
  | .delete modelId commits => commits = true → ∀ pack, ModelService.removable st.db modelId = .ok pack → ∀ k ∈ st.kuscia, k.modelId ≠ pack.modelId
  | .deleteServing .. | .discard .. => True

theorem findServing_eq (h : row ∈ db.servings) (hne : row.servingId ≠ []) : db.findServing row.servingId = .ok row := by
  have hfind : db.servings.find? (fun r => decide (r.servingId = row.servingId)) = some row := by
    cases hf : db.servings.find? (fun r => decide (r.servingId = row.servingId)) with
    | none => exact absurd (decide_eq_true rfl) (List.find?_eq_none.1 hf row h)
    | some r =>
      have hid : r.servingId = row.servingId := by simpa using List.find?_some hf
      rw [Table.eq_of_col_eq db.servingIds (List.mem_of_find?_eq_some hf) h hid]
  rw [Db.findServing, if_neg hne, hfind]
  rfl

theorem exists_packOfServing {servingId : Bytes} (h : ∃ p ∈ db.packs, p.deleted = false ∧ p.servingId = servingId) :
    ∃ p, db.packOfServing servingId = .ok p := by
  obtain ⟨p, hp, hdel, hid⟩ := h
  rw [Db.packOfServing]
  cases hf : db.packs.find? (fun p => decide (p.servingId = servingId) && !p.deleted) with
  | none => exact absurd (by simp [hid, hdel]) (List.find?_eq_none.1 hf p hp)
  | some q => exact ⟨q, rfl⟩

theorem Referenced.deletable (h : Referenced s st.db k) : Deletable s st k := by
  obtain ⟨r, hr, hid, hkc⟩ := h.row
  obtain ⟨p, hp, hdel, -, hpid⟩ := h.pack
  obtain ⟨q, hq⟩ := exists_packOfServing ⟨p, hp, hdel, hpid⟩
  have hfound : ModelService.deletableServing st.db k.servingId = .ok (r, q) := by
    rw [ModelService.deletableServing, ← hid, findServing_eq hr (hid ▸ h.id), hid, hq]
    rfl
  have hcall : s.DeleteModelServing st k.servingId .done true =
      (.ok (), ⟨st.db.setStats q.modelId .Offline,
        st.kuscia.filter fun v => !decide (v.kuscia = k.kuscia ∧ v.servingId = k.servingId)⟩) := by
    simp only [ModelService.DeleteModelServing, hfound, hkc]
    rfl
  constructor
  · rw [hcall]
    rfl
  · rw [hcall]
    intro hmem
    simpa using (List.mem_filter.1 hmem).2

theorem noOrphan_iff : NoOrphan s st ↔ ∀ k ∈ st.kuscia, Referenced s st.db k :=
  ⟨fun h k hk => (h k hk).1, fun h k hk => ⟨h k hk, (h k hk).deletable⟩⟩

def ProjectModelPackDO.ref (p : ProjectModelPackDO) : Bytes × Bytes × Bool := (p.modelId, p.servingId, p.deleted)

theorem Referenced.congr (hp : db'.packs.map (·.ref) = db.packs.map (·.ref)) (hr : db'.servings = db.servings) (h : Referenced s db k) :
    Referenced s db' k := by
  obtain ⟨p, hmem, hdel, hmodel, hid⟩ := h.pack
  have hmem' : p.ref ∈ db'.packs.map (·.ref) := by
    rw [hp]
    exact List.mem_map_of_mem hmem
  obtain ⟨p', hp', he⟩ := List.mem_map.1 hmem'
  obtain ⟨hm, hs, hd⟩ := by simpa [ProjectModelPackDO.ref] using he
  exact ⟨h.id, ⟨p', hp', hd.trans hdel, hm.trans hmodel, hs.trans hid⟩, hr ▸ h.row⟩

theorem Referenced.setStats {modelId : Bytes} {stats : ModelStats} (h : Referenced s db k) : Referenced s (db.setStats modelId stats) k :=
  h.congr (Table.map_updateWhere ProjectModelPackDO.ref fun _ => rfl) rfl

theorem findPack_ok {modelId : Bytes} (h : db.findPack modelId = .ok pack) : pack ∈ db.packs ∧ pack.modelId = modelId ∧ pack.deleted = false := by
  unfold Db.findPack at h
  split_ifs at h
  cases hf : db.packs.find? (fun p => decide (p.modelId = modelId) && !p.deleted) with
  | none =>
    rw [hf] at h
    cases h
  | some p =>
    rw [hf] at h
    obtain rfl : p = pack := Except.ok.inj h
    have hp := List.find?_some hf
    simp only [Bool.and_eq_true, decide_eq_true_eq, Bool.not_eq_true'] at hp
    exact ⟨List.mem_of_find?_eq_some hf, hp⟩

theorem servable_ok {req : CreateModelServingRequest} {prepared : Except Err Bytes} {config : Bytes}
    (h : ModelService.servable db req prepared = .ok (pack, config)) : pack ∈ db.packs ∧ pack.deleted = false := by
  unfold ModelService.servable at h
  cases hp : db.findProjectPack req.modelId req.projectId with
  | error e =>
    rw [hp] at h
    cases h
  | ok p =>
    rw [hp] at h
    have hpack : p = pack := by
      cases hv : ValidateServingPartyConfigs req.partyConfigs with
      | some msg =>
        simp only [hv] at h
        cases h
      | none =>
        simp only [hv] at h
        cases prepared with
        | error e => cases h
        | ok c => exact (Prod.mk.inj (Except.ok.inj h)).1
    unfold Db.findProjectPack at hp
    cases hf : db.findPack req.modelId with
    | error e =>
      rw [hf] at hp
      cases hp
    | ok q =>
      simp only [hf] at hp
      have hq : q = p := by
        by_cases hc : req.projectId = [] ∨ q.projectId ≠ req.projectId
        · simp only [bind, Except.bind, if_pos hc] at hp
          cases hp
        · simp only [bind, Except.bind, if_neg hc] at hp
          exact Except.ok.inj hp
      obtain ⟨hmem, -, hdel⟩ := findPack_ok hf
      rw [← hpack, ← hq]
      exact ⟨hmem, hdel⟩

theorem requested_ok {req : CreateModelServingRequest} {config : Bytes} {random : RandomLetters}
    (h : s.requested req pack config random = .ok (new, row)) :
    new.modelId = pack.modelId ∧ row.servingId = new.servingId ∧ s.kc row.initiator = some new.kuscia ∧ new.servingId ≠ [] := by
  unfold ModelService.requested at h
  cases hk : s.kc (s.initiator (ModelService.nodeIds req)) with
  | none => simp [hk] at h
  | some k' =>
    simp only [hk] at h
    obtain ⟨rfl, rfl⟩ := Prod.mk.inj (Except.ok.inj h)
    refine ⟨rfl, rfl, hk, ?_⟩
    show ModelService.servingIdFor pack random ≠ []
    unfold ModelService.servingIdFor
    split_ifs with hc
    · exact hc.2
    · intro he
      have hlen := random.2
      rw [he] at hlen
      cases hlen

theorem referenced_commit (hp : pack ∈ db.packs) (hdel : pack.deleted = false) (hnew : new.modelId = pack.modelId)
    (hrow : row.servingId = new.servingId) (hkc : s.kc row.initiator = some new.kuscia) (hid : new.servingId ≠ []) :
    Referenced s (ModelService.commitServing db pack.modelId row) new := by
  refine ⟨hid, ⟨{ pack with servingId := row.servingId, modelStats := .Publishing }, ?_, hdel, hnew.symm, hrow⟩, row, ?_, hrow, hkc⟩
  · refine Table.mem_updateWhere.2 ⟨pack, hp, ?_⟩
    rw [if_pos (by simp [hdel])]
  · exact List.mem_append_right _ (List.mem_singleton_self _)

theorem referenced_commit_of_ne (h : Referenced s db k) (hmodel : k.modelId ≠ pack.modelId) (hid : k.servingId ≠ row.servingId) :
    Referenced s (ModelService.commitServing db pack.modelId row) k := by
  obtain ⟨p, hp, hdel, hm, hs⟩ := h.pack
  obtain ⟨r, hr, hrid, hkc⟩ := h.row
  refine ⟨h.id, ⟨p, Table.mem_updateWhere.2 ⟨p, hp, ?_⟩, hdel, hm, hs⟩, r, ?_, hrid, hkc⟩
  · rw [if_neg]
    simp [hm, hmodel]
  · refine List.mem_append_left _ (List.mem_filter.2 ⟨hr, ?_⟩)
    simpa [hrid] using hid

theorem kuscia_of_commit (hrow : row.servingId = new.servingId) (hkc : s.kc row.initiator = some new.kuscia)
    (h : Referenced s (ModelService.commitServing db pack.modelId row) k) (hid : k.servingId = new.servingId) : k.kuscia = new.kuscia := by
  obtain ⟨r, hr, hrid, hk⟩ := h.row
  have hr' : r ∈ (db.saveServing row).servings := hr
  rcases List.mem_append.1 hr' with hr' | hr'
  · have hne : r.servingId ≠ row.servingId := by simpa using (List.mem_filter.1 hr').2
    exact absurd (hrid.trans (hid.trans hrow.symm)) hne
  · obtain rfl := List.mem_singleton.1 hr'
    exact Option.some.inj (hk.symm.trans hkc)

theorem servingId_of_commit (hp : pack ∈ db.packs) (hdel : pack.deleted = false) (hrow : row.servingId = new.servingId)
    (h : Referenced s (ModelService.commitServing db pack.modelId row) k) (hmodel : k.modelId = pack.modelId) : k.servingId = new.servingId := by
  obtain ⟨p', hp', -, hm, hs⟩ := h.pack
  obtain ⟨p, hpmem, rfl⟩ := Table.mem_updateWhere.1 hp'
  by_cases hc : (decide (p.modelId = pack.modelId) && !p.deleted) = true
  · rw [if_pos hc] at hs
    exact hs.symm.trans hrow
  · rw [if_neg hc] at hm
    have heq : p = pack := Table.eq_of_col_eq db.modelIds hpmem hp (hm.trans hmodel)
    exact absurd (by simp [heq, hdel]) hc

theorem create_cases (s : ModelService) (st : State) (req : CreateModelServingRequest) (x : Creation) :
    created s st req x = none ∧ (s.CreateModelServing st req x).2 = st ∨
    ∃ pack new row, created s st req x = some (new, row) ∧ pack ∈ st.db.packs ∧ pack.deleted = false ∧ new.modelId = pack.modelId ∧
      row.servingId = new.servingId ∧ s.kc row.initiator = some new.kuscia ∧ new.servingId ≠ [] ∧
      Kuscia.has st.kuscia new.kuscia new.servingId = false ∧ (s.CreateModelServing st req x).2 =
        ⟨if x.answer = .done ∧ x.commits then ModelService.commitServing st.db pack.modelId row else st.db, st.kuscia ++ [new]⟩ := by
  unfold created ModelService.CreateModelServing
  cases hserv : ModelService.servable st.db req x.prepared with
  | error e => exact .inl ⟨rfl, rfl⟩
  | ok pc =>
    obtain ⟨pack, config⟩ := pc
    cases hreq : s.requested req pack config x.random with
    | error e =>
      refine .inl ⟨?_, ?_⟩ <;> simp only [hreq]
    | ok nr =>
      obtain ⟨new, row⟩ := nr
      simp only [hreq]
      cases hhas : Kuscia.has st.kuscia new.kuscia new.servingId with
      | true =>
        refine .inl ⟨rfl, ?_⟩
        simp [Kuscia.CreateServing, hhas]
      | false =>
        obtain ⟨hp, hdel⟩ := servable_ok hserv
        obtain ⟨hmodel, hrow, hkc, hid⟩ := requested_ok hreq
        cases ha : x.answer with
        | done =>
          refine .inr ⟨pack, new, row, rfl, hp, hdel, hmodel, hrow, hkc, hid, hhas, ?_⟩
          cases hc : x.commits <;> simp [Kuscia.CreateServing, hhas, Answer.takesEffect, written]
        | lost =>
          refine .inr ⟨pack, new, row, rfl, hp, hdel, hmodel, hrow, hkc, hid, hhas, ?_⟩
          simp [Kuscia.CreateServing, hhas, Answer.takesEffect]
        | refused n =>
          refine .inl ⟨rfl, ?_⟩
          simp [Kuscia.CreateServing, hhas, Answer.takesEffect]
        | failed =>
          refine .inl ⟨rfl, ?_⟩
          simp [Kuscia.CreateServing, hhas, Answer.takesEffect]

theorem has_of_mem {ks : List KusciaServing} (hk : k ∈ ks) (h : k.kuscia = new.kuscia) (hid : k.servingId = new.servingId) :
    Kuscia.has ks new.kuscia new.servingId = true := List.any_eq_true.2 ⟨k, hk, decide_eq_true ⟨h, hid⟩⟩

theorem create_iff (h : ∀ k ∈ st.kuscia, Referenced s st.db k) (req : CreateModelServingRequest) (x : Creation) :
    (∀ k ∈ (s.CreateModelServing st req x).2.kuscia, Referenced s (s.CreateModelServing st req x).2.db k) ↔ Safe s st (.create req x) := by
  rcases create_cases s st req x with ⟨hnone, hst⟩ | ⟨pack, new, row, hsome, hp, hdel, hmodel, hrow, hkc, hid, hhas, hst⟩
  · rw [hst]
    refine ⟨fun _ new row hsome => ?_, fun _ => h⟩
    rw [hnone] at hsome
    cases hsome
  · rw [hst]
    have hsafe : Safe s st (.create req x) ↔ if x.answer = .done ∧ x.commits then
        ∀ k ∈ st.kuscia, k.modelId ≠ new.modelId ∧ k.servingId ≠ new.servingId else Referenced s st.db new := by
      constructor
      · intro hs
        exact hs new row hsome
      · intro hs new' row' he
        obtain ⟨rfl, rfl⟩ := Prod.mk.inj (Option.some.inj (hsome.symm.trans he))
        exact hs
    rw [hsafe]
    by_cases hc : x.answer = .done ∧ x.commits
    · rw [if_pos hc, if_pos hc]
      constructor
      · intro hall k hk
        have href := hall k (List.mem_append_left _ hk)
        have hno : k.servingId ≠ new.servingId := by
          intro he
          rw [has_of_mem hk (kuscia_of_commit hrow hkc href he) he] at hhas
          cases hhas
        exact ⟨fun he => hno (servingId_of_commit hp hdel hrow href (he.trans hmodel)), hno⟩
      · intro hall k hk
        rcases List.mem_append.1 hk with hk | hk
        · obtain ⟨hm, hne⟩ := hall k hk
          exact referenced_commit_of_ne (h k hk) (hmodel ▸ hm) (hrow ▸ hne)
        · obtain rfl := List.mem_singleton.1 hk
          exact referenced_commit hp hdel hmodel hrow hkc hid
    · rw [if_neg hc, if_neg hc]
      constructor
      · intro hall
        exact hall new (List.mem_append_right _ (List.mem_singleton_self _))
      · intro hnew k hk
        rcases List.mem_append.1 hk with hk | hk
        · exact h k hk
        · exact List.mem_singleton.1 hk ▸ hnew

theorem deleteServing_ok (h : ∀ k ∈ st.kuscia, Referenced s st.db k) (servingId : Bytes) (answer : Answer) (commits : Bool) :
    ∀ k ∈ (s.DeleteModelServing st servingId answer commits).2.kuscia,
      Referenced s (s.DeleteModelServing st servingId answer commits).2.db k := by
  unfold ModelService.DeleteModelServing
  split
  · exact h
  · split
    · exact h
    · rename_i n _
      have hsub : ∀ k ∈ (Kuscia.DeleteServing st.kuscia n servingId answer).2, Referenced s st.db k := by
        intro k hk
        unfold Kuscia.DeleteServing at hk
        simp only at hk
        split_ifs at hk
        · exact h k (List.mem_filter.1 hk).1
        · exact h k hk
      simp only [written]
      split_ifs
      · exact fun k hk => (hsub k hk).setStats
      · exact hsub
      · exact hsub

theorem discard_ok (h : ∀ k ∈ st.kuscia, Referenced s st.db k) (modelId : Bytes) (commits : Bool) :
    ∀ k ∈ (ModelService.DiscardModelPack st modelId commits).2.kuscia,
      Referenced s (ModelService.DiscardModelPack st modelId commits).2.db k := by
  unfold ModelService.DiscardModelPack written
  split
  · exact h
  · split_ifs
    · exact fun k hk => (h k hk).setStats
    · exact h

theorem remove_iff (h : ∀ k ∈ st.kuscia, Referenced s st.db k) (hp : pack ∈ st.db.packs) :
    (∀ k ∈ st.kuscia, Referenced s (ModelService.remove st.db pack) k) ↔ ∀ k ∈ st.kuscia, k.modelId ≠ pack.modelId := by
  constructor
  · intro hall k hk he
    obtain ⟨p', hp', hdel, hm, -⟩ := (hall k hk).pack
    obtain ⟨p, hpmem, rfl⟩ := Table.mem_updateWhere.1 hp'
    by_cases hc : decide (p.id = pack.id) = true
    · rw [if_pos hc] at hdel
      cases hdel
    · rw [if_neg hc] at hm
      have heq : p = pack := Table.eq_of_col_eq st.db.modelIds hpmem hp (hm.trans he)
      exact hc (by simp [heq])
  · intro hne k hk
    obtain ⟨p, hpmem, hdel, hm, hs⟩ := (h k hk).pack
    refine ⟨(h k hk).id, ⟨p, Table.mem_updateWhere.2 ⟨p, hpmem, if_neg ?_⟩, hdel, hm, hs⟩, (h k hk).row⟩
    intro hc
    have heq : p = pack := Table.eq_of_col_eq st.db.ids hpmem hp (of_decide_eq_true hc)
    exact hne k hk (by rw [← hm, heq])

theorem removable_mem {modelId : Bytes} (h : ModelService.removable db modelId = .ok pack) : pack ∈ db.packs := by
  unfold ModelService.removable at h
  cases hf : db.findPack modelId with
  | error e =>
    rw [hf] at h
    cases h
  | ok p =>
    rw [hf] at h
    by_cases hc : p.modelStats ≠ .Discarded
    · simp only [bind, Except.bind, if_pos hc] at h
      cases h
    · simp only [bind, Except.bind, if_neg hc] at h
      obtain rfl : p = pack := Except.ok.inj h
      exact (findPack_ok hf).1

theorem delete_iff (h : ∀ k ∈ st.kuscia, Referenced s st.db k) (modelId : Bytes) (commits : Bool) :
    (∀ k ∈ (ModelService.DeleteModelPack st modelId commits).2.kuscia, Referenced s (ModelService.DeleteModelPack st modelId commits).2.db k) ↔
      Safe s st (.delete modelId commits) := by
  unfold ModelService.DeleteModelPack written
  cases hr : ModelService.removable st.db modelId with
  | error e =>
    refine ⟨fun _ _ pack hok => ?_, fun _ => h⟩
    rw [hr] at hok
    cases hok
  | ok pack =>
    cases commits with
    | false => exact ⟨fun _ hf => absurd hf Bool.false_ne_true, fun _ => h⟩
    | true =>
      refine (remove_iff h (removable_mem hr)).trans ⟨fun hall _ pack' hok => ?_, fun hs => hs rfl pack hr⟩
      obtain rfl : pack = pack' := Except.ok.inj (hr.symm.trans hok)
      exact hall

theorem noOrphan_call_iff (h : NoOrphan s st) (op : Op) : Safe s st op ↔ NoOrphan s (s.call st op).2 := by
  rw [noOrphan_iff] at h ⊢
  cases op with
  | create req x => exact (create_iff h req x).symm
  | deleteServing servingId answer commits => exact ⟨fun _ => deleteServing_ok h servingId answer commits, fun _ => trivial⟩
  | discard modelId commits => exact ⟨fun _ => discard_ok h modelId commits, fun _ => trivial⟩
  | delete modelId commits => exact (delete_iff h modelId commits).symm

/-- A sequence of calls leaves no orphan behind anywhere if and only if each of them is safe. -/
theorem no_orphan_iff (h : NoOrphan s st) (ops : List Op) :
    Lts.RunAll s.step (Safe s) st ops ↔ Lts.RunAll s.step (fun st op => NoOrphan s (s.call st op).2) st ops := by
  refine Lts.RunAll.iff_of_invariant (P := Safe s) (fun _ op hi => noOrphan_call_iff hi op) (fun st op st' _ hq hs => ?_) h ops
  obtain rfl := Option.some.inj hs
  exact hq

instance : Decidable (Referenced s db k) :=
  decidable_of_iff (k.servingId ≠ [] ∧ (∃ p ∈ db.packs, p.deleted = false ∧ p.modelId = k.modelId ∧ p.servingId = k.servingId) ∧
    ∃ r ∈ db.servings, r.servingId = k.servingId ∧ s.kc r.initiator = some k.kuscia)
    ⟨fun h => ⟨h.1, h.2.1, h.2.2⟩, fun h => ⟨h.id, h.pack, h.row⟩⟩

instance : Decidable (Deletable s st k) := inferInstanceAs (Decidable (_ ∧ _))

instance : Decidable (NoOrphan s st) := inferInstanceAs (Decidable (∀ k ∈ st.kuscia, _))

instance : (op : Op) → Decidable (Safe s st op)
  | .create req x =>
    match h : created s st req x with
    | none => .isTrue fun new row he => by
      rw [h] at he
      cases he
    | some (new, row) => decidable_of_iff (if x.answer = .done ∧ x.commits then
        ∀ k ∈ st.kuscia, k.modelId ≠ new.modelId ∧ k.servingId ≠ new.servingId else Referenced s st.db new) <| by
      constructor
      · intro hs new' row' he
        obtain ⟨rfl, rfl⟩ := Prod.mk.inj (Option.some.inj (h.symm.trans he))
        exact hs
      · intro hs
        exact hs new row h
  | .delete modelId commits =>
    match h : ModelService.removable st.db modelId with
    | .error _ => .isTrue fun _ pack he => by
      rw [h] at he
      cases he
    | .ok pack => decidable_of_iff (commits = true → ∀ k ∈ st.kuscia, k.modelId ≠ pack.modelId) <| by
      constructor
      · intro hs hc pack' he
        obtain rfl := Except.ok.inj (h.symm.trans he)
        exact hs hc
      · intro hs hc
        exact hs hc pack h
  | .deleteServing .. | .discard .. => .isTrue trivial

def center : ModelService := ⟨false, str "master", fun _ => false, fun _ => none, some 0⟩

def packed : State where
  db :=
    { packs := [⟨1, str "p1", str "m1", str "alice", .Init, [], [str "alice"], false⟩]
      servings := []
      ids := by decide
      modelIds := by decide
      servingIds := by decide }
  kuscia := []

def publish (id : String) (h : (str id).length = 8) (answer : Answer) (commits : Bool) : Op :=
  .create ⟨str "p1", str "m1", [⟨str "alice", str "mock", some true, []⟩]⟩ ⟨.ok [], ⟨str id, h⟩, answer, commits⟩

def lifecycle : List Op :=
  [publish "aaaaaaaa" (by decide) .done true, .deleteServing (str "aaaaaaaa") .done true, publish "bbbbbbbb" (by decide) .done true,
    .deleteServing (str "aaaaaaaa") .done true, .discard (str "m1") true, .delete (str "m1") true]

theorem no_orphan_lifecycle : Lts.RunAll center.step (fun st op => NoOrphan center (center.call st op).2) packed lifecycle :=
  (no_orphan_iff (fun _ hk => absurd hk List.not_mem_nil) lifecycle).1 (by decide +kernel)

/-- A pack that is being published is published once more; and the transaction fails after Kuscia has created the serving. -/
theorem orphaned :
    ¬ Lts.RunAll center.step (fun st op => NoOrphan center (center.call st op).2) packed
      [publish "aaaaaaaa" (by decide) .done true, publish "bbbbbbbb" (by decide) .done true] ∧
    ¬ Lts.RunAll center.step (fun st op => NoOrphan center (center.call st op).2) packed [publish "aaaaaaaa" (by decide) .done false] := by
  decide +kernel

end Serving
