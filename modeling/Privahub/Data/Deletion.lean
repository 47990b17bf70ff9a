import Privahub.Data.Listing

/-!
# Deleting a datasource

`DeleteDatasource` looks for datatables that use the datasource on the nodes that answered with datasources, and again on each node before it deletes
there. A node whose listing failed is not seen and a look-up that fails counts as one that finds nothing, so `keeps_iff` asks of the failures what keeps
a datasource in use where it is. The tables of the nodes stay as they are during the call.
-/

namespace Deletion

open Node (Err NodeDO)
open Tee (ToUpper)
open Listing
open Paging (page)

structure DeleteDatasourceRequest where
  OwnerID : Bytes
  DatasourceID : Bytes
  type : Bytes

def DatasourceTypeOSS : Bytes := str "OSS"
def DatasourceTypeODPS : Bytes := str "ODPS"
def DatasourceTypeMySQL : Bytes := str "MYSQL"

def DatasourceDataSourceDeleteFail (msg : Bytes) : Err := ⟨202012509, str "datasource.DATA_SOURCE_DELETE_FAIL", msg⟩

/-- The service, what the nodes hold and what fails during a call: the listings and the first look-ups by node, what is done for the nodes of the
datasource by their place in the list of them. A table is its datasource and its name. -/
structure Cluster where
  unicode : CaseTables
  isAutonomy : Bool
  db : Option (List NodeDO)
  kusciaClient : Bool
  datatables : Bool
  held : Bytes → List DomainDataSource
  tables : Bytes → List (Bytes × Bytes)
  listError : Bytes → Option Err
  lookFails : Bytes → Bool
  lookAgainFails : Nat → Bool
  deleteError : Nat → Option Bytes

/-- What a call comes to, the nodes it deleted from, and those whose rows it took out of the database. -/
structure Result where
  result : Outcome Unit
  removed : List Bytes
  uncached : Option (List Bytes)

def fail (e : Err) : Result := ⟨.error e, [], none⟩

def fanOut (nodes : List Bytes) (fn : Nat → Bytes → Option Bytes) : List (Bytes × Bytes) :=
  firstBy Prod.fst [] (nodes.zipIdx.filterMap fun n => (fn n.2 n.1).map fun msg => (n.1, msg)).reverse

def findAgg (aggs : List DatasourceListInfoAggregate) (id : Bytes) : Option DatasourceListInfoAggregate :=
  aggs.find? fun a => decide (a.DatasourceID = id)

namespace Cluster

variable (c : Cluster) (req : DeleteDatasourceRequest)

def service : DatasourceService where
  unicode := c.unicode
  isAutonomy := c.isAutonomy
  db := c.db
  kuscia := if c.kusciaClient then some fun n => (c.listError n).elim (.ok (c.held n)) .error else none
  tablesOf := if c.datatables then some fun nodes => (nodes.filter fun n => !c.lookFails n).flatMap c.tables else none

def findRequest (ownerID : Bytes) (types : List Bytes) : DatasourceListRequest := ⟨ownerID, [], [], types, 1, 1000⟩

def findAll (ownerID : Bytes) (types : List Bytes) : Outcome (List DatasourceListInfoAggregate) :=
  (c.service.ListDatasources (findRequest ownerID types)).map fun vo => vo.map (·.Infos)

def deleteAt (id : Bytes) (i : Nat) (nodeID : Bytes) : Option Bytes :=
  if c.datatables && !c.lookAgainFails i && (c.tables nodeID).any fun t => decide (t.1 = id) then some (str "has related data table")
  else c.deleteError i

def deleteFrom (id : Bytes) (nodes : List Bytes) : Result :=
  let failed := fanOut nodes (c.deleteAt id)
  let removed := (nodes.zipIdx.filter fun n => (c.deleteAt id n.2 n.1).isNone).map Prod.fst
  if 0 < nodes.length ∧ failed.length = nodes.length then
    let msgs := failed.map fun f => f.1 ++ str ": " ++ f.2
    ⟨.error (DatasourceDataSourceDeleteFail (List.intercalate (str "; ") (msgs.insertionSort fun a b => decide (a ≤ b)))), removed, none⟩
  else ⟨.ok (some ()), removed, some (nodes.filter fun n => decide (n ∉ failed.map Prod.fst))⟩

def DeleteDatasource : Result :=
  let type := ToUpper c.unicode req.type
  if req.OwnerID = [] ∨ req.DatasourceID = [] ∨ type = [] then fail (.ParamError (str "ownerId/datasourceId/type can not be empty"))
  else if type ∉ [DatasourceTypeOSS, DatasourceTypeODPS, DatasourceTypeMySQL] then fail (.ParamError (str "unsupported datasource type: " ++ type))
  else if !c.kusciaClient then fail ⟨202012101, str "kuscia.RPC_ERROR", str "kuscia client not configured"⟩
  else
    match c.findAll req.OwnerID [type] with
    | .error e => fail e
    | .ok none => ⟨.ok none, [], none⟩
    | .ok (some aggs) =>
      match findAgg aggs req.DatasourceID with
      | none => fail (DatasourceDataSourceDeleteFail (str "not found the datasource"))
      | some agg =>
        if agg.RelatedDatas ≠ [] then fail (DatasourceDataSourceDeleteFail (str "has related data table"))
        else c.deleteFrom req.DatasourceID (agg.Nodes.map (·.NodeID))

def Uses (nodeID id : Bytes) : Prop := ∃ t ∈ c.tables nodeID, t.1 = id

/-- A table on a node of the owner that holds the datasource uses it. -/
def InUse : Prop :=
  ∃ nodeID ∈ (c.service.listNodes req.OwnerID).1, (∃ d ∈ c.held nodeID, d.DatasourceID = req.DatasourceID) ∧ c.Uses nodeID req.DatasourceID

/-- The datasource is deleted from no node, and the call does not end well. -/
def Kept : Prop := (c.DeleteDatasource req).removed = [] ∧ (c.DeleteDatasource req).result ≠ .ok (some ())

/-- The request is one for a datasource that can be deleted, and there is a Kuscia to ask. -/
def Accepted : Prop :=
  req.OwnerID ≠ [] ∧ req.DatasourceID ≠ [] ∧ ToUpper c.unicode req.type ∈ [DatasourceTypeOSS, DatasourceTypeODPS, DatasourceTypeMySQL] ∧
    c.kusciaClient = true

def listed : List DatasourceListInfoAggregate :=
  let r := findRequest req.OwnerID [ToUpper c.unicode req.type]
  (c.service.aggregate r).filter (c.service.keeps r)

/-- The datasource as it stands among the first 1000 of these. -/
def target : Option DatasourceListInfoAggregate := (page (c.listed req) 1 1000).bind fun aggs => findAgg aggs req.DatasourceID

/-- A first look-up that succeeds, on a node of the list, finds a table with a name. -/
def Seen : Prop :=
  c.datatables = true ∧ ∃ a ∈ c.listed req, ∃ n ∈ a.Nodes, c.lookFails n.NodeID = false ∧
    ∃ t ∈ c.tables n.NodeID, t.1 = req.DatasourceID ∧ t.2 ≠ []

/-- The nodes are different, and for each the second look-up finds a table or the deletion fails. -/
def Spared (nodes : List Bytes) : Prop :=
  nodes.Nodup ∧ ∀ i n, nodes[i]? = some n →
    c.datatables = true ∧ c.lookAgainFails i = false ∧ c.Uses n req.DatasourceID ∨ (c.deleteError i).isSome = true

def Guarded : Prop := ¬ c.Accepted req ∨ c.Seen req ∨ ∀ a ∈ c.target req, c.Spared req (a.Nodes.map (·.NodeID))

end Cluster

theorem firstBy_sublist {α : Type} (key : α → Bytes) (seen : List Bytes) (l : List α) : (firstBy key seen l).Sublist l := by
  induction l generalizing seen with
  | nil => exact .slnil
  | cons x l ih =>
    rw [firstBy]
    split_ifs
    · exact (ih _).cons x
    · exact (ih _).cons_cons x

theorem mem_firstBy_id {seen l : List Bytes} {x : Bytes} : x ∈ firstBy id seen l ↔ x ∈ l ∧ x ∉ seen := by
  induction l generalizing seen with
  | nil => simp [firstBy]
  | cons y l ih =>
    by_cases hy : y ∈ seen
    · rw [firstBy, id, if_pos hy, ih, List.mem_cons]
      constructor
      · exact fun ⟨hx, hs⟩ => ⟨.inr hx, hs⟩
      · rintro ⟨rfl | hx, hs⟩
        · exact absurd hy hs
        · exact ⟨hx, hs⟩
    · rw [firstBy, id, if_neg hy, List.mem_cons, ih, List.mem_cons, List.mem_cons]
      by_cases hxy : x = y
      · subst hxy
        simp [hy]
      · simp [hxy]

theorem length_firstBy {α : Type} (key : α → Bytes) (seen : List Bytes) (l : List α) :
    (firstBy key seen l).length = l.length ↔ (l.map key).Nodup ∧ ∀ x ∈ l, key x ∉ seen := by
  induction l generalizing seen with
  | nil => simp [firstBy]
  | cons x l ih =>
    rw [firstBy]
    by_cases hx : key x ∈ seen
    · rw [if_pos hx]
      have hle := (firstBy_sublist key seen l).length_le
      constructor
      · intro h
        rw [List.length_cons] at h
        omega
      · exact fun h => absurd hx (h.2 x List.mem_cons_self)
    · rw [if_neg hx, List.length_cons, List.length_cons, Nat.succ_inj, ih, List.map_cons, List.nodup_cons, List.forall_mem_cons]
      constructor
      · rintro ⟨hnd, hseen⟩
        refine ⟨⟨fun hm => ?_, hnd⟩, hx, fun y hy hs => hseen y hy (List.mem_cons_of_mem _ hs)⟩
        obtain ⟨y, hy, he⟩ := List.mem_map.1 hm
        exact hseen y hy (he ▸ List.mem_cons_self)
      · rintro ⟨⟨hm, hnd⟩, -, hseen⟩
        refine ⟨hnd, fun y hy hs => ?_⟩
        rcases List.mem_cons.1 hs with he | hs
        · exact hm (he ▸ List.mem_map_of_mem hy)
        · exact hseen y hy hs

section
variable {nodes : List Bytes} {fn : Nat → Bytes → Option Bytes}

theorem forall_zipIdx {P : Bytes → Nat → Prop} : (∀ n ∈ nodes.zipIdx, P n.1 n.2) ↔ ∀ i n, nodes[i]? = some n → P n i := by
  constructor
  · intro h i n hn
    exact h (n, i) (List.mem_zipIdx_iff_getElem?.2 hn)
  · rintro h ⟨n, i⟩ hn
    exact h i n (List.mem_zipIdx_iff_getElem?.1 hn)

theorem length_fanOut : (fanOut nodes fn).length = nodes.length ↔ nodes.Nodup ∧ ∀ i n, nodes[i]? = some n → (fn i n).isSome = true := by
  have hkeys : ∀ l : List (Bytes × Nat), (l.filterMap fun n => (fn n.2 n.1).map fun msg => (n.1, msg)).map Prod.fst =
      (l.filter fun n => (fn n.2 n.1).isSome).map Prod.fst := by
    intro l
    induction l with
    | nil => rfl
    | cons n l ih => cases hn : fn n.2 n.1 <;> simp [hn, ih]
  have hfst : nodes.zipIdx.map Prod.fst = nodes := List.zipIdx_map_fst ..
  have hlen : nodes.zipIdx.length = nodes.length := List.length_zipIdx
  rw [← forall_zipIdx (P := fun n i => (fn i n).isSome = true), fanOut]
  generalize hF : (nodes.zipIdx.filterMap fun n => (fn n.2 n.1).map fun msg => (n.1, msg)) = F
  have hF' : F.map Prod.fst = (nodes.zipIdx.filter fun n => (fn n.2 n.1).isSome).map Prod.fst := hF ▸ hkeys _
  have hFlen : F.length = (nodes.zipIdx.filter fun n => (fn n.2 n.1).isSome).length := by
    rw [← List.length_map Prod.fst, hF', List.length_map]
  have hfirst := length_firstBy Prod.fst [] F.reverse
  rw [List.length_reverse, List.map_reverse, List.nodup_reverse, hF'] at hfirst
  constructor
  · intro h
    have hle := (firstBy_sublist Prod.fst [] F.reverse).length_le
    rw [List.length_reverse] at hle
    have hfilter := List.length_filter_le (fun n : Bytes × Nat => (fn n.2 n.1).isSome) nodes.zipIdx
    have hall := List.length_filter_eq_length_iff.1 (show (nodes.zipIdx.filter fun n => (fn n.2 n.1).isSome).length = _ by omega)
    have hnd := (hfirst.1 (by omega)).1
    rw [List.filter_eq_self.2 hall, hfst] at hnd
    exact ⟨hnd, hall⟩
  · rintro ⟨hnd, hall⟩
    rw [List.filter_eq_self.2 hall] at hfirst hFlen
    rw [hfst] at hfirst
    rw [hfirst.2 ⟨hnd, fun x _ => List.not_mem_nil⟩, hFlen, hlen]
end

theorem page_map {α β : Type} (f : α → β) (l : List α) (number size : Int64) : page (l.map f) number size = (page l number size).map (List.map f) := by
  unfold page Paging.slice
  simp only [List.length_map]
  split_ifs <;> simp [List.map_take, List.map_drop]

theorem distinctStrings_ne_nil {l : List Bytes} : distinctStrings l ≠ [] ↔ ∃ x ∈ l, x ≠ [] := by
  rw [Ne, List.eq_nil_iff_forall_not_mem, not_forall]
  exact exists_congr fun x => by rw [not_not, distinctStrings, mem_firstBy_id, List.mem_singleton]

theorem findAgg_map {f : DatasourceListInfoAggregate → DatasourceListInfoAggregate} (hf : ∀ a, (f a).DatasourceID = a.DatasourceID)
    (l : List DatasourceListInfoAggregate) (id : Bytes) : findAgg (l.map f) id = (findAgg l id).map f := by
  rw [findAgg, findAgg, List.find?_map]
  congr 2
  exact funext fun a => congrArg (fun x => decide (x = id)) (hf a)

theorem foldl_addNode {names : List NodeDO} {items : List DatasourceListInfoUnAggregate} {aggs : List DatasourceListInfoAggregate}
    (h : ∀ a ∈ aggs, a.Nodes ≠ [] ∧ a.RelatedDatas = []) :
    ∀ a ∈ items.foldl (DatasourceService.addNode names) aggs, a.Nodes ≠ [] ∧ a.RelatedDatas = [] := by
  induction items generalizing aggs with
  | nil => exact h
  | cons it items ih =>
    refine ih fun a ha => ?_
    unfold DatasourceService.addNode at ha
    split_ifs at ha with hany
    · obtain ⟨b, hb, rfl⟩ := List.mem_map.1 ha
      split_ifs with hid
      · exact ⟨by simp, (h b hb).2⟩
      · exact h b hb
    · rcases List.mem_append.1 ha with ha | ha
      · exact h a ha
      · rw [List.mem_singleton.1 ha]
        exact ⟨List.cons_ne_nil _ _, rfl⟩

namespace Cluster

variable (c : Cluster) (req : DeleteDatasourceRequest)

theorem attach_eq (aggs : List DatasourceListInfoAggregate) : ∃ f, c.service.attachRelatedDatas aggs = aggs.map f ∧
    (∀ a, (f a).DatasourceID = a.DatasourceID ∧ (f a).Nodes = a.Nodes) ∧
    ∀ a, a.RelatedDatas = [] → ((f a).RelatedDatas ≠ [] ↔ c.datatables = true ∧ ∃ b ∈ aggs, ∃ n ∈ b.Nodes, c.lookFails n.NodeID = false ∧
      ∃ t ∈ c.tables n.NodeID, t.1 = a.DatasourceID ∧ t.2 ≠ []) := by
  unfold DatasourceService.attachRelatedDatas
  cases hd : c.datatables with
  | false => exact ⟨id, by simp [service, hd], fun a => ⟨rfl, rfl⟩, fun a ha => by simp [ha]⟩
  | true =>
    have htables : c.service.tablesOf = some fun nodes => (nodes.filter fun n => !c.lookFails n).flatMap c.tables := by simp [service, hd]
    rw [htables]
    refine ⟨_, rfl, fun a => ?_, fun a ha => ?_⟩
    · dsimp only
      split_ifs <;> exact ⟨rfl, rfl⟩
    · dsimp only
      generalize hn : (List.filter _ _).map Prod.snd = names
      have hmem : ∀ x, x ∈ names ↔ ∃ b ∈ aggs, ∃ n ∈ b.Nodes, c.lookFails n.NodeID = false ∧ ∃ t ∈ c.tables n.NodeID, t.1 = a.DatasourceID ∧ t.2 = x := by
        intro x
        rw [← hn]
        simp only [List.mem_map, List.mem_filter, List.mem_flatMap, List.mem_insertionSort, mem_firstBy_id, decide_eq_true_eq,
          Bool.not_eq_true', List.not_mem_nil, not_false_eq_true, and_true]
        constructor
        · rintro ⟨t, ⟨⟨n, ⟨⟨b, hb, m, hm, rfl⟩, hlook⟩, ht⟩, hid⟩, rfl⟩
          exact ⟨b, hb, m, hm, hlook, t, ht, hid, rfl⟩
        · rintro ⟨b, hb, m, hm, hlook, t, ht, hid, rfl⟩
          exact ⟨t, ⟨⟨m.NodeID, ⟨⟨b, hb, m, hm, rfl⟩, hlook⟩, ht⟩, hid⟩, rfl⟩
      have hrel : ((if names = [] then a else { a with RelatedDatas := distinctStrings names }).RelatedDatas ≠ []) ↔ ∃ x ∈ names, x ≠ [] := by
        by_cases hnil : names = []
        · simp [hnil, ha]
        · rw [if_neg hnil]
          exact distinctStrings_ne_nil
      rw [hrel]
      constructor
      · rintro ⟨x, hx, hne⟩
        obtain ⟨b, hb, n, hn, hlook, t, ht, hid, rfl⟩ := (hmem x).1 hx
        exact ⟨rfl, b, hb, n, hn, hlook, t, ht, hid, hne⟩
      · rintro ⟨-, b, hb, n, hn, hlook, t, ht, hid, hne⟩
        exact ⟨t.2, (hmem _).2 ⟨b, hb, n, hn, hlook, t, ht, hid, rfl⟩, hne⟩

theorem deleteAt_isSome {id nodeID : Bytes} {i : Nat} : (c.deleteAt id i nodeID).isSome = true ↔
    c.datatables = true ∧ c.lookAgainFails i = false ∧ c.Uses nodeID id ∨ (c.deleteError i).isSome = true := by
  unfold deleteAt Uses
  split_ifs with h
  · simp only [Bool.and_eq_true, Bool.not_eq_true', List.any_eq_true, decide_eq_true_eq] at h
    exact iff_of_true rfl (.inl ⟨h.1.1, h.1.2, h.2⟩)
  · simp only [Bool.and_eq_true, Bool.not_eq_true', List.any_eq_true, decide_eq_true_eq] at h
    exact ⟨.inr, fun h' => h'.resolve_left fun hu => h ⟨⟨hu.1, hu.2.1⟩, hu.2.2⟩⟩

theorem deleteFrom_kept {nodes : List Bytes} (hne : nodes ≠ []) :
    ((c.deleteFrom req.DatasourceID nodes).removed = [] ∧ (c.deleteFrom req.DatasourceID nodes).result ≠ .ok (some ())) ↔ c.Spared req nodes := by
  have hspared : (fanOut nodes (c.deleteAt req.DatasourceID)).length = nodes.length ↔ c.Spared req nodes := by
    rw [length_fanOut]
    exact and_congr_right fun _ => forall_congr' fun i => forall_congr' fun n => imp_congr_right fun _ => c.deleteAt_isSome
  rw [← hspared, deleteFrom]
  split_ifs with h
  · refine iff_of_true ⟨?_, nofun⟩ h.2
    obtain ⟨-, hall⟩ := length_fanOut.1 h.2
    have hsome := (forall_zipIdx (P := fun n i => (c.deleteAt req.DatasourceID i n).isSome = true)).2 hall
    have hnil : (nodes.zipIdx.filter fun n => (c.deleteAt req.DatasourceID n.2 n.1).isNone) = [] :=
      List.filter_eq_nil_iff.2 fun n hn hnone => absurd (hsome n hn) (by simp [Option.isNone_iff_eq_none.1 hnone])
    show List.map Prod.fst _ = []
    rw [hnil]
    rfl
  · exact iff_of_false (fun h' => h'.2 rfl) fun h' => h ⟨List.length_pos_iff.2 hne, h'⟩

theorem kept_fail (e : Err) : (fail e).removed = [] ∧ (fail e).result ≠ .ok (some ()) := ⟨rfl, nofun⟩

theorem kept_of_not_accepted (h : ¬ c.Accepted req) : c.Kept req := by
  unfold Kept DeleteDatasource
  dsimp only
  by_cases h1 : req.OwnerID = [] ∨ req.DatasourceID = [] ∨ ToUpper c.unicode req.type = []
  · rw [if_pos h1]
    exact kept_fail _
  rw [if_neg h1]
  by_cases h2 : ToUpper c.unicode req.type ∈ [DatasourceTypeOSS, DatasourceTypeODPS, DatasourceTypeMySQL]
  · have h3 : ¬ c.kusciaClient = true := fun h3 => h ⟨fun ho => h1 (.inl ho), fun hid => h1 (.inr (.inl hid)), h2, h3⟩
    rw [if_neg (not_not.2 h2), if_pos (by simpa using h3)]
    exact kept_fail _
  · rw [if_pos h2]
    exact kept_fail _

theorem findAll_eq (h : req.OwnerID ≠ []) : c.findAll req.OwnerID [ToUpper c.unicode req.type] =
    .ok (page (c.service.attachRelatedDatas (c.listed req)) 1 1000) := by
  unfold findAll DatasourceService.ListDatasources
  rw [if_neg (show ¬ (findRequest req.OwnerID [ToUpper c.unicode req.type]).OwnerID = [] from h)]
  show Except.ok (Option.map _ (Option.map _ (page _ 1 1000))) = _
  rw [Option.map_map]
  exact congrArg Except.ok Option.map_id'

theorem keeps_iff : c.Kept req ↔ c.Guarded req := by
  by_cases hacc : c.Accepted req
  · obtain ⟨howner, hid, htype, hclient⟩ := hacc
    have hblank : ToUpper c.unicode req.type ≠ [] := by
      intro h
      rw [h] at htype
      exact absurd htype (by decide)
    obtain ⟨f, hattach, hsame, hrel⟩ := c.attach_eq (c.listed req)
    have hlisted : ∀ a ∈ c.listed req, a.Nodes ≠ [] ∧ a.RelatedDatas = [] := fun a ha =>
      foldl_addNode (fun _ h => absurd h List.not_mem_nil) a (List.mem_filter.1 ha).1
    unfold Kept Guarded DeleteDatasource
    dsimp only
    rw [if_neg (by simp [howner, hid, hblank]), if_neg (not_not.2 htype), if_neg (by simp [hclient]), findAll_eq c req howner, hattach, page_map]
    rw [or_iff_right (not_not.2 ⟨howner, hid, htype, hclient⟩)]
    unfold target
    cases hpage : page (c.listed req) 1 1000 with
    | none => exact iff_of_true ⟨rfl, nofun⟩ (.inr nofun)
    | some aggs =>
      dsimp only [Option.map_some, Option.bind_some]
      rw [findAgg_map fun a => (hsame a).1]
      cases hfind : findAgg aggs req.DatasourceID with
      | none => exact iff_of_true (kept_fail _) (.inr nofun)
      | some a =>
        have hmem : a ∈ c.listed req := by
          have hsub : aggs ⊆ c.listed req := by
            unfold page Paging.slice at hpage
            dsimp only at hpage
            split_ifs at hpage <;>
              exact Option.some.inj hpage ▸ fun x hx => List.mem_of_mem_take (List.mem_of_mem_drop hx)
          exact hsub (List.mem_of_find?_eq_some hfind)
        have hida : a.DatasourceID = req.DatasourceID := by simpa using List.find?_some hfind
        have hseen : (f a).RelatedDatas ≠ [] ↔ c.Seen req := by
          rw [hrel a (hlisted a hmem).2, hida]
          rfl
        dsimp only [Option.map_some]
        by_cases hs : c.Seen req
        · rw [if_pos (hseen.2 hs)]
          exact iff_of_true (kept_fail _) (.inl hs)
        · rw [if_neg (mt hseen.1 hs), or_iff_right hs, (hsame a).2, c.deleteFrom_kept req (by simpa using (hlisted a hmem).1)]
          simp
  · exact iff_of_true (c.kept_of_not_accepted req hacc) (.inl hacc)

/-- A datasource in use is deleted nowhere and the call does not end well, in every case in which the failures leave it guarded and in no other. -/
theorem delete_safe_iff : (c.InUse req → c.Kept req) ↔ (c.InUse req → c.Guarded req) := imp_congr_right fun _ => c.keeps_iff req

end Cluster

def unseen : Cluster where
  unicode := .asciiCase
  isAutonomy := false
  db := none
  kusciaClient := true
  datatables := true
  held _ := [⟨str "alice", str "oss-a", str "a", str "OSS", []⟩]
  tables _ := [(str "oss-a", str "t1")]
  listError _ := none
  lookFails _ := true
  lookAgainFails _ := true
  deleteError _ := none

theorem unseen_deleted : unseen.InUse ⟨str "alice", str "oss-a", str "OSS"⟩ ∧
    unseen.DeleteDatasource ⟨str "alice", str "oss-a", str "OSS"⟩ = ⟨.ok (some ()), [str "alice"], some [str "alice"]⟩ := by
  refine ⟨⟨str "alice", ?_, ⟨_, List.mem_singleton_self _, rfl⟩, ⟨_, List.mem_singleton_self _, rfl⟩⟩, ?_⟩
  · decide
  · rfl

end Deletion
