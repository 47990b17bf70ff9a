import Privahub.Lib.Paging
import Privahub.Tee.Calls

/-!
# Lists that are paged in memory

`ListDatatablesByOwnerID`, `ListDatasources` and `ListProjects` collect and filter the whole list and cut the page of the request out of it.
The page number and the size are 64-bit numbers that no check bounds: `listings_cut` says which of them make the cut panic and which pages are those
of the list. What the database, the Kuscias and their nodes answer is part of a service.
-/

namespace Listing

open Node (Err NodeDO)
open Graph (EqualFold Operator)
open Tee (ToUpper)
open Paging (page pages InRange Right)

universe u
variable {α β : Type u}

def StatusAvailable : Bytes := str "Available"
def StatusUnavailable : Bytes := str "UnAvailable"
def DatasourceTypeHTTP : Bytes := str "HTTP"
def DefaultHTTPDatasourceID : Bytes := str "http-data-source"
def DefaultHTTPDatasourceName : Bytes := str "http-data-source"

/-- What a call comes to: an error, a result or, as `none`, a panic. -/
abbrev Outcome (α : Type u) := Except Err (Option α)

/-- The first of the elements with each key, without those with a key of `seen`. -/
def firstBy (key : α → Bytes) : List Bytes → List α → List α
  | _, [] => []
  | seen, x :: xs => if key x ∈ seen then firstBy key seen xs else x :: firstBy key (key x :: seen) xs

def distinctStrings (l : List Bytes) : List Bytes := firstBy id [[]] l

/-- `strings.Contains`. -/
def Contains (s sub : Bytes) : Bool := decide (sub <:+: s)

structure ListDatatableRequest where
  PageSize : Int64
  PageNumber : Int64
  NodeNamesFilter : List Bytes
  StatusFilter : Bytes
  DatatableNameFilter : Option Bytes
  Types : List Bytes
  OwnerID : Bytes
  TeeNodeID : Bytes

structure DatatableDTO where
  DatatableID : Bytes
  DatatableName : Bytes
  Status : Bytes
  DatasourceType : Bytes
  deriving DecidableEq

structure DatatableNodeVO (α : Type u) where
  DatatableVO : α
  NodeID : Bytes
  NodeName : Bytes

structure AllDatatableListVO (α : Type u) where
  DatatableNodeVOList : List (DatatableNodeVO α)
  TotalDatatableNums : Nat

/-- `readyInstNodes` are the nodes that the node service knows to be ready, if there is one; `toVO` adds the projects and the TEE state that the
database has for the tables of a node. -/
structure DatatableService (α : Type u) where
  unicode : CaseTables
  IsAutonomy : Bool
  GetInstID : Bytes
  db : Option (List NodeDO)
  readyInstNodes : Option (Bytes → List NodeDO)
  kusciaDatatables : Bytes → Except Err (List DatatableDTO)
  featureDatatables : Bytes → List DatatableDTO
  teeNodeID : Bytes
  toVO : (nodeID teeDomain : Bytes) → (filtered : List DatatableDTO) → DatatableDTO → α

namespace DatatableService

variable (s : DatatableService α) (req : ListDatatableRequest)

def listNodeIDs : List Bytes :=
  match s.IsAutonomy, s.db with
  | true, some nodes =>
    let instID := if s.GetInstID = [] then req.OwnerID else s.GetInstID
    let named (l : List NodeDO) := l.filter fun n => decide (req.NodeNamesFilter = []) || decide (n.name ∈ req.NodeNamesFilter)
    match s.readyInstNodes with
    | some ready => distinctStrings ((named (ready instID)).map (·.nodeId))
    | none => distinctStrings ((named (nodes.filter fun n => decide (n.instId = instID))).map (·.nodeId))
  | _, _ => [req.OwnerID]

def nodeName (nodeID : Bytes) : Bytes := ((s.db.getD []).find? fun n => decide (n.nodeId = nodeID)).elim [] (·.name)

def teeDomain : Bytes := if Utf8.trimSpace req.TeeNodeID ≠ [] then req.TeeNodeID else s.teeNodeID

def keeps (d : DatatableDTO) : Bool :=
  !((EqualFold s.unicode req.StatusFilter StatusAvailable || EqualFold s.unicode req.StatusFilter StatusUnavailable) &&
    !EqualFold s.unicode req.StatusFilter d.Status) &&
  req.DatatableNameFilter.all (Contains d.DatatableName) &&
  (decide (req.Types = []) || decide (d.DatasourceType ∈ req.Types))

def listDatatablesByNodeID (nodeID : Bytes) : List α × Option Err :=
  let (dtos, kerr) := match s.kusciaDatatables nodeID with
    | .ok dtos => (dtos, none)
    | .error e => ([], some e)
  let filtered := (firstBy (·.DatatableID) [] (dtos ++ s.featureDatatables nodeID)).filter (s.keeps req)
  (filtered.map (s.toVO nodeID (s.teeDomain req) filtered), kerr)

/-- The tables of all nodes, in the order of the nodes. -/
def all : List (DatatableNodeVO α) := (s.listNodeIDs req).flatMap fun nodeID =>
  (s.listDatatablesByNodeID req nodeID).1.map fun vo => ⟨vo, nodeID, if s.nodeName nodeID = [] then nodeID else s.nodeName nodeID⟩

def ListDatatablesByOwnerID : Outcome (AllDatatableListVO α) :=
  if req.OwnerID = [] then .error (.ParamError (str "ownerId cannot be blank"))
  else
    let all := s.all req
    let total := ((s.listNodeIDs req).map fun nodeID => (s.listDatatablesByNodeID req nodeID).1.length).sum
    let number := if req.PageNumber ≤ 0 then 1 else req.PageNumber
    let size := if req.PageSize ≤ 0 then Int64.ofNat all.length else req.PageSize
    .ok ((page all number size).map fun list => ⟨list, total⟩)

end DatatableService

structure DatasourceListRequest where
  OwnerID : Bytes
  Name : Bytes
  Status : Bytes
  Types : List Bytes
  Page : Int64
  Size : Int64

structure DataSourceRelatedNode where
  NodeID : Bytes
  NodeName : Bytes
  Status : Bytes
  deriving DecidableEq

structure DatasourceListInfoAggregate where
  Nodes : List DataSourceRelatedNode
  DatasourceID : Bytes
  Name : Bytes
  type : Bytes
  RelatedDatas : List Bytes
  deriving DecidableEq

structure DatasourceListInfoUnAggregate where
  NodeID : Bytes
  DatasourceID : Bytes
  Name : Bytes
  type : Bytes
  Status : Bytes

structure DatasourceListVO where
  Infos : List DatasourceListInfoAggregate
  PageSize : Int64
  PageNum : Int64
  Total : Int64
  TotalPage : Int64

structure DomainDataSource where
  DomainID : Bytes
  DatasourceID : Bytes
  Name : Bytes
  type : Bytes
  Status : Bytes

/-- `tablesOf` are the tables that some nodes answer with, each with its datasource, in the order in which the answers come. -/
structure DatasourceService where
  unicode : CaseTables
  isAutonomy : Bool
  db : Option (List NodeDO)
  kuscia : Option (Bytes → Except Err (List DomainDataSource))
  tablesOf : Option (List Bytes → List (Bytes × Bytes))

namespace DatasourceService

variable (s : DatasourceService) (req : DatasourceListRequest)

def filterKusciaType (types : List Bytes) : Bool × Bool :=
  if types = [] then (true, true)
  else (types.any fun t => decide (ToUpper s.unicode t ≠ DatasourceTypeHTTP), types.any fun t => decide (ToUpper s.unicode t = DatasourceTypeHTTP))

def ListNodeDatasources (nodeID : Bytes) (types : List Bytes) : Except Err (List DatasourceListInfoUnAggregate) := do
  let (listKuscia, listHTTP) := s.filterKusciaType types
  let out ← if listKuscia then
      match s.kuscia with
      | none => .error ⟨202012101, str "kuscia.RPC_ERROR", str "kuscia client not configured"⟩
      | some list => (list nodeID).map fun l => l.map fun d =>
        ⟨if d.DomainID = [] then nodeID else d.DomainID, d.DatasourceID, d.Name, ToUpper s.unicode d.type,
          if d.Status = [] then StatusAvailable else d.Status⟩
    else .ok []
  .ok (if listHTTP then out ++ [⟨nodeID, DefaultHTTPDatasourceID, DefaultHTTPDatasourceName, DatasourceTypeHTTP, StatusAvailable⟩] else out)

def listNodes (ownerID : Bytes) : List Bytes × List NodeDO :=
  match s.isAutonomy, s.db with
  | true, some nodes =>
    let own := nodes.filter fun n => decide (n.instId = ownerID)
    (own.map (·.nodeId), own)
  | _, db => ([ownerID], ((db.getD []).find? fun n => decide (n.nodeId = ownerID)).toList)

def nameOf (names : List NodeDO) (nodeID : Bytes) : Bytes := (names.reverse.find? fun n => decide (n.nodeId = nodeID)).elim [] (·.name)

def addNode (names : List NodeDO) (aggs : List DatasourceListInfoAggregate) (it : DatasourceListInfoUnAggregate) :
    List DatasourceListInfoAggregate :=
  let node : DataSourceRelatedNode := ⟨it.NodeID, nameOf names it.NodeID, it.Status⟩
  if aggs.any fun a => decide (a.DatasourceID = it.DatasourceID) then
    aggs.map fun a => if a.DatasourceID = it.DatasourceID then { a with Nodes := a.Nodes ++ [node] } else a
  else aggs ++ [⟨[node], it.DatasourceID, it.Name, it.type, []⟩]

def aggregate : List DatasourceListInfoAggregate :=
  let (nodeIDs, names) := s.listNodes req.OwnerID
  (nodeIDs.flatMap fun nodeID => ((s.ListNodeDatasources nodeID req.Types).toOption).getD []).foldl (addNode names) []

def keeps (a : DatasourceListInfoAggregate) : Bool :=
  (decide (req.Name = []) || Contains a.Name req.Name) &&
  (decide (req.Types = []) || decide (ToUpper s.unicode a.type ∈ req.Types)) &&
  (decide (req.Status = []) || a.Nodes.any fun n => EqualFold s.unicode n.Status req.Status)

def attachRelatedDatas (aggs : List DatasourceListInfoAggregate) : List DatasourceListInfoAggregate :=
  match s.tablesOf with
  | none => aggs
  | some tablesOf =>
    let nodes := firstBy id [] (aggs.flatMap fun a => a.Nodes.map (·.NodeID))
    let tables := tablesOf (nodes.insertionSort fun a b => decide (a ≤ b))
    aggs.map fun a =>
      let names := (tables.filter fun t => decide (t.1 = a.DatasourceID)).map Prod.snd
      if names = [] then a else { a with RelatedDatas := distinctStrings names }

def filtered : List DatasourceListInfoAggregate := s.attachRelatedDatas ((s.aggregate req).filter (s.keeps req))

def ListDatasources : Outcome DatasourceListVO :=
  if req.OwnerID = [] then .error (.ParamError (str "ownerId id cannot be blank"))
  else
    let number := if req.Page ≤ 0 then 1 else req.Page
    let size := if req.Size ≤ 0 then 10 else req.Size
    let filtered := s.filtered req
    let total := Int64.ofNat filtered.length
    let totalPage := total / size + if total % size ≠ 0 then 1 else 0
    .ok ((page filtered number size).map fun infos => ⟨infos, size, number, total, totalPage⟩)

end DatasourceService

structure ProjectListResponse (α : Type u) where
  Projects : List α
  Total : Int64
  Page : Int64
  Size : Int64

/-- `EscapeLike`, between two wildcards. -/
def likeContains (s : Bytes) : Bytes := 37 :: s.flatMap (fun b => if b = 33 ∨ b = 37 ∨ b = 95 then [33, b] else [b]) ++ [37]

/-- `find` are the rows of a query by the node that has a part in the projects and the pattern of their names, newest first. -/
structure ProjectService (α : Type u) (β : Type u) where
  unicode : CaseTables
  find : (node pattern : Option Bytes) → Except Err (List β)
  toProjectVO : β → α

namespace ProjectService

variable (s : ProjectService α β)

def ListAllProjects (op : Operator) (name : Bytes) : Except Err (List α) :=
  let node := if EqualFold s.unicode op.ownerType (str "EDGE") && decide (op.ownerId ≠ []) then some op.ownerId else none
  (s.find node (if name ≠ [] then some (likeContains name) else none)).map fun rows => rows.map s.toProjectVO

def ListProjects (op : Operator) (number size : Int64) (name : Bytes) : Outcome (ProjectListResponse α) :=
  match s.ListAllProjects op name with
  | .error e => .error e
  | .ok all =>
    let number := if number < 1 then 1 else number
    let size := if size < 1 then 10 else size
    .ok ((page all number size).map fun projects => ⟨projects, Int64.ofNat all.length, number, size⟩)

end ProjectService

/-- The page a request is for, and its size when the list is shown in pages of `dflt` by default. -/
def pageNumber (p : Int64) : Int64 := if p ≤ 0 then 1 else p

def pageSize (dflt z : Int64) : Int64 := if z ≤ 0 then dflt else z

def shown (items : β → List α) : Outcome β → Option (List α)
  | .ok r => r.map items
  | .error _ => none

/-- What is shown of a list for every page number and size. -/
structure Cut (all : List α) (dflt : Int64) (items : β → List α) (list : Int64 → Int64 → Outcome β) : Prop where
  panics : ∀ p z, list p z = .ok none ↔ ¬ InRange all.length (pageNumber p).toInt (pageSize dflt z).toInt
  ordered : ∀ z, 0 < z → ∀ k < 2 ^ 63, pages (fun p => shown items (list p z)) k = some (all.take (k * z.toInt.toNat)) ↔
    ∀ i < k, Right all.length (i + 1) z.toInt

theorem toInt_pageNumber (p : Int64) : 1 ≤ (pageNumber p).toInt := by
  unfold pageNumber
  split_ifs with h
  · exact le_of_eq Int64.toInt_one.symm
  · rw [Int64.le_iff_toInt_le, Int64.toInt_zero] at h
    omega

theorem toInt_pageSize {dflt : Int64} (h : 0 ≤ dflt.toInt) (z : Int64) : 0 ≤ (pageSize dflt z).toInt := by
  unfold pageSize
  split_ifs with hz
  · exact h
  · rw [Int64.le_iff_toInt_le, Int64.toInt_zero] at hz
    omega

theorem cut_of_page {all : List α} {dflt : Int64} {items : β → List α} {list : Int64 → Int64 → Outcome β}
    {c : Int64 → Int64 → List α → β} (hlist : ∀ p z, list p z = .ok ((page all (pageNumber p) (pageSize dflt z)).map (c p z)))
    (hc : ∀ p z l, items (c p z l) = l) (hn : all.length < 2 ^ 63) (hd : 0 ≤ dflt.toInt) : Cut all dflt items list where
  panics p z := by
    rw [hlist, ← Paging.page_eq_none_iff hn (toInt_pageNumber p) (toInt_pageSize hd z), Except.ok.injEq, Option.map_eq_none_iff]
  ordered z hz k hk := by
    have hpos : 0 < z.toInt := by rwa [Int64.lt_iff_toInt_lt, Int64.toInt_zero] at hz
    have hsize : pageSize dflt z = z := if_neg (Int64.not_le.2 hz)
    have hcast : z.toInt = (z.toInt.toNat : Int) := by omega
    have hpages : pages (fun p => shown items (list p z)) k = pages (fun p => page all p z) k := by
      refine Paging.pages_congr fun i hi => ?_
      have hnum : pageNumber (Int64.ofNat (i + 1)) = Int64.ofNat (i + 1) := by
        refine if_neg fun h => ?_
        rw [Int64.le_iff_toInt_le, Int64.toInt_zero, Paging.toInt_ofNat_succ (by omega)] at h
        omega
      rw [hlist, hnum, hsize, shown, Option.map_map]
      cases page all (Int64.ofNat (i + 1)) z with
      | none => rfl
      | some l => exact congrArg some (hc _ z l)
    rw [hpages, Paging.pages_eq_take_iff hn hcast (by omega) hk, ← hcast]

/-- For lists that fit into memory: which requests panic, and which pages, from the first on, are the filtered list in order. -/
theorem listings_cut :
    (∀ (s : DatatableService α) req, req.OwnerID ≠ [] → (s.all req).length < 2 ^ 63 →
      Cut (s.all req) (Int64.ofNat (s.all req).length) AllDatatableListVO.DatatableNodeVOList fun p z =>
        s.ListDatatablesByOwnerID { req with PageNumber := p, PageSize := z }) ∧
    (∀ (s : DatasourceService) req, req.OwnerID ≠ [] → (s.filtered req).length < 2 ^ 63 →
      Cut (s.filtered req) 10 DatasourceListVO.Infos fun p z => s.ListDatasources { req with Page := p, Size := z }) ∧
    (∀ (s : ProjectService α β) op name all, s.ListAllProjects op name = .ok all → all.length < 2 ^ 63 →
      Cut all 10 ProjectListResponse.Projects fun p z => s.ListProjects op p z name) := by
  refine ⟨fun s req howner hn => ?_, fun s req howner hn => ?_, fun s op name all hall hn => ?_⟩
  · have hd : 0 ≤ (Int64.ofNat (s.all req).length).toInt := by
      rw [Int64.toInt_ofNat_of_lt hn]
      exact Int.natCast_nonneg _
    exact cut_of_page (fun p z => if_neg howner) (fun _ _ _ => rfl) hn hd
  · exact cut_of_page (fun p z => if_neg howner) (fun _ _ _ => rfl) hn (by decide)
  · refine cut_of_page (c := fun p z l => ⟨l, Int64.ofNat all.length, pageNumber p, pageSize 10 z⟩) (fun p z => ?_) (fun _ _ _ => rfl) hn
      (by decide)
    have hone : ∀ x : Int64, x < 1 ↔ x ≤ 0 := by
      intro x
      rw [Int64.lt_iff_toInt_lt, Int64.le_iff_toInt_le, Int64.toInt_one, Int64.toInt_zero]
      omega
    simp only [ProjectService.ListProjects, hall, hone]
    rfl

def threeProjects : ProjectService Nat Nat := ⟨.asciiCase, fun _ _ => .ok [1, 2, 3], id⟩

/-- A start that wraps to a negative number is out of range, and one that wraps to zero shows the first page again. -/
theorem third_page_panics : threeProjects.ListProjects ⟨[], []⟩ 3 4611686018427387904 [] = .ok none ∧
    shown ProjectListResponse.Projects (threeProjects.ListProjects ⟨[], []⟩ 5 4611686018427387904 []) = some [1, 2, 3] :=
  ⟨rfl, rfl⟩

theorem two_pages_of_three :
    pages (fun p => shown ProjectListResponse.Projects (threeProjects.ListProjects ⟨[], []⟩ p 2 [])) 2 = some [1, 2, 3] := by
  have hcut := listings_cut.2.2 threeProjects ⟨[], []⟩ [] [1, 2, 3] rfl (by decide)
  refine (hcut.ordered 2 (by decide) 2 (by decide)).2 fun i hi => ?_
  have hi : i = 0 ∨ i = 1 := by omega
  rcases hi with rfl | rfl <;> decide

end Listing
