import Privahub.Lib.InsertionSort
import Privahub.Web.GraphModel

/-!
# The chain of components that a model is submitted with

`computeModelChain`: for a training component or a prediction, the preprocessing before it, the postprocessing after it, and for a
prediction the component that trained the model. `chain_right_iff` says for which canvases the lists are in topological order and the
training component is a nearest one; both depend on the order in which the nodes are listed.
-/

namespace Web.ModelChain

inductive DAGNodeStatus
  | ready
  | pending
  | running
  | success
  | failed
  | staging
  | stopped
  deriving DecidableEq

structure ResultOutput where
  id : Bytes
  type : Bytes
  deriving DecidableEq

/-- `domain` is that of the node definition; a node without results has none of them. -/
structure DAGNode where
  id : Bytes
  codeName : Option Bytes
  domain : Option Bytes
  resultOutputs : List ResultOutput
  deriving DecidableEq

structure Chain where
  modelNode : List DAGNode
  preNodes : List DAGNode
  predictNode : List DAGNode
  postNodes : List DAGNode
  deriving DecidableEq

def splitCodeName (codeName : Option Bytes) : Bytes :=
  let c := codeName.getD []
  if c = [] then str "unknown"
  else if 47 ∈ c then (c.reverse.dropWhile (· ≠ 47)).tail.reverse
  else c

def domainOf (n : DAGNode) : Bytes := if n.domain.getD [] = [] then splitCodeName n.codeName else n.domain.getD []

def preds (edges : List DAGEdge) (id : Bytes) : List Bytes := (edges.filter fun e => e.target == id).map DAGEdge.source

def ancestors (id : Bytes) (edges : List DAGEdge) : List Bytes := Search.closure (preds edges) (edges.length + 1) [] [id]

def descendants (id : Bytes) (edges : List DAGEdge) : List Bytes := Search.closure (adj edges) (edges.length + 1) [] [id]

def isTable (n : DAGNode) (e : DAGEdge) : Bool :=
  let tableOutputs := (n.resultOutputs.filter fun o => decide (o.type = str "table")).map (·.id)
  tableOutputs.isEmpty || decide (e.sourceAnchor.getD [] = [] ∨ e.sourceAnchor.getD [] ∈ tableOutputs)

def lookup (nodes : List DAGNode) (id : Bytes) : Option DAGNode := nodes.find? fun n => decide (n.id = id)

/-- The edges of `n` in turn, as far as the first one on a path to the goal; the ids seen so far are passed on. -/
def tableLoop (nodes : List DAGNode) (goal : Bytes) (n : DAGNode) (visit : DAGNode → List Bytes → Bool × List Bytes) :
    List DAGEdge → List Bytes → Bool × List Bytes
  | [], seen => (false, seen)
  | e :: es, seen =>
    if isTable n e = false then tableLoop nodes goal n visit es seen
    else if e.target = goal then (true, seen)
    else match lookup nodes e.target with
      | none => tableLoop nodes goal n visit es seen
      | some next => match visit next seen with
        | (true, seen') => (true, seen')
        | (false, seen') => tableLoop nodes goal n visit es seen'

def tableSearch (nodes : List DAGNode) (edges : List DAGEdge) (goal : Bytes) : Nat → DAGNode → List Bytes → Bool × List Bytes
  | 0, _, seen => (false, seen)
  | k + 1, n, seen =>
    if n.id ∈ seen then (false, seen)
    else tableLoop nodes goal n (tableSearch nodes edges goal k) (edges.filter fun e => decide (e.source = n.id)) (n.id :: seen)

def tablePathExists (n goal : DAGNode) (nodes : List DAGNode) (edges : List DAGEdge) : Bool :=
  (tableSearch nodes edges goal.id (nodes.length + 1) n []).1

def order (edges : List DAGEdge) (a b : DAGNode) : Int :=
  if a.id ∈ ancestors b.id edges then -1 else if b.id ∈ ancestors a.id edges then 1 else 0

def sortNodes (edges : List DAGEdge) (l : List DAGNode) : List DAGNode := InsertionSort.sort (fun x y => decide (0 < order edges y x)) l

def isTrain (edges : List DAGEdge) (selected n : DAGNode) : Bool :=
  decide (n.id ∈ ancestors selected.id edges) && decide (domainOf n = str "ml.train")

def isPre (nodes : List DAGNode) (edges : List DAGEdge) (statusOf : DAGNode → DAGNodeStatus) (selected n : DAGNode) : Bool :=
  decide (n.id ∈ ancestors selected.id edges) && decide (statusOf n = .success) && decide (domainOf n = str "preprocessing") &&
    tablePathExists n selected nodes edges

def isPost (edges : List DAGEdge) (statusOf : DAGNode → DAGNodeStatus) (selected n : DAGNode) : Bool :=
  decide (n.id ∈ descendants selected.id edges) && decide (statusOf n = .success) && decide (domainOf n = str "postprocessing")

def computeModelChain (selectedId : Bytes) (nodes : List DAGNode) (edges : List DAGEdge) (statusOf : DAGNode → DAGNodeStatus) : Chain :=
  match lookup nodes selectedId with
  | none => ⟨[], [], [], []⟩
  | some selected =>
    let d := domainOf selected
    if d ≠ str "ml.train" ∧ d ≠ str "ml.predict" then ⟨[], [], [], []⟩
    else
      { modelNode := if d = str "ml.train" then [selected] else (nodes.filter (isTrain edges selected)).getLast?.toList
        predictNode := if d = str "ml.train" then [] else [selected]
        preNodes := sortNodes edges (nodes.filter (isPre nodes edges statusOf selected))
        postNodes := sortNodes edges (nodes.filter (isPost edges statusOf selected)) }

open Relation (TransGen)

variable {nodes : List DAGNode} {edges es : List DAGEdge} {n m : DAGNode} {goal a b : Bytes} {seen seen' : List Bytes} {k : Nat}

theorem edge_preds : Search.Edge (preds edges) a b ↔ Leads edges b a := by
  constructor
  · intro h
    obtain ⟨e, he, rfl⟩ := List.mem_map.1 h
    obtain ⟨he, ht⟩ := List.mem_filter.1 he
    exact ⟨e, he, rfl, eq_of_beq ht⟩
  · rintro ⟨e, he, rfl, rfl⟩
    exact List.mem_map.2 ⟨e, List.mem_filter.2 ⟨he, beq_self_eq_true _⟩, rfl⟩

theorem mem_ancestors : b ∈ ancestors a edges ↔ TransGen (Leads edges) b a := by
  have hall : ∀ x, ∀ y ∈ preds edges x, y ∈ edges.map DAGEdge.source := by
    intro x y hy
    obtain ⟨e, he, rfl⟩ := List.mem_map.1 hy
    exact List.mem_map_of_mem (List.mem_filter.1 he).1
  have hswap : Search.Edge (preds edges) = Function.swap (Leads edges) := by
    funext x y
    exact propext edge_preds
  rw [ancestors, Search.mem_closure_iff hall (by simp), hswap, Relation.transGen_swap]

theorem mem_descendants : b ∈ descendants a edges ↔ TransGen (Leads edges) a b := by
  have hall : ∀ x, ∀ y ∈ adj edges x, y ∈ edges.map DAGEdge.target := by
    intro x y hy
    obtain ⟨e, he, rfl⟩ := List.mem_map.1 hy
    exact List.mem_map_of_mem (List.mem_filter.1 he).1
  rw [descendants, Search.mem_closure_iff hall (by simp), edge_adj]

/-- A path of table edges from the node to the goal, through nodes of the canvas. -/
inductive TablePath (nodes : List DAGNode) (edges : List DAGEdge) (goal : Bytes) : DAGNode → Prop
  | last {n : DAGNode} {e : DAGEdge} (he : e ∈ edges) (hs : e.source = n.id) (ht : isTable n e = true) (hg : e.target = goal) :
    TablePath nodes edges goal n
  | step {n next : DAGNode} {e : DAGEdge} (he : e ∈ edges) (hs : e.source = n.id) (ht : isTable n e = true)
    (hn : lookup nodes e.target = some next) (h : TablePath nodes edges goal next) : TablePath nodes edges goal n

def Passed (nodes : List DAGNode) (goal : Bytes) (seen : List Bytes) (n : DAGNode) (e : DAGEdge) : Prop :=
  isTable n e = true → e.target ≠ goal ∧ ∀ next, lookup nodes e.target = some next → e.target ∈ seen

def Closed (nodes : List DAGNode) (edges : List DAGEdge) (goal : Bytes) (seen : List Bytes) (a : Bytes) : Prop :=
  ∀ m, lookup nodes a = some m → ∀ e ∈ edges, e.source = a → Passed nodes goal seen m e

theorem lookup_id (h : lookup nodes a = some n) : n.id = a := by simpa using List.find?_some h

theorem Passed.mono {e : DAGEdge} (hsub : ∀ a ∈ seen, a ∈ seen') (h : Passed nodes goal seen n e) : Passed nodes goal seen' n e :=
  fun ht => ⟨(h ht).1, fun next hn => hsub _ ((h ht).2 next hn)⟩

theorem Closed.mono (hsub : ∀ a ∈ seen, a ∈ seen') (h : Closed nodes edges goal seen a) : Closed nodes edges goal seen' a :=
  fun m hm e he hs => (h m hm e he hs).mono hsub

structure Failed (nodes : List DAGNode) (edges : List DAGEdge) (goal : Bytes) (seen seen' : List Bytes) : Prop where
  kept : ∀ a ∈ seen, a ∈ seen'
  closed : ∀ a ∈ seen', a ∈ seen ∨ Closed nodes edges goal seen' a

theorem Failed.refl : Failed nodes edges goal seen seen := ⟨fun _ => id, fun _ => .inl⟩

theorem Failed.trans {seen'' : List Bytes} (h : Failed nodes edges goal seen seen') (h' : Failed nodes edges goal seen' seen'') :
    Failed nodes edges goal seen seen'' := by
  refine ⟨fun a ha => h'.kept a (h.kept a ha), fun a ha => ?_⟩
  rcases h'.closed a ha with ha | ha
  · exact (h.closed a ha).imp_right (Closed.mono h'.kept)
  · exact .inr ha

def room (nodes : List DAGNode) (seen : List Bytes) : Nat := Search.work (nodes.map (·.id)) seen []

variable {visit : DAGNode → List Bytes → Bool × List Bytes}

theorem tableLoop_failed (hvisit : ∀ next seen seen', lookup nodes next.id = some next → room nodes seen < k → visit next seen = (false, seen') →
      Failed nodes edges goal seen seen' ∧ next.id ∈ seen')
    (hroom : room nodes seen < k) (h : tableLoop nodes goal n visit es seen = (false, seen')) :
    Failed nodes edges goal seen seen' ∧ ∀ e ∈ es, Passed nodes goal seen' n e := by
  induction es generalizing seen with
  | nil =>
    obtain rfl := (Prod.mk.inj h).2
    exact ⟨.refl, fun _ he => nomatch he⟩
  | cons e es ih =>
    rw [tableLoop] at h
    split_ifs at h with htable hgoal
    · obtain ⟨hf, hes⟩ := ih hroom h
      exact ⟨hf, List.forall_mem_cons.2 ⟨fun ht => absurd ht (by simp [htable]), hes⟩⟩
    · cases (Prod.mk.inj h).1
    · split at h
      · rename_i hnone
        obtain ⟨hf, hes⟩ := ih hroom h
        exact ⟨hf, List.forall_mem_cons.2 ⟨fun _ => ⟨hgoal, fun next hn => absurd hn (by simp [hnone])⟩, hes⟩⟩
      · rename_i next hnext
        split at h
        · cases (Prod.mk.inj h).1
        · rename_i seen₁ hv
          have hid := lookup_id hnext
          obtain ⟨hf₁, hmem⟩ := hvisit next seen seen₁ (hid ▸ hnext) hroom hv
          obtain ⟨hf, hes⟩ := ih (Nat.lt_of_le_of_lt (Search.work_mono _ _ hf₁.kept) hroom) h
          refine ⟨hf₁.trans hf, List.forall_mem_cons.2 ⟨fun _ => ⟨hgoal, fun _ _ => hf.kept _ (hid ▸ hmem)⟩, hes⟩⟩

theorem tableSearch_failed (hn : lookup nodes n.id = some n) (hroom : room nodes seen < k)
    (h : tableSearch nodes edges goal k n seen = (false, seen')) : Failed nodes edges goal seen seen' ∧ n.id ∈ seen' := by
  induction k generalizing n seen seen' with
  | zero => exact absurd hroom (Nat.not_lt_zero _)
  | succ k ih =>
    rw [tableSearch] at h
    split_ifs at h with hseen
    · obtain rfl := (Prod.mk.inj h).2
      exact ⟨.refl, hseen⟩
    · have hids : n.id ∈ nodes.map (·.id) := List.mem_map_of_mem (List.mem_of_find?_eq_some hn)
      have hlt : room nodes (n.id :: seen) < room nodes seen := Nat.add_lt_add_right (Search.filter_seen_lt hids hseen) _
      obtain ⟨hf, hpass⟩ := tableLoop_failed (fun next s s' hl hr hv => ih hl hr hv) (by omega) h
      refine ⟨⟨fun a ha => hf.kept a (.tail _ ha), fun a ha => ?_⟩, hf.kept _ (List.mem_cons_self ..)⟩
      rcases hf.closed a ha with ha | ha
      · rcases List.mem_cons.1 ha with rfl | ha
        · refine .inr fun m hm e he hs => ?_
          obtain rfl := Option.some.inj (hn.symm.trans hm)
          exact hpass e (List.mem_filter.2 ⟨he, decide_eq_true hs⟩)
        · exact .inl ha
      · exact .inr ha

theorem tablePath_of_loop (hvisit : ∀ next seen seen', visit next seen = (true, seen') → TablePath nodes edges goal next)
    (hes : ∀ e ∈ es, e ∈ edges ∧ e.source = n.id) (h : tableLoop nodes goal n visit es seen = (true, seen')) : TablePath nodes edges goal n := by
  induction es generalizing seen with
  | nil => cases (Prod.mk.inj h).1
  | cons e es ih =>
    obtain ⟨⟨he, hs⟩, hes⟩ := List.forall_mem_cons.1 hes
    rw [tableLoop] at h
    split_ifs at h with htable hgoal
    · exact ih hes h
    · exact .last he hs (by simpa using htable) hgoal
    · split at h
      · exact ih hes h
      · rename_i next hnext
        split at h
        · rename_i seen₁ hv
          exact .step he hs (by simpa using htable) hnext (hvisit next seen seen₁ hv)
        · exact ih hes h

theorem tablePath_of_search (h : tableSearch nodes edges goal k n seen = (true, seen')) : TablePath nodes edges goal n := by
  induction k generalizing n seen seen' with
  | zero => cases (Prod.mk.inj h).1
  | succ k ih =>
    rw [tableSearch] at h
    split_ifs at h
    · cases (Prod.mk.inj h).1
    · refine tablePath_of_loop (fun _ _ _ hv => ih hv) (fun e he => ?_) h
      obtain ⟨he, hs⟩ := List.mem_filter.1 he
      exact ⟨he, of_decide_eq_true hs⟩

/-- No path leads on from what is closed. The start need not be the node that is found under its id, but no path comes back to it. -/
theorem no_tablePath {start : Bytes} (hac : Acyclic (Leads edges)) (hclosed : ∀ a ∈ seen, a ≠ start → Closed nodes edges goal seen a)
    (hn : lookup nodes n.id = some n) (hseen : n.id ∈ seen) (hfrom : TransGen (Leads edges) start n.id) : ¬ TablePath nodes edges goal n := by
  intro h
  have hne : ∀ {a}, TransGen (Leads edges) start a → a ≠ start := fun ha heq => hac _ (heq ▸ ha)
  induction h with
  | last he hs ht hg => exact (hclosed _ hseen (hne hfrom) _ hn _ he hs ht).1 hg
  | @step n next e he hs ht hnext _ ih =>
    have hid := lookup_id hnext
    have hmem := (hclosed _ hseen (hne hfrom) _ hn _ he hs ht).2 next hnext
    exact ih (hid ▸ hnext) (hid ▸ hmem) (hfrom.tail ⟨e, he, hs, hid.symm⟩)

theorem tablePathExists_iff (g : DAGNode) (hac : Acyclic (Leads edges)) (hn : n ∈ nodes) :
    tablePathExists n g nodes edges = true ↔ TablePath nodes edges g.id n := by
  unfold tablePathExists
  cases hr : tableSearch nodes edges g.id (nodes.length + 1) n [] with
  | mk found seen' =>
    cases found with
    | true => exact iff_of_true rfl (tablePath_of_search hr)
    | false =>
      refine iff_of_false Bool.false_ne_true ?_
      rw [tableSearch, if_neg List.not_mem_nil] at hr
      have hids : n.id ∈ nodes.map (·.id) := List.mem_map_of_mem hn
      have hroom : room nodes [n.id] < nodes.length := by
        have hlt : room nodes [n.id] < room nodes [] := Nat.add_lt_add_right (Search.filter_seen_lt hids List.not_mem_nil) _
        have hle : room nodes [] ≤ nodes.length := (List.length_filter_le _ _).trans_eq (List.length_map _)
        omega
      obtain ⟨hf, hpass⟩ := tableLoop_failed (fun _ _ _ hl hr hv => tableSearch_failed hl hr hv) hroom hr
      have hclosed : ∀ a ∈ seen', a ≠ n.id → Closed nodes edges g.id seen' a := fun a ha hne =>
        (hf.closed a ha).resolve_left fun hmem => hne (List.mem_singleton.1 hmem)
      intro h
      cases h with
      | last he hs ht hg => exact (hpass _ (List.mem_filter.2 ⟨he, decide_eq_true hs⟩) ht).1 hg
      | @step _ next e he hs ht hnext hpath =>
        have hid := lookup_id hnext
        have hmem := (hpass _ (List.mem_filter.2 ⟨he, decide_eq_true hs⟩) ht).2 next hnext
        exact no_tablePath hac hclosed (hid ▸ hnext) (hid ▸ hmem) (.single ⟨e, he, hs, hid.symm⟩) hpath

open scoped List

/-- A path leads from `a` to `b`. -/
def Before (edges : List DAGEdge) (a b : DAGNode) : Prop := TransGen (Leads edges) a.id b.id

def Trains (edges : List DAGEdge) (selected n : DAGNode) : Prop := Before edges n selected ∧ domainOf n = str "ml.train"

def Preprocesses (nodes : List DAGNode) (edges : List DAGEdge) (statusOf : DAGNode → DAGNodeStatus) (selected n : DAGNode) : Prop :=
  Before edges n selected ∧ statusOf n = .success ∧ domainOf n = str "preprocessing" ∧ TablePath nodes edges selected.id n

def Postprocesses (edges : List DAGEdge) (statusOf : DAGNode → DAGNodeStatus) (selected n : DAGNode) : Prop :=
  Before edges selected n ∧ statusOf n = .success ∧ domainOf n = str "postprocessing"

/-- Both lists are in topological order and complete, and the model is that of a nearest training component. -/
structure Right (nodes : List DAGNode) (edges : List DAGEdge) (statusOf : DAGNode → DAGNodeStatus) (selected : DAGNode) (c : Chain) : Prop where
  preOrder : c.preNodes.Pairwise fun a b => ¬ Before edges b a
  postOrder : c.postNodes.Pairwise fun a b => ¬ Before edges b a
  pre : ∀ n, n ∈ c.preNodes ↔ n ∈ nodes ∧ Preprocesses nodes edges statusOf selected n
  post : ∀ n, n ∈ c.postNodes ↔ n ∈ nodes ∧ Postprocesses edges statusOf selected n
  model : domainOf selected = str "ml.predict" → ((∃ m ∈ nodes, Trains edges selected m) → c.modelNode ≠ []) ∧
    ∀ m ∈ c.modelNode, m ∈ nodes ∧ Trains edges selected m ∧ ∀ m' ∈ nodes, Trains edges selected m' → ¬ Before edges m m'

/-- Of three nodes with `p` the last of which comes before the first, the one listed between them comes after the last or before the
first. -/
def Straight (nodes : List DAGNode) (edges : List DAGEdge) (p : DAGNode → Prop) : Prop :=
  ∀ a b c, [a, b, c] <+ nodes → p a → p b → p c → Before edges c a → Before edges c b ∨ Before edges b a

/-- The training component that is listed last comes before no other one. -/
def LastNearest (nodes : List DAGNode) (edges : List DAGEdge) (selected : DAGNode) : Prop :=
  ∀ l₁ m l₂, nodes = l₁ ++ m :: l₂ → Trains edges selected m → (∀ n ∈ l₂, ¬ Trains edges selected n) →
    ∀ m' ∈ nodes, Trains edges selected m' → ¬ Before edges m m'

variable {statusOf : DAGNode → DAGNodeStatus} {selected : DAGNode}

theorem isTrain_iff : isTrain edges selected n = true ↔ Trains edges selected n := by
  simp only [isTrain, Bool.and_eq_true, decide_eq_true_eq, mem_ancestors]
  rfl

theorem isPre_iff (hac : Acyclic (Leads edges)) (hn : n ∈ nodes) :
    isPre nodes edges statusOf selected n = true ↔ Preprocesses nodes edges statusOf selected n := by
  simp only [isPre, Bool.and_eq_true, decide_eq_true_eq, mem_ancestors, tablePathExists_iff selected hac hn, and_assoc]
  rfl

theorem isPost_iff : isPost edges statusOf selected n = true ↔ Postprocesses edges statusOf selected n := by
  simp only [isPost, Bool.and_eq_true, decide_eq_true_eq, mem_descendants, and_assoc]
  rfl

theorem order_pos_iff (hac : Acyclic (Leads edges)) : 0 < order edges m n ↔ Before edges n m := by
  unfold order
  split_ifs with h₁ h₂
  · exact iff_of_false (by decide) fun h => hac _ (h.trans (mem_ancestors.1 h₁))
  · exact iff_of_true (by decide) (mem_ancestors.1 h₂)
  · exact iff_of_false (by decide) fun h => h₂ (mem_ancestors.2 h)

theorem sortNodes_iff {p : DAGNode → Bool} (hac : Acyclic (Leads edges)) :
    ((sortNodes edges (nodes.filter p)).Pairwise fun a b => ¬ Before edges b a) ↔ Straight nodes edges fun n => p n = true := by
  have hlt : ∀ x y, decide (0 < order edges y x) = true ↔ Before edges x y := fun x y => decide_eq_true_iff.trans (order_pos_iff hac)
  have hsorted := InsertionSort.sorted_iff (l := nodes.filter p) (fun a b c hab hbc => (hlt a c).2 (((hlt a b).1 hab).trans ((hlt b c).1 hbc)))
    fun a b hab => Bool.eq_false_iff.2 fun hba => hac _ (((hlt a b).1 hab).trans ((hlt b a).1 hba))
  have hpair : InsertionSort.Sorted (fun x y => decide (0 < order edges y x)) (sortNodes edges (nodes.filter p)) ↔
      (sortNodes edges (nodes.filter p)).Pairwise fun a b => ¬ Before edges b a := by
    refine List.Pairwise.iff fun a b => ?_
    rw [← Bool.not_eq_true, hlt]
  rw [← hpair, sortNodes, hsorted]
  simp only [hlt]
  constructor
  · intro h a b c habc ha hb hc
    have hfilter := habc.filter p
    rw [List.filter_cons_of_pos ha, List.filter_cons_of_pos hb, List.filter_cons_of_pos hc] at hfilter
    exact h a b c hfilter
  · intro h a b c habc
    have hp : ∀ x ∈ [a, b, c], p x = true := fun x hx => (List.mem_filter.1 (habc.subset hx)).2
    exact h a b c (habc.trans List.filter_sublist) (hp a (by simp)) (hp b (by simp)) (hp c (by simp))

theorem Straight.congr {p q : DAGNode → Prop} (h : ∀ n ∈ nodes, (p n ↔ q n)) : Straight nodes edges p ↔ Straight nodes edges q := by
  refine forall_congr' fun a => forall_congr' fun b => forall_congr' fun c => forall_congr' fun habc => ?_
  rw [h a (habc.subset (by simp)), h b (habc.subset (by simp)), h c (habc.subset (by simp))]

theorem model_iff : (((∃ m ∈ nodes, Trains edges selected m) → (nodes.filter (isTrain edges selected)).getLast?.toList ≠ []) ∧
    ∀ m ∈ (nodes.filter (isTrain edges selected)).getLast?.toList, m ∈ nodes ∧ Trains edges selected m ∧
      ∀ m' ∈ nodes, Trains edges selected m' → ¬ Before edges m m') ↔ LastNearest nodes edges selected := by
  constructor
  · rintro ⟨_, h⟩ l₁ m l₂ rfl hm hl₂
    have hnil : l₂.filter (isTrain edges selected) = [] := List.filter_eq_nil_iff.2 fun n hn ht => hl₂ n hn (isTrain_iff.1 ht)
    have hlast : ((l₁ ++ m :: l₂).filter (isTrain edges selected)).getLast? = some m := by
      rw [List.filter_append, List.filter_cons_of_pos (isTrain_iff.2 hm), hnil]
      simp
    exact (h m (Option.mem_toList.2 hlast)).2.2
  · intro h
    refine ⟨?_, fun m hm => ?_⟩
    · rintro ⟨m, hm, ht⟩
      have hmem : m ∈ nodes.filter (isTrain edges selected) := List.mem_filter.2 ⟨hm, isTrain_iff.2 ht⟩
      simpa using List.ne_nil_of_mem hmem
    · obtain ⟨l, hl⟩ := List.getLast?_eq_some_iff.1 (Option.mem_toList.1 hm)
      have hmem : m ∈ nodes.filter (isTrain edges selected) := hl ▸ List.mem_append_right _ (List.mem_singleton_self m)
      obtain ⟨hmn, hmt⟩ := List.mem_filter.1 hmem
      obtain ⟨l₁, l₂, heq, _, h₂⟩ := List.filter_eq_append_iff.1 hl
      obtain ⟨k₁, k₂, hk, _, _, hnil⟩ := List.filter_eq_cons_iff.1 h₂
      refine ⟨hmn, isTrain_iff.1 hmt, h (l₁ ++ k₁) m k₂ (by rw [heq, hk, List.append_assoc]) (isTrain_iff.1 hmt) fun n hn ht => ?_⟩
      exact List.filter_eq_nil_iff.1 hnil n hn (isTrain_iff.2 ht)

/-- The chain is right if and only if both the preprocessing and the postprocessing are listed straight and, for a prediction, the last
training component is a nearest one. -/
theorem chain_right_iff {selectedId : Bytes} (hac : Acyclic (Leads edges)) (hsel : lookup nodes selectedId = some selected)
    (hd : domainOf selected = str "ml.train" ∨ domainOf selected = str "ml.predict") :
    Right nodes edges statusOf selected (computeModelChain selectedId nodes edges statusOf) ↔
      Straight nodes edges (Preprocesses nodes edges statusOf selected) ∧ Straight nodes edges (Postprocesses edges statusOf selected) ∧
        (domainOf selected = str "ml.predict" → LastNearest nodes edges selected) := by
  have hchain : computeModelChain selectedId nodes edges statusOf =
      { modelNode := if domainOf selected = str "ml.train" then [selected] else (nodes.filter (isTrain edges selected)).getLast?.toList
        predictNode := if domainOf selected = str "ml.train" then [] else [selected]
        preNodes := sortNodes edges (nodes.filter (isPre nodes edges statusOf selected))
        postNodes := sortNodes edges (nodes.filter (isPost edges statusOf selected)) } := by
    simp only [computeModelChain, hsel]
    exact if_neg fun h => hd.elim h.1 h.2
  have hmem : ∀ (p : DAGNode → Bool) n, n ∈ sortNodes edges (nodes.filter p) ↔ n ∈ nodes ∧ p n = true := fun p n =>
    (InsertionSort.sort_perm _ _).mem_iff.trans List.mem_filter
  have hpre : ∀ n ∈ nodes, (isPre nodes edges statusOf selected n = true ↔ Preprocesses nodes edges statusOf selected n) := fun n hn => isPre_iff hac hn
  rw [← Straight.congr hpre, ← Straight.congr fun n _ => isPost_iff, ← sortNodes_iff hac, ← sortNodes_iff hac, hchain]
  have hmodel : domainOf selected = str "ml.predict" → (if domainOf selected = str "ml.train" then [selected]
      else (nodes.filter (isTrain edges selected)).getLast?.toList) = (nodes.filter (isTrain edges selected)).getLast?.toList := fun h =>
    if_neg fun ht => absurd (ht.symm.trans h) (by decide)
  constructor
  · intro h
    refine ⟨h.preOrder, h.postOrder, fun hp => model_iff.1 ?_⟩
    simpa only [hmodel hp] using h.model hp
  · rintro ⟨hpreOrder, hpostOrder, hlast⟩
    refine ⟨hpreOrder, hpostOrder, fun n => ?_, fun n => ?_, fun hp => ?_⟩
    · exact (hmem _ n).trans (and_congr_right fun hn => hpre n hn)
    · exact (hmem _ n).trans (and_congr_right fun _ => isPost_iff)
    · simpa only [hmodel hp] using model_iff.2 (hlast hp)

def component (id domain : Bytes) : DAGNode := ⟨id, none, some domain, []⟩

def edge (source target : Bytes) : DAGEdge := ⟨[], source, target, none, none⟩

def crossed : List DAGNode := [component (str "a") (str "preprocessing"), component (str "b") (str "preprocessing"),
  component (str "c") (str "preprocessing"), component (str "t") (str "ml.train")]

def crossedEdges : List DAGEdge := [edge (str "c") (str "a"), edge (str "a") (str "t"), edge (str "b") (str "t")]

def trainings : List DAGNode := [component (str "b") (str "ml.train"), component (str "a") (str "ml.train"), component (str "p") (str "ml.predict")]

def trainingEdges : List DAGEdge := [edge (str "a") (str "b"), edge (str "b") (str "p")]

def rank (id : Bytes) : Nat := if id = str "c" then 2 else if id = str "a" then 1 else if id = str "b" then 1 else 0

theorem acyclic_crossed : Acyclic (Leads crossedEdges) := by
  refine Acyclic.of_rank rank fun a b hab => ?_
  obtain ⟨e, he, rfl, rfl⟩ := hab
  have hall : ∀ e ∈ crossedEdges, rank e.target < rank e.source := by decide +kernel
  exact hall e he

theorem chain_right_iff_crossed :
    Right crossed crossedEdges (fun _ => .success) (component (str "t") (str "ml.train"))
        (computeModelChain (str "t") crossed crossedEdges fun _ => .success) ↔
      Straight crossed crossedEdges (Preprocesses crossed crossedEdges (fun _ => .success) (component (str "t") (str "ml.train"))) ∧
      Straight crossed crossedEdges (Postprocesses crossedEdges (fun _ => .success) (component (str "t") (str "ml.train"))) ∧
      (domainOf (component (str "t") (str "ml.train")) = str "ml.predict" →
        LastNearest crossed crossedEdges (component (str "t") (str "ml.train"))) :=
  chain_right_iff acyclic_crossed (by decide) (.inl (by decide))

/-- `a` is submitted before `c`, which it needs; and the model of the prediction is that of the training further away. -/
theorem chain_wrong :
    (Acyclic (Leads crossedEdges) ∧ ¬ Right crossed crossedEdges (fun _ => .success) (component (str "t") (str "ml.train"))
      (computeModelChain (str "t") crossed crossedEdges fun _ => .success)) ∧
    ¬ Right trainings trainingEdges (fun _ => .success) (component (str "p") (str "ml.predict"))
      (computeModelChain (str "p") trainings trainingEdges fun _ => .success) := by
  refine ⟨⟨acyclic_crossed, fun h => ?_⟩, fun h => ?_⟩
  · have hpre : (computeModelChain (str "t") crossed crossedEdges fun _ => .success).preNodes =
        [component (str "a") (str "preprocessing"), component (str "b") (str "preprocessing"), component (str "c") (str "preprocessing")] := by
      decide +kernel
    have hpair := h.preOrder
    rw [hpre] at hpair
    exact (List.pairwise_cons.1 hpair).1 (component (str "c") (str "preprocessing")) (by simp)
      (.single ⟨edge (str "c") (str "a"), by decide, rfl, rfl⟩)
  · have hmodel : (computeModelChain (str "p") trainings trainingEdges fun _ => .success).modelNode = [component (str "a") (str "ml.train")] := by
      decide +kernel
    obtain ⟨_, hnear⟩ := h.model (by decide)
    have hab : Before trainingEdges (component (str "a") (str "ml.train")) (component (str "b") (str "ml.train")) :=
      .single ⟨edge (str "a") (str "b"), by decide, rfl, rfl⟩
    have hbp : Before trainingEdges (component (str "b") (str "ml.train")) (component (str "p") (str "ml.predict")) :=
      .single ⟨edge (str "b") (str "p"), by decide, rfl, rfl⟩
    exact (hnear (component (str "a") (str "ml.train")) (by simp [hmodel])).2.2 (component (str "b") (str "ml.train")) (by decide)
      ⟨hbp, by decide⟩ hab

end Web.ModelChain
