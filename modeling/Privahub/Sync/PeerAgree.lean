import Privahub.Sync.Ownership

/-!
# What is sent is accepted

The rules of `route` and `peerOwns` are those of one another, case by case: a row that an institution sends belongs to
it for the receiver, who looks up the same nodes, projects and graphs. Left over is what only one of them looks at
(`Legit`): the owners that the sender has seen before, the participant of an answered invite, and the row that the
receiver has under the key.
-/

namespace Sync

open Graph (EqualFold)

/-- The two databases agree on nodes, projects and graphs. -/
def Agree (rows rows' : List Held) : Prop :=
  ∀ t ∈ [TableNode, TableProject, TableProjectGraph], (rows.filter fun h => decide (h.row.table = t)) = rows'.filter fun h => decide (h.row.table = t)

/-- The sender is the institution `inst` with the platform node `origin`, and its node table says so. -/
structure Institution (s : P2PProducer) (origin inst : Bytes) : Prop where
  inst_ne : inst ≠ []
  id : s.sync.id = some ⟨inst, compact (origin :: nodesOf s.rows inst)⟩
  known : instOf s.rows origin = inst

structure Legit (s : P2PProducer) (c : Consumer) (origin inst : Bytes) (action : SyncAction) (e : Entity) : Prop where
  trimmed : ∀ n ∈ origin :: nodesOf s.rows inst, Utf8.trimSpace n = n
  owners : ∀ projectID graphID, s.owner projectID graphID = ownerOf s.rows projectID graphID
  answer : e.table = TableVoteInvite → e.fieldString "initiator" ≠ inst →
    Utf8.trimSpace (e.fieldString "initiator") = e.fieldString "initiator" ∧ c.peerNode ⟨origin, inst⟩ (e.fieldString "vote_participant_id") = true
  keyed : e.keyed = true
  existing : ∀ h, c.existingRow e = some h → c.peerOwns ⟨origin, inst⟩ action h.row = true

variable {s : P2PProducer} {c : Consumer} {p : PeerID} {origin inst dst : Bytes} {action : SyncAction} {e : Entity} {rows rows' : List Held}

theorem find?_agree (h : Agree rows rows') {t : Bytes} (ht : t ∈ [TableNode, TableProject, TableProjectGraph]) {f : Held → Bool}
    (hf : ∀ x, f x = true → x.row.table = t) : rows.find? f = rows'.find? f := by
  have hsame : ∀ l : List Held, l.find? f = (l.filter fun x => decide (x.row.table = t)).find? f := by
    intro l
    rw [List.find?_filter]
    congr 1
    funext x
    cases hx : f x with
    | false => exact (decide_eq_false fun hand => absurd hand.2 Bool.false_ne_true).symm
    | true => exact (decide_eq_true ⟨decide_eq_true (hf x hx), rfl⟩).symm
  rw [hsame rows, hsame rows', h t ht]

theorem table_of_isRow {t : Bytes} {cols : List (String × Bytes)} {x : Held} (h : isRow t cols x = true) : x.row.table = t :=
  of_decide_eq_true (Bool.and_eq_true_iff.1 h).1

theorem instOf_agree (h : Agree rows rows') (nodeID : Bytes) : instOf rows nodeID = instOf rows' nodeID := by
  unfold instOf firstField
  rw [find?_agree h (.head _) fun x hx => table_of_isRow (Bool.and_eq_true_iff.1 hx).2]

theorem ownerOf_agree (h : Agree rows rows') (projectID graphID : Bytes) : ownerOf rows projectID graphID = ownerOf rows' projectID graphID := by
  unfold ownerOf graphOwner projectOwner firstField
  rw [find?_agree h (.tail _ (.tail _ (.head _))) fun x => table_of_isRow, find?_agree h (.tail _ (.head _)) fun x => table_of_isRow]

theorem mem_agree (h : Agree rows rows') {x : Held} (hx : x ∈ rows) (ht : x.row.table ∈ [TableNode, TableProject, TableProjectGraph]) : x ∈ rows' := by
  have hmem : x ∈ rows.filter fun h => decide (h.row.table = x.row.table) := List.mem_filter.2 ⟨hx, decide_eq_true rfl⟩
  rw [h _ ht] at hmem
  exact (List.mem_filter.1 hmem).1

theorem equalFold_refl {u : CaseTables} {a : Bytes} : EqualFold u a a = true := decide_eq_true rfl

theorem isPeer_inst (h : inst ≠ []) : c.isPeer ⟨origin, inst⟩ inst = true := by
  unfold Consumer.isPeer
  rw [decide_eq_true h, equalFold_refl, Bool.true_and, Bool.true_and, Bool.or_true]

theorem mem_compact {ids : List Bytes} {id : Bytes} : id ∈ compact ids → ∃ x ∈ ids, Utf8.trimSpace x = id ∧ id ≠ [] := by
  unfold compact
  have hfold : ∀ out : List Bytes, id ∈ ids.foldl (fun out s => let s := Utf8.trimSpace s; if s = [] ∨ s ∈ out then out else out ++ [s]) out →
      id ∈ out ∨ ∃ x ∈ ids, Utf8.trimSpace x = id ∧ id ≠ [] := by
    induction ids with
    | nil => exact fun out h => .inl h
    | cons x ids ih =>
      intro out h
      rcases ih _ h with h | ⟨y, hy, hid⟩
      · dsimp only at h
        split_ifs at h with hx
        · exact .inl h
        · rcases List.mem_append.1 h with h | h
          · exact .inl h
          · obtain rfl := List.mem_singleton.1 h
            exact .inr ⟨x, .head _, rfl, fun hne => hx (.inl hne)⟩
      · exact .inr ⟨y, .tail _ hy, hid⟩
  exact fun h => (hfold [] h).resolve_left fun h => by cases h

theorem peerNode_local (hs : Institution s origin inst) (hagree : Agree s.rows c.rows)
    (htrimmed : ∀ n ∈ origin :: nodesOf s.rows inst, Utf8.trimSpace n = n) {n : Bytes} (h : s.sync.isLocalNode n = true) :
    c.peerNode ⟨origin, inst⟩ n = true := by
  unfold P2PSync.isLocalNode at h
  rw [hs.id] at h
  obtain ⟨hne, hmem⟩ := of_decide_eq_true h
  obtain ⟨x, hx, htrim, _⟩ := mem_compact hmem
  rw [htrimmed x hx] at htrim
  subst htrim
  unfold Consumer.peerNode
  rcases List.mem_cons.1 hx with rfl | hx
  · refine Bool.or_eq_true_iff.2 (.inl ?_)
    unfold Consumer.isPeer
    rw [decide_eq_true hne, equalFold_refl, Bool.true_or, Bool.true_and]
  · refine Bool.or_eq_true_iff.2 (.inr ?_)
    obtain ⟨r, hr, rfl⟩ := List.mem_map.1 hx
    obtain ⟨hr, hrow⟩ := List.mem_filter.1 hr
    obtain ⟨hlive, hrow⟩ := Bool.and_eq_true_iff.1 hrow
    rw [decide_eq_true ⟨hne, hs.inst_ne⟩, Bool.true_and]
    refine List.any_eq_true.2 ⟨r, mem_agree hagree hr (by rw [table_of_isRow hrow]; exact .head _), ?_⟩
    unfold isRow at hrow ⊢
    rw [hlive, Bool.true_and]
    simpa using hrow

theorem owner_inst (hs : Institution s origin inst) (hagree : Agree s.rows c.rows) {projectID graphID : Bytes}
    (howner : s.owner projectID graphID = ownerOf s.rows projectID graphID) (h : s.owner projectID graphID = inst) :
    c.isPeer ⟨origin, inst⟩ (ownerOf c.rows projectID graphID) = true := by
  rw [← ownerOf_agree hagree, ← howner, h]
  exact isPeer_inst hs.inst_ne

theorem rules_project (h : e.table = TableProject ∨ e.table = TableProjectGraph) :
    s.route action e = (if decide (e.fieldString "owner_id" = s.sync.instID) then some (RouteOf e) else none) ∧
      c.peerOwns p action e = c.isPeer p (e.fieldString "owner_id") := by
  unfold P2PProducer.route Consumer.peerOwns
  rcases h with h | h
  · simp +decide only [h, if_true, if_false, true_or]
  · simp +decide only [h, if_true, if_false, or_true]

theorem rules_graphNode (h : e.table = TableProjectGraphNode ∨ e.table = TableProjectGraphNodeKuscia) :
    s.route action e = (if decide (s.owner (e.fieldString "project_id") (e.fieldString "graph_id") = s.sync.instID) then some (RouteOf e) else none) ∧
      c.peerOwns p action e = c.isPeer p (ownerOf c.rows (e.fieldString "project_id") (e.fieldString "graph_id")) := by
  unfold P2PProducer.route Consumer.peerOwns
  rcases h with h | h
  · simp +decide only [h, if_true, if_false, true_or]
  · simp +decide only [h, if_true, if_false, or_true]

theorem rules_job (h : e.table = TableProjectJob) :
    s.route action e = (if (decide (action ≠ .update) || s.isStopped (e.fieldString "status")) && decide (s.owner (e.fieldString "project_id") (e.fieldString "graph_id") = s.sync.instID) then some (RouteOf e) else none) ∧
      c.peerOwns p action e = c.isPeer p (ownerOf c.rows (e.fieldString "project_id") (e.fieldString "graph_id")) := by
  unfold P2PProducer.route Consumer.peerOwns
  simp +decide only [h, if_true, if_false]

theorem rules_datatable (h : e.table = TableProjectDatatable ∨ e.table = TableProjectFeatureTable) :
    s.route action e = (if s.sync.isLocalNode (e.fieldString "node_id") then some (RouteOf e) else none) ∧
      c.peerOwns p action e = c.peerNode p (e.fieldString "node_id") := by
  unfold P2PProducer.route Consumer.peerOwns
  rcases h with h | h
  · simp +decide only [h, if_true, if_false, true_or]
  · simp +decide only [h, if_true, if_false, or_true]

theorem rules_domain (h : e.table = TableProjectGraphDomainDs) :
    s.route action e = (if s.sync.isLocalNode (e.fieldString "domain_id") then some (RouteOf e) else none) ∧
      c.peerOwns p action e = c.peerNode p (e.fieldString "domain_id") := by
  unfold P2PProducer.route Consumer.peerOwns
  simp +decide only [h, if_true, if_false]

theorem rules_model (h : e.table = TableProjectModelServing ∨ e.table = TableProjectModelPack) :
    s.route action e = (if s.sync.isLocalNode (e.fieldString "initiator") then some (RouteOf e) else none) ∧
      c.peerOwns p action e = c.peerNode p (e.fieldString "initiator") := by
  unfold P2PProducer.route Consumer.peerOwns
  rcases h with h | h
  · simp +decide only [h, if_true, if_false, true_or]
  · simp +decide only [h, if_true, if_false, or_true]

theorem rules_vote (h : e.table = TableVoteRequest ∨ e.table = TableProjectApprovalConfig) :
    s.route action e = (if decide (e.fieldString "initiator" = s.sync.instID) then some (RouteOf e) else none) ∧
      c.peerOwns p action e = c.isPeer p (e.fieldString "initiator") := by
  unfold P2PProducer.route Consumer.peerOwns
  rcases h with h | h
  · simp +decide only [h, if_true, if_false, true_or]
  · simp +decide only [h, if_true, if_false, or_true]

theorem rules_invite (h : e.table = TableVoteInvite) :
    s.route action e = (if e.fieldString "initiator" = s.sync.instID then (if decide (action = .create) then some (RouteOf e) else none)
      else if action = .update then some { RouteOf e with nodeIDs := [e.fieldString "initiator"] } else none) ∧
      c.peerOwns p action e = (c.isPeer p (e.fieldString "initiator") ||
        decide (action = .update) && c.localParty (e.fieldString "initiator") && c.peerNode p (e.fieldString "vote_participant_id")) := by
  unfold P2PProducer.route Consumer.peerOwns
  simp +decide only [h, if_true, if_false]

theorem rules_projectNode (h : e.table = TableProjectNode ∨ e.table = TableProjectInst) :
    s.route action e = (if decide (s.owner (e.fieldString "project_id") [] = s.sync.instID) then some (RouteOf e) else none) ∧
      c.peerOwns p action e = c.isPeer p (ownerOf c.rows (e.fieldString "project_id") []) := by
  unfold P2PProducer.route Consumer.peerOwns
  rcases h with h | h
  · simp +decide only [h, if_true, if_false, true_or]
  · simp +decide only [h, if_true, if_false, or_true]

theorem rules_schedule (h : e.table = TableProjectSchedule ∨ e.table = TableProjectScheduleJob ∨ e.table = TableProjectScheduleTask) :
    s.route action e = (if decide (e.fieldString "owner" = s.sync.instID) then some (RouteOf e) else none) ∧
      c.peerOwns p action e = c.isPeer p (e.fieldString "owner") := by
  unfold P2PProducer.route Consumer.peerOwns
  rcases h with h | h | h
  · simp +decide only [h, if_true, if_false, true_or]
  · simp +decide only [h, if_true, if_false, true_or, or_true]
  · simp +decide only [h, if_true, if_false, or_true]
theorem route_owned (hs : Institution s origin inst) (hagree : Agree s.rows c.rows) (hlegit : Legit s c origin inst action e)
    (htable : e.table ∈ DefaultP2PTables) {r : Route} (h : s.route action e = some r)
    (hinvite : e.table = TableVoteInvite → e.fieldString "initiator" ≠ inst → c.localParty (e.fieldString "initiator") = true) :
    c.peerOwns ⟨origin, inst⟩ action e = true := by
  have hinst : s.sync.instID = inst := by
    unfold P2PSync.instID
    rw [hs.id]
  have hown : ∀ {b : Bool} {r' : Route}, (if b = true then some r' else none) = some r → b = true := by
    intro b r' hb
    by_contra hne
    rw [if_neg hne] at hb
    cases hb
  have hself : ∀ {id : Bytes}, decide (id = s.sync.instID) = true → c.isPeer ⟨origin, inst⟩ id = true := by
    intro id hid
    rw [of_decide_eq_true hid, hinst]
    exact isPeer_inst hs.inst_ne
  have howner : ∀ {projectID graphID : Bytes}, decide (s.owner projectID graphID = s.sync.instID) = true →
      c.isPeer ⟨origin, inst⟩ (ownerOf c.rows projectID graphID) = true := fun {_ _} ho =>
    owner_inst hs hagree (hlegit.owners _ _) ((of_decide_eq_true ho).trans hinst)
  unfold DefaultP2PTables at htable
  simp only [List.mem_cons, List.not_mem_nil, or_false] at htable
  rcases htable with ht | ht | ht | ht | ht | ht | ht | ht | ht | ht | ht | ht | ht | ht | ht | ht | ht | ht
  · obtain ⟨hr, hp⟩ := rules_project (.inl ht)
    exact hp.trans (hself (hown (hr.symm.trans h)))
  · obtain ⟨hr, hp⟩ := rules_project (.inr ht)
    exact hp.trans (hself (hown (hr.symm.trans h)))
  · obtain ⟨hr, hp⟩ := rules_graphNode (.inl ht)
    exact hp.trans (howner (hown (hr.symm.trans h)))
  · obtain ⟨hr, hp⟩ := rules_job ht
    exact hp.trans (howner (Bool.and_eq_true_iff.1 (hown (hr.symm.trans h))).2)
  · obtain ⟨hr, hp⟩ := rules_datatable (.inl ht)
    exact hp.trans (peerNode_local hs hagree hlegit.trimmed (hown (hr.symm.trans h)))
  · obtain ⟨hr, hp⟩ := rules_vote (.inl ht)
    exact hp.trans (hself (hown (hr.symm.trans h)))
  · obtain ⟨hr, hp⟩ := rules_invite ht
    rw [hp]
    by_cases hi : e.fieldString "initiator" = inst
    · rw [hi, isPeer_inst hs.inst_ne, Bool.true_or]
    · rw [hr, hinst, if_neg hi] at h
      have hupdate : action = .update := by
        by_contra hne
        rw [if_neg hne] at h
        cases h
      rw [hinvite ht hi, (hlegit.answer ht hi).2, decide_eq_true hupdate]
      exact Bool.or_true _
  · obtain ⟨hr, hp⟩ := rules_vote (.inr ht)
    exact hp.trans (hself (hown (hr.symm.trans h)))
  · obtain ⟨hr, hp⟩ := rules_projectNode (.inl ht)
    exact hp.trans (howner (hown (hr.symm.trans h)))
  · obtain ⟨hr, hp⟩ := rules_graphNode (.inr ht)
    exact hp.trans (howner (hown (hr.symm.trans h)))
  · obtain ⟨hr, hp⟩ := rules_model (.inl ht)
    exact hp.trans (peerNode_local hs hagree hlegit.trimmed (hown (hr.symm.trans h)))
  · obtain ⟨hr, hp⟩ := rules_model (.inr ht)
    exact hp.trans (peerNode_local hs hagree hlegit.trimmed (hown (hr.symm.trans h)))
  · obtain ⟨hr, hp⟩ := rules_datatable (.inr ht)
    exact hp.trans (peerNode_local hs hagree hlegit.trimmed (hown (hr.symm.trans h)))
  · obtain ⟨hr, hp⟩ := rules_domain ht
    exact hp.trans (peerNode_local hs hagree hlegit.trimmed (hown (hr.symm.trans h)))
  · obtain ⟨hr, hp⟩ := rules_projectNode (.inr ht)
    exact hp.trans (howner (hown (hr.symm.trans h)))
  · obtain ⟨hr, hp⟩ := rules_schedule (.inl ht)
    exact hp.trans (hself (hown (hr.symm.trans h)))
  · obtain ⟨hr, hp⟩ := rules_schedule (.inr (.inl ht))
    exact hp.trans (hself (hown (hr.symm.trans h)))
  · obtain ⟨hr, hp⟩ := rules_schedule (.inr (.inr ht))
    exact hp.trans (hself (hown (hr.symm.trans h)))

theorem mem_sentTo : dst ∈ s.sentTo action e ↔
    e.table ∈ s.tables ∧ ∃ r, s.route action e = some r ∧ dst ∈ s.pad e r ∧ dst ≠ [] ∧ dst ≠ s.sync.instID ∧ s.sync.isLocalNode dst = false := by
  unfold P2PProducer.sentTo
  by_cases ht : e.table ∈ s.tables
  · rw [if_neg (not_not.2 ht)]
    cases hr : s.route action e with
    | none => simp
    | some r => simp [ht]
  · rw [if_pos ht]
    simp [ht]

theorem pad_answer (ht : e.table = TableVoteInvite) {r : Route} (hp : r.projectID = []) {initiator : Bytes} (hr : r.nodeIDs = [initiator])
    (h : dst ∈ s.pad e r) : dst = Utf8.trimSpace initiator := by
  unfold P2PProducer.pad at h
  dsimp only at h
  rw [if_pos (.inr ht), hr, if_neg (not_not.2 hp), List.append_nil] at h
  obtain ⟨x, hx, htrim, _⟩ := mem_compact h
  obtain rfl := List.mem_singleton.1 hx
  exact htrim.symm

theorem routeOf_invite (ht : e.table = TableVoteInvite) : (RouteOf e).projectID = [] := by
  unfold RouteOf
  simp +decide only [ht, if_true, if_false]

/-- What an institution sends to another is accepted there. -/
theorem sent_accepted (hs : Institution s origin inst) (hagree : Agree s.rows c.rows) (hlegit : Legit s c origin inst action e)
    (htable : e.table ∈ DefaultP2PTables) (hsent : dst ∈ s.sentTo action e) (hdst : c.localParty dst = true) :
    c.checkPeerOwnership (c.peerOf origin) action e = true := by
  obtain ⟨_, r, hr, hpad, _⟩ := mem_sentTo.1 hsent
  have hpeer : c.peerOf origin = ⟨origin, inst⟩ := by
    unfold Consumer.peerOf
    rw [← instOf_agree hagree, hs.known]
  have hinvite : e.table = TableVoteInvite → e.fieldString "initiator" ≠ inst → c.localParty (e.fieldString "initiator") = true := by
    intro ht hi
    have hinst : s.sync.instID = inst := by
      unfold P2PSync.instID
      rw [hs.id]
    have hroute : s.route action e = _ := (rules_invite (c := c) (p := ⟨origin, inst⟩) ht).1
    rw [hroute, hinst, if_neg hi] at hr
    split_ifs at hr
    cases hr
    have hdst' := pad_answer (r := { RouteOf e with nodeIDs := [e.fieldString "initiator"] }) ht (routeOf_invite ht) rfl hpad
    rw [(hlegit.answer ht hi).1] at hdst'
    rw [← hdst']
    exact hdst
  rw [hpeer]
  unfold Consumer.checkPeerOwnership
  rw [route_owned hs hagree hlegit htable hr hinvite, hlegit.keyed, Bool.or_true, Bool.true_and, Bool.true_and]
  cases he : c.existingRow e with
  | none => rfl
  | some h => exact hlegit.existing h he

theorem Institution.seen (h : Institution s origin inst) : Institution (s.seen e) origin inst := by
  have hrest : (s.seen e).sync = s.sync ∧ (s.seen e).rows = s.rows := by
    unfold P2PProducer.seen P2PProducer.setOwner
    dsimp only
    split_ifs <;> exact ⟨rfl, rfl⟩
  refine ⟨h.inst_ne, ?_, ?_⟩
  · rw [hrest.1, hrest.2]
    exact h.id
  · rw [hrest.2]
    exact h.known

def rowOf (table : Bytes) (cols : List (String × String)) : Entity := ⟨table, cols.map fun c => (str c.1, str c.2), 0⟩

def held (table : Bytes) (cols : List (String × String)) : Held := ⟨rowOf table cols, false⟩

def sharedRows : List Held :=
  [held TableNode [("node_id", "alice"), ("inst_id", "instA")], held TableNode [("node_id", "bob"), ("inst_id", "instB")],
    held TableProject [("project_id", "p"), ("owner_id", "instA")], held TableProjectInst [("project_id", "p"), ("inst_id", "instB")]]

def alice (rows : List Held) : P2PProducer where
  unicode := .asciiCase
  sync := P2PSync.NewP2PSync (some ⟨str "instA", compact (str "alice" :: nodesOf rows (str "instA"))⟩) 3
  tables := DefaultP2PTables
  rows := rows
  owners _ := none

def bob (rows : List Held) (h : Keyed rows) : Consumer where
  unicode := .asciiCase
  allowed := some DefaultP2PTables
  localNodeID := str "bob"
  identity := some ⟨str "instB", compact (str "bob" :: nodesOf rows (str "instB"))⟩
  rows := rows
  keyed := h

theorem keyed_sharedRows : Keyed sharedRows := by decide

theorem institution_alice {rows : List Held} (h : instOf rows (str "alice") = str "instA") : Institution (alice rows) (str "alice") (str "instA") :=
  ⟨by decide, rfl, h⟩

theorem sent_accepted_node : str "instB" ∈ (alice sharedRows).sentTo .create (rowOf TableProjectNode [("project_id", "p"), ("node_id", "alice")]) ∧
    (bob sharedRows keyed_sharedRows).checkPeerOwnership ((bob sharedRows keyed_sharedRows).peerOf (str "alice")) .create
      (rowOf TableProjectNode [("project_id", "p"), ("node_id", "alice")]) = true := by
  have hsent : str "instB" ∈ (alice sharedRows).sentTo .create (rowOf TableProjectNode [("project_id", "p"), ("node_id", "alice")]) := by decide +kernel
  have howner : ∀ projectID graphID, (alice sharedRows).owner projectID graphID = ownerOf sharedRows projectID graphID := by
    intro projectID graphID
    unfold ownerOf P2PProducer.owner
    by_cases hp : projectID = []
    · subst hp
      rw [if_pos rfl]
      show (if graphID ≠ [] then graphOwner sharedRows [] graphID else projectOwner sharedRows []) = []
      split_ifs
      · rfl
      · decide +kernel
    · rw [if_neg hp]
      rfl
  refine ⟨hsent, sent_accepted (institution_alice (by decide +kernel)) (fun _ _ => rfl) ⟨by decide +kernel, howner, ?_, by decide +kernel, ?_⟩
    (by decide +kernel) hsent (by decide +kernel)⟩
  · exact fun ht => absurd ht (by decide)
  · intro h hex
    have hnone : (bob sharedRows keyed_sharedRows).existingRow (rowOf TableProjectNode [("project_id", "p"), ("node_id", "alice")]) = none := by decide +kernel
    exact absurd (hnone.symm.trans hex) nofun

def foreignAnswer : P2PProducer × Consumer × SyncAction × Entity :=
  (alice sharedRows, bob sharedRows keyed_sharedRows, .update, rowOf TableVoteInvite [("vote_id", "v"), ("vote_participant_id", "carol"), ("initiator", "instB")])

def otherRows : List Held :=
  sharedRows ++ [held TableProject [("project_id", "p_g"), ("owner_id", "instA")],
    held TableProjectGraph [("project_id", "p"), ("graph_id", "g"), ("owner_id", "instC")]]

def otherOwner : P2PProducer × Consumer × SyncAction × Entity :=
  ((alice otherRows).seen (rowOf TableProject [("project_id", "p_g"), ("owner_id", "instA")]), bob otherRows (by decide), .create,
    rowOf TableProjectGraphNode [("project_id", "p"), ("graph_id", "g"), ("graph_node_id", "n")])

def takenOver : P2PProducer × Consumer × SyncAction × Entity :=
  (alice sharedRows, bob (sharedRows ++ [held TableProjectSchedule [("schedule_id", "s"), ("owner", "instC")]]) (by decide), .update,
    rowOf TableProjectSchedule [("schedule_id", "s"), ("project_id", "p"), ("owner", "instA")])

def keyless : P2PProducer × Consumer × SyncAction × Entity :=
  (alice sharedRows, bob sharedRows keyed_sharedRows, .create, rowOf TableProjectDatatable [("project_id", "p"), ("node_id", "alice")])

def blankNode : P2PProducer × Consumer × SyncAction × Entity :=
  let rows := sharedRows ++ [held TableNode [("node_id", " alice2"), ("inst_id", "instA")]]
  (alice rows, bob rows (by decide), .create, rowOf TableProjectDatatable [("project_id", "p"), ("node_id", "alice2"), ("datatable_id", "t")])

theorem sent_accepted_fails : [foreignAnswer, otherOwner, takenOver, keyless, blankNode].Forall fun x =>
    Institution x.1 (str "alice") (str "instA") ∧ Agree x.1.rows x.2.1.rows ∧ x.2.2.2.table ∈ DefaultP2PTables ∧
    str "instB" ∈ x.1.sentTo x.2.2.1 x.2.2.2 ∧ x.2.1.localParty (str "instB") = true ∧
    x.2.1.checkPeerOwnership (x.2.1.peerOf (str "alice")) x.2.2.1 x.2.2.2 = false := by
  have hinst : [foreignAnswer, otherOwner, takenOver, keyless, blankNode].Forall fun x => Institution x.1 (str "alice") (str "instA") := by
    refine ⟨institution_alice ?_, ?_, institution_alice ?_, institution_alice ?_, institution_alice ?_⟩
    · decide +kernel
    · have halice : Institution (alice otherRows) (str "alice") (str "instA") := institution_alice (by decide +kernel)
      exact halice.seen (e := rowOf TableProject [("project_id", "p_g"), ("owner_id", "instA")])
    all_goals decide +kernel
  refine List.forall_iff_forall_mem.2 fun x hx => ⟨List.forall_iff_forall_mem.1 hinst x hx, ?_⟩
  have hok : ∀ x ∈ [foreignAnswer, otherOwner, takenOver, keyless, blankNode], Agree x.1.rows x.2.1.rows ∧ x.2.2.2.table ∈ DefaultP2PTables ∧
      str "instB" ∈ x.1.sentTo x.2.2.1 x.2.2.2 ∧ x.2.1.localParty (str "instB") = true ∧
      x.2.1.checkPeerOwnership (x.2.1.peerOf (str "alice")) x.2.2.1 x.2.2.2 = false := by
    unfold Agree
    decide +kernel
  exact hok x hx

end Sync
