import Privahub.Sync.Codec
import Privahub.Sync.PeerAgree

/-!
# Messages of peers

`ApplyFromPeer` decodes a message to check whose row it is, and `Apply` decodes it once more to write it. What is
written is the peer's (`applyFromPeer_owned`) as long as the two rows are one, that is for every message whose keys are
not in each other's way; the rest are the bindings that a new datasource of a graph gets for other nodes.
-/

namespace Sync

namespace Consumer

variable (c : Consumer)

/-- `localJobFinished`: the job of the row is there and has ended. -/
def localJobFinished (e : Entity) : Bool :=
  decide (e.fieldString "job_id" ≠ []) &&
    match c.rows.find? fun h => !h.isDeleted && isRow TableProjectJob [("job_id", e.fieldString "job_id")] h with
    | none => false
    | some h => decide (Center.toUpper c.unicode (Utf8.trimSpace (h.row.fieldString "status")) ∈
        [str "SUCCEEDED", str "SUCCEED", str "SUCCESS", str "FAILED", str "STOPPED", str "CANCELLED"])

def stamped (now : Int) (e : Entity) : Entity := if e.gmtModified = 0 then { e with gmtModified := now } else e

def Upsert (now : Int) (rows : List Held) (e : Entity) : List Held := (rows.filter fun h => !decide (h.row.SameKey e)) ++ [⟨stamped now e, false⟩]

def Delete (rows : List Held) (e : Entity) : List Held := rows.map fun h => if h.row.SameKey e ∧ h.isDeleted = false then { h with isDeleted := true } else h

/-- The binding of another node to the default datasource. -/
def binding (now : Int) (src : Entity) (nodeID : Bytes) : Entity where
  table := TableProjectGraphDomainDs
  cols := [(str "project_id", src.fieldString "project_id"), (str "graph_id", src.fieldString "graph_id"), (str "domain_id", nodeID),
    (str "datasource_id", str "default-data-source"), (str "datasource_name", str "default-data-source")]
  gmtModified := now

/-- `expandGraphDomainDatasource`: a binding that is there is kept, also a deleted one. -/
def expand (now : Int) (src : Entity) (targets : List Bytes) (rows : List Held) : List Held :=
  targets.foldl (fun rows nodeID =>
    if (rows.any fun h => decide (h.row.SameKey (binding now src nodeID))) = true then rows else rows ++ [⟨binding now src nodeID, false⟩]) rows

/-- `Apply` in P2P mode, to the row that was decoded; `targets` are the nodes that a new datasource is bound to. -/
def Apply (now : Int) (targets : List Bytes) (action : SyncAction) (e : Entity) : List Held :=
  if e.table = TableProjectJob ∧ c.localJobFinished e = true then c.rows
  else if e.keyed = false then c.rows
  else if action = .remove then Delete c.rows e
  else if e.table = TableProjectGraphDomainDs ∧ action = .create then expand now e targets (Upsert now c.rows e)
  else Upsert now c.rows e

structure PeerMessage where
  origin : Bytes
  table : Bytes
  action : SyncAction
  members : List (Bytes × Json)
  members_nodup : (members.map (·.1)).Nodup

/-- The row that `ApplyFromPeer` applies: it runs over the keys in the order `o` to check the row and in the order `o'`
to write it. -/
def accepted (k : Codec) (d : PeerMessage) (o o' : Order) : Option Entity :=
  let origin := Utf8.trimSpace d.origin
  if origin = [] ∨ (match c.allowed with
    | none => false
    | some tables => decide (d.table ∉ tables)) = true then none
  else match k.Decode d.table o with
    | none => none
    | some e => if c.checkPeerOwnership (c.peerOf origin) d.action e = false then none else k.Decode d.table o'

def ApplyFromPeer (k : Codec) (now : Int) (targets : List Bytes) (d : PeerMessage) (o o' : Order) : List Held :=
  match c.accepted k d o o' with
  | none => c.rows
  | some e => c.Apply now targets d.action e

end Consumer

variable {c : Consumer} {k : Codec} {p : PeerID} {action : SyncAction} {e : Entity} {h : Held} {now : Int} {targets : List Bytes} {rows : List Held}

theorem stamped_owned : c.peerOwns p action (Consumer.stamped now e) = c.peerOwns p action e := by
  unfold Consumer.stamped
  split_ifs
  · rfl
  · rfl

theorem subset_expand (hh : h ∈ rows) : h ∈ Consumer.expand now e targets rows := by
  unfold Consumer.expand
  induction targets generalizing rows with
  | nil => exact hh
  | cons n targets ih =>
    refine ih ?_
    dsimp only
    split_ifs
    · exact hh
    · exact List.mem_append_left _ hh

theorem mem_expand (hh : h ∈ Consumer.expand now e targets rows) : h ∈ rows ∨ ∃ n ∈ targets, h = ⟨Consumer.binding now e n, false⟩ := by
  unfold Consumer.expand at hh
  induction targets generalizing rows with
  | nil => exact .inl hh
  | cons n targets ih =>
    rcases ih hh with hh | ⟨m, hm, rfl⟩
    · dsimp only at hh
      split_ifs at hh
      · exact .inl hh
      · rcases List.mem_append.1 hh with hh | hh
        · exact .inl hh
        · exact .inr ⟨n, .head _, List.mem_singleton.1 hh⟩
    · exact .inr ⟨m, .tail _ hm, rfl⟩

theorem apply_lost (hh : h ∈ c.rows) (hlost : h ∉ c.Apply now targets action e) : h.row.SameKey e := by
  by_contra hkey
  refine hlost ?_
  have hupsert : h ∈ Consumer.Upsert now c.rows e := List.mem_append_left _ (List.mem_filter.2 ⟨hh, by simp [hkey]⟩)
  unfold Consumer.Apply
  split_ifs
  · exact hh
  · exact hh
  · exact List.mem_map.2 ⟨h, hh, if_neg fun hk => hkey hk.1⟩
  · exact subset_expand hupsert
  · exact hupsert

/-- A row that is new after the write is the one that was decoded, a deleted one under its key, or the binding of another node. -/
theorem apply_new (hh : h ∈ c.Apply now targets action e) (hnew : h ∉ c.rows) :
    (action ≠ .remove ∧ h = ⟨Consumer.stamped now e, false⟩) ∨
    (action = .remove ∧ ∃ h₀ ∈ c.rows, h₀.row.SameKey e ∧ h = { h₀ with isDeleted := true }) ∨
    (e.table = TableProjectGraphDomainDs ∧ action = .create ∧ ∃ n ∈ targets, h = ⟨Consumer.binding now e n, false⟩) := by
  have hupsert : h ∈ Consumer.Upsert now c.rows e → h = ⟨Consumer.stamped now e, false⟩ := by
    intro hh
    rcases List.mem_append.1 hh with hh | hh
    · exact absurd (List.mem_filter.1 hh).1 hnew
    · exact List.mem_singleton.1 hh
  unfold Consumer.Apply at hh
  split_ifs at hh with _ _ hremove hds
  · exact absurd hh hnew
  · exact absurd hh hnew
  · obtain ⟨h₀, hh₀, rfl⟩ := List.mem_map.1 hh
    split_ifs at hnew ⊢ with hk
    · exact .inr (.inl ⟨hremove, h₀, hh₀, hk.1, rfl⟩)
    · exact absurd hh₀ hnew
  · rcases mem_expand hh with hh | hbinding
    · exact .inl ⟨hremove, hupsert hh⟩
    · exact .inr (.inr ⟨hds.1, hds.2, hbinding⟩)
  · exact .inl ⟨hremove, hupsert hh⟩

theorem keyed_append (hr : Keyed rows) (hkey : ∀ h' ∈ rows, ¬h'.row.SameKey h.row) : Keyed (rows ++ [h]) := by
  refine List.pairwise_append.2 ⟨hr, List.pairwise_singleton _ _, fun a ha b hb => ?_⟩
  obtain rfl := List.mem_singleton.1 hb
  exact hkey a ha

theorem sameKey_stamped {f : Entity} : f.SameKey (Consumer.stamped now e) ↔ f.SameKey e := by
  unfold Consumer.stamped
  split_ifs
  · exact Iff.rfl
  · exact Iff.rfl

theorem keyed_upsert (hr : Keyed rows) : Keyed (Consumer.Upsert now rows e) := by
  refine keyed_append (hr.sublist List.filter_sublist) fun h hh hkey => ?_
  have hout := (List.mem_filter.1 hh).2
  rw [decide_eq_true (sameKey_stamped.1 hkey)] at hout
  exact Bool.false_ne_true hout

theorem keyed_delete (hr : Keyed rows) : Keyed (Consumer.Delete rows e) := by
  refine List.pairwise_map.2 (hr.imp fun {a b} hab => ?_)
  have hrow : ∀ h : Held, (if h.row.SameKey e ∧ h.isDeleted = false then { h with isDeleted := true } else h).row = h.row := by
    intro h
    split_ifs
    · rfl
    · rfl
  rw [hrow a, hrow b]
  exact hab

theorem keyed_expand (hr : Keyed rows) : Keyed (Consumer.expand now e targets rows) := by
  unfold Consumer.expand
  induction targets generalizing rows with
  | nil => exact hr
  | cons n targets ih =>
    refine ih ?_
    dsimp only
    split_ifs with hany
    · exact hr
    · exact keyed_append hr fun h hh hkey => hany (List.any_eq_true.2 ⟨h, hh, decide_eq_true hkey⟩)

theorem keyed_apply : Keyed (c.Apply now targets action e) := by
  unfold Consumer.Apply
  split_ifs
  · exact c.keyed
  · exact c.keyed
  · exact keyed_delete c.keyed
  · exact keyed_expand (keyed_upsert c.keyed)
  · exact keyed_upsert c.keyed

theorem keyed_applyFromPeer {d : Consumer.PeerMessage} {o o' : Order} : Keyed (c.ApplyFromPeer k now targets d o o') := by
  unfold Consumer.ApplyFromPeer
  split
  · exact c.keyed
  · exact keyed_apply

theorem existingRow_of_mem (hh : h ∈ c.rows) (hkey : h.row.SameKey e) : c.existingRow e = some h := by
  unfold Consumer.existingRow
  cases hf : c.rows.find? fun h => decide (h.row.SameKey e) with
  | none => exact absurd (List.find?_eq_none.1 hf h hh) (by simp [hkey])
  | some h' =>
    have hp := List.find?_some hf
    have hkey' : h'.row.SameKey e := of_decide_eq_true hp
    by_contra hne
    have : Std.Symm fun h h' : Held => ¬h.row.SameKey h'.row := ⟨fun _ _ hn hs => hn hs.symm⟩
    exact c.keyed.forall hh (List.mem_of_find?_eq_some hf) (fun he => hne (congrArg some he.symm)) (hkey.trans hkey'.symm)

theorem checked (hcheck : c.checkPeerOwnership p action e = true) :
    (action ≠ .remove → c.peerOwns p action e = true) ∧ ∀ h ∈ c.rows, h.row.SameKey e → c.peerOwns p action h.row = true := by
  unfold Consumer.checkPeerOwnership at hcheck
  obtain ⟨hcheck, hexisting⟩ := Bool.and_eq_true_iff.1 hcheck
  obtain ⟨hentity, _⟩ := Bool.and_eq_true_iff.1 hcheck
  constructor
  · intro hne
    rcases Bool.or_eq_true_iff.1 hentity with hr | howns
    · exact absurd (of_decide_eq_true hr) hne
    · exact howns
  · intro h hh hkey
    rw [existingRow_of_mem hh hkey] at hexisting
    exact hexisting

theorem decode_table {table : Bytes} {o : Order} (h : k.Decode table o = some e) : e.table = table := by
  unfold Codec.Decode Codec.decodeRow at h
  cases hi : info table with
  | none => simp [hi] at h
  | some i => cases hr : k.rest table (normalizeKeys k.unicode o) with
    | none => simp [hi, hr] at h
    | some gmtModified =>
      simp only [hi, hr, Option.some.injEq] at h
      rw [← h]

theorem accepted_checked {d : Consumer.PeerMessage} {o o' : Order} (hs : Spelled k.unicode d.members) (ho : o.Of k.unicode d.members)
    (ho' : o'.Of k.unicode d.members) (h : c.accepted k d o o' = some e) :
    e.table = d.table ∧ c.checkPeerOwnership (c.peerOf (Utf8.trimSpace d.origin)) d.action e = true := by
  unfold Consumer.accepted at h
  dsimp only at h
  rw [← Codec.decode_order d.members_nodup hs ho ho'] at h
  split_ifs at h
  cases he : k.Decode d.table o with
  | none => simp [he] at h
  | some e' =>
    rw [he] at h
    dsimp only at h
    split_ifs at h with hcheck
    obtain rfl := Option.some.inj h
    rw [Bool.not_eq_false] at hcheck
    exact ⟨decode_table he, hcheck⟩

/-- What a peer writes is its own: every row that is new, but for the bindings of a new datasource, and every row that
is overwritten or deleted. -/
theorem applyFromPeer_owned (now : Int) (targets : List Bytes) {d : Consumer.PeerMessage} {o o' : Order} (hs : Spelled k.unicode d.members)
    (ho : o.Of k.unicode d.members) (ho' : o'.Of k.unicode d.members) :
    (∀ h ∈ c.ApplyFromPeer k now targets d o o', h ∉ c.rows →
      c.peerOwns (c.peerOf (Utf8.trimSpace d.origin)) d.action h.row = true ∨
        d.table = TableProjectGraphDomainDs ∧ d.action = .create ∧ ∃ src, ∃ n ∈ targets, h = ⟨Consumer.binding now src n, false⟩) ∧
    ∀ h ∈ c.rows, h ∉ c.ApplyFromPeer k now targets d o o' → c.peerOwns (c.peerOf (Utf8.trimSpace d.origin)) d.action h.row = true := by
  unfold Consumer.ApplyFromPeer
  cases he : c.accepted k d o o' with
  | none => exact ⟨fun h hh hnew => absurd hh hnew, fun h hh hlost => absurd hh hlost⟩
  | some e =>
    obtain ⟨htable, hcheck⟩ := accepted_checked hs ho ho' he
    obtain ⟨hentity, hexisting⟩ := checked hcheck
    constructor
    · intro h hh hnew
      rcases apply_new hh hnew with ⟨hne, rfl⟩ | ⟨_, h₀, hh₀, hkey, rfl⟩ | ⟨hds, hcreate, n, hn, rfl⟩
      · exact .inl (stamped_owned.trans (hentity hne))
      · exact .inl (hexisting h₀ hh₀ hkey)
      · exact .inr ⟨htable ▸ hds, hcreate, e, n, hn, rfl⟩
    · intro h hh hlost
      exact hexisting h hh (apply_lost hh hlost)

def codec : Codec where
  unicode := .asciiCase
  formatFloat lit := lit
  marshal _ := []
  rest _ _ := some 0

def members (kvs : List (String × String)) : List (Bytes × Json) := kvs.map fun kv => (str kv.1, .str (str kv.2))

def orderOf (m : List (Bytes × Json)) : Order := ⟨snakeKeys .asciiCase m, camelKeys .asciiCase m, upkKeys m⟩

theorem orderOf_of {m : List (Bytes × Json)} : (orderOf m).Of .asciiCase m := ⟨.refl _, .refl _, .refl _⟩

def ownProject : List (Bytes × Json) := members [("projectId", "p2"), ("ownerId", "instA")]

def aliceSends (table : Bytes) (action : SyncAction) (m : List (Bytes × Json)) (h : (m.map (·.1)).Nodup) : Consumer.PeerMessage :=
  ⟨str "alice", table, action, m, h⟩

theorem spelledOnce_of_nodup {u : CaseTables} {l : List (Bytes × Json)} (h : (l.map fun kv => columnOf u kv.1).Nodup) : SpelledOnce u l :=
  fun _ ha _ hb he _ _ => List.inj_on_of_nodup_map h ha hb he

theorem spelled_ownProject : Spelled .asciiCase ownProject :=
  ⟨spelledOnce_of_nodup (by decide +kernel), spelledOnce_of_nodup (by decide +kernel), spelledOnce_of_nodup (by decide +kernel)⟩

def bobTakes (targets : List Bytes) (d : Consumer.PeerMessage) (o o' : Order) : List Held :=
  (bob sharedRows keyed_sharedRows).ApplyFromPeer codec 1 targets d o o'

def bobOwns (action : SyncAction) (h : Held) : Bool :=
  (bob sharedRows keyed_sharedRows).peerOwns ((bob sharedRows keyed_sharedRows).peerOf (str "alice")) action h.row

theorem applyFromPeer_owned_project : ∃ h ∈ bobTakes [] (aliceSends TableProject .create ownProject (by decide)) (orderOf ownProject) (orderOf ownProject),
    h ∉ sharedRows ∧ bobOwns .create h = true := by
  have hnew : (⟨⟨TableProject, [(str "project_id", str "p2"), (str "owner_id", str "instA")], 1⟩, false⟩ : Held) ∈
      bobTakes [] (aliceSends TableProject .create ownProject (by decide)) (orderOf ownProject) (orderOf ownProject) := by decide +kernel
  have hout : (⟨⟨TableProject, [(str "project_id", str "p2"), (str "owner_id", str "instA")], 1⟩, false⟩ : Held) ∉ sharedRows := by decide +kernel
  refine ⟨_, hnew, hout, ?_⟩
  have howned := applyFromPeer_owned (c := bob sharedRows keyed_sharedRows) (k := codec) 1 [] (d := aliceSends TableProject .create ownProject (by decide))
    spelled_ownProject orderOf_of orderOf_of
  rcases howned.1 _ hnew hout with howns | ⟨hds, _⟩
  · exact howns
  · exact absurd hds (by decide)

def twoOwners : List (Bytes × Json) := members [("projectId", "p2"), ("ownerId", "instA"), ("OwnerId", "instB")]

def twoOwnersLate : Order := ⟨[], members [("OwnerId", "instB"), ("ownerId", "instA"), ("projectId", "p2")], []⟩

def newDatasource : List (Bytes × Json) := members [("project_id", "p"), ("graph_id", "g"), ("domain_id", "alice")]

/-- A project that is written for the receiver, by a message with two owners, and a binding that is written for its node. -/
theorem applyFromPeer_owned_fails :
    twoOwnersLate.Of .asciiCase twoOwners ∧
    (∃ h ∈ bobTakes [] (aliceSends TableProject .create twoOwners (by decide)) (orderOf twoOwners) twoOwnersLate, h ∉ sharedRows ∧ bobOwns .create h = false) ∧
    ∃ h ∈ bobTakes [str "bob"] (aliceSends TableProjectGraphDomainDs .create newDatasource (by decide)) (orderOf newDatasource) (orderOf newDatasource),
      h ∉ sharedRows ∧ bobOwns .create h = false := by
  refine ⟨⟨?_, ?_, ?_⟩, ?_, ?_⟩
  · have hnone : snakeKeys .asciiCase twoOwners = [] := List.filter_eq_nil_iff.2 (by decide +kernel)
    rw [hnone]
    exact .refl _
  · have hall : camelKeys .asciiCase twoOwners = twoOwners := List.filter_eq_self.2 (by decide +kernel)
    rw [hall]
    exact List.reverse_perm twoOwners
  · exact .refl _
  · decide +kernel
  · decide +kernel

end Sync
