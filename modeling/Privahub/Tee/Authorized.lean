import Privahub.Tee.Calls

/-!
# The push behind an authorization

`AuthDatatableToTee` looks for the push of the table to the TEE node it is called for, and pushes when there is none or the last one has
failed; but the push that it starts goes to the TEE node of the platform. An authorization that goes through therefore stands on a push of
the table to its own TEE node exactly when there was one before or its TEE node is that of the platform (`pushed_iff`).
-/

namespace Tee

namespace DatatableService

variable (s : DatatableService)

/-- The rows that are kept: those of the database, and for an edge those of the center too. -/
def kept (st : State) : List TeeNodeDatatableManagementDO := st.db.records ++ if s.edge then st.center else []

/-- The row is of the push of this table of this node to this TEE node. -/
def IsPush (req : AuthRequest) (m : TeeNodeDatatableManagementDO) : Prop :=
  m.nodeId = req.nodeID ∧ m.teeNodeId = s.teeDomain req.teeNodeID ∧
    m.datatableId = BuildTeeDatatableID (s.teeDomain req.teeNodeID) req.datatableID ∧ m.kind = .push

instance (req : AuthRequest) (m : TeeNodeDatatableManagementDO) : Decidable (s.IsPush req m) := inferInstanceAs (Decidable (_ ∧ _ ∧ _ ∧ _))

def HasPush (req : AuthRequest) (st : State) : Prop := ∃ m ∈ s.kept st, s.IsPush req m ∧ m.status ≠ .failed

instance (req : AuthRequest) (st : State) : Decidable (s.HasPush req st) := inferInstanceAs (Decidable (∃ m ∈ s.kept st, _))

def pushRequest (req : AuthRequest) : PushDatatableToTeeRequest := ⟨req.nodeID, req.datatableID, [], [], []⟩

variable {s} {st st' st₁ : State} {m : TeeNodeDatatableManagementDO} {rows : List TeeNodeDatatableManagementDO}
  {more : List CreateJobRequest} {req : AuthRequest} {x : Auth}

theorem Grew.kept (h : s.Grew st st' rows more) : m ∈ s.kept st' ↔ m ∈ s.kept st ∨ m ∈ rows := by
  have hstore := h.store
  have hother := h.other
  unfold DatatableService.store at hstore
  unfold DatatableService.kept
  split_ifs at hstore hother ⊢
  · rw [hstore, hother, ← List.append_assoc, List.mem_append]
  · rw [hstore, List.append_nil, List.append_nil, List.mem_append]

theorem Grew.hasPush (h : s.Grew st st' rows more) : s.HasPush req st' ↔ s.HasPush req st ∨ ∃ m ∈ rows, s.IsPush req m ∧ m.status ≠ .failed := by
  unfold HasPush
  simp only [h.kept, or_and_right, exists_or]

theorem Submitted.hasPush_auth {y : Saving} (h : Submitted s (s.authRecord req y) st st') : s.HasPush req st' ↔ s.HasPush req st := by
  obtain ⟨id, hgrew⟩ := h
  rw [hgrew.hasPush]
  refine or_iff_left ?_
  rintro ⟨r, hr, hpush, -⟩
  obtain rfl := List.mem_singleton.1 hr
  exact nomatch hpush.2.2.2

theorem PushedAfter.hasPush {y : Saving} (h : PushedAfter s (s.pushRecord (pushRequest req) y) st st') :
    s.HasPush req st' ↔ s.HasPush req st ∨ s.teeDomain req.teeNodeID = s.teeNodeID := by
  obtain ⟨rows, id, hrows, hgrew⟩ := h
  rw [hgrew.hasPush]
  refine or_congr_right ⟨?_, fun heq => ?_⟩
  · rintro ⟨r, hr, hpush, -⟩
    obtain hr | hr := List.mem_append.1 hr
    · exact nomatch (hrows r hr).1.symm.trans hpush.2.2.2
    · obtain rfl := List.mem_singleton.1 hr
      exact hpush.2.1.symm
  · refine ⟨_, List.mem_append_right _ (List.mem_singleton_self _), ⟨rfl, heq.symm, ?_, rfl⟩, nofun⟩
    rw [heq]
    rfl

theorem hasPush_of_needsPush (h : s.needsPush st req x = false) : s.HasPush req st := by
  unfold needsPush at h
  split_ifs at h with hfind
  split at h
  · cases h
  · next push hlast =>
    obtain ⟨hmem, hpush⟩ := List.mem_filter.1 (List.mem_of_getLast? hlast)
    exact ⟨push, List.mem_append_left _ hmem, of_decide_eq_true hpush, of_decide_eq_false h⟩

theorem pushFirst_hasPush : Spec (fun _ st' => s.HasPush req st' ↔ s.HasPush req st ∨ s.teeDomain req.teeNodeID = s.teeNodeID)
    (Undone s st) (s.pushFirst st req x) := by
  unfold pushFirst
  split_ifs with hneeds
  · exact pushDatatableToTee_rows.mono (fun _ _ h => h.hasPush) fun _ h => h
  · exact (or_iff_left_of_imp fun _ => hasPush_of_needsPush (Bool.eq_false_iff.2 hneeds)).symm

/-- After an authorization that goes through, its table is pushed to its TEE node exactly when it was before or the node is the one of the
platform. -/
theorem pushed_iff {auth : TeeNodeDatatableManagementDO} (h : (s.AuthDatatableToTee st req x).1 = .ok auth) :
    s.HasPush req (s.AuthDatatableToTee st req x).2 ↔ s.HasPush req st ∨ s.teeDomain req.teeNodeID = s.teeNodeID := by
  have hpush : Spec (fun _ st' => s.HasPush req st' ↔ s.HasPush req st ∨ s.teeDomain req.teeNodeID = s.teeNodeID) (Undone s st)
      (s.pushFirst st req x) := pushFirst_hasPush
  have hspec := auth_after_push hpush
  revert h hspec
  generalize s.AuthDatatableToTee st req x = r
  obtain ⟨res, st'⟩ := r
  rintro rfl ⟨rfl, st₁, hpush, hsub⟩
  rw [hsub.hasPush_auth]
  exact hpush

private def platform : DatatableService := ⟨.asciiCase, str "tee", 1, true, false⟩

/-- Routes both ways between alice and two TEE nodes, and no row yet. -/
private def routed : State :=
  ⟨⟨[], [], 1⟩, [(str "alice", str "tee"), (str "tee", str "alice"), (str "alice", str "tee2"), (str "tee2", str "alice")], [], [], [], [], [], []⟩

private def saves (id : String) : Submission := ⟨⟨str id, 1, .done, []⟩, .done, [], true⟩

private def answers : Auth :=
  ⟨true, true, true, ⟨true, true, true, true, str "grant", .done, [], ⟨str "aaaa", 1, .done, []⟩, saves "bbbb"⟩, some (str "cert"), saves "cccc"⟩

private def authorize (tee : String) : AuthRequest := ⟨str "p", str "alice", str "t", str tee, []⟩

/-- The table is authorized at tee2, and pushed to tee. -/
theorem authorized_not_pushed : (platform.AuthDatatableToTee routed (authorize "tee2") answers).1.isOk = true ∧
    ¬ platform.HasPush (authorize "tee2") (platform.AuthDatatableToTee routed (authorize "tee2") answers).2 ∧
    (platform.AuthDatatableToTee routed (authorize "tee2") answers).2.db.records.map (fun m => (m.kind, m.teeNodeId, m.datatableId)) =
      [(.pushAuth, str "tee", str "t"), (.push, str "tee", str "tee-t"), (.auth, str "tee2", str "tee2-t")] := by
  decide +kernel

theorem pushed_iff_tee : platform.HasPush (authorize "tee") (platform.AuthDatatableToTee routed (authorize "tee") answers).2 ↔
    platform.HasPush (authorize "tee") routed ∨ platform.teeDomain (str "tee") = str "tee" :=
  pushed_iff (by rfl : _ = Except.ok { platform.authRecord (authorize "tee") (saves "cccc").save with id := 0 })

end DatatableService

end Tee
