import Privahub.Job.Stale
import Mathlib.Data.List.Find

/-!
# Extended tasks in the merged report

`mergeExtendedTasks` folds the reports of the adapter tasks `{taskId}--1` into the one of their base. The map that it gathers them in
has room for one extended task of each base: of several, the one that stands last in the list. `merge_status` says what becomes of a
base and of that task, and `merge_perm` that without a second one the order of the list makes no difference.
-/

namespace Job

open Sched (NodeStatus)

variable {tasks tasks' : List JobTaskStatusDetail} {id : Bytes} {b e m t : JobTaskStatusDetail}

def baseId (t : JobTaskStatusDetail) : Bytes := (beforeDashes (raw t)).getD (raw t)

/-- `b` is the report of the task `id` itself. -/
def IsBase (tasks : List JobTaskStatusDetail) (id : Bytes) (b : JobTaskStatusDetail) : Prop :=
  b ∈ tasks ∧ raw b = id ∧ beforeDashes (raw b) = none

/-- `e` is the report of an extended task of `id`, and none comes after it. -/
def IsLastExt (tasks : List JobTaskStatusDetail) (id : Bytes) (e : JobTaskStatusDetail) : Prop :=
  ∃ l₁ l₂, tasks = l₁ ++ e :: l₂ ∧ beforeDashes (raw e) = some id ∧ ∀ t ∈ l₂, beforeDashes (raw t) ≠ some id

def DistinctIds (tasks : List JobTaskStatusDetail) : Prop := (tasks.map raw).Nodup

def OneExt (tasks : List JobTaskStatusDetail) : Prop :=
  ∀ t ∈ tasks, ∀ u ∈ tasks, ∀ id, beforeDashes (raw t) = some id → beforeDashes (raw u) = some id → t = u

theorem ext_iff : ext tasks id = some e ↔ IsLastExt tasks id e := by
  unfold ext IsLastExt
  rw [List.find?_eq_some_iff_append]
  constructor
  · rintro ⟨he, l₂, l₁, hl, hnone⟩
    refine ⟨l₁.reverse, l₂.reverse, ?_, of_decide_eq_true he, fun t ht => ?_⟩
    · rw [← List.reverse_reverse tasks, hl]
      simp
    · simpa using hnone t (List.mem_reverse.1 ht)
  · rintro ⟨l₁, l₂, rfl, he, hnone⟩
    exact ⟨decide_eq_true he, l₂.reverse, l₁.reverse, by simp, fun t ht => by simpa using hnone t (List.mem_reverse.1 ht)⟩

theorem base_unique (hids : DistinctIds tasks) (ht : t ∈ tasks) (hb : b ∈ tasks) (h : decide (raw t = id ∧ beforeDashes (raw t) = none) = true)
    (h' : decide (raw b = id ∧ beforeDashes (raw b) = none) = true) : t = b :=
  Table.eq_of_col_eq hids ht hb ((of_decide_eq_true h).1.trans (of_decide_eq_true h').1.symm)

theorem base_iff (hids : DistinctIds tasks) : base tasks id = some b ↔ IsBase tasks id b := by
  unfold base IsBase
  constructor
  · intro h
    have hb := List.find?_some h
    exact ⟨List.mem_reverse.1 (List.mem_of_find?_eq_some h), of_decide_eq_true hb⟩
  · rintro ⟨hb, hid⟩
    cases hfind : tasks.reverse.find? fun t => decide (raw t = id ∧ beforeDashes (raw t) = none) with
    | none => exact absurd (decide_eq_true hid) (List.find?_eq_none.1 hfind b (List.mem_reverse.2 hb))
    | some t =>
      have ht := List.find?_some hfind
      exact congrArg some (base_unique hids (List.mem_reverse.1 (List.mem_of_find?_eq_some hfind)) hb ht (decide_eq_true hid))

theorem base_isSome : (base tasks id).isSome ↔ ∃ t ∈ tasks, raw t = id ∧ beforeDashes (raw t) = none := by
  unfold base
  simp [List.find?_isSome]

theorem ext_isSome : (ext tasks id).isSome ↔ ∃ t ∈ tasks, beforeDashes (raw t) = some id := by
  unfold ext
  simp [List.find?_isSome]

theorem merge_isSome : (mergeExtendedTasks tasks id).isSome ↔ (base tasks id).isSome ∨ (ext tasks id).isSome := by
  unfold mergeExtendedTasks
  cases base tasks id <;> cases ext tasks id <;> simp

theorem merge_ids : (mergeExtendedTasks tasks id).isSome ↔ ∃ t ∈ tasks, baseId t = id := by
  rw [merge_isSome, base_isSome, ext_isSome]
  constructor
  · rintro (⟨t, ht, rfl, hnone⟩ | ⟨t, ht, hext⟩)
    · exact ⟨t, ht, by rw [baseId, hnone, Option.getD_none]⟩
    · exact ⟨t, ht, by rw [baseId, hext, Option.getD_some]⟩
  · rintro ⟨t, ht, rfl⟩
    unfold baseId
    cases hext : beforeDashes (raw t) with
    | none => exact .inl ⟨t, ht, rfl, hext⟩
    | some id => exact .inr ⟨t, ht, hext⟩

abbrev status (t : JobTaskStatusDetail) : NodeStatus := TaskStatusFromKuscia t.state

theorem status_extOnly : status (extOnly e) = if status e = .succeed then .running else status e := by
  unfold extOnly
  split_ifs with h hs hs
  · exact status_running
  · exact status_running.trans (h.resolve_left hs).symm
  · exact absurd (.inl hs) h
  · rfl

theorem status_withExt : status (withExt b e) =
    if status e = .failed then .failed else if status b = .initialized ∧ status e ≠ .initialized then .running else status b := by
  unfold withExt
  split_ifs
  · exact status_failed
  · exact status_running
  · rfl

/-- What becomes of a base and of the extended task that is kept for it. -/
structure Merged (tasks : List JobTaskStatusDetail) (id : Bytes) (s : NodeStatus) : Prop where
  failed : s = .failed ↔ (∃ b, IsBase tasks id b ∧ status b = .failed) ∨ ∃ e, IsLastExt tasks id e ∧ status e = .failed
  succeed : s = .succeed ↔ (∃ b, IsBase tasks id b ∧ status b = .succeed) ∧ ∀ e, IsLastExt tasks id e → status e ≠ .failed
  stopped : s = .stopped ↔ (∀ e, IsLastExt tasks id e → status e ≠ .failed) ∧
    ((∃ b, IsBase tasks id b ∧ status b = .stopped) ∨ (∀ b, ¬IsBase tasks id b) ∧ ∃ e, IsLastExt tasks id e ∧ status e = .stopped)

theorem merge_status (hids : DistinctIds tasks) (h : mergeExtendedTasks tasks id = some m) : Merged tasks id (status m) := by
  have hbase (b) : IsBase tasks id b ↔ base tasks id = some b := (base_iff hids).symm
  have hext (e) : IsLastExt tasks id e ↔ ext tasks id = some e := ext_iff.symm
  unfold mergeExtendedTasks at h
  cases hb : base tasks id with
  | none =>
    cases he : ext tasks id with
    | none =>
      rw [hb, he] at h
      cases h
    | some e =>
      rw [hb, he] at h
      obtain rfl := Option.some.inj h
      rw [status_extOnly]
      constructor <;> simp only [hbase, hext, hb, he] <;> split_ifs with hs <;> simp_all
  | some b =>
    cases he : ext tasks id with
    | none =>
      rw [hb, he] at h
      obtain rfl := Option.some.inj h
      constructor <;> simp [hbase, hext, hb, he]
    | some e =>
      rw [hb, he] at h
      obtain rfl := Option.some.inj h
      rw [status_withExt]
      constructor <;> simp only [hbase, hext, hb, he] <;> split_ifs with hf hs <;> simp_all

theorem base_perm (hids : DistinctIds tasks) (h : tasks.Perm tasks') : base tasks' id = base tasks id := by
  refine (List.find?_eq_find?_of_perm (tasks.reverse_perm.trans (h.trans tasks'.reverse_perm.symm)) ?_).symm
  rintro t ⟨ht, hp⟩ u ⟨hu, hq⟩
  exact base_unique hids (List.mem_reverse.1 ht) (List.mem_reverse.1 hu) hp hq

theorem ext_perm (hone : OneExt tasks) (h : tasks.Perm tasks') : ext tasks' id = ext tasks id := by
  refine (List.find?_eq_find?_of_perm (tasks.reverse_perm.trans (h.trans tasks'.reverse_perm.symm)) ?_).symm
  rintro t ⟨ht, hp⟩ u ⟨hu, hq⟩
  exact hone t (List.mem_reverse.1 ht) u (List.mem_reverse.1 hu) id (of_decide_eq_true hp) (of_decide_eq_true hq)

theorem merge_perm (hids : DistinctIds tasks) (hone : OneExt tasks) (h : tasks.Perm tasks') :
    mergeExtendedTasks tasks' id = mergeExtendedTasks tasks id := by
  unfold mergeExtendedTasks
  rw [base_perm hids h, ext_perm hone h]

/-- The reports of distinct tasks are folded into one for each base. -/
theorem mergeExtendedTasks_spec (hids : DistinctIds tasks) :
    (∀ id, (mergeExtendedTasks tasks id).isSome ↔ ∃ t ∈ tasks, baseId t = id) ∧
    (∀ id m, mergeExtendedTasks tasks id = some m → Merged tasks id (status m)) ∧
    (OneExt tasks → ∀ tasks', tasks.Perm tasks' → ∀ id, mergeExtendedTasks tasks' id = mergeExtendedTasks tasks id) :=
  ⟨fun _ => merge_ids, fun _ _ => merge_status hids, fun hone _ h _ => merge_perm hids hone h⟩

def taskReport (name state : String) : JobTaskStatusDetail := ⟨str name, str name, str state, []⟩

theorem mergeExtendedTasks_spec_adapter :
    DistinctIds [taskReport "t--1" "Failed", taskReport "t" "Running"] ∧
    Merged [taskReport "t--1" "Failed", taskReport "t" "Running"] (str "t") .failed := by
  have hids : DistinctIds [taskReport "t--1" "Failed", taskReport "t" "Running"] := by
    unfold DistinctIds
    decide +kernel
  have hfailed : (mergeExtendedTasks [taskReport "t--1" "Failed", taskReport "t" "Running"] (str "t")).map status = some .failed := by decide +kernel
  obtain ⟨m, hm, hs⟩ := Option.map_eq_some_iff.1 hfailed
  exact ⟨hids, hs ▸ (mergeExtendedTasks_spec hids).2.1 (str "t") m hm⟩

/-- The failure of an extended task is lost behind a second one, a base that has succeeded does not wait for its extended task, and
one that is stopped stays so. -/
theorem mergeExtendedTasks_last :
    DistinctIds [taskReport "t" "Running", taskReport "t--1" "Failed", taskReport "t--2" "Succeeded"] ∧
    (mergeExtendedTasks [taskReport "t" "Running", taskReport "t--1" "Failed", taskReport "t--2" "Succeeded"] (str "t")).map status = some .running ∧
    (mergeExtendedTasks [taskReport "t" "Running", taskReport "t--2" "Succeeded", taskReport "t--1" "Failed"] (str "t")).map status = some .failed ∧
    (mergeExtendedTasks [taskReport "t" "Succeeded", taskReport "t--1" "Running"] (str "t")).map status = some .succeed ∧
    (mergeExtendedTasks [taskReport "t" "Stopped"] (str "t")).map status = some .stopped := by
  unfold DistinctIds
  decide +kernel

end Job
