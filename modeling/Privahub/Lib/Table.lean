import Privahub.Lib.Bytes
import Mathlib.Data.List.Dedup
import Mathlib.Data.List.Nodup
import Mathlib.Data.List.Pairwise

/-!
# Tables with a unique integer key

The rows of a table under a unique index are kept in the order of that index (`Sorted`), so the
content of a table is one list and `ORDER BY key` is the list itself. `insertBy` puts a row in its
place; a key above all others goes to the end (`insertBy_of_lt`). `updateWhere` is an update of the rows
of a table under a condition.
-/

namespace Table

universe u
variable {R : Type u} (key : R → Int)

abbrev Sorted (rs : List R) : Prop := rs.Pairwise fun a b => key a < key b

def insertBy (r : R) : List R → List R
  | [] => [r]
  | a :: rs => if key r < key a then r :: a :: rs else a :: insertBy r rs

/-- `WHERE key BETWEEN lo AND hi`. -/
def between (lo hi : Int) (rs : List R) : List R := rs.filter fun r => decide (lo ≤ key r) && decide (key r ≤ hi)

variable {key} {r : R} {rs ss : List R} {lo hi : Int}

@[simp] theorem mem_insertBy {x : R} : x ∈ insertBy key r rs ↔ x = r ∨ x ∈ rs := by
  induction rs with
  | nil => simp [insertBy]
  | cons a rs ih =>
    unfold insertBy
    split_ifs
    · simp
    · simp only [List.mem_cons, ih]; tauto

theorem perm_insertBy : List.Perm (insertBy key r rs) (r :: rs) := by
  induction rs with
  | nil => exact .refl _
  | cons a rs ih =>
    unfold insertBy
    split_ifs
    · exact .refl _
    · exact (List.Perm.cons a ih).trans (List.Perm.swap ..)

theorem sorted_insertBy (h : Sorted key rs) (hr : ∀ x ∈ rs, key x ≠ key r) : Sorted key (insertBy key r rs) := by
  induction rs with
  | nil => simp [insertBy]
  | cons a rs ih =>
    obtain ⟨ha, hrs⟩ := List.pairwise_cons.1 h
    have hne := hr a (List.mem_cons_self ..)
    unfold insertBy
    split_ifs with hlt
    · refine List.pairwise_cons.2 ⟨fun x hx => ?_, h⟩
      rcases List.mem_cons.1 hx with rfl | hx
      · exact hlt
      · exact Int.lt_trans hlt (ha x hx)
    · refine List.pairwise_cons.2 ⟨fun x hx => ?_, ih hrs fun x hx => hr x (.tail _ hx)⟩
      rcases mem_insertBy.1 hx with rfl | hx
      · omega
      · exact ha x hx

theorem insertBy_of_lt (h : ∀ x ∈ rs, key x < key r) : insertBy key r rs = rs ++ [r] := by
  induction rs with
  | nil => rfl
  | cons a rs ih =>
    have := h a (List.mem_cons_self ..)
    rw [insertBy, if_neg (by omega), ih fun x hx => h x (.tail _ hx)]; rfl

theorem mem_between {x : R} : x ∈ between key lo hi rs ↔ x ∈ rs ∧ lo ≤ key x ∧ key x ≤ hi := by
  simp [between]

theorem sorted_between (h : Sorted key rs) : Sorted key (between key lo hi rs) := h.filter _

theorem between_eq_nil (h : ∀ x ∈ rs, key x < lo ∨ hi < key x) : between key lo hi rs = [] := by
  simp only [between, List.filter_eq_nil_iff, Bool.and_eq_true, decide_eq_true_eq]
  intro x hx; have := h x hx; omega

theorem between_append_filter (h : Sorted key rs) (hlo : ∀ x ∈ rs, lo ≤ key x) :
    between key lo hi rs ++ rs.filter (fun r => !(decide (lo ≤ key r) && decide (key r ≤ hi))) = rs := by
  induction rs with
  | nil => rfl
  | cons a rs ih =>
    obtain ⟨ha, hrs⟩ := List.pairwise_cons.1 h
    have hla := hlo a (List.mem_cons_self ..)
    have hih := ih hrs fun x hx => hlo x (.tail _ hx)
    by_cases hhi : key a ≤ hi
    · simp only [between, List.filter_cons, hla, hhi, decide_true, Bool.and_self, if_true, Bool.not_true,
        Bool.false_eq_true, if_false, List.cons_append] at hih ⊢
      rw [hih]
    · have hnil : between key lo hi (a :: rs) = [] := between_eq_nil fun x hx => by
        rcases List.mem_cons.1 hx with rfl | hx
        · omega
        · have := ha x hx; omega
      rw [hnil, List.nil_append, List.filter_eq_self]
      intro x hx
      have hx : hi < key x := by
        rcases List.mem_cons.1 hx with rfl | hx
        · omega
        · have := ha x hx; omega
      simp only [Bool.not_eq_true', Bool.and_eq_false_iff, decide_eq_false_iff_not]
      exact .inr (by omega)

theorem Sorted.ext (h : Sorted key rs) (h' : Sorted key ss) (hmem : ∀ x, x ∈ rs ↔ x ∈ ss) : rs = ss := by
  have hnd : ∀ {l : List R}, Sorted key l → l.Nodup := fun h => h.imp fun hlt he => by rw [he] at hlt; omega
  exact ((List.perm_ext_iff_of_nodup (hnd h) (hnd h')).2 hmem).eq_of_pairwise
    (fun a b _ _ hab hba => by omega) h h'

section Update

variable {κ : Type*} (p : R → Bool) (f : R → R)

/-- `UPDATE … SET f WHERE p`. -/
def updateWhere (rs : List R) : List R := rs.map fun r => if p r then f r else r

variable {p f} {x : R}

theorem map_updateWhere_of_mem (col : R → κ) (h : ∀ r ∈ rs, p r → col (f r) = col r) : (updateWhere p f rs).map col = rs.map col := by
  rw [updateWhere, List.map_map]
  refine List.map_congr_left fun r hr => ?_
  rw [Function.comp_apply]
  split_ifs with hp
  · exact h r hr hp
  · rfl

theorem map_updateWhere (col : R → κ) (hf : ∀ r, col (f r) = col r) : (updateWhere p f rs).map col = rs.map col :=
  map_updateWhere_of_mem col fun r _ _ => hf r

theorem nodup_updateWhere {col : R → κ} (hf : ∀ r, col (f r) = col r) (h : (rs.map col).Nodup) :
    ((updateWhere p f rs).map col).Nodup := by rwa [map_updateWhere col hf]

theorem mem_updateWhere : x ∈ updateWhere p f rs ↔ ∃ r ∈ rs, (if p r then f r else r) = x := List.mem_map

theorem find?_updateWhere {q : R → Bool} (h : ∀ r ∈ rs, p r → q (f r) = q r) :
    (updateWhere p f rs).find? q = (rs.find? q).map fun r => if p r then f r else r := by
  induction rs with
  | nil => rfl
  | cons a rs ih =>
    have ha : q (if p a then f a else a) = q a := by
      split_ifs with hp
      · exact h a (List.mem_cons_self ..) hp
      · rfl
    simp only [updateWhere, List.map_cons, List.find?_cons, ha] at ih ⊢
    cases q a with
    | true => rfl
    | false => exact ih fun r hr => h r (.tail _ hr)

theorem filter_updateWhere {q : R → Bool} (h : ∀ r, p r = true → q r = false ∧ q (f r) = false) :
    (updateWhere p f rs).filter q = rs.filter q := by
  induction rs with
  | nil => rfl
  | cons a rs ih =>
    simp only [updateWhere, List.map_cons, List.filter_cons] at ih ⊢
    rw [ih]
    by_cases hp : p a = true
    · simp only [hp, if_true, (h a hp).1, (h a hp).2, Bool.false_eq_true, if_false]
    · rw [if_neg hp]

theorem eq_of_col_eq {col : R → κ} (h : (rs.map col).Nodup) {a b : R} (ha : a ∈ rs) (hb : b ∈ rs) (hab : col a = col b) :
    a = b := List.inj_on_of_nodup_map h ha hb hab

end Update

section Keys

variable {κ : Type*} {β : Type*}

theorem nodup_concat {col : R → κ} {x : R} (h : (rs.map col).Nodup) (hnew : ∀ r ∈ rs, col r ≠ col x) : ((rs ++ [x]).map col).Nodup := by
  rw [List.map_append]
  refine List.nodup_append.2 ⟨h, List.nodup_singleton _, fun a ha b hb => ?_⟩
  obtain ⟨r, hr, rfl⟩ := List.mem_map.1 ha
  obtain rfl := List.mem_singleton.1 hb
  exact hnew r hr

theorem foldl_update [DecidableEq κ] (key : R → κ) (val : R → β) (ws : List R) (m : κ → Option β) (k : κ) :
    ws.foldl (fun m w => Function.update m (key w) (some (val w))) m k = ((ws.reverse.find? fun w => decide (key w = k)).map val).or (m k) := by
  induction ws generalizing m with
  | nil => simp
  | cons w ws ih =>
    rw [List.foldl_cons, ih, List.reverse_cons, List.find?_append]
    cases ws.reverse.find? fun w => decide (key w = k) with
    | some v => simp
    | none =>
      by_cases hk : key w = k
      · simp [hk]
      · simp [hk, Function.update_of_ne (Ne.symm hk)]

theorem sorted_dedup (l : List Bytes) : (l.dedup.mergeSort fun a b => decide (a ≤ b)).Pairwise (· < ·) := by
  have hle : (l.dedup.mergeSort fun a b => decide (a ≤ b)).Pairwise (· ≤ ·) := by
    refine (List.pairwise_mergeSort (fun a b c hab hbc => ?_) (fun a b => ?_) _).imp of_decide_eq_true
    · exact decide_eq_true (List.le_trans (of_decide_eq_true hab) (of_decide_eq_true hbc))
    · rw [Bool.or_eq_true]
      exact (List.le_total a b).imp decide_eq_true decide_eq_true
  have hnodup : (l.dedup.mergeSort fun a b => decide (a ≤ b)).Nodup := (List.mergeSort_perm _ _).nodup_iff.2 l.nodup_dedup
  exact (hle.and hnodup).imp fun h => Std.lt_of_le_of_ne h.1 h.2

end Keys

end Table
