import Mathlib.Data.List.Pairwise
import Mathlib.Data.List.Induction
import Mathlib.Data.List.TakeWhile

/-!
# Insertion sort by a partial order

Each element is put before those at the end of the sorted part that it precedes, as far as the first one that it does not precede. An
incomparable element stops it, so the result need not be in order; `sorted_iff` says when it is.
-/

namespace InsertionSort

open scoped List

universe u
variable {α : Type u} (lt : α → α → Bool)

/-- `x` is put into the sorted part, the last element of which stands first. -/
def insert (x : α) : List α → List α
  | [] => [x]
  | y :: ys => if lt x y then y :: insert x ys else x :: y :: ys

def sort (l : List α) : List α := (l.foldl (fun sorted x => insert lt x sorted) []).reverse

def Sorted (l : List α) : Prop := l.Pairwise fun a b => lt b a = false

variable {lt} {l p q : List α} {a b x y : α}

theorem insert_eq : insert lt x l = l.takeWhile (lt x) ++ x :: l.dropWhile (lt x) := by
  induction l with
  | nil => rfl
  | cons y l ih =>
    by_cases h : lt x y = true
    · simp [insert, h, ih]
    · simp [insert, h]

theorem sort_concat (lt : α → α → Bool) (l : List α) (x : α) : ∃ p q, sort lt l = p ++ q ∧ sort lt (l ++ [x]) = p ++ x :: q ∧
    (∀ y ∈ q, lt x y = true) ∧ ∀ y, p.getLast? = some y → lt x y = false := by
  generalize hr : l.foldl (fun sorted x => insert lt x sorted) [] = r
  have hl : sort lt l = r.reverse := by rw [sort, hr]
  have hx : sort lt (l ++ [x]) = (insert lt x r).reverse := by rw [sort, List.foldl_append, hr]; rfl
  refine ⟨(r.dropWhile (lt x)).reverse, (r.takeWhile (lt x)).reverse, ?_, ?_, fun y hy => ?_, fun y hy => ?_⟩
  · rw [hl, ← List.reverse_append, List.takeWhile_append_dropWhile]
  · rw [hx, insert_eq]
    simp
  · exact List.mem_takeWhile_imp (List.mem_reverse.1 hy)
  · rw [List.getLast?_reverse] at hy
    have hnot := List.head?_dropWhile_not (lt x) r
    rw [hy] at hnot
    exact hnot

theorem sort_perm (lt : α → α → Bool) (l : List α) : (sort lt l).Perm l := by
  induction l using List.reverseRecOn with
  | nil => exact .nil
  | append_singleton l x ih =>
    obtain ⟨p, q, hl, hx, _, _⟩ := sort_concat lt l x
    rw [hx]
    exact List.perm_middle.trans ((List.Perm.cons x (hl ▸ ih)).trans (List.perm_append_singleton x l).symm)

theorem sublist_concat {s : List α} : s <+ l ++ [x] ↔ s <+ l ∨ ∃ r, s = r ++ [x] ∧ r <+ l := by
  constructor
  · intro h
    obtain ⟨l₁, l₂, rfl, h₁, h₂⟩ := List.sublist_append_iff.1 h
    rcases List.sublist_cons_iff.1 h₂ with h₂ | ⟨r, rfl, hr⟩
    · obtain rfl := List.sublist_nil.1 h₂
      exact .inl (by simpa using h₁)
    · obtain rfl := List.sublist_nil.1 hr
      exact .inr ⟨l₁, rfl, h₁⟩
  · rintro (h | ⟨r, rfl, h⟩)
    · exact h.trans (List.sublist_append_left l [x])
    · exact h.append (List.Sublist.refl [x])

theorem pair_concat : [a, b] <+ l ++ [x] ↔ [a, b] <+ l ∨ a ∈ l ∧ b = x := by
  refine sublist_concat.trans (or_congr_right ⟨?_, ?_⟩)
  · rintro ⟨r, heq, hr⟩
    obtain ⟨rfl, hb⟩ := List.append_inj' (show [a] ++ [b] = r ++ [x] from heq) rfl
    exact ⟨List.singleton_sublist.1 hr, List.singleton_inj.1 hb⟩
  · rintro ⟨ha, rfl⟩
    exact ⟨[a], rfl, List.singleton_sublist.2 ha⟩

theorem pair_middle (h : [a, b] <+ p ++ x :: q) : [a, b] <+ p ++ q ∨ a ∈ p ∧ b = x ∨ a = x ∧ b ∈ q := by
  obtain ⟨l₁, l₂, heq, h₁, h₂⟩ := List.sublist_append_iff.1 h
  rcases List.sublist_cons_iff.1 h₂ with h₂ | ⟨r, rfl, hr⟩
  · exact .inl (heq ▸ h₁.append h₂)
  · match l₁, heq with
    | [], heq =>
      obtain ⟨rfl, rfl⟩ := List.cons.inj heq
      exact .inr (.inr ⟨rfl, List.singleton_sublist.1 hr⟩)
    | [c], heq =>
      obtain ⟨rfl, hb⟩ := List.cons.inj heq
      exact .inr (.inl ⟨List.singleton_sublist.1 h₁, (List.cons.inj hb).1⟩)
    | c :: d :: l, heq => simp at heq

theorem pair_sort (h : [a, b] <+ l) (hba : lt b a = false) : [a, b] <+ sort lt l := by
  induction l using List.reverseRecOn with
  | nil => cases h
  | append_singleton l x ih =>
    obtain ⟨p, q, hl, hx, hq, _⟩ := sort_concat lt l x
    rw [hx]
    rcases pair_concat.1 h with h | ⟨ha, rfl⟩
    · exact (hl ▸ ih h).trans ((List.Sublist.refl p).append (List.sublist_cons_self x q))
    · have hmem : a ∈ p ++ q := hl ▸ (sort_perm lt l).mem_iff.2 ha
      rcases List.mem_append.1 hmem with hp | hq'
      · exact (List.singleton_sublist.2 hp).append (List.singleton_sublist.2 (List.mem_cons_self ..))
      · exact absurd (hq a hq') (by simp [hba])

theorem pair_of_sort (h : [a, b] <+ sort lt l) : [a, b] <+ l ∨ [b, a] <+ l ∧ lt a b = true := by
  induction l using List.reverseRecOn with
  | nil => exact .inl h
  | append_singleton l x ih =>
    obtain ⟨p, q, hl, hx, hq, _⟩ := sort_concat lt l x
    have hmem : ∀ c, c ∈ p ++ q → c ∈ l := fun c hc => (sort_perm lt l).mem_iff.1 (hl ▸ hc)
    rw [hx] at h
    rcases pair_middle h with h | ⟨ha, rfl⟩ | ⟨rfl, hb⟩
    · rcases ih (hl ▸ h) with h | ⟨h, hlt⟩
      · exact .inl (h.trans (List.sublist_append_left l [x]))
      · exact .inr ⟨h.trans (List.sublist_append_left l [x]), hlt⟩
    · exact .inl (pair_concat.2 (.inr ⟨hmem a (List.mem_append_left _ ha), rfl⟩))
    · exact .inr ⟨pair_concat.2 (.inr ⟨hmem b (List.mem_append_right _ hb), rfl⟩), hq b hb⟩

theorem sorted_pair (h : Sorted lt l) (hab : [a, b] <+ l) : lt b a = false := List.pairwise_iff_forall_sublist.1 h hab

theorem sorted_insert_iff (hasymm : ∀ a b, lt a b = true → lt b a = false) (hq : ∀ y ∈ q, lt x y = true) :
    Sorted lt (p ++ x :: q) ↔ Sorted lt (p ++ q) ∧ ∀ z ∈ p, lt x z = false := by
  unfold Sorted
  rw [List.pairwise_append, List.pairwise_append, List.pairwise_cons]
  constructor
  · rintro ⟨hp, ⟨_, hq'⟩, hpq⟩
    exact ⟨⟨hp, hq', fun a ha b hb => hpq a ha b (.tail _ hb)⟩, fun z hz => hpq z hz x (List.mem_cons_self ..)⟩
  · rintro ⟨⟨hp, hq', hpq⟩, hx⟩
    refine ⟨hp, ⟨fun y hy => hasymm x y (hq y hy), hq'⟩, fun a ha b hb => ?_⟩
    rcases List.mem_cons.1 hb with rfl | hb
    · exact hx a ha
    · exact hpq a ha b hb

/-- The result is in order if and only if of three elements the last of which precedes the first, the one in the middle comes after the
last or before the first. -/
theorem sorted_iff (htrans : ∀ a b c, lt a b = true → lt b c = true → lt a c = true) (hasymm : ∀ a b, lt a b = true → lt b a = false) :
    Sorted lt (sort lt l) ↔ ∀ a b c, [a, b, c] <+ l → lt c a = true → lt c b = true ∨ lt b a = true := by
  induction l using List.reverseRecOn with
  | nil => exact iff_of_true .nil fun a b c h => nomatch h
  | append_singleton l x ih =>
    obtain ⟨p, q, hl, hx, hq, hlast⟩ := sort_concat lt l x
    rw [hx, sorted_insert_iff hasymm hq, ← hl, ih]
    constructor
    · rintro ⟨hold, hp⟩ a b c habc hca
      rcases sublist_concat.1 habc with habc | ⟨r, heq, hr⟩
      · exact hold a b c habc hca
      obtain ⟨rfl, hc⟩ := List.append_inj' (show [a, b] ++ [c] = r ++ [x] from heq) rfl
      obtain rfl := List.singleton_inj.1 hc
      by_contra hno
      obtain ⟨hcb, hba⟩ : lt c b = false ∧ lt b a = false := by simpa using hno
      -- `b` stays behind `a`, and `c` does not get past `b`
      have hab : [a, b] <+ p ++ q := hl ▸ pair_sort hr hba
      have ha : a ∈ p := by
        obtain ⟨l₁, l₂, heq, h₁, h₂⟩ := List.sublist_append_iff.1 hab
        match l₁, heq with
        | [], heq =>
          obtain rfl : [a, b] = l₂ := heq
          exact absurd (hq b (h₂.subset (by simp))) (by simp [hcb])
        | d :: l₁, heq => exact (List.cons.inj heq).1 ▸ h₁.subset (List.mem_cons_self ..)
      exact absurd (hp a ha) (by simp [hca])
    · intro h
      have hold : ∀ a b c, [a, b, c] <+ l → lt c a = true → lt c b = true ∨ lt b a = true := fun a b c habc =>
        h a b c (habc.trans (List.sublist_append_left l [x]))
      refine ⟨hold, fun z hz => ?_⟩
      by_contra hxz
      rw [Bool.not_eq_false] at hxz
      obtain ⟨p', y, hpy⟩ := (List.eq_nil_or_concat p).resolve_left (List.ne_nil_of_mem hz)
      rw [List.concat_eq_append] at hpy
      subst hpy
      have hxy : lt x y = false := hlast y (by simp)
      have hzp : z ∈ p' := by
        rcases List.mem_append.1 hz with hz | hz
        · exact hz
        · rw [List.mem_singleton.1 hz, hxy] at hxz
          cases hxz
      have hzy : [z, y] <+ sort lt l := by
        rw [hl]
        exact ((List.singleton_sublist.2 hzp).append (List.Sublist.refl [y])).trans (List.sublist_append_left _ q)
      rcases pair_of_sort hzy with hin | ⟨_, hlt⟩
      · rcases h z y x (hin.append (List.Sublist.refl [x])) hxz with hxy' | hyz
        · exact absurd hxy' (by simp [hxy])
        · exact absurd (sorted_pair (ih.2 hold) hzy) (by simp [hyz])
      · exact absurd (htrans x z y hxz hlt) (by simp [hxy])

end InsertionSort
