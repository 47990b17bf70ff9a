import Mathlib.Logic.Relation
import Mathlib.Order.Basic
import Mathlib.Tactic.SplitIfs
import Mathlib.Data.List.Basic

/-!
# Search with a stack

A depth-first search for one point, with the list of the points seen so far and a stack of those whose neighbours are still to be looked
at. `found_iff`: with as much fuel as there are points, the search says whether the goal can be reached.
-/

namespace Search

universe u
variable {α : Type u} [DecidableEq α]

/-- The neighbours of a point: `none` if the goal is one of them, else those not seen yet go onto the stack. -/
def visit (goal : α) : List α → List α → List α → Option (List α × List α)
  | [], seen, stack => some (seen, stack)
  | b :: bs, seen, stack =>
    if b = goal then none
    else if b ∈ seen then visit goal bs seen stack
    else visit goal bs (b :: seen) (b :: stack)

def search (adj : α → List α) (goal : α) : Nat → List α → List α → Bool
  | 0, _, _ => false
  | _ + 1, _, [] => false
  | n + 1, seen, a :: stack =>
    match visit goal (adj a) seen stack with
    | none => true
    | some r => search adj goal n r.1 r.2

/-- `b` is a neighbour of `a`. -/
def Edge (adj : α → List α) (a b : α) : Prop := b ∈ adj a

variable {adj : α → List α} {goal : α} {bs seen stack seen' stack' all : List α}

theorem visit_none (h : visit goal bs seen stack = none) : goal ∈ bs := by
  induction bs generalizing seen stack with
  | nil => cases h
  | cons b bs ih =>
    simp only [visit] at h
    split_ifs at h with hb hs
    · exact hb ▸ List.mem_cons_self ..
    · exact .tail _ (ih h)
    · exact .tail _ (ih h)

def work (all seen stack : List α) : Nat := (all.filter fun a => decide (a ∉ seen)).length + stack.length

def push : List α → List α → List α → List α × List α
  | [], seen, stack => (seen, stack)
  | b :: bs, seen, stack => if b ∈ seen then push bs seen stack else push bs (b :: seen) (b :: stack)

theorem visit_eq : visit goal bs seen stack = if goal ∈ bs then none else some (push bs seen stack) := by
  induction bs generalizing seen stack with
  | nil => rfl
  | cons b bs ih =>
    by_cases hb : b = goal
    · simp [visit, hb]
    · simp only [visit, push, if_neg hb, ih, List.mem_cons, Ne.symm hb, false_or]
      split_ifs <;> rfl

/-- What is known after a look at the neighbours `bs`, none of which is the goal. -/
structure Visited (goal : α) (bs seen stack seen' stack' : List α) : Prop where
  not_goal : goal ∉ bs
  still_seen : ∀ a ∈ seen, a ∈ seen'
  now_seen : ∀ b ∈ bs, b ∈ seen'
  new : ∀ a ∈ seen', a ∈ seen ∨ a ∈ stack'
  kept : ∀ a ∈ stack, a ∈ stack'
  pushed : ∀ a ∈ stack', a ∈ stack ∨ a ∈ bs

structure Pushed (bs seen stack seen' stack' : List α) : Prop where
  still_seen : ∀ a ∈ seen, a ∈ seen'
  now_seen : ∀ b ∈ bs, b ∈ seen'
  new : ∀ a ∈ seen', a ∈ seen ∨ a ∈ stack'
  added : ∀ a ∈ seen', a ∈ seen ∨ a ∈ bs
  kept : ∀ a ∈ stack, a ∈ stack'
  pushed : ∀ a ∈ stack', a ∈ stack ∨ a ∈ bs

theorem pushed_push (bs seen stack : List α) : Pushed bs seen stack (push bs seen stack).1 (push bs seen stack).2 := by
  induction bs generalizing seen stack with
  | nil => exact ⟨fun _ => id, nofun, fun _ => .inl, fun _ => .inl, fun _ => id, fun _ => .inl⟩
  | cons b bs ih =>
    simp only [push]
    split_ifs with hs
    · have hv := ih seen stack
      exact ⟨hv.still_seen, List.forall_mem_cons.2 ⟨hv.still_seen b hs, hv.now_seen⟩, hv.new,
        fun a ha => (hv.added a ha).imp_right (.tail _), hv.kept, fun a ha => (hv.pushed a ha).imp_right (.tail _)⟩
    · have hv := ih (b :: seen) (b :: stack)
      refine ⟨fun a ha => hv.still_seen a (.tail _ ha), ?_, ?_, ?_, fun a ha => hv.kept a (.tail _ ha), ?_⟩
      · exact List.forall_mem_cons.2 ⟨hv.still_seen b (List.mem_cons_self ..), hv.now_seen⟩
      · intro a ha
        rcases hv.new a ha with ha | ha
        · rcases List.mem_cons.1 ha with rfl | ha
          · exact .inr (hv.kept a (List.mem_cons_self ..))
          · exact .inl ha
        · exact .inr ha
      · intro a ha
        rcases hv.added a ha with ha | ha
        · rcases List.mem_cons.1 ha with rfl | ha
          · exact .inr (List.mem_cons_self ..)
          · exact .inl ha
        · exact .inr (.tail _ ha)
      · intro a ha
        rcases hv.pushed a ha with ha | ha
        · rcases List.mem_cons.1 ha with rfl | ha
          · exact .inr (List.mem_cons_self ..)
          · exact .inl ha
        · exact .inr (.tail _ ha)

theorem visit_some (h : visit goal bs seen stack = some (seen', stack')) : Visited goal bs seen stack seen' stack' := by
  rw [visit_eq] at h
  split_ifs at h with hg
  have hv := pushed_push bs seen stack
  rw [Option.some.inj h] at hv
  exact ⟨hg, hv.still_seen, hv.now_seen, hv.new, hv.kept, hv.pushed⟩

theorem filter_seen_lt {b : α} (hb : b ∈ all) (hs : b ∉ seen) :
    (all.filter fun a => decide (a ∉ b :: seen)).length < (all.filter fun a => decide (a ∉ seen)).length := by
  have hsub : (all.filter fun a => decide (a ∉ b :: seen)) = (all.filter fun a => decide (a ∉ seen)).filter fun a => decide (a ≠ b) := by
    rw [List.filter_filter]
    refine List.filter_congr fun a _ => ?_
    simp
  rw [hsub]
  refine Nat.lt_of_le_of_ne (List.length_filter_le _ _) fun he => ?_
  have hmem : b ∈ all.filter fun a => decide (a ∉ seen) := List.mem_filter.2 ⟨hb, decide_eq_true hs⟩
  have hall := List.length_filter_eq_length_iff.1 he b hmem
  simp at hall

theorem work_push (seen stack : List α) (hall : ∀ b ∈ bs, b ∈ all) : work all (push bs seen stack).1 (push bs seen stack).2 ≤ work all seen stack := by
  induction bs generalizing seen stack with
  | nil => exact Nat.le_refl _
  | cons b bs ih =>
    obtain ⟨hb, hbs⟩ := List.forall_mem_cons.1 hall
    simp only [push]
    split_ifs with hs
    · exact ih seen stack hbs
    · have hlt := filter_seen_lt hb hs
      have hle := ih (b :: seen) (b :: stack) hbs
      simp only [work, List.length_cons] at hle ⊢
      omega

theorem work_visit (hall : ∀ b ∈ bs, b ∈ all) (h : visit goal bs seen stack = some (seen', stack')) :
    work all seen' stack' ≤ work all seen stack := by
  rw [visit_eq] at h
  split_ifs at h
  have hle := work_push seen stack hall
  rwa [Option.some.inj h] at hle

open Relation (ReflTransGen)

theorem reachable_of_search {n : Nat} (h : search adj goal n seen stack = true) : ∃ a ∈ stack, ReflTransGen (Edge adj) a goal := by
  induction n generalizing seen stack with
  | zero => cases h
  | succ n ih =>
    cases stack with
    | nil => cases h
    | cons a stack =>
      simp only [search] at h
      cases hv : visit goal (adj a) seen stack with
      | none => exact ⟨a, List.mem_cons_self .., .single (visit_none hv)⟩
      | some r =>
        rw [hv] at h
        obtain ⟨b, hb, hreach⟩ := ih h
        rcases (visit_some hv).pushed b hb with hb | hb
        · exact ⟨b, .tail _ hb, hreach⟩
        · exact ⟨a, List.mem_cons_self .., .head hb hreach⟩

theorem closed_of_search {n : Nat} (hall : ∀ a, ∀ b ∈ adj a, b ∈ all)
    (hseen : ∀ a ∈ seen, a ∈ stack ∨ ∀ b ∈ adj a, b ∈ seen ∧ b ≠ goal) (hn : work all seen stack ≤ n)
    (h : search adj goal n seen stack = false) :
    ∃ seen' : List α, (∀ a ∈ seen, a ∈ seen') ∧ ∀ a ∈ seen', ∀ b ∈ adj a, b ∈ seen' ∧ b ≠ goal := by
  induction n generalizing seen stack with
  | zero =>
    have hstack : stack = [] := List.length_eq_zero_iff.1 (by simp only [work] at hn; omega)
    subst hstack
    exact ⟨seen, fun _ => id, fun a ha => (hseen a ha).resolve_left List.not_mem_nil⟩
  | succ n ih =>
    cases stack with
    | nil => exact ⟨seen, fun _ => id, fun a ha => (hseen a ha).resolve_left List.not_mem_nil⟩
    | cons a stack =>
      simp only [search] at h
      cases hv : visit goal (adj a) seen stack with
      | none =>
        rw [hv] at h
        cases h
      | some r =>
        rw [hv] at h
        have hvis := visit_some hv
        have hwork := work_visit (hall a) hv
        have hn' : work all r.1 r.2 ≤ n := by
          simp only [work, List.length_cons] at hn hwork ⊢
          omega
        have hseen' : ∀ b ∈ r.1, b ∈ r.2 ∨ ∀ c ∈ adj b, c ∈ r.1 ∧ c ≠ goal := by
          intro b hb
          rcases hvis.new b hb with hb | hb
          · rcases hseen b hb with hb | hb
            · rcases List.mem_cons.1 hb with rfl | hb
              · exact .inr fun c hc => ⟨hvis.now_seen c hc, fun he => hvis.not_goal (he ▸ hc)⟩
              · exact .inl (hvis.kept b hb)
            · exact .inr fun c hc => ⟨hvis.still_seen c (hb c hc).1, (hb c hc).2⟩
          · exact .inl hb
        obtain ⟨seen', hsub, hclosed⟩ := ih hseen' hn' h
        exact ⟨seen', fun b hb => hsub b (hvis.still_seen b hb), hclosed⟩

omit [DecidableEq α] in
theorem stays_closed {a b : α} (hclosed : ∀ a ∈ seen, ∀ b ∈ adj a, b ∈ seen ∧ b ≠ goal) (hne : a ≠ goal) (ha : a ∈ seen)
    (h : ReflTransGen (Edge adj) a b) : b ∈ seen ∧ b ≠ goal := by
  induction h with
  | refl => exact ⟨ha, hne⟩
  | tail _ hbc ih => exact hclosed _ ih.1 _ hbc

theorem found_iff {a : α} {n : Nat} (hne : a ≠ goal) (hall : ∀ a, ∀ b ∈ adj a, b ∈ all) (hn : all.length < n) :
    search adj goal n [a] [a] = true ↔ ReflTransGen (Edge adj) a goal := by
  constructor
  · intro h
    obtain ⟨b, hb, hreach⟩ := reachable_of_search h
    exact List.mem_singleton.1 hb ▸ hreach
  · intro hreach
    by_contra h
    have hwork : work all [a] [a] ≤ n := by
      have := List.length_filter_le (fun b => decide (b ∉ [a])) all
      simp only [work, List.length_singleton]
      omega
    obtain ⟨seen', hsub, hclosed⟩ := closed_of_search hall (fun b hb => .inl hb) hwork (Bool.eq_false_iff.2 h)
    exact (stays_closed hclosed hne (hsub a (List.mem_singleton_self a)) hreach).2 rfl

theorem work_mono (all stack : List α) (h : ∀ a ∈ seen, a ∈ seen') : work all seen' stack ≤ work all seen stack := by
  refine Nat.add_le_add_right (List.Sublist.length_le (List.monotone_filter_right all fun a ha => ?_)) _
  exact decide_eq_true fun hmem => of_decide_eq_true ha (h a hmem)

open Relation (TransGen)

def closure (adj : α → List α) : Nat → List α → List α → List α
  | 0, seen, _ => seen
  | _ + 1, seen, [] => seen
  | n + 1, seen, a :: stack => closure adj n (push (adj a) seen stack).1 (push (adj a) seen stack).2

theorem reachable_of_closure {n : Nat} {c : α} (h : c ∈ closure adj n seen stack) : c ∈ seen ∨ ∃ a ∈ stack, TransGen (Edge adj) a c := by
  induction n generalizing seen stack with
  | zero => exact .inl h
  | succ n ih =>
    cases stack with
    | nil => exact .inl h
    | cons a stack =>
      have hv := pushed_push (adj a) seen stack
      rcases ih h with hc | ⟨b, hb, hreach⟩
      · exact (hv.added c hc).imp_right fun hac => ⟨a, List.mem_cons_self .., .single hac⟩
      · rcases hv.pushed b hb with hb | hab
        · exact .inr ⟨b, .tail _ hb, hreach⟩
        · exact .inr ⟨a, List.mem_cons_self .., .head hab hreach⟩

theorem closed_of_closure {n : Nat} (hall : ∀ a, ∀ b ∈ adj a, b ∈ all) (hseen : ∀ a ∈ seen, a ∈ stack ∨ ∀ b ∈ adj a, b ∈ seen)
    (hn : work all seen stack ≤ n) : (∀ a ∈ seen, a ∈ closure adj n seen stack) ∧
      (∀ a ∈ stack, ∀ b ∈ adj a, b ∈ closure adj n seen stack) ∧ ∀ a ∈ closure adj n seen stack, ∀ b ∈ adj a, b ∈ closure adj n seen stack := by
  induction n generalizing seen stack with
  | zero =>
    have hstack : stack = [] := List.length_eq_zero_iff.1 (by simp only [work] at hn; omega)
    subst hstack
    exact ⟨fun _ => id, nofun, fun a ha => (hseen a ha).resolve_left List.not_mem_nil⟩
  | succ n ih =>
    cases stack with
    | nil => exact ⟨fun _ => id, nofun, fun a ha => (hseen a ha).resolve_left List.not_mem_nil⟩
    | cons a stack =>
      have hv := pushed_push (adj a) seen stack
      have hwork : work all (push (adj a) seen stack).1 (push (adj a) seen stack).2 ≤ n := by
        have hle := work_push seen stack (hall a)
        simp only [work, List.length_cons] at hn hle ⊢
        omega
      have hseen' : ∀ b ∈ (push (adj a) seen stack).1, b ∈ (push (adj a) seen stack).2 ∨ ∀ c ∈ adj b, c ∈ (push (adj a) seen stack).1 := by
        intro b hb
        rcases hv.new b hb with hb | hb
        · rcases hseen b hb with hb | hb
          · rcases List.mem_cons.1 hb with rfl | hb
            · exact .inr hv.now_seen
            · exact .inl (hv.kept b hb)
          · exact .inr fun c hc => hv.still_seen c (hb c hc)
        · exact .inl hb
      obtain ⟨hsub, hstack, hclosed⟩ := ih hseen' hwork
      refine ⟨fun b hb => hsub b (hv.still_seen b hb), fun b hb c hc => ?_, hclosed⟩
      rcases List.mem_cons.1 hb with rfl | hb
      · exact hsub c (hv.now_seen c hc)
      · exact hstack b (hv.kept b hb) c hc

theorem mem_closure_iff {a c : α} {n : Nat} (hall : ∀ a, ∀ b ∈ adj a, b ∈ all) (hn : all.length < n) :
    c ∈ closure adj n [] [a] ↔ TransGen (Edge adj) a c := by
  constructor
  · intro h
    rcases reachable_of_closure h with h | ⟨b, hb, hreach⟩
    · cases h
    · exact List.mem_singleton.1 hb ▸ hreach
  · intro h
    have hwork : work all [] [a] ≤ n := by
      have := List.length_filter_le (fun b => decide (b ∉ ([] : List α))) all
      simp only [work, List.length_singleton]
      omega
    obtain ⟨_, hstack, hclosed⟩ := closed_of_closure hall (fun b hb => absurd hb List.not_mem_nil) hwork
    induction h with
    | single hab => exact hstack a (List.mem_singleton_self a) _ hab
    | tail _ hbc ih => exact hclosed _ ih _ hbc

end Search
