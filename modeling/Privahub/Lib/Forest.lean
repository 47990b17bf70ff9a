import Mathlib.Data.List.Nodup
import Mathlib.Data.List.Perm.Subperm

/-!
# Forests from parents

A list of items, each with a key and perhaps the key of its parent, drawn as trees below the items that have no parent in the list. The trees are
grown with fuel, one unit a level; `build_enough`: as much as there are items is enough when no two share a key, even where the parents of some go
round in a circle.
-/

universe u v

inductive Rose (α : Type u) where
  | node (item : α) (children : List (Rose α))

namespace Rose

variable {α : Type u}

def item : Rose α → α
  | .node a _ => a

mutual
def items : Rose α → List α
  | .node a cs => a :: itemsAll cs

def itemsAll : List (Rose α) → List α
  | [] => []
  | t :: ts => items t ++ itemsAll ts
end

theorem mem_itemsAll {x : α} {ts : List (Rose α)} : x ∈ itemsAll ts ↔ ∃ t ∈ ts, x ∈ items t := by
  induction ts with
  | nil => simp [itemsAll]
  | cons t ts ih => simp [itemsAll, ih]

end Rose

namespace Forest

variable {α : Type u} {κ : Type v} [DecidableEq κ]

section
variable (key : α → κ) (parent : α → Option κ) (items : List α)

def children (a : α) : List α := items.filter fun c => decide (parent c = some (key a))

/-- The tree below `a`, as deep as the fuel goes. -/
def grow : Nat → α → Rose α
  | 0, a => .node a []
  | n + 1, a => .node a ((children key parent items a).map (grow n))

def isRoot (a : α) : Bool := (parent a).all fun k => items.all fun c => decide (key c ≠ k)

def build : List (Rose α) := (items.filter (isRoot key parent items)).map (grow key parent items items.length)
end

variable {key : α → κ} {parent : α → Option κ} {items : List α} {a c x : α} {n : Nat}

theorem mem_grow (hx : x ∈ (grow key parent items n a).items) : x = a ∨ x ∈ items := by
  induction n generalizing a with
  | zero => exact Or.inl (by simpa [grow, Rose.items, Rose.itemsAll] using hx)
  | succ n ih =>
    rw [grow, Rose.items, List.mem_cons] at hx
    rcases hx with rfl | hx
    · exact Or.inl rfl
    · obtain ⟨t, ht, hx⟩ := Rose.mem_itemsAll.1 hx
      obtain ⟨c, hc, rfl⟩ := List.mem_map.1 ht
      rcases ih hx with rfl | hx
      · exact Or.inr (List.mem_filter.1 hc).1
      · exact Or.inr hx

theorem mem_build (hx : x ∈ Rose.itemsAll (build key parent items)) : x ∈ items := by
  obtain ⟨t, ht, hx⟩ := Rose.mem_itemsAll.1 hx
  obtain ⟨r, hr, rfl⟩ := List.mem_map.1 ht
  rcases mem_grow hx with rfl | hx
  · exact (List.mem_filter.1 hr).1
  · exact hx

inductive Under (key : α → κ) (parent : α → Option κ) (items : List α) : List α → Prop
  | root {a : α} : a ∈ items → isRoot key parent items a = true → Under key parent items [a]
  | child {c a : α} {l : List α} : Under key parent items (a :: l) → c ∈ children key parent items a → Under key parent items (c :: a :: l)

namespace Under

variable {l : List α}

theorem subset (h : Under key parent items l) : l ⊆ items := by
  induction h with
  | root ha _ => exact List.cons_subset.2 ⟨ha, List.nil_subset _⟩
  | child _ hc ih => exact List.cons_subset.2 ⟨(List.mem_filter.1 hc).1, ih⟩

theorem parent_mem (h : Under key parent items (a :: l)) (hx : x ∈ a :: l) :
    isRoot key parent items x = true ∨ ∃ y ∈ l, parent x = some (key y) := by
  generalize hl : a :: l = l' at h hx
  induction h generalizing a l with
  | root _ hroot => exact Or.inl (by rwa [List.mem_singleton.1 hx])
  | @child c b m hm hc ih =>
    obtain ⟨rfl, rfl⟩ := List.cons.inj hl
    rcases List.mem_cons.1 hx with rfl | hx
    · exact Or.inr ⟨b, List.mem_cons_self .., by simpa using (List.mem_filter.1 hc).2⟩
    · rcases ih rfl hx with hroot | ⟨y, hy, hp⟩
      · exact Or.inl hroot
      · exact Or.inr ⟨y, List.mem_cons_of_mem _ hy, hp⟩

theorem nodup (hkeys : (items.map key).Nodup) (h : Under key parent items l) : (l.map key).Nodup := by
  induction h with
  | root _ _ => simp
  | @child c b m hm hc ih =>
    obtain ⟨hci, hcp⟩ := List.mem_filter.1 hc
    have hcb : parent c = some (key b) := of_decide_eq_true hcp
    refine List.nodup_cons.2 ⟨fun hmem => ?_, ih⟩
    obtain ⟨x, hx, hkey⟩ := List.mem_map.1 hmem
    obtain rfl : x = c := List.inj_on_of_nodup_map hkeys (hm.subset hx) hci hkey
    rcases hm.parent_mem hx with hroot | ⟨y, hy, hp⟩
    · rw [isRoot, hcb] at hroot
      exact of_decide_eq_true (List.all_eq_true.1 hroot b (hm.subset (List.mem_cons_self ..))) rfl
    · -- a second way from the same item up to `b` would go round
      have hyb : key y = key b := Option.some.inj (hp.symm.trans hcb)
      exact (List.nodup_cons.1 ih).1 (hyb ▸ List.mem_map_of_mem hy)

theorem length_le (hkeys : (items.map key).Nodup) (h : Under key parent items l) : l.length ≤ items.length := by
  have hsub : l.map key ⊆ items.map key := List.map_subset key h.subset
  simpa using ((h.nodup hkeys).subperm hsub).length_le

end Under

theorem grow_enough (hkeys : (items.map key).Nodup) {l : List α} (h : Under key parent items (a :: l)) (hn : n + l.length = items.length) (k : Nat) :
    grow key parent items (n + k) a = grow key parent items n a := by
  induction n generalizing a l with
  | zero =>
    have hle := h.length_le hkeys
    rw [List.length_cons] at hle
    omega
  | succ n ih =>
    rw [Nat.add_right_comm, grow, grow]
    refine congrArg (Rose.node a) (List.map_congr_left fun c hc => ?_)
    refine ih (h.child hc) ?_
    rw [List.length_cons]
    omega

theorem build_enough (hkeys : (items.map key).Nodup) (k : Nat) :
    (items.filter (isRoot key parent items)).map (grow key parent items (items.length + k)) = build key parent items :=
  List.map_congr_left fun _ ha => grow_enough hkeys (.root (List.mem_filter.1 ha).1 (List.mem_filter.1 ha).2) (Nat.add_zero _) k

end Forest
