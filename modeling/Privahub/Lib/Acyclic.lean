import Mathlib.Logic.Relation

/-!
# Acyclic relations

A relation has no cycle if it goes down in rank (`of_rank`), or if its points can be named by those of an acyclic one
(`of_names`), also when some points are split in two (`split`).
-/

universe u v

def Acyclic {α : Type u} (r : α → α → Prop) : Prop := ∀ a, ¬Relation.TransGen r a a

namespace Acyclic

open Relation (TransGen ReflTransGen)

variable {α : Type u} {β : Type v} {r : α → α → Prop} {s : β → β → Prop}

theorem of_rank (f : α → Nat) (h : ∀ a b, r a b → f b < f a) : Acyclic r := by
  have hpath : ∀ a b, TransGen r a b → f b < f a := by
    intro a b hab
    induction hab with
    | single hab => exact h _ _ hab
    | tail _ hab ih => exact Nat.lt_trans (h _ _ hab) ih
  exact fun a ha => Nat.lt_irrefl _ (hpath a a ha)

theorem mono {r' : α → α → Prop} (h : Acyclic r) (hsub : ∀ a b, r' a b → r a b) : Acyclic r' := fun a ha =>
  h a (ha.lift id hsub)

theorem insert {a b : α} (h : Acyclic r) (hba : ¬ReflTransGen r b a) : Acyclic fun x y => r x y ∨ x = a ∧ y = b := by
  have hpath : ∀ x y, TransGen (fun x y => r x y ∨ x = a ∧ y = b) x y → TransGen r x y ∨ ReflTransGen r x a ∧ ReflTransGen r b y := by
    intro x y hxy
    induction hxy with
    | single he =>
      rcases he with he | ⟨rfl, rfl⟩
      · exact .inl (.single he)
      · exact .inr ⟨.refl, .refl⟩
    | tail _ he ih =>
      rcases he with he | ⟨rfl, rfl⟩
      · exact ih.imp (fun hp => hp.tail he) fun hp => ⟨hp.1, hp.2.tail he⟩
      · exact .inr ⟨ih.elim (fun hp => hp.to_reflTransGen) fun hp => hp.1, .refl⟩
  intro x hx
  rcases hpath x x hx with hx | ⟨hxa, hbx⟩
  · exact h x hx
  · exact hba (hbx.trans hxa)

theorem of_names (name : β → α) (ok : β → Prop) (hinj : ∀ p q, ok p → ok q → name p = name q → p = q)
    (hr : ∀ a b, r a b → ∃ p q, ok p ∧ ok q ∧ name p = a ∧ name q = b ∧ s p q) (hs : Acyclic s) : Acyclic r := by
  have hpath : ∀ a b, TransGen r a b → ∃ p q, ok p ∧ ok q ∧ name p = a ∧ name q = b ∧ TransGen s p q := by
    intro a b h
    induction h with
    | single h =>
      obtain ⟨p, q, hp, hq, ha, hb, hpq⟩ := hr _ _ h
      exact ⟨p, q, hp, hq, ha, hb, .single hpq⟩
    | tail _ h ih =>
      obtain ⟨p, q, hp, hq, ha, hb, hpq⟩ := ih
      obtain ⟨q', t, hq', ht, hb', hc, hqt⟩ := hr _ _ h
      obtain rfl := hinj q q' hq hq' (hb.trans hb'.symm)
      exact ⟨p, t, hp, ht, ha, hc, hpq.tail hqt⟩
  intro a h
  obtain ⟨p, q, hp, hq, ha, hb, hpq⟩ := hpath a a h
  obtain rfl := hinj p q hp hq (ha.trans hb.symm)
  exact hs p hpq

inductive Split (r : α → α → Prop) : α × Bool → α × Bool → Prop
  | out {a b : α} (second : Bool) (h : r a b) : Split r (a, second) (b, false)
  | second (a : α) : Split r (a, false) (a, true)

theorem split (h : Acyclic r) : Acyclic (Split r) := by
  have hpath : ∀ p q, TransGen (Split r) p q → TransGen r p.1 q.1 ∨ p.1 = q.1 ∧ p.2 = false ∧ q.2 = true := by
    intro p q hpq
    induction hpq with
    | single hs =>
      cases hs with
      | out _ hr => exact .inl (.single hr)
      | second a => exact .inr ⟨rfl, rfl, rfl⟩
    | tail _ hs ih =>
      cases hs with
      | out _ hr =>
        rcases ih with ih | ⟨heq, _⟩
        · exact .inl (ih.tail hr)
        · exact .inl (.single (heq ▸ hr))
      | second a =>
        rcases ih with ih | ⟨_, _, hsecond⟩
        · exact .inl ih
        · cases hsecond
  rintro ⟨a, second⟩ hcycle
  rcases hpath _ _ hcycle with hr | ⟨_, hfalse, htrue⟩
  · exact h a hr
  · exact absurd (hfalse.symm.trans htrue) Bool.false_ne_true

end Acyclic
