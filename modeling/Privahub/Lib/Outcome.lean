import Mathlib.Data.List.Forall2
import Mathlib.Tactic.Common

/-!
# Outcomes of a computation that may fail

`Outcome x p q`: `x` ends in a value with `p` or in an error with `q`. A check that accepts exactly
what it should is specified by one such statement, with `q` denying what `p` asserts, and `bind`
puts the statements of two parts together; `ok_of_bind` and `forall₂_of_mapM` take
one apart that goes through.
-/

universe u v w

def Outcome {ε : Type u} {α : Type v} (x : Except ε α) (p : α → Prop) (q : ε → Prop) : Prop :=
  match x with
  | .ok a => p a
  | .error e => q e

namespace Outcome

variable {ε : Type u} {α : Type v} {β : Type v} {x : Except ε α} {p p' : α → Prop} {q q' : ε → Prop}

theorem of_ok {a : α} (h : Outcome x p q) (hx : x = .ok a) : p a := by subst hx; exact h

theorem of_error {e : ε} (h : Outcome x p q) (hx : x = .error e) : q e := by subst hx; exact h

theorem mono (h : Outcome x p q) (hp : ∀ a, p a → p' a) (hq : ∀ e, q e → q' e) : Outcome x p' q' := by
  cases x with
  | ok a => exact hp a h
  | error e => exact hq e h

theorem bind {f : α → Except ε β} {r : β → Prop} (h : Outcome x p q) (hf : ∀ a, p a → Outcome (f a) r q')
    (hq : ∀ e, q e → q' e) : Outcome (x.bind f) r q' := by
  cases x with
  | ok a => exact hf a h
  | error e => exact hq e h

end Outcome

namespace Except

variable {ε : Type u} {α : Type v} {β : Type w}

theorem ok_of_bind {α β : Type v} {x : Except ε α} {f : α → Except ε β} {b : β} (h : x >>= f = .ok b) : ∃ a, x = .ok a ∧ f a = .ok b := by
  cases x with
  | error e => cases h
  | ok a => exact ⟨a, rfl, h⟩

theorem ok_of_check {p : Prop} [Decidable p] {e : ε} {x : Except ε α} {a : α} (h : (if p then .error e else x) = .ok a) : ¬p ∧ x = .ok a := by
  by_cases hp : p
  · rw [if_pos hp] at h
    cases h
  · exact ⟨hp, by rwa [if_neg hp] at h⟩

theorem forall₂_of_mapM {f : α → Except ε β} {as : List α} {bs : List β} (h : as.mapM f = .ok bs) :
    List.Forall₂ (fun a b => f a = .ok b) as bs := by
  induction as generalizing bs with
  | nil =>
    cases h
    exact .nil
  | cons a as ih =>
    rw [List.mapM_cons] at h
    obtain ⟨b, ha, h⟩ := ok_of_bind h
    obtain ⟨bs', has, h⟩ := ok_of_bind h
    cases h
    exact .cons ha (ih has)

theorem ok_of_forM {f : α → Except ε PUnit} {as : List α} (h : as.forM f = .ok ⟨⟩) : ∀ a ∈ as, f a = .ok ⟨⟩ := by
  induction as with
  | nil => exact nofun
  | cons a as ih =>
    obtain ⟨_, ha, has⟩ := ok_of_bind h
    exact List.forall_mem_cons.2 ⟨ha, ih has⟩

theorem exists_mapM {f : α → Except ε β} {R : α → β → Prop} {as : List α} (h : ∀ a ∈ as, ∃ b, f a = .ok b ∧ R a b) :
    ∃ bs, as.mapM f = .ok bs ∧ List.Forall₂ R as bs := by
  induction as with
  | nil => exact ⟨[], rfl, .nil⟩
  | cons a as ih =>
    obtain ⟨b, hb, hab⟩ := h a List.mem_cons_self
    obtain ⟨bs, hbs, hall⟩ := ih fun c hc => h c (List.mem_cons_of_mem _ hc)
    refine ⟨b :: bs, ?_, .cons hab hall⟩
    rw [List.mapM_cons, hb, hbs]
    rfl

end Except

namespace List.Forall₂

variable {α : Type u} {β : Type v} {R : α → β → Prop} {as : List α} {bs : List β}

theorem exists_right (h : Forall₂ R as bs) : ∀ a ∈ as, ∃ b ∈ bs, R a b := by
  induction h with
  | nil => exact fun a ha => by cases ha
  | cons hab _ ih =>
    intro a ha
    rcases mem_cons.1 ha with rfl | ha
    · exact ⟨_, mem_cons_self, hab⟩
    · obtain ⟨b, hb, hab⟩ := ih a ha
      exact ⟨b, .tail _ hb, hab⟩

theorem exists_left (h : Forall₂ R as bs) : ∀ b ∈ bs, ∃ a ∈ as, R a b := by
  induction h with
  | nil => exact fun b hb => by cases hb
  | cons hab _ ih =>
    intro b hb
    rcases mem_cons.1 hb with rfl | hb
    · exact ⟨_, mem_cons_self, hab⟩
    · obtain ⟨a, ha, hab⟩ := ih b hb
      exact ⟨a, .tail _ ha, hab⟩

theorem comp {γ : Type w} {S : β → γ → Prop} {cs : List γ} (h : Forall₂ R as bs) (h' : Forall₂ S bs cs) :
    Forall₂ (fun a c => ∃ b, R a b ∧ S b c) as cs := by
  induction h generalizing cs with
  | nil =>
    cases h'
    exact .nil
  | cons hab _ ih =>
    cases h' with
    | cons hbc hrest => exact .cons ⟨_, hab, hbc⟩ (ih hrest)

end List.Forall₂

theorem Outcome.mapM {ε : Type u} {α : Type v} {β : Type w} {f : α → Except ε β} {R : α → β → Prop} {V : α → Prop} (as : List α)
    (h : ∀ a ∈ as, Outcome (f a) (R a) (fun _ => ¬V a)) : Outcome (as.mapM f) (List.Forall₂ R as) (fun _ => ∃ a ∈ as, ¬V a) := by
  induction as with
  | nil => exact .nil
  | cons a as ih =>
    have hrest := ih fun b hb => h b (List.mem_cons_of_mem _ hb)
    have ha := h a List.mem_cons_self
    rw [List.mapM_cons]
    cases hfa : f a with
    | error e => exact ⟨a, List.mem_cons_self, ha.of_error hfa⟩
    | ok b =>
      cases hfas : as.mapM f with
      | error e =>
        obtain ⟨c, hc, hno⟩ := hrest.of_error hfas
        exact ⟨c, List.mem_cons_of_mem _ hc, hno⟩
      | ok bs => exact .cons (ha.of_ok hfa) (hrest.of_ok hfas)

theorem Outcome.foldlM {ε : Type u} {α : Type v} {β : Type w} {f : β → α → Except ε β} {P : List α → β → Prop} {q : ε → Prop} (rest : List α)
    (hstep : ∀ a ∈ rest, ∀ done b, P done b → Outcome (f b a) (P (done ++ [a])) q) (done : List α) (b : β) (hb : P done b) :
    Outcome (rest.foldlM f b) (P (done ++ rest)) q := by
  induction rest generalizing done b with
  | nil => exact (List.append_nil done).symm ▸ hb
  | cons a rest ih =>
    have ha := hstep a List.mem_cons_self done b hb
    rw [List.foldlM_cons]
    cases hfa : f b a with
    | error e => exact ha.of_error hfa
    | ok b' =>
      rw [List.append_cons]
      exact ih (fun c hc => hstep c (List.mem_cons_of_mem _ hc)) (done ++ [a]) b' (ha.of_ok hfa)
