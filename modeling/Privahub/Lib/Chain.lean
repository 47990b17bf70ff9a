import Mathlib.Tactic.Common

/-!
# Chains of handlers

The handlers of a request run in order on one state. Most fall through to the rest of the chain when
they return, unless they have aborted it; an `around` handler runs the rest itself and acts on what
comes back. A panic ends every handler it passes that does not recover it.
-/

namespace Chain

universe u
variable {σ : Type u}

inductive End (σ : Type u) where
  | returned (s : σ)
  | panicked (s : σ)

def End.state : End σ → σ
  | .returned s => s
  | .panicked s => s

inductive Handler (σ : Type u) where
  | step (f : σ → End σ)
  | around (f : (σ → End σ) → σ → End σ)

def serve (aborted : σ → Bool) : List (Handler σ) → σ → End σ
  | [], s => .returned s
  | .step f :: hs, s =>
    match f s with
    | .panicked t => .panicked t
    | .returned t => if aborted t then .returned t else serve aborted hs t
  | .around f :: hs, s => f (serve aborted hs) s

/-- A handler keeps `P` if what it runs of the chain does. -/
def Keeps (P : σ → Prop) : Handler σ → Prop
  | .step f => ∀ s, P s → P (f s).state
  | .around f => ∀ next : σ → End σ, (∀ s, P s → P (next s).state) → ∀ s, P s → P (f next s).state

variable {aborted : σ → Bool} {P : σ → Prop}

theorem serve_keeps {hs : List (Handler σ)} (h : ∀ x ∈ hs, Keeps P x) (s : σ) (hs' : P s) : P (serve aborted hs s).state := by
  induction hs generalizing s with
  | nil => exact hs'
  | cons x hs ih =>
    have hx := h x (List.mem_cons_self ..)
    have ih := ih fun y hy => h y (List.mem_cons_of_mem _ hy)
    cases x with
    | step f =>
      have hf : P (f s).state := hx s hs'
      unfold serve
      cases he : f s with
      | panicked t => rw [he] at hf; exact hf
      | returned t =>
        rw [he] at hf
        by_cases ha : aborted t
        · simpa only [if_pos ha] using hf
        · simpa only [if_neg ha] using ih t hf
    | around f => exact hx _ ih s hs'

end Chain
