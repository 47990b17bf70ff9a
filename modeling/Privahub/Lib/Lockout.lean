import Mathlib.Data.List.Basic
import Mathlib.Order.Nat
import Mathlib.Tactic.Common

/-!
# Counters that lock

A counter of failures locks for a time when it reaches its threshold. `Lawful` says what a failure does to it: until the lock time has
passed, the failure is counted on top of those before, and a counter that is not locked is below the threshold. `Inv` keeps the times of
the failures beside the counter: no window as long as the lock holds more of them than the threshold (`Inv.bound`).
-/

namespace Lockout

universe u
variable {σ : Type u}

/-- `pending` is the number of failures that are counted at a time, `none` while the counter is locked. -/
structure Counter (σ : Type u) where
  pending : σ → Nat → Option Nat
  fail : σ → Nat → σ
  max : Nat
  lock : Nat

/-- The failures from `t` on. -/
def since (t : Nat) (F : List Nat) : Nat := F.countP fun f => decide (t ≤ f)

/-- The failures in the window of length `lock` that begins with `t`. -/
def within (lock t : Nat) (F : List Nat) : Nat := F.countP fun f => decide (t ≤ f ∧ f < t + lock)

structure Counter.Lawful (C : Counter σ) : Prop where
  fail : ∀ {e now k now' k'}, C.pending e now = some k → now ≤ now' → C.pending (C.fail e now) now' = some k' →
    k' < C.max ∧ (now' < now + C.lock → k + 1 ≤ k')

/-- The failures `F` up to the time `T`, and what the counter holds of them. -/
structure Counter.Inv (C : Counter σ) (T : Nat) (F : List Nat) (e : σ) : Prop where
  past : ∀ f ∈ F, f ≤ T
  bound : ∀ t, within C.lock t F ≤ C.max
  counted : ∀ {now k}, T ≤ now → C.pending e now = some k → k < C.max ∧ ∀ t, now < t + C.lock → since t F ≤ k

def Counter.Owes (C : Counter σ) (now : Nat) (F : List Nat) (e : σ) : Prop :=
  ∃ G T k, F = G ++ [now] ∧ T ≤ now ∧ C.Inv T G e ∧ C.pending e now = some k

variable {C : Counter σ} {T T' now k : Nat} {F : List Nat} {e e' : σ}

theorem within_le_since (lock t : Nat) (F : List Nat) : within lock t F ≤ since t F := by
  refine List.countP_mono_left fun f _ hf => ?_
  have hf : t ≤ f ∧ f < t + lock := of_decide_eq_true hf
  exact decide_eq_true hf.1

theorem since_append (t : Nat) (F : List Nat) (f : Nat) : since t (F ++ [f]) = since t F + if t ≤ f then 1 else 0 := by
  rw [since, since, List.countP_append, List.countP_singleton]
  by_cases hf : t ≤ f <;> simp [hf]

theorem within_append (lock t : Nat) (F : List Nat) (f : Nat) :
    within lock t (F ++ [f]) = within lock t F + if t ≤ f ∧ f < t + lock then 1 else 0 := by
  rw [within, within, List.countP_append, List.countP_singleton]
  by_cases hf : t ≤ f ∧ f < t + lock <;> simp [hf]

theorem since_eq_zero {t : Nat} (h : ∀ f ∈ F, f < t) : since t F = 0 := by
  refine List.countP_eq_zero.2 fun f hf => ?_
  have := h f hf
  simpa using this

namespace Counter

theorem Inv.nil (h : ∀ now k, C.pending e now = some k → k < C.max) : C.Inv T [] e :=
  ⟨nofun, fun _ => Nat.zero_le _, fun _ hp => ⟨h _ _ hp, fun _ _ => Nat.zero_le _⟩⟩

theorem Inv.mono (h : C.Inv T F e) (hT : T ≤ T') : C.Inv T' F e :=
  ⟨fun f hf => (h.past f hf).trans hT, h.bound, fun hn hp => h.counted (hT.trans hn) hp⟩

theorem Inv.congr (h : C.Inv T F e) (he : ∀ now, T ≤ now → C.pending e' now = C.pending e now) : C.Inv T F e' :=
  ⟨h.past, h.bound, fun hn hp => h.counted hn (he _ hn ▸ hp)⟩

theorem Inv.fail (hC : C.Lawful) (h : C.Inv T F e) (hT : T ≤ now) (hp : C.pending e now = some k) :
    C.Inv now (F ++ [now]) (C.fail e now) := by
  obtain ⟨hk, hsince⟩ := h.counted hT hp
  refine ⟨fun f hf => ?_, fun t => ?_, fun {now' k'} hn hp' => ?_⟩
  · rcases List.mem_append.1 hf with hf | hf
    · exact (h.past f hf).trans hT
    · exact (List.mem_singleton.1 hf).le
  · rw [within_append]
    split_ifs with hw
    · -- the failures of the window before this one are among the pending ones
      have hle := (within_le_since C.lock t F).trans (hsince t hw.2)
      omega
    · exact h.bound t
  · obtain ⟨hk', hcount⟩ := hC.fail hp hn hp'
    refine ⟨hk', fun t ht => ?_⟩
    rw [since_append]
    split_ifs with hle
    · have h₁ := hcount (by omega)
      have h₂ := hsince t (by omega)
      omega
    · have hzero : since t F = 0 := since_eq_zero fun f hf => by
        have := h.past f hf
        omega
      omega

theorem Owes.pay (hC : C.Lawful) (h : C.Owes now F e) : C.Inv now F (C.fail e now) := by
  obtain ⟨G, T, k, rfl, hT, hinv, hp⟩ := h
  exact hinv.fail hC hT hp

theorem Inv.owes (h : C.Inv T F e) (hT : T ≤ now) (hp : C.pending e now = some k) : C.Owes now (F ++ [now]) e :=
  ⟨F, T, k, rfl, hT, h, hp⟩

end Counter

end Lockout
