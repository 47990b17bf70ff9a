/-!
# Runs of a partial step function

`step s a = some s'`: action `a` is enabled in `s` and leads to `s'`. A run is a list of actions;
`RunAll P` says that every action of a run satisfies `P` in the state in which it is taken.
`run_invariant` is the only induction over runs: a development states what one step preserves and
gets the statement about every run from it.
-/

namespace Lts

universe u v
variable {σ : Type u} {α : Type v} {step : σ → α → Option σ}

/-- The state after the actions `as` from `s`, `none` as soon as one is not enabled. -/
def run (step : σ → α → Option σ) : σ → List α → Option σ
  | s, [] => some s
  | s, a :: as => (step s a).bind fun s' => run step s' as

/-- Every action of the run satisfies `P` in the state in which it is taken. -/
def RunAll (step : σ → α → Option σ) (P : σ → α → Prop) : σ → List α → Prop
  | _, [] => True
  | s, a :: as => P s a ∧ ∀ s', step s a = some s' → RunAll step P s' as

instance RunAll.decidable {P : σ → α → Prop} [∀ s a, Decidable (P s a)] :
    ∀ (s : σ) (as : List α), Decidable (RunAll step P s as)
  | _, [] => .isTrue trivial
  | s, a :: as =>
    have : Decidable (∀ s', step s a = some s' → RunAll step P s' as) :=
      match step s a with
      | none => .isTrue fun _ h => nomatch h
      | some t => @decidable_of_iff _ _ ⟨fun h _ hs => Option.some.inj hs ▸ h, fun h => h t rfl⟩ (decidable t as)
    inferInstanceAs (Decidable (P s a ∧ ∀ s', step s a = some s' → RunAll step P s' as))

/-- `s` is reached from `init` by some run. -/
def Reachable (step : σ → α → Option σ) (init s : σ) : Prop := ∃ as, run step init as = some s

@[simp] theorem run_nil (s : σ) : run step s [] = some s := rfl

theorem run_cons {s s' : σ} {a : α} {as : List α} :
    run step s (a :: as) = some s' ↔ ∃ t, step s a = some t ∧ run step t as = some s' := by
  simp [run, Option.bind_eq_some_iff]

theorem run_append {s s' : σ} {as bs : List α} :
    run step s (as ++ bs) = some s' ↔ ∃ t, run step s as = some t ∧ run step t bs = some s' := by
  induction as generalizing s with
  | nil => simp
  | cons a as ih =>
    simp only [List.cons_append, run_cons, ih]
    constructor
    · rintro ⟨u, hu, t, ht, hr⟩; exact ⟨t, ⟨u, hu, ht⟩, hr⟩
    · rintro ⟨t, ⟨u, hu, ht⟩, hr⟩; exact ⟨u, hu, t, ht, hr⟩

theorem run_invariant {P : σ → α → Prop} {Inv : σ → Prop}
    (hstep : ∀ s a s', Inv s → P s a → step s a = some s' → Inv s') {s s' : σ} {as : List α}
    (h : Inv s) (hP : RunAll step P s as) (hr : run step s as = some s') : Inv s' := by
  induction as generalizing s with
  | nil => simp only [run_nil, Option.some.injEq] at hr; exact hr ▸ h
  | cons a as ih =>
    obtain ⟨t, ht, hr⟩ := run_cons.1 hr
    exact ih (hstep s a t h hP.1 ht) (hP.2 t ht) hr

theorem RunAll.of_forall {P : σ → α → Prop} (h : ∀ s a, P s a) (s : σ) (as : List α) :
    RunAll step P s as := by
  induction as generalizing s with
  | nil => trivial
  | cons a as ih => exact ⟨h s a, fun s' _ => ih s'⟩

theorem RunAll.of_mem {P : α → Prop} (as : List α) (h : ∀ a ∈ as, P a) (s : σ) : RunAll step (fun _ a => P a) s as := by
  induction as generalizing s with
  | nil => trivial
  | cons a as ih => exact ⟨h a (List.mem_cons_self ..), fun s' _ => ih (fun b hb => h b (.tail _ hb)) s'⟩

theorem RunAll.imp {P Q : σ → α → Prop} (h : ∀ s a, P s a → Q s a) {s : σ} {as : List α} (hP : RunAll step P s as) :
    RunAll step Q s as := by
  induction as generalizing s with
  | nil => trivial
  | cons a as ih => exact ⟨h s a hP.1, fun s' hs => ih (hP.2 s' hs)⟩

theorem RunAll.and {P Q : σ → α → Prop} {s : σ} {as : List α} (hP : RunAll step P s as) (hQ : RunAll step Q s as) :
    RunAll step (fun s a => P s a ∧ Q s a) s as := by
  induction as generalizing s with
  | nil => trivial
  | cons a as ih => exact ⟨⟨hP.1, hQ.1⟩, fun s' hs => ih (hP.2 s' hs) (hQ.2 s' hs)⟩

theorem RunAll.append {P : σ → α → Prop} {s t : σ} {as bs : List α} (h : RunAll step P s (as ++ bs))
    (hr : run step s as = some t) : RunAll step P s as ∧ RunAll step P t bs := by
  induction as generalizing s with
  | nil =>
    obtain rfl := Option.some.inj hr
    exact ⟨trivial, h⟩
  | cons a as ih =>
    obtain ⟨u, hu, hr⟩ := run_cons.1 hr
    refine ⟨⟨h.1, fun v hv => ?_⟩, (ih (h.2 u hu) hr).2⟩
    obtain rfl := Option.some.inj (hu.symm.trans hv)
    exact (ih (h.2 u hu) hr).1

theorem RunAll.of_invariant {P Q : σ → α → Prop} {I : σ → Prop} (hstep : ∀ s a s', I s → P s a → step s a = some s' → I s')
    (hQ : ∀ s a, I s → P s a → Q s a) {s : σ} {as : List α} (h : I s) (hP : RunAll step P s as) : RunAll step Q s as := by
  induction as generalizing s with
  | nil => trivial
  | cons a as ih => exact ⟨hQ s a h hP.1, fun t ht => ih (hstep s a t h hP.1 ht) (hP.2 t ht)⟩

theorem RunAll.iff_of_invariant {P Q : σ → α → Prop} {Inv : σ → Prop} (h : ∀ s a, Inv s → (P s a ↔ Q s a))
    (hstep : ∀ s a s', Inv s → Q s a → step s a = some s' → Inv s') {s : σ} (hi : Inv s) (as : List α) :
    RunAll step P s as ↔ RunAll step Q s as := by
  induction as generalizing s with
  | nil => exact Iff.rfl
  | cons a as ih =>
    constructor
    · intro hP
      have hQ := (h s a hi).1 hP.1
      exact ⟨hQ, fun t ht => (ih (hstep s a t hi hQ ht)).1 (hP.2 t ht)⟩
    · intro hQ
      exact ⟨(h s a hi).2 hQ.1, fun t ht => (ih (hstep s a t hi hQ.1 ht)).2 (hQ.2 t ht)⟩

theorem Reachable.invariant {Inv : σ → Prop}
    (hstep : ∀ s a s', Inv s → step s a = some s' → Inv s') {init s : σ} (h : Inv init)
    (hr : Reachable step init s) : Inv s := by
  obtain ⟨as, hr⟩ := hr
  exact run_invariant (P := fun _ _ => True) (fun s a s' hi _ => hstep s a s' hi) h
    (.of_forall (fun _ _ => trivial) init as) hr

end Lts
