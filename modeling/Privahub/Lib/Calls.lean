import Privahub.Lib.Run
import Mathlib.Data.List.Pairwise
import Mathlib.Logic.Function.Basic

/-!
# Calls in flight over one shared state

Any number of calls run over one shared state `σ`. A call is its program counter `κ`; one step of it
(`exec`) is atomic on the state, leaves the events of the step in the log and gives the next program
counter, `none` when the call returns. A call may be abandoned between any two of its steps.

`Claim` is the pattern of a compare-and-set claim: what is free is claimed by at most one call, and
the claim arms that call for one event. `Claim.first` says that no such event comes after another
one, nor after an event that ends the claim.
-/

theorem List.countP_le_one_of_pairwise {β : Type*} {p : β → Bool} {l : List β} (h : l.Pairwise fun a b => p b → ¬ p a) :
    l.countP p ≤ 1 := by
  induction l with
  | nil => simp
  | cons a l ih =>
    obtain ⟨ha, hl⟩ := List.pairwise_cons.1 h
    by_cases hp : p a
    · have hnone : l.countP p = 0 := List.countP_eq_zero.2 fun b hb hpb => ha b hb hpb hp
      simp [List.countP_cons_of_pos hp, hnone]
    · rw [List.countP_cons_of_neg hp]
      exact ih hl

namespace Calls

universe u
variable {σ κ ε α : Type u}

structure World (σ κ ε : Type u) where
  db : σ
  calls : Nat → Option κ
  log : List ε

inductive Action (κ α : Type u) where
  | start (i : Nat) (c : κ)
  | exec (i : Nat) (a : α)
  | abandon (i : Nat)

structure Effect (σ κ ε : Type u) where
  db : σ
  next : Option κ
  events : List ε

def World.idle (db : σ) : World σ κ ε := ⟨db, fun _ => none, []⟩

variable (first : κ → Bool) (exec : σ → κ → α → Effect σ κ ε)

/-- Step `a` of the call `c` in slot `i`. -/
def World.after (w : World σ κ ε) (i : Nat) (c : κ) (a : α) : World σ κ ε where
  db := (exec w.db c a).db
  calls := Function.update w.calls i (exec w.db c a).next
  log := w.log ++ (exec w.db c a).events

def World.begin (w : World σ κ ε) (i : Nat) (c : κ) : World σ κ ε :=
  { w with calls := Function.update w.calls i (some c) }

def World.drop (w : World σ κ ε) (i : Nat) : World σ κ ε := { w with calls := Function.update w.calls i none }

def step (w : World σ κ ε) : Action κ α → Option (World σ κ ε)
  | .start i c => if first c && (w.calls i).isNone then some (w.begin i c) else none
  | .exec i a => (w.calls i).map fun c => w.after exec i c a
  | .abandon i => (w.calls i).map fun _ => w.drop i

variable {first exec} {w w' : World σ κ ε} {a : Action κ α} {i : Nat} {c d : κ}

theorem step_cases (h : step first exec w a = some w') :
    (∃ i c, a = .start i c ∧ first c ∧ w.calls i = none ∧ w' = w.begin i c) ∨
    (∃ i c x, a = .exec i x ∧ w.calls i = some c ∧ w' = w.after exec i c x) ∨
    ∃ i c, a = .abandon i ∧ w.calls i = some c ∧ w' = w.drop i := by
  cases a with
  | start i c =>
    simp only [step, Option.ite_none_right_eq_some, Option.some.injEq, Bool.and_eq_true, Option.isNone_iff_eq_none] at h
    exact .inl ⟨i, c, rfl, h.1.1, h.1.2, h.2.symm⟩
  | exec i x =>
    obtain ⟨c, hc, hw⟩ := Option.map_eq_some_iff.1 h
    exact .inr (.inl ⟨i, c, x, rfl, hc, hw.symm⟩)
  | abandon i =>
    obtain ⟨c, hc, hw⟩ := Option.map_eq_some_iff.1 h
    exact .inr (.inr ⟨i, c, rfl, hc, hw.symm⟩)

/-- `P` holds of every call in flight. -/
def World.All (w : World σ κ ε) (P : κ → Prop) : Prop := ∀ i c, w.calls i = some c → P c

theorem World.idle_all (db : σ) (P : κ → Prop) : (World.idle db : World σ κ ε).All P := nofun

theorem World.calls_begin {j : Nat} (h : (w.begin i c).calls j = some d) : d = c ∨ w.calls j = some d := by
  by_cases hj : j = i
  · subst hj; exact .inl (by simpa [World.begin] using h.symm)
  · exact .inr (by simpa [World.begin, hj] using h)

theorem World.calls_drop {j : Nat} (h : (w.drop i).calls j = some d) : w.calls j = some d := by
  by_cases hj : j = i
  · subst hj; simp [World.drop] at h
  · simpa [World.drop, hj] using h

theorem World.All.begin {P : κ → Prop} (h : w.All P) (hc : P c) : (w.begin i c).All P := by
  intro j d hd
  rcases calls_begin hd with rfl | hd
  · exact hc
  · exact h j d hd

theorem World.All.drop {P : κ → Prop} (h : w.All P) : (w.drop i).All P := fun j d hd => h j d (calls_drop hd)

/-- The call in slot `j` after a step of the world: it was there before, or has just begun, or is what
the step of the call in slot `j` left. -/
theorem calls_step (h : step first exec w a = some w') {j : Nat} (hd : w'.calls j = some d) :
    (w.calls j = some d ∧ ∀ x, a ≠ .exec j x) ∨ (first d ∧ a = .start j d) ∨
    ∃ c x, a = .exec j x ∧ w.calls j = some c ∧ (exec w.db c x).next = some d := by
  obtain ⟨i, c, rfl, hf, _, rfl⟩ | ⟨i, c, x, rfl, hc, rfl⟩ | ⟨i, c, rfl, hc, rfl⟩ := step_cases h
  · by_cases hj : j = i
    · subst hj
      have hcd : c = d := by simpa [World.begin] using hd
      exact .inr (.inl ⟨hcd ▸ hf, by rw [hcd]⟩)
    · exact .inl ⟨by simpa [World.begin, hj] using hd, nofun⟩
  · by_cases hj : j = i
    · subst hj
      exact .inr (.inr ⟨c, x, rfl, hc, by simpa [World.after] using hd⟩)
    · refine .inl ⟨by simpa [World.after, hj] using hd, ?_⟩
      intro y hy
      exact hj (Action.exec.inj hy).1.symm
  · exact .inl ⟨World.calls_drop hd, nofun⟩

theorem log_step (h : step first exec w a = some w') : w.log <+: w'.log := by
  obtain ⟨i, c, rfl, _, _, rfl⟩ | ⟨i, c, x, rfl, _, rfl⟩ | ⟨i, c, rfl, _, rfl⟩ := step_cases h
  · exact List.prefix_refl _
  · exact List.prefix_append _ _
  · exact List.prefix_refl _

theorem log_run {as : List (Action κ α)} (h : Lts.run (step first exec) w as = some w') : w.log <+: w'.log :=
  have hstep : ∀ v a v', w.log <+: v.log → step first exec v a = some v' → w.log <+: v'.log := fun _ _ _ hi hs => hi.trans (log_step hs)
  Lts.Reachable.invariant hstep (List.prefix_refl _) ⟨as, h⟩

theorem idle_slot {db : σ} {as : List (Action κ α)} {j : Nat} (hj : ∀ a ∈ as, ∀ c, a ≠ .start j c)
    (hr : Lts.run (step first exec) (.idle db) as = some w) : w.calls j = none := by
  have hstep : ∀ w a w', w.calls j = none → (∀ c, a ≠ .start j c) → step first exec w a = some w' → w'.calls j = none := by
    intro w a w' hn ha hs
    cases hd : w'.calls j with
    | none => rfl
    | some d =>
      obtain ⟨h, _⟩ | ⟨_, h⟩ | ⟨c, x, _, h, _⟩ := calls_step hs hd
      · simp [hn] at h
      · exact absurd h (ha d)
      · simp [hn] at h
  exact Lts.run_invariant hstep rfl (.of_mem as hj _) hr

theorem runAll_of_slots {n : Nat} {P Q : World σ κ ε → Action κ α → Prop}
    (hPQ : ∀ w a, (∀ j, n ≤ j → w.calls j = none) → Q w a → P w a) {as : List (Action κ α)}
    (hn : ∀ j, n ≤ j → w.calls j = none) (has : ∀ a ∈ as, ∀ i c, a = .start i c → i < n)
    (h : Lts.RunAll (step first exec) Q w as) : Lts.RunAll (step first exec) P w as := by
  induction as generalizing w with
  | nil => trivial
  | cons a as ih =>
    refine ⟨hPQ w a hn h.1, fun w' hs => ih (fun j hj => ?_) (fun b hb => has b (.tail _ hb)) (h.2 w' hs)⟩
    cases hd : w'.calls j with
    | none => rfl
    | some d =>
      obtain ⟨h, _⟩ | ⟨_, h⟩ | ⟨c, x, _, h, _⟩ := calls_step hs hd
      · simp [hn j hj] at h
      · have := has a (List.mem_cons_self ..) j d h
        omega
      · simp [hn j hj] at h

variable (first exec) in
/-- The call in slot `i` leads from `w` to `w'` with nothing in between, each of its steps being `x`. -/
def Alone (i : Nat) (x : α) (w w' : World σ κ ε) : Prop :=
  ∃ n, Lts.run (step first exec) w (List.replicate n (.exec i x)) = some w'

namespace Alone

variable {x : α} {w'' : World σ κ ε}

theorem refl : Alone first exec i x w w := ⟨0, rfl⟩

theorem head (hc : w.calls i = some c) (h : Alone first exec i x (w.after exec i c x) w') : Alone first exec i x w w' := by
  obtain ⟨n, hn⟩ := h
  refine ⟨n + 1, Lts.run_cons.2 ⟨_, ?_, hn⟩⟩
  simp [step, hc]

theorem trans (h : Alone first exec i x w w') (h' : Alone first exec i x w' w'') : Alone first exec i x w w'' := by
  obtain ⟨m, hm⟩ := h
  obtain ⟨n, hn⟩ := h'
  refine ⟨m + n, ?_⟩
  rw [← List.replicate_append_replicate]
  exact Lts.run_append.2 ⟨w', hm, hn⟩

end Alone

theorem exists_return {P : σ → κ → Prop} {Q : σ → Prop} {m : σ → κ → Nat} {R : α → Prop}
    (hret : ∀ {s c a}, P s c → R a → (exec s c a).next = none → Q (exec s c a).db)
    (hnext : ∀ {s c a d}, P s c → R a → (exec s c a).next = some d → P (exec s c a).db d ∧ m (exec s c a).db d < m s c)
    (x : Nat → α) (hx : ∀ k, R (x k)) (hc : w.calls i = some c) (hP : P w.db c) :
    ∃ n w', Lts.run (step first exec) w ((List.range n).map fun k => .exec i (x k)) = some w' ∧ w'.calls i = none ∧ Q w'.db := by
  induction hm : m w.db c using Nat.strongRecOn generalizing w c x with
  | _ k ih =>
    have hstep : step first exec w (.exec i (x 0)) = some (w.after exec i c (x 0)) := by simp [step, hc]
    cases hn : (exec w.db c (x 0)).next with
    | none =>
      refine ⟨1, w.after exec i c (x 0), ?_, by simp [World.after, hn], hret hP (hx 0) hn⟩
      simp [Lts.run, hstep]
    | some d =>
      obtain ⟨hd, hlt⟩ := hnext hP (hx 0) hn
      obtain ⟨n, w', hrun, hw⟩ := ih _ (hm ▸ hlt) (fun k => x (k + 1)) (fun k => hx (k + 1))
        (show (w.after exec i c (x 0)).calls i = some d by simp [World.after, hn]) hd rfl
      refine ⟨n + 1, w', ?_, hw⟩
      rw [List.range_succ_eq_map, List.map_cons, List.map_map]
      exact Lts.run_cons.2 ⟨_, hstep, hrun⟩

/-- `free`: nobody has claimed yet. `owns`: the call holds the claim. `armed`: its next step is the
use. `uses` and `ends` are events; a use ends the claim too. -/
structure Claim (σ κ ε : Type u) where
  free : σ → Prop
  owns : κ → Prop
  armed : κ → Prop
  uses : ε → Prop
  ends : ε → Prop

/-- What each step of each call with `P` has to obey; `P` may leave out calls that are never started. -/
structure Claim.Lawful (C : Claim σ κ ε) (P : κ → Prop) (first : κ → Bool) (exec : σ → κ → α → Effect σ κ ε) : Prop where
  stays : ∀ {s c x d}, P c → (exec s c x).next = some d → P d
  not_owns : ∀ {c}, first c → ¬ C.owns c
  armed_owns : ∀ {c}, C.armed c → C.owns c
  free_anti : ∀ {s c x}, P c → C.free (exec s c x).db → C.free s
  owns_next : ∀ {s c x d}, P c → (exec s c x).next = some d → C.owns d →
    C.owns c ∨ C.free s ∧ ¬ C.free (exec s c x).db
  armed_next : ∀ {s c x d}, P c → (exec s c x).next = some d → C.armed d →
    (C.armed c ∨ C.free s) ∧ ∀ e ∈ (exec s c x).events, ¬ C.ends e
  ends_of : ∀ {s c x e}, P c → e ∈ (exec s c x).events → C.ends e → C.owns c ∨ C.free s ∧ ¬ C.free (exec s c x).db
  uses_of : ∀ {s c x e}, P c → e ∈ (exec s c x).events → C.uses e → C.armed c
  events : ∀ {s c x}, P c → (exec s c x).events.Pairwise fun d e => C.uses e → ¬ C.ends d

structure Claim.Inv (C : Claim σ κ ε) (P : κ → Prop) (w : World σ κ ε) : Prop where
  calls : w.All P
  owner : ∀ i j c d, w.calls i = some c → w.calls j = some d → C.owns c → C.owns d → i = j
  free : C.free w.db → w.All (fun c => ¬ C.owns c) ∧ ∀ e ∈ w.log, ¬ C.ends e
  ended : ∀ e ∈ w.log, C.ends e → w.All fun c => ¬ C.armed c
  first : w.log.Pairwise fun d e => C.uses e → ¬ C.ends d

namespace Claim

variable {C : Claim σ κ ε} {P : κ → Prop}

theorem Inv.idle (db : σ) : C.Inv P (World.idle db : World σ κ ε) :=
  ⟨nofun, nofun, fun _ => ⟨nofun, nofun⟩, nofun, .nil⟩

theorem Inv.begin (h : C.Inv P w) (hP : P c) (ho : ¬ C.owns c) (ha : ¬ C.armed c) : C.Inv P (w.begin i c) := by
  refine ⟨h.calls.begin hP, ?_, fun hf => ⟨(h.free hf).1.begin ho, (h.free hf).2⟩,
    fun e he hend => (h.ended e he hend).begin ha, h.first⟩
  intro j k d e hd he hod hoe
  rcases World.calls_begin hd with rfl | hd
  · exact absurd hod ho
  · rcases World.calls_begin he with rfl | he
    · exact absurd hoe ho
    · exact h.owner j k d e hd he hod hoe

theorem Inv.drop (h : C.Inv P w) : C.Inv P (w.drop i) :=
  ⟨h.calls.drop, fun j k d e hd he => h.owner j k d e (World.calls_drop hd) (World.calls_drop he),
    fun hf => ⟨(h.free hf).1.drop, (h.free hf).2⟩, fun e he hend => (h.ended e he hend).drop, h.first⟩

namespace Lawful

variable (L : C.Lawful P first exec)
include L

theorem inv_after {x : α} (h : C.Inv P w) (hc : w.calls i = some c) : C.Inv P (w.after exec i c x) := by
  have hP := h.calls i c hc
  -- a call of the new world is what `c` left, or it stands in another slot
  have hcalls : ∀ j d, (w.after exec i c x).calls j = some d →
      j = i ∧ (exec w.db c x).next = some d ∨ j ≠ i ∧ w.calls j = some d := by
    intro j d hd
    by_cases hj : j = i
    · subst hj; exact .inl ⟨rfl, by simpa [World.after] using hd⟩
    · exact .inr ⟨hj, by simpa [World.after, hj] using hd⟩
  -- the others own nothing when `c` owns the claim or takes it
  have hothers : C.owns c ∨ C.free w.db → ∀ j d, j ≠ i → w.calls j = some d → ¬ C.owns d := by
    intro hor j d hj hd hod
    rcases hor with ho | hf
    · exact hj (h.owner j i d c hd hc hod ho)
    · exact (h.free hf).1 j d hd hod
  refine ⟨?_, ?_, ?_, ?_, ?_⟩
  · intro j d hd
    rcases hcalls j d hd with ⟨_, hn⟩ | ⟨_, hd⟩
    · exact L.stays hP hn
    · exact h.calls j d hd
  · intro j k d e hd he hod hoe
    rcases hcalls j d hd with ⟨rfl, hn⟩ | ⟨hj, hd'⟩ <;> rcases hcalls k e he with ⟨rfl, hn'⟩ | ⟨hk, he'⟩
    · rfl
    · exact absurd hoe (hothers ((L.owns_next hP hn hod).imp_right And.left) k e hk he')
    · exact absurd hod (hothers ((L.owns_next hP hn' hoe).imp_right And.left) j d hj hd')
    · exact h.owner j k d e hd' he' hod hoe
  · intro hf
    have hf0 := L.free_anti hP hf
    constructor
    · intro j d hd hod
      rcases hcalls j d hd with ⟨_, hn⟩ | ⟨_, hd⟩
      · rcases L.owns_next hP hn hod with ho | ⟨_, hnf⟩
        · exact (h.free hf0).1 i c hc ho
        · exact hnf hf
      · exact (h.free hf0).1 j d hd hod
    · intro e he hend
      rcases List.mem_append.1 he with he | he
      · exact (h.free hf0).2 e he hend
      · rcases L.ends_of hP he hend with ho | ⟨_, hnf⟩
        · exact (h.free hf0).1 i c hc ho
        · exact hnf hf
  · intro e he hend j d hd had
    rcases List.mem_append.1 he with he | he
    · rcases hcalls j d hd with ⟨_, hn⟩ | ⟨_, hd⟩
      · rcases (L.armed_next hP hn had).1 with ha | hf
        · exact h.ended e he hend i c hc ha
        · exact (h.free hf).2 e he hend
      · exact h.ended e he hend j d hd had
    · rcases hcalls j d hd with ⟨_, hn⟩ | ⟨hj, hd⟩
      · exact (L.armed_next hP hn had).2 e he hend
      · exact hothers ((L.ends_of hP he hend).imp_right And.left) j d hj hd (L.armed_owns had)
  · refine List.pairwise_append.2 ⟨h.first, L.events hP, ?_⟩
    intro d hd e he huse hend
    exact h.ended d hd hend i c hc (L.uses_of hP he huse)

theorem inv_step (h : C.Inv P w) (hstart : ∀ i c, a = .start i c → P c) (hs : step first exec w a = some w') :
    C.Inv P w' := by
  obtain ⟨i, c, rfl, hf, _, rfl⟩ | ⟨i, c, x, _, hc, rfl⟩ | ⟨i, c, _, _, rfl⟩ := step_cases hs
  · exact h.begin (hstart i c rfl) (L.not_owns hf) fun ha => L.not_owns hf (L.armed_owns ha)
  · exact L.inv_after h hc
  · exact h.drop

theorem first_of_run {db : σ} {as : List (Action κ α)} (hstart : ∀ a ∈ as, ∀ i c, a = .start i c → P c)
    (hr : Lts.run (step first exec) (.idle db) as = some w) : w.log.Pairwise fun d e => C.uses e → ¬ C.ends d :=
  (Lts.run_invariant (fun _ _ _ hi hp hs => L.inv_step hi hp hs) (Inv.idle db) (.of_mem as hstart _) hr).first

end Lawful

end Claim

def Backed (B : List ε → ε → Prop) (l : List ε) : Prop := ∀ pre e post, l = pre ++ e :: post → B pre e

/-- `I` holds of the state and the log, `P` of the log and every call in flight, and whatever a step logs has `B`. -/
structure Backs (I : σ → List ε → Prop) (P : List ε → κ → Prop) (B : List ε → ε → Prop) (first : κ → Bool)
    (exec : σ → κ → α → Effect σ κ ε) : Prop where
  later : ∀ {l es c}, P l c → P (l ++ es) c
  first : ∀ {l c}, first c → P l c
  inv : ∀ {s l c x}, I s l → P l c → I (exec s c x).db (l ++ (exec s c x).events)
  next : ∀ {s l c x d}, I s l → P l c → (exec s c x).next = some d → P (l ++ (exec s c x).events) d
  backed : ∀ {s l c x pre e post}, I s l → P l c → (exec s c x).events = pre ++ e :: post → B (l ++ pre) e

theorem Backed.append {B : List ε → ε → Prop} {l es : List ε} (h : Backed B l) (hes : ∀ pre e post, es = pre ++ e :: post → B (l ++ pre) e) :
    Backed B (l ++ es) := by
  intro pre e post heq
  rcases List.append_eq_append_iff.1 heq with ⟨as, rfl, hes'⟩ | ⟨bs, hl, hpost⟩
  · exact hes as e post hes'
  · cases bs with
    | nil => simpa [hl] using hes [] e post hpost.symm
    | cons b bs =>
      obtain ⟨rfl, _⟩ := List.cons.inj hpost
      exact h pre e bs hl

namespace Backs

variable {I : σ → List ε → Prop} {P : List ε → κ → Prop} {B : List ε → ε → Prop}

theorem step (h : Backs I P B first exec) (hs : Calls.step first exec w a = some w')
    (hw : I w.db w.log ∧ w.All (P w.log) ∧ Backed B w.log) : I w'.db w'.log ∧ w'.All (P w'.log) ∧ Backed B w'.log := by
  obtain ⟨hi, hp, hb⟩ := hw
  obtain ⟨i, c, rfl, hf, _, rfl⟩ | ⟨i, c, x, rfl, hc, rfl⟩ | ⟨i, c, rfl, _, rfl⟩ := step_cases hs
  · exact ⟨hi, hp.begin (h.first hf), hb⟩
  · have hpc := hp i c hc
    refine ⟨h.inv hi hpc, fun j d hd => ?_, hb.append fun _ _ _ => h.backed hi hpc⟩
    obtain ⟨hd, _⟩ | ⟨_, hd⟩ | ⟨c', y, hy, hc', hd⟩ := calls_step hs hd
    · exact h.later (hp j d hd)
    · cases hd
    · cases hy
      obtain rfl := Option.some.inj (hc.symm.trans hc')
      exact h.next hi hpc hd
  · exact ⟨hi, hp.drop, hb⟩

theorem run (h : Backs I P B first exec) {db : σ} {as : List (Action κ α)} (hi : I db []) (hr : Lts.run (Calls.step first exec) (.idle db) as = some w) :
    I w.db w.log ∧ w.All (P w.log) ∧ Backed B w.log :=
  Lts.Reachable.invariant (fun _ _ _ hw hs => h.step hs hw) ⟨hi, World.idle_all _ _, fun pre e post heq => by simp [World.idle] at heq⟩ ⟨as, hr⟩

end Backs

end Calls
