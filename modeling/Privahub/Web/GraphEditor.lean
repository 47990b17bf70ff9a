import Privahub.Lib.Bytes
import Privahub.Lib.Run

/-!
# The editor of a graph

`useGraphEditor`: the local canvas with its dirty flag, its version and its generation, the saves on their way to the server, the reads
that come back, and the switch to another graph. `synced_run`: as long as the saves of a graph are applied in the order in which they
were started, and only what is stored by then is taken over from the server, the graph that is stored is the local canvas whenever the
editor is not dirty. No save writes one graph into another (`separate_run`), whatever the order.
-/

namespace Web.GraphEditor

universe u v
variable {κ : Type u} {γ : Type v}

/-- The refs of the hook. `owner` is the graph that the local canvas belongs to; `known` says that it is a canvas of the graph at all: until
the graph is read or edited, it is empty. -/
structure Refs (κ : Type u) (γ : Type v) where
  saveRef : κ
  graphKeyRef : κ
  graphGenerationRef : Nat
  versionRef : Nat
  dirtyRef : Bool
  timerRef : Bool
  localRef : γ
  owner : κ
  known : Bool

/-- A save: what `doSave` has noted when it started, the graph that it writes, and what has become of it. -/
structure Save (κ : Type u) (γ : Type v) where
  target : κ
  snapshot : γ
  owner : κ
  savingGraphKey : κ
  savingGeneration : Nat
  version : Nat
  applied : Bool
  answered : Bool

/-- `graphKey` is the graph that is open, `history` what the server has had of each graph; the saves stand in the order of their starts. `made` is
the canvas after the last edit of a graph, `taken` the number of saves when it was last taken over. -/
structure World (κ : Type u) (γ : Type v) where
  stored : κ → γ
  history : κ → List γ
  saves : List (Save κ γ)
  graphKey : κ
  editor : Refs κ γ
  made : κ → Option γ
  taken : κ → Nat

/-- An edit comes with the canvas that it leads to. A graph that is opened comes with what the cache has of it, if anything. -/
inductive Action (κ : Type u) (γ : Type v)
  | edit (c : γ)
  | timer
  | flush
  | apply (i : Nat)
  | answer (i : Nat) (ok : Bool)
  | read (d : γ)
  | switch (k : κ) (d : Option γ)

variable [DecidableEq κ] [DecidableEq γ]

/-- A graph has just been opened, and nothing of it has been read yet. -/
def init (stored : κ → γ) (k : κ) (empty : γ) : World κ γ :=
  ⟨stored, fun k => [stored k], [], k, ⟨k, k, 0, 0, false, false, empty, k, false⟩, fun _ => none, fun _ => 0⟩

def onGraphChange (w : World κ γ) (c : γ) : World κ γ :=
  { w with
    editor := { w.editor with localRef := c, owner := w.graphKey, known := true, dirtyRef := true, versionRef := w.editor.versionRef + 1, timerRef := true }
    made := Function.update w.made w.graphKey (some c) }

def doSave (w : World κ γ) : World κ γ :=
  let e := { w.editor with timerRef := false }
  if e.dirtyRef then
    { w with
      editor := e
      saves := w.saves ++ [⟨e.saveRef, e.localRef, e.owner, e.graphKeyRef, e.graphGenerationRef, e.versionRef, false, false⟩] }
  else { w with editor := e }

def applySave (w : World κ γ) (i : Nat) (s : Save κ γ) : World κ γ :=
  { w with
    stored := Function.update w.stored s.target s.snapshot
    history := Function.update w.history s.target (w.history s.target ++ [s.snapshot])
    saves := w.saves.modify i fun s => { s with applied := true } }

/-- What `doSave` does when its save is over. -/
def afterSave (e : Refs κ γ) (s : Save κ γ) (ok : Bool) : Refs κ γ :=
  if e.graphKeyRef ≠ s.savingGraphKey ∨ e.graphGenerationRef ≠ s.savingGeneration then e
  else if ok ∧ e.versionRef = s.version then { e with dirtyRef := false }
  else e

def answerSave (w : World κ γ) (i : Nat) (s : Save κ γ) (ok : Bool) : World κ γ :=
  { w with
    editor := afterSave w.editor s ok
    saves := w.saves.modify i fun s => { s with answered := true } }

def serverChanged (w : World κ γ) (d : γ) : World κ γ :=
  if w.editor.dirtyRef then w
  else { w with
    editor := { w.editor with localRef := d, owner := w.graphKey, known := true }
    taken := Function.update w.taken w.graphKey w.saves.length }

def switched (empty : γ) (w : World κ γ) (k : κ) (d : Option γ) : World κ γ :=
  { w with
    graphKey := k
    editor := ⟨k, k, w.editor.graphGenerationRef + 1, w.editor.versionRef + 1, false, false, d.getD empty, k, d.isSome⟩
    taken := if d.isSome then Function.update w.taken k w.saves.length else w.taken }

def step (empty : γ) (w : World κ γ) : Action κ γ → Option (World κ γ)
  | .edit c => some (onGraphChange w c)
  | .timer => if w.editor.timerRef then some (doSave w) else none
  | .flush => some (doSave w)
  | .apply i => match w.saves[i]? with
    | some s => if s.applied then none else some (applySave w i s)
    | none => none
  | .answer i ok => match w.saves[i]? with
    | some s => if s.answered = true ∨ ok = true ∧ s.applied = false then none else some (answerSave w i s ok)
    | none => none
  | .read d => if d ∈ w.history w.graphKey then some (serverChanged w d) else none
  | .switch k d => if k ≠ w.graphKey ∧ ∀ c ∈ d, c ∈ w.history k then some (switched empty w k d) else none

/-- With nothing unsaved and no save on its way, the server has the local canvas, with the last edit that was made. -/
def Synced (w : World κ γ) : Prop :=
  w.editor.known = true → w.editor.dirtyRef = false → (∀ s ∈ w.saves, s.target = w.graphKey → s.answered = true) →
    w.stored w.graphKey = w.editor.localRef ∧ ∀ c, w.made w.graphKey = some c → w.editor.localRef = c

/-- Every save writes the graph whose canvas it has taken. -/
def Separate (w : World κ γ) : Prop := ∀ s ∈ w.saves, s.owner = s.target

/-- No save of the graph after the `i`-th has been applied. -/
def NoneLater (saves : List (Save κ γ)) (k : κ) (i : Nat) : Prop :=
  ∀ j t, i < j → saves[j]? = some t → t.target = k → t.applied = false

/-- It is what the server has of the graph, with the last edit that was made. -/
def Current (w : World κ γ) (k : κ) (d : γ) : Prop := w.stored k = d ∧ ∀ c, w.made k = some c → d = c

/-- The condition: saves of a graph are applied in their order, none that was started before the graph was last taken over from the
server, and what is taken over is current. -/
def InOrder (w : World κ γ) : Action κ γ → Prop
  | .apply i => ∀ s, w.saves[i]? = some s → w.taken s.target ≤ i ∧ NoneLater w.saves s.target i
  | .read d => w.editor.dirtyRef = false → Current w w.graphKey d
  | .switch k d => ∀ c ∈ d, Current w k c
  | _ => True

variable {empty : γ} {w w' : World κ γ} {a : Action κ γ} {saves : List (Save κ γ)} {s t : Save κ γ} {k : κ} {i j : Nat} {d c : γ} {o : Option γ} {ok : Bool}

structure SameSave (s t : Save κ γ) : Prop where
  target : t.target = s.target
  snapshot : t.snapshot = s.snapshot
  owner : t.owner = s.owner
  savingGraphKey : t.savingGraphKey = s.savingGraphKey
  version : t.version = s.version

def SameSaves (saves saves' : List (Save κ γ)) : Prop := ∀ (j : Nat) (t : Save κ γ), saves'[j]? = some t → ∃ s, saves[j]? = some s ∧ SameSave s t

omit [DecidableEq κ] [DecidableEq γ] in
theorem getElem?_moved {f : Save κ γ → Save κ γ} (h : (saves.modify i f)[j]? = some t) (hf : ∀ s, SameSave s (f s)) :
    ∃ s, saves[j]? = some s ∧ SameSave s t ∧ t = if i = j then f s else s := by
  rw [List.getElem?_modify] at h
  obtain ⟨s, hs, rfl⟩ := Option.map_eq_some_iff.1 h
  refine ⟨s, hs, ?_, rfl⟩
  show SameSave s (if i = j then f s else s)
  split_ifs
  · exact hf s
  · exact ⟨rfl, rfl, rfl, rfl, rfl⟩

omit [DecidableEq κ] [DecidableEq γ] in
theorem getElem?_applied (h : (saves.modify i fun s => { s with applied := true })[j]? = some t) :
    ∃ s, saves[j]? = some s ∧ SameSave s t ∧ (t.applied = false → s.applied = false) ∧ (t.applied = true → s.applied = true ∨ i = j) := by
  obtain ⟨s, hs, hsame, rfl⟩ := getElem?_moved h fun _ => ⟨rfl, rfl, rfl, rfl, rfl⟩
  refine ⟨s, hs, hsame, ?_⟩
  split_ifs with hij
  · exact ⟨nofun, fun _ => .inr hij⟩
  · exact ⟨id, .inl⟩

omit [DecidableEq κ] [DecidableEq γ] in
theorem getElem?_answered (h : (saves.modify i fun s => { s with answered := true })[j]? = some t) :
    ∃ s, saves[j]? = some s ∧ SameSave s t ∧ t.applied = s.applied := by
  obtain ⟨s, hs, hsame, rfl⟩ := getElem?_moved h fun _ => ⟨rfl, rfl, rfl, rfl, rfl⟩
  refine ⟨s, hs, hsame, ?_⟩
  split_ifs <;> rfl

omit [DecidableEq κ] [DecidableEq γ] in
theorem SameSaves.applied : SameSaves saves (saves.modify i fun s => { s with applied := true }) := by
  intro j t ht
  obtain ⟨s, hs, hsame, -⟩ := getElem?_applied ht
  exact ⟨s, hs, hsame⟩

omit [DecidableEq κ] [DecidableEq γ] in
theorem SameSaves.answered : SameSaves saves (saves.modify i fun s => { s with answered := true }) := by
  intro j t ht
  obtain ⟨s, hs, hsame, -⟩ := getElem?_answered ht
  exact ⟨s, hs, hsame⟩

namespace SameSaves

variable {saves' : List (Save κ γ)} (hss : SameSaves saves saves')
include hss

omit [DecidableEq κ] [DecidableEq γ] in
theorem mem (ht : t ∈ saves') : ∃ s ∈ saves, SameSave s t := by
  obtain ⟨j, hj⟩ := List.getElem?_of_mem ht
  obtain ⟨s, hs, hsame⟩ := hss j t hj
  exact ⟨s, List.mem_of_getElem? hs, hsame⟩

omit [DecidableEq κ] [DecidableEq γ] in
theorem own (h : ∀ s ∈ saves, s.owner = s.target ∧ s.savingGraphKey = s.target) : ∀ t ∈ saves', t.owner = t.target ∧ t.savingGraphKey = t.target := by
  intro t ht
  obtain ⟨s, hs, hsame⟩ := hss.mem ht
  rw [hsame.owner, hsame.target, hsame.savingGraphKey]
  exact h s hs

omit [DecidableEq κ] [DecidableEq γ] in
theorem order (h : ∀ (i j : Nat) (s t : Save κ γ), saves[i]? = some s → saves[j]? = some t → i ≤ j → s.version ≤ t.version) :
    ∀ (i j : Nat) (s t : Save κ γ), saves'[i]? = some s → saves'[j]? = some t → i ≤ j → s.version ≤ t.version := by
  intro i j s t hs ht hij
  obtain ⟨s', hs', hsame⟩ := hss i s hs
  obtain ⟨t', ht', hsame'⟩ := hss j t ht
  rw [hsame.version, hsame'.version]
  exact h i j s' t' hs' ht' hij

omit [DecidableEq κ] [DecidableEq γ] in
theorem old {v : Nat} (h : ∀ s ∈ saves, s.version ≤ v ∧ (s.version = v → s.target = k)) : ∀ t ∈ saves', t.version ≤ v ∧ (t.version = v → t.target = k) := by
  intro t ht
  obtain ⟨s, hs, hsame⟩ := hss.mem ht
  rw [hsame.version, hsame.target]
  exact h s hs

omit [DecidableEq κ] [DecidableEq γ] in
theorem fresh {v : Nat} (h : ∀ s ∈ saves, s.version = v → s.snapshot = c) : ∀ t ∈ saves', t.version = v → t.snapshot = c := by
  intro t ht hv
  obtain ⟨s, hs, hsame⟩ := hss.mem ht
  rw [hsame.snapshot]
  exact h s hs (hsame.version.symm.trans hv)

end SameSaves

structure Own (w : World κ γ) : Prop where
  saveRef : w.editor.saveRef = w.graphKey
  graphKeyRef : w.editor.graphKeyRef = w.graphKey
  owner : w.editor.owner = w.graphKey
  saves : ∀ s ∈ w.saves, s.owner = s.target ∧ s.savingGraphKey = s.target

omit [DecidableEq κ] [DecidableEq γ] in
theorem Own.doSave (h : Own w) : Own (doSave w) := by
  unfold GraphEditor.doSave
  simp only
  split_ifs
  · refine ⟨h.saveRef, h.graphKeyRef, h.owner, fun s hs => ?_⟩
    rcases List.mem_append.1 hs with hs | hs
    · exact h.saves s hs
    · obtain rfl := List.mem_singleton.1 hs
      exact ⟨h.owner.trans h.saveRef.symm, h.graphKeyRef.trans h.saveRef.symm⟩
  · exact ⟨h.saveRef, h.graphKeyRef, h.owner, h.saves⟩

theorem Own.step (h : Own w) (hs : step empty w a = some w') : Own w' := by
  cases a with
  | edit c =>
    obtain rfl := Option.some.inj hs
    exact ⟨h.saveRef, h.graphKeyRef, rfl, h.saves⟩
  | timer =>
    simp only [GraphEditor.step] at hs
    split_ifs at hs
    obtain rfl := Option.some.inj hs
    exact h.doSave
  | flush =>
    obtain rfl := Option.some.inj hs
    exact h.doSave
  | apply i =>
    simp only [GraphEditor.step] at hs
    split at hs
    · split_ifs at hs
      obtain rfl := Option.some.inj hs
      exact ⟨h.saveRef, h.graphKeyRef, h.owner, SameSaves.applied.own h.saves⟩
    · cases hs
  | answer i ok =>
    simp only [GraphEditor.step] at hs
    split at hs
    · split_ifs at hs
      obtain rfl := Option.some.inj hs
      refine ⟨?_, ?_, ?_, SameSaves.answered.own h.saves⟩
      · show (afterSave _ _ _).saveRef = _
        unfold afterSave
        split_ifs <;> exact h.saveRef
      · show (afterSave _ _ _).graphKeyRef = _
        unfold afterSave
        split_ifs <;> exact h.graphKeyRef
      · show (afterSave _ _ _).owner = _
        unfold afterSave
        split_ifs <;> exact h.owner
    · cases hs
  | read d =>
    simp only [GraphEditor.step] at hs
    split_ifs at hs
    obtain rfl := Option.some.inj hs
    unfold serverChanged
    split_ifs
    · exact h
    · exact ⟨h.saveRef, h.graphKeyRef, rfl, h.saves⟩
  | switch k d =>
    simp only [GraphEditor.step] at hs
    split_ifs at hs
    obtain rfl := Option.some.inj hs
    exact ⟨rfl, rfl, rfl, h.saves⟩

theorem separate_run {stored : κ → γ} {as : List (Action κ γ)} (h : Lts.run (step empty) (init stored k empty) as = some w) : Separate w := by
  have hown : Own w :=
    Lts.Reachable.invariant (fun _ _ _ hi hs => hi.step hs) ⟨rfl, rfl, rfl, fun _ hs => absurd hs List.not_mem_nil⟩ ⟨as, h⟩
  exact fun s hs => (hown.saves s hs).1

structure Inv (w : World κ γ) : Prop extends Own w where
  known : w.editor.dirtyRef = true → w.editor.known = true
  made : w.editor.known = true → ∀ c, w.made w.graphKey = some c → w.editor.localRef = c
  order : ∀ (i j : Nat) (s t : Save κ γ), w.saves[i]? = some s → w.saves[j]? = some t → i ≤ j → s.version ≤ t.version
  old : ∀ s ∈ w.saves, s.version ≤ w.editor.versionRef ∧ (s.version = w.editor.versionRef → s.target = w.graphKey)
  fresh : w.editor.dirtyRef = true → ∀ s ∈ w.saves, s.version = w.editor.versionRef → s.snapshot = w.editor.localRef
  last : ∀ (i : Nat) (s : Save κ γ), w.saves[i]? = some s → s.applied = true → NoneLater w.saves s.target i → w.stored s.target = s.snapshot
  sync : w.editor.known = true → w.editor.dirtyRef = false → w.stored w.graphKey = w.editor.localRef ∧
    ∀ (i : Nat) (s : Save κ γ), w.saves[i]? = some s → s.target = w.graphKey → s.applied = false → w.taken w.graphKey ≤ i → NoneLater w.saves w.graphKey i →
      s.snapshot = w.editor.localRef

omit [DecidableEq κ] [DecidableEq γ] in
theorem Inv.init {stored : κ → γ} : Inv (init stored k empty) where
  saveRef := rfl
  graphKeyRef := rfl
  owner := rfl
  saves _ hs := absurd hs List.not_mem_nil
  known := nofun
  made := nofun
  order _ _ _ _ hs := by cases hs
  old _ hs := absurd hs List.not_mem_nil
  fresh := nofun
  last _ _ hs := by cases hs
  sync := nofun

theorem Inv.onGraphChange (h : Inv w) (c : γ) : Inv (onGraphChange w c) where
  saveRef := h.saveRef
  graphKeyRef := h.graphKeyRef
  owner := rfl
  saves := h.saves
  known _ := rfl
  made _ d hd := by
    simp only [GraphEditor.onGraphChange, Function.update_self, Option.some.injEq] at hd
    exact hd
  order := h.order
  old s hs := by
    obtain ⟨hle, -⟩ := h.old s hs
    show s.version ≤ w.editor.versionRef + 1 ∧ (s.version = w.editor.versionRef + 1 → _)
    exact ⟨by omega, fun he => by omega⟩
  fresh _ s hs hv := by
    obtain ⟨hle, -⟩ := h.old s hs
    have hv : s.version = w.editor.versionRef + 1 := hv
    omega
  last := h.last
  sync _ hd := by cases hd

omit [DecidableEq κ] [DecidableEq γ] in
theorem getElem?_snoc (h : (saves ++ [s])[i]? = some t) : saves[i]? = some t ∨ i = saves.length ∧ t = s := by
  rcases Nat.lt_or_ge i saves.length with hi | hi
  · rw [List.getElem?_append_left hi] at h
    exact .inl h
  · rw [List.getElem?_append_right hi] at h
    cases hn : i - saves.length with
    | zero =>
      rw [hn] at h
      exact .inr ⟨by omega, (Option.some.inj h).symm⟩
    | succ n =>
      rw [hn] at h
      cases h

omit [DecidableEq κ] [DecidableEq γ] in
theorem NoneLater.of_snoc (h : NoneLater (saves ++ [s]) k i) : NoneLater saves k i := by
  intro j t hij hj ht
  refine h j t hij ?_ ht
  rw [List.getElem?_append_left (List.getElem?_eq_some_iff.1 hj).1]
  exact hj

omit [DecidableEq κ] [DecidableEq γ] in
theorem Inv.doSave (h : Inv w) : Inv (doSave w) := by
  unfold GraphEditor.doSave
  simp only
  split_ifs with hd
  · refine ⟨?_, h.known, h.made, ?_, ?_, ?_, ?_, ?_⟩
    · have hown := h.toOwn.doSave
      unfold GraphEditor.doSave at hown
      simp only [if_pos hd] at hown
      exact hown
    · intro i j s t hs ht hij
      rcases getElem?_snoc hs with hs | ⟨hi, rfl⟩
      · rcases getElem?_snoc ht with ht | ⟨hj, rfl⟩
        · exact h.order i j s t hs ht hij
        · exact (h.old s (List.mem_of_getElem? hs)).1
      · rcases getElem?_snoc ht with ht | ⟨hj, rfl⟩
        · have hlt := (List.getElem?_eq_some_iff.1 ht).1
          omega
        · exact Nat.le_refl _
    · intro s hs
      rcases List.mem_append.1 hs with hs | hs
      · exact h.old s hs
      · obtain rfl := List.mem_singleton.1 hs
        exact ⟨Nat.le_refl _, fun _ => h.saveRef⟩
    · intro _ s hs hv
      rcases List.mem_append.1 hs with hs | hs
      · exact h.fresh hd s hs hv
      · obtain rfl := List.mem_singleton.1 hs
        rfl
    · intro i s hs happ hlater
      rcases getElem?_snoc hs with hs | ⟨hi, rfl⟩
      · exact h.last i s hs happ hlater.of_snoc
      · cases happ
    · intro _ hclean
      exact absurd (hclean.symm.trans hd) Bool.false_ne_true
  · exact ⟨⟨h.saveRef, h.graphKeyRef, h.owner, h.saves⟩, h.known, h.made, h.order, h.old, h.fresh, h.last, h.sync⟩

omit [DecidableEq κ] [DecidableEq γ] in
theorem NoneLater.of_modify {f : Save κ γ → Save κ γ} (h : NoneLater (saves.modify j f) k i)
    (hf : ∀ s, (f s).target = s.target ∧ ((f s).applied = false → s.applied = false)) : NoneLater saves k i := by
  intro n t hn ht htk
  have hget : (saves.modify j f)[n]? = some (if j = n then f t else t) := by
    rw [List.getElem?_modify, ht]
    split_ifs <;> rfl
  have hfalse := h n _ hn hget
  split_ifs at hfalse
  · exact (hf t).2 (hfalse ((hf t).1.trans htk))
  · exact hfalse htk

omit [DecidableEq γ] in
theorem Inv.applySave (h : Inv w) (hs : w.saves[i]? = some s) (happ : s.applied = false) (hc : InOrder w (.apply i)) :
    Inv (applySave w i s) := by
  obtain ⟨htaken, hlater⟩ := hc s hs
  have hss : SameSaves w.saves (w.saves.modify i fun s => { s with applied := true }) := .applied
  refine ⟨⟨h.saveRef, h.graphKeyRef, h.owner, hss.own h.saves⟩, h.known, h.made, hss.order h.order, hss.old h.old,
    fun hd => hss.fresh (h.fresh hd), ?_, ?_⟩
  · intro j t ht htapp htlater
    obtain ⟨r, hr, hsame, -, hr'⟩ := getElem?_applied ht
    show Function.update w.stored s.target s.snapshot t.target = t.snapshot
    by_cases hk : t.target = s.target
    · rw [hk, Function.update_self, hsame.snapshot]
      -- the save that was applied is the last of its graph, so it is this one
      rcases Nat.lt_trichotomy i j with hij | rfl | hij
      · have hrapp : r.applied = true := (hr' htapp).resolve_right (Nat.ne_of_lt hij)
        exact absurd ((hlater j r hij hr (hsame.target.symm.trans hk)).symm.trans hrapp) Bool.false_ne_true
      · rw [Option.some.inj (hs.symm.trans hr)]
      · have hget : (w.saves.modify i fun s => { s with applied := true })[i]? = some { s with applied := true } := by
          rw [List.getElem?_modify, hs]
          simp
        exact absurd (htlater i _ hij hget hk.symm).symm Bool.false_ne_true
    · rw [Function.update_of_ne hk, hsame.target, hsame.snapshot]
      have hne : i ≠ j := by
        rintro rfl
        rw [Option.some.inj (hs.symm.trans hr)] at hk
        exact hk hsame.target
      exact h.last j r hr ((hr' htapp).resolve_right hne) (hsame.target ▸ htlater.of_modify fun _ => ⟨rfl, nofun⟩)
  · intro hk hd
    obtain ⟨hst, hrest⟩ := h.sync hk hd
    constructor
    · show Function.update w.stored s.target s.snapshot w.graphKey = _
      by_cases hg : w.graphKey = s.target
      · rw [hg, Function.update_self]
        exact hrest i s hs hg.symm happ (hg ▸ htaken) (hg ▸ hlater)
      · rw [Function.update_of_ne hg]
        exact hst
    · intro j t ht htk htapp htaken' htlater
      obtain ⟨r, hr, hsame, hr', -⟩ := getElem?_applied ht
      rw [hsame.snapshot]
      exact hrest j r hr (hsame.target.symm.trans htk) (hr' htapp) htaken' (htlater.of_modify fun _ => ⟨rfl, nofun⟩)

omit [DecidableEq κ] [DecidableEq γ] in
theorem last_applied (hs : saves[i]? = some s) (happ : s.applied = true) (hk : s.target = k) :
    ∃ j t, i ≤ j ∧ saves[j]? = some t ∧ t.applied = true ∧ t.target = k ∧ NoneLater saves k j := by
  induction hn : saves.length - i using Nat.strongRecOn generalizing i s with
  | ind n ih =>
    by_cases hlater : NoneLater saves k i
    · exact ⟨i, s, Nat.le_refl _, hs, happ, hk, hlater⟩
    · unfold NoneLater at hlater
      push Not at hlater
      obtain ⟨j, t, hij, ht, htk, htapp⟩ := hlater
      have hlt := (List.getElem?_eq_some_iff.1 ht).1
      obtain ⟨m, r, hjm, hm⟩ := ih (saves.length - j) (by omega) ht (by simpa using htapp) htk rfl
      exact ⟨m, r, by omega, hm⟩

omit [DecidableEq κ] [DecidableEq γ] in
theorem Inv.synced_of_answer (h : Inv w) (hd : w.editor.dirtyRef = true) (hs : w.saves[i]? = some s) (happ : s.applied = true)
    (hv : w.editor.versionRef = s.version) : w.stored w.graphKey = w.editor.localRef ∧
    ∀ (j : Nat) (t : Save κ γ), w.saves[j]? = some t → t.target = w.graphKey → t.applied = false → NoneLater w.saves w.graphKey j →
      t.snapshot = w.editor.localRef := by
  have hk : s.target = w.graphKey := (h.old s (List.mem_of_getElem? hs)).2 hv.symm
  have hsame : ∀ (j : Nat) (t : Save κ γ), w.saves[j]? = some t → i ≤ j → t.snapshot = w.editor.localRef := by
    intro j t ht hij
    have hle := (h.old t (List.mem_of_getElem? ht)).1
    have hge := h.order i j s t hs ht hij
    exact h.fresh hd t (List.mem_of_getElem? ht) (by omega)
  constructor
  · obtain ⟨m, r, him, hr, hrapp, hrk, hlater⟩ := last_applied hs happ hk
    have hst := h.last m r hr hrapp (hrk ▸ hlater)
    rw [← hrk, hst]
    exact hsame m r hr him
  · intro j t ht htk htapp hlater
    rcases Nat.lt_or_ge j i with hji | hij
    · exact absurd ((hlater i s hji hs hk).symm.trans happ) Bool.false_ne_true
    · exact hsame j t ht hij

omit [DecidableEq γ] in
theorem Inv.answerSave (h : Inv w) (hs : w.saves[i]? = some s) (hok : ok = true → s.applied = true) : Inv (answerSave w i s ok) := by
  have hedit : ∀ b : Bool, (b = false → w.editor.dirtyRef = true → s.applied = true ∧ w.editor.versionRef = s.version) → (b = true → w.editor.dirtyRef = true) →
      Inv { w with editor := { w.editor with dirtyRef := b }, saves := w.saves.modify i fun s => { s with answered := true } } := by
    intro b hb hb'
    have hss : SameSaves w.saves (w.saves.modify i fun s => { s with answered := true }) := .answered
    refine ⟨⟨h.saveRef, h.graphKeyRef, h.owner, hss.own h.saves⟩, fun hd => h.known (hb' hd), h.made, hss.order h.order, hss.old h.old,
      fun hd => hss.fresh (h.fresh (hb' hd)), ?_, ?_⟩
    · intro j t ht htapp htlater
      obtain ⟨r, hr, hsame, happ⟩ := getElem?_answered ht
      show w.stored t.target = t.snapshot
      rw [hsame.target, hsame.snapshot]
      exact h.last j r hr (happ.symm.trans htapp) (hsame.target ▸ htlater.of_modify fun _ => ⟨rfl, id⟩)
    · intro hk hclean
      have hsync : w.stored w.graphKey = w.editor.localRef ∧ ∀ (j : Nat) (t : Save κ γ), w.saves[j]? = some t → t.target = w.graphKey →
          t.applied = false → w.taken w.graphKey ≤ j → NoneLater w.saves w.graphKey j → t.snapshot = w.editor.localRef := by
        cases hd : w.editor.dirtyRef with
        | false => exact h.sync hk hd
        | true =>
          obtain ⟨happ, hv⟩ := hb hclean hd
          obtain ⟨hst, hrest⟩ := h.synced_of_answer hd hs happ hv
          exact ⟨hst, fun j t ht htk htapp _ hlater => hrest j t ht htk htapp hlater⟩
      refine ⟨hsync.1, fun j t ht htk htapp htaken htlater => ?_⟩
      obtain ⟨r, hr, hsame, happ⟩ := getElem?_answered ht
      rw [hsame.snapshot]
      exact hsync.2 j r hr (hsame.target.symm.trans htk) (happ.symm.trans htapp) htaken (htlater.of_modify fun _ => ⟨rfl, id⟩)
  have hsame := hedit w.editor.dirtyRef (fun hf ht => absurd (hf.symm.trans ht) Bool.false_ne_true) id
  unfold GraphEditor.answerSave afterSave
  split_ifs with hother hver
  · exact hsame
  · exact hedit false (fun _ _ => ⟨hok hver.1, hver.2⟩) nofun
  · exact hsame

omit [DecidableEq γ] in
theorem Inv.serverChanged (h : Inv w) (hc : InOrder w (.read d)) : Inv (serverChanged w d) := by
  unfold GraphEditor.serverChanged
  split_ifs with hd
  · exact h
  · obtain ⟨hst, hmade⟩ := hc (Bool.eq_false_iff.2 hd)
    refine ⟨⟨h.saveRef, h.graphKeyRef, rfl, h.saves⟩, fun hd' => absurd hd' hd, fun _ => hmade, h.order, h.old, fun hd' => absurd hd' hd, h.last, ?_⟩
    intro _ _
    refine ⟨hst, fun i s hs _ _ htaken _ => ?_⟩
    have hlt : i < w.saves.length := (List.getElem?_eq_some_iff.1 hs).1
    have htaken : Function.update w.taken w.graphKey w.saves.length w.graphKey ≤ i := htaken
    rw [Function.update_self] at htaken
    exact absurd htaken (Nat.not_le.2 hlt)

omit [DecidableEq γ] in
theorem Inv.switched (h : Inv w) (hc : InOrder w (.switch k o)) : Inv (switched empty w k o) := by
  refine ⟨⟨rfl, rfl, rfl, h.saves⟩, nofun, ?_, h.order, fun s hs => ?_, nofun, h.last, ?_⟩
  · intro hk c hmade
    obtain ⟨d, rfl⟩ := Option.isSome_iff_exists.1 hk
    exact (hc d rfl).2 c hmade
  · obtain ⟨hle, -⟩ := h.old s hs
    show s.version ≤ w.editor.versionRef + 1 ∧ (s.version = w.editor.versionRef + 1 → _)
    exact ⟨by omega, fun he => by omega⟩
  · intro hk _
    obtain ⟨d, rfl⟩ := Option.isSome_iff_exists.1 hk
    refine ⟨(hc d rfl).1, fun i s hs _ _ htaken _ => ?_⟩
    have hlt : i < w.saves.length := (List.getElem?_eq_some_iff.1 hs).1
    have htaken : Function.update w.taken k w.saves.length k ≤ i := htaken
    rw [Function.update_self] at htaken
    exact absurd htaken (Nat.not_le.2 hlt)

theorem Inv.step (h : Inv w) (hc : InOrder w a) (hs : step empty w a = some w') : Inv w' := by
  cases a with
  | edit c =>
    obtain rfl := Option.some.inj hs
    exact h.onGraphChange c
  | timer =>
    simp only [GraphEditor.step] at hs
    split_ifs at hs
    obtain rfl := Option.some.inj hs
    exact h.doSave
  | flush =>
    obtain rfl := Option.some.inj hs
    exact h.doSave
  | apply i =>
    simp only [GraphEditor.step] at hs
    split at hs
    · rename_i s hget
      split_ifs at hs with happ
      obtain rfl := Option.some.inj hs
      exact h.applySave hget (Bool.eq_false_iff.2 happ) hc
    · cases hs
  | answer i ok =>
    simp only [GraphEditor.step] at hs
    split at hs
    · rename_i s hget
      split_ifs at hs with hno
      obtain rfl := Option.some.inj hs
      refine h.answerSave hget fun hok => ?_
      by_contra happ
      exact hno (.inr ⟨hok, Bool.eq_false_iff.2 happ⟩)
    · cases hs
  | read d =>
    simp only [GraphEditor.step] at hs
    split_ifs at hs
    obtain rfl := Option.some.inj hs
    exact h.serverChanged hc
  | switch k o =>
    simp only [GraphEditor.step] at hs
    split_ifs at hs
    obtain rfl := Option.some.inj hs
    exact h.switched hc

/-- In every run that keeps the order, the server has the local canvas whenever nothing is unsaved. -/
theorem synced_run {stored : κ → γ} {as : List (Action κ γ)} (hc : Lts.RunAll (step empty) InOrder (init stored k empty) as)
    (hr : Lts.run (step empty) (init stored k empty) as = some w) : Synced w ∧ Separate w := by
  have hi : Inv w := Lts.run_invariant (fun _ _ _ hi hc hs => hi.step hc hs) Inv.init hc hr
  exact ⟨fun hk hd _ => ⟨(hi.sync hk hd).1, hi.made hk⟩, fun s hs => (hi.saves s hs).1⟩

def graphA : Bytes := str "p/a"

def graphB : Bytes := str "p/b"

def one : Bytes := str "one node"

def two : Bytes := str "two nodes"

def start : World Bytes Bytes := init (fun _ => one) graphA []

def stale : List (Action Bytes Bytes) := [.read one, .edit two, .flush, .apply 0, .answer 0 true, .read one]

def overtaken : List (Action Bytes Bytes) :=
  [.read one, .edit two, .flush, .edit one, .timer, .apply 1, .apply 0, .answer 1 true, .answer 0 true]

def apart (w : World Bytes Bytes) : Bool :=
  w.editor.known && !w.editor.dirtyRef && w.saves.all (fun s => s.answered) && decide (w.stored w.graphKey ≠ w.editor.localRef)

theorem not_synced {w : World Bytes Bytes} (h : apart w = true) : ¬Synced w := by
  simp only [apart, Bool.and_eq_true, Bool.not_eq_true', decide_eq_true_eq] at h
  obtain ⟨⟨⟨hknown, hclean⟩, hall⟩, hne⟩ := h
  exact fun hs => hne (hs hknown hclean fun s hmem _ => List.all_eq_true.1 hall s hmem).1

theorem lost_edit : ∃ v w, Lts.run (step []) start stale = some v ∧ ¬Synced v ∧ Lts.run (step []) start overtaken = some w ∧ ¬Synced w := by
  have hstale : (Lts.run (step []) start stale).any apart = true := by decide +kernel
  have hover : (Lts.run (step []) start overtaken).any apart = true := by decide +kernel
  obtain ⟨v, hv, hva⟩ := (Option.any_eq_true _ _).1 hstale
  obtain ⟨w, hw, hwa⟩ := (Option.any_eq_true _ _).1 hover
  exact ⟨v, w, hv, not_synced hva, hw, not_synced hwa⟩

theorem separate_run_overtaken : ∃ w, Lts.run (step []) start overtaken = some w ∧ 2 ≤ w.saves.length ∧ Separate w := by
  have hrun : (Lts.run (step []) start overtaken).any (fun w => decide (2 ≤ w.saves.length)) = true := by decide +kernel
  obtain ⟨w, hw, hlen⟩ := (Option.any_eq_true ..).1 hrun
  exact ⟨w, hw, of_decide_eq_true hlen, separate_run hw⟩

def current (w : World Bytes Bytes) (k d : Bytes) : Bool := decide (w.stored k = d) && (w.made k).all fun c => decide (d = c)

theorem current_of {w : World Bytes Bytes} {k d : Bytes} (h : current w k d = true) : Current w k d := by
  rw [current, Bool.and_eq_true] at h
  refine ⟨of_decide_eq_true h.1, fun c hc => ?_⟩
  have hd := h.2
  rw [hc] at hd
  exact of_decide_eq_true hd

def inOrder (w : World Bytes Bytes) : Action Bytes Bytes → Bool
  | .apply i => (w.saves[i]?).all fun s =>
    decide (w.taken s.target ≤ i) && (w.saves.drop (i + 1)).all fun t => decide (t.target = s.target → t.applied = false)
  | .read d => w.editor.dirtyRef || current w w.graphKey d
  | .switch k (some d) => current w k d
  | _ => true

theorem inOrder_of {w : World Bytes Bytes} {a : Action Bytes Bytes} (h : inOrder w a = true) : InOrder w a := by
  cases a with
  | edit | timer | flush | answer => trivial
  | apply i =>
    intro s hs
    simp only [inOrder, hs, Option.all_some, Bool.and_eq_true] at h
    refine ⟨of_decide_eq_true h.1, fun j t hij ht htk => ?_⟩
    obtain ⟨n, rfl⟩ := Nat.exists_eq_add_of_lt hij
    have hmem : t ∈ w.saves.drop (i + 1) := by
      refine List.mem_of_getElem? (i := n) ?_
      rw [List.getElem?_drop, ← ht]
      congr 1
      omega
    exact of_decide_eq_true (List.all_eq_true.1 h.2 t hmem) htk
  | read d =>
    intro hd
    simp only [inOrder, hd, Bool.false_or] at h
    exact current_of h
  | switch k o =>
    rintro d rfl
    exact current_of h

def oneAfterTheOther : List (Action Bytes Bytes) :=
  [.read one, .edit two, .timer, .edit one, .apply 0, .answer 0 true, .flush, .switch graphB none, .apply 1, .answer 1 true, .read one, .edit two,
    .switch graphA (some one), .read one]

theorem synced_run_oneAfterTheOther : ∃ w, Lts.run (step []) start oneAfterTheOther = some w ∧ w.editor.known = true ∧ w.saves.length = 2 ∧
    Synced w ∧ Separate w := by
  have hrun : (Lts.run (step []) start oneAfterTheOther).any (fun w => w.editor.known && decide (w.saves.length = 2)) = true := by decide +kernel
  have horder : Lts.RunAll (step []) (fun w a => inOrder w a = true) start oneAfterTheOther := by decide +kernel
  obtain ⟨w, hw, hlen⟩ := (Option.any_eq_true _ _).1 hrun
  rw [Bool.and_eq_true] at hlen
  exact ⟨w, hw, hlen.1, of_decide_eq_true hlen.2, synced_run (horder.imp fun _ _ => inOrder_of) hw⟩

end Web.GraphEditor
