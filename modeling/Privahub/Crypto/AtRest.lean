import Privahub.Crypto.Sm4Gcm
import Privahub.Lib.Run
import Mathlib.Data.List.Perm.Basic
import Mathlib.Logic.Function.Basic

/-!
# Encrypting the secrets at start-up

`EncryptSecretsAtRest` reads a column whole and rewrites its rows one by one from that copy, each `UPDATE` under the id alone. The runs of
any number of instances, their ordinary writes of secrets and deletions are one interleaving of SQL statements. `secrets_kept`: as long as no
rewrite finds its row with another plaintext than the one it has read, every value opens to what was last written to it, and after a run that
has finished another one has nothing to do.
-/

namespace AtRest

open Crypto

inductive SecretColumn where
  | nodeToken
  | nodeInstToken
  | datasourceConnectionInfo
  | certificateKeyPem
  deriving DecidableEq, Repr

def SecretColumns : List SecretColumn := [.nodeToken, .nodeInstToken, .datasourceConnectionInfo, .certificateKeyPem]

structure Row where
  ID : Int
  Value : Bytes
  deriving DecidableEq, Repr

/-- Where the run of one instance stands: before a column, in the rows it has copied of one, or at its end. -/
inductive Progress where
  | idle
  | columns (rest : List SecretColumn)
  | rewriting (c : SecretColumn) (rows : List Row) (rest : List SecretColumn)
  | finished
  | failed
  deriving DecidableEq, Repr

universe u
variable {ι : Type u}

/-- The instances over one database, each with its keyring, which has every version in use. -/
structure Fleet (ι : Type u) where
  gcm : Gcm
  keyring : ι → Keyring
  shared : ∀ i j, (keyring j).keys (keyring i).active = (keyring i).keys (keyring i).active

/-- The values of the secret columns, with `NULL` as the empty one. `meant` keeps the plaintext that was last written to each. -/
structure World (ι : Type u) where
  cells : SecretColumn → List Row
  meant : SecretColumn → Int → Bytes
  progress : ι → Progress

inductive Event (ι : Type u) where
  | start (i : ι)
  | scan (i : ι) (rows : List Row)
  | rewrite (i : ι) (random : Option Random)
  | done (i : ι)
  | fail (i : ι)
  | write (i : ι) (c : SecretColumn) (id : Int) (plaintext : Bytes) (random : Option Random)
  | delete (c : SecretColumn) (id : Int)

/-- `UPDATE … WHERE id = ?`. -/
def updateValue (id : Int) (value : Bytes) (rows : List Row) : List Row := rows.map fun r => if r.ID = id then { r with Value := value } else r

def save (id : Int) (value : Bytes) (rows : List Row) : List Row :=
  if rows.any (·.ID = id) then updateValue id value rows else rows ++ [⟨id, value⟩]

/-- The body of the loop over the copied rows: the value of its `UPDATE`, if it comes to one. -/
def reencrypt (gcm : Gcm) (kr : Keyring) (random : Option Random) (value : Bytes) : Except Err (Option Bytes) :=
  if !Keyring.NeedsRotation (some kr) value then .ok none
  else if IsEncrypted value then
    match Keyring.Decrypt gcm (some kr) value with
    | .error _ => .ok none
    | .ok plain => (Keyring.Encrypt gcm (some kr) random plain).map some
  else (Keyring.Encrypt gcm (some kr) random value).map some

namespace World

section

variable (w : World ι)

def setCells (c : SecretColumn) (rows : List Row) : World ι := { w with cells := Function.update w.cells c rows }

def setMeant (c : SecretColumn) (id : Int) (plaintext : Bytes) : World ι :=
  { w with meant := Function.update w.meant c (Function.update (w.meant c) id plaintext) }

variable {w} {c : SecretColumn} {rows : List Row} {id : Int} {t : Bytes}

@[simp] theorem cells_setCells : (w.setCells c rows).cells = Function.update w.cells c rows := rfl
@[simp] theorem meant_setCells : (w.setCells c rows).meant = w.meant := rfl
@[simp] theorem progress_setCells : (w.setCells c rows).progress = w.progress := rfl
@[simp] theorem cells_setMeant : (w.setMeant c id t).cells = w.cells := rfl
@[simp] theorem progress_setMeant : (w.setMeant c id t).progress = w.progress := rfl

end

variable [DecidableEq ι]

def setProgress (w : World ι) (i : ι) (p : Progress) : World ι := { w with progress := Function.update w.progress i p }

variable {w : World ι} {i : ι} {p : Progress}

@[simp] theorem cells_setProgress : (w.setProgress i p).cells = w.cells := rfl
@[simp] theorem meant_setProgress : (w.setProgress i p).meant = w.meant := rfl
@[simp] theorem progress_setProgress : (w.setProgress i p).progress = Function.update w.progress i p := rfl

end World

def ofRun (i : ι) : Event ι → Prop
  | .start j | .scan j _ | .rewrite j _ | .done j | .fail j => j = i
  | .write .. | .delete .. => False

def Progress.pending : Progress → SecretColumn → Row → Prop
  | .columns rest, c, _ => c ∈ rest
  | .rewriting d rows rest, c, r => c ∈ rest ∨ (c = d ∧ r ∈ rows)
  | .finished, _, _ => False
  | .idle, _, _ | .failed, _, _ => True

namespace Fleet

variable (F : Fleet ι)

/-- No run has begun, and every value is its plaintext or an envelope of it under a version that every keyring has. -/
structure Initial (w : World ι) : Prop where
  idle : ∀ i, w.progress i = .idle
  stored : ∀ c, ∀ r ∈ w.cells c, r.Value = w.meant c r.ID ∨ ∃ version master random,
    (∀ i, (F.keyring i).keys version = some master) ∧ r.Value = envelope F.gcm version master random (w.meant c r.ID)

/-- No plaintext in the columns looks like an envelope. -/
def Plain (w : World ι) : Prop := ∀ c, ∀ r ∈ w.cells c, r.Value = w.meant c r.ID → IsEncrypted r.Value = false

/-- Every value opens, at every instance, to the plaintext that was last written. -/
def Readable (w : World ι) : Prop := ∀ c, ∀ r ∈ w.cells c, ∀ i, Open F.gcm (some (F.keyring i)) r.Value = .ok (w.meant c r.ID)

/-- No text that looks like an envelope is written, and a rewrite finds its row with the plaintext it has read. -/
def Undisturbed (w : World ι) : Event ι → Prop
  | .write _ _ _ plaintext _ => IsEncrypted plaintext = false
  | .rewrite i _ => match w.progress i with
    | .rewriting c (r :: _) _ => ∀ r' ∈ w.cells c, r'.ID = r.ID →
        Open F.gcm (some (F.keyring i)) r'.Value = Open F.gcm (some (F.keyring i)) r.Value
    | _ => True
  | _ => True

variable [DecidableEq ι]

/-- One statement of an instance's run, of a service, or the end of a run. -/
def step (w : World ι) : Event ι → Option (World ι)
  | .start i => some (w.setProgress i (.columns SecretColumns))
  | .scan i rows => match w.progress i with
    | .columns (c :: rest) =>
      if rows.Perm ((w.cells c).filter (·.Value ≠ [])) then some (w.setProgress i (.rewriting c rows rest)) else none
    | _ => none
  | .rewrite i random => match w.progress i with
    | .rewriting c (r :: rows) rest => match reencrypt F.gcm (F.keyring i) random r.Value with
      | .error _ => some (w.setProgress i .failed)
      | .ok none => some (w.setProgress i (.rewriting c rows rest))
      | .ok (some sealed) => some ((w.setCells c (updateValue r.ID sealed (w.cells c))).setProgress i (.rewriting c rows rest))
    | _ => none
  | .done i => match w.progress i with
    | .rewriting _ [] rest => some (w.setProgress i (.columns rest))
    | .columns [] => some (w.setProgress i .finished)
    | _ => none
  | .fail i => some (w.setProgress i .failed)
  | .write i c id plaintext random => match Seal F.gcm (some (F.keyring i)) random plaintext with
    | .error _ => some w
    | .ok value => some ((w.setCells c (save id value (w.cells c))).setMeant c id plaintext)
  | .delete c id => some (w.setCells c ((w.cells c).filter (·.ID ≠ id)))

def Settled (w : World ι) : Prop :=
  ∀ i as w', (∀ e ∈ as, ofRun i e) → Lts.run F.step w (.start i :: as) = some w' → w'.cells = w.cells

variable {F} {w w' : World ι} {e : Event ι} {i j : ι} {c : SecretColumn} {r : Row} {rows rest : List Row} {id : Int} {v t : Bytes}
  {random : Option Random}

inductive Stepped (F : Fleet ι) (w : World ι) : Event ι → World ι → Prop where
  | start (i : ι) : Stepped F w (.start i) (w.setProgress i (.columns SecretColumns))
  | fail (i : ι) : Stepped F w (.fail i) (w.setProgress i .failed)
  | scan {i : ι} {c : SecretColumn} {rest : List SecretColumn} {rows : List Row} (hp : w.progress i = .columns (c :: rest))
    (hperm : rows.Perm ((w.cells c).filter (·.Value ≠ []))) :
    Stepped F w (.scan i rows) (w.setProgress i (.rewriting c rows rest))
  | nextColumn {i : ι} {c : SecretColumn} {rest : List SecretColumn} (hp : w.progress i = .rewriting c [] rest) :
    Stepped F w (.done i) (w.setProgress i (.columns rest))
  | finish {i : ι} (hp : w.progress i = .columns []) : Stepped F w (.done i) (w.setProgress i .finished)
  | refused (i : ι) (random : Option Random) : Stepped F w (.rewrite i random) (w.setProgress i .failed)
  | leave {i : ι} {c : SecretColumn} {r : Row} {rows : List Row} {rest : List SecretColumn} {random : Option Random}
    (hp : w.progress i = .rewriting c (r :: rows) rest) (hv : reencrypt F.gcm (F.keyring i) random r.Value = .ok none) :
    Stepped F w (.rewrite i random) (w.setProgress i (.rewriting c rows rest))
  | rewrite {i : ι} {c : SecretColumn} {r : Row} {rows : List Row} {rest : List SecretColumn} {random : Option Random} {t : Bytes}
    (hp : w.progress i = .rewriting c (r :: rows) rest) (hv : reencrypt F.gcm (F.keyring i) random r.Value = .ok (some t)) :
    Stepped F w (.rewrite i random) ((w.setCells c (updateValue r.ID t (w.cells c))).setProgress i (.rewriting c rows rest))
  | unsealed (i : ι) (c : SecretColumn) (id : Int) (t : Bytes) (random : Option Random) : Stepped F w (.write i c id t random) w
  | write {i : ι} {c : SecretColumn} {id : Int} {t : Bytes} {random : Option Random} {v : Bytes}
    (hv : Seal F.gcm (some (F.keyring i)) random t = .ok v) :
    Stepped F w (.write i c id t random) ((w.setCells c (save id v (w.cells c))).setMeant c id t)
  | delete (c : SecretColumn) (id : Int) : Stepped F w (.delete c id) (w.setCells c ((w.cells c).filter (·.ID ≠ id)))

theorem stepped_of_step (hs : F.step w e = some w') : Stepped F w e w' := by
  cases e with
  | start i =>
    cases hs
    exact .start i
  | fail i =>
    cases hs
    exact .fail i
  | scan i rows =>
    simp only [step] at hs
    split at hs
    next hp =>
      split_ifs at hs with hperm
      cases hs
      exact .scan hp hperm
    · cases hs
  | rewrite i random =>
    simp only [step] at hs
    split at hs
    next c r rows rest hp =>
      cases hv : reencrypt F.gcm (F.keyring i) random r.Value with
      | error _ =>
        rw [hv] at hs
        cases hs
        exact .refused i random
      | ok t =>
        rw [hv] at hs
        cases t with
        | none =>
          cases hs
          exact .leave hp hv
        | some t =>
          cases hs
          exact .rewrite hp hv
    · cases hs
  | done i =>
    simp only [step] at hs
    split at hs
    next hp =>
      cases hs
      exact .nextColumn hp
    next hp =>
      cases hs
      exact .finish hp
    · cases hs
  | write i c id t random =>
    simp only [step] at hs
    cases hv : Seal F.gcm (some (F.keyring i)) random t with
    | error _ =>
      rw [hv] at hs
      cases hs
      exact .unsealed i c id t random
    | ok v =>
      rw [hv] at hs
      cases hs
      exact .write hv
  | delete c id =>
    cases hs
    exact .delete c id

omit [DecidableEq ι] in
theorem mem_updateValue (h : r ∈ updateValue id v rows) : (r ∈ rows ∧ r.ID ≠ id) ∨ (r.ID = id ∧ r.Value = v ∧ ∃ r' ∈ rows, r'.ID = id) := by
  obtain ⟨r', hmem, hr⟩ := List.mem_map.1 h
  split_ifs at hr with hid
  · subst hr
    exact .inr ⟨hid, rfl, r', hmem, hid⟩
  · subst hr
    exact .inl ⟨hmem, hid⟩

omit [DecidableEq ι] in
theorem mem_save (h : r ∈ save id v rows) : (r ∈ rows ∧ r.ID ≠ id) ∨ (r.ID = id ∧ r.Value = v) := by
  unfold save at h
  split_ifs at h with hany
  · rcases mem_updateValue h with hold | ⟨hid, hv, -⟩
    · exact .inl hold
    · exact .inr ⟨hid, hv⟩
  · rcases List.mem_append.1 h with hmem | hmem
    · refine .inl ⟨hmem, fun hid => hany ?_⟩
      exact List.any_eq_true.2 ⟨r, hmem, decide_eq_true hid⟩
    · rw [List.mem_singleton.1 hmem]
      exact .inr ⟨rfl, rfl⟩

omit [DecidableEq ι] in
theorem reencrypt_some {gcm : Gcm} {kr : Keyring} (h : reencrypt gcm kr random v = .ok (some t)) :
    ∃ plain, Open gcm (some kr) v = .ok plain ∧ Keyring.Encrypt gcm (some kr) random plain = .ok t := by
  have of_map : ∀ {x : Except Err Bytes}, x.map some = .ok (some t) → x = .ok t := by
    intro x hx
    cases x with
    | error e => cases hx
    | ok s => cases hx; rfl
  unfold reencrypt at h
  split_ifs at h with hrot henc
  · cases h
  · cases hd : Keyring.Decrypt gcm (some kr) v with
    | error e => rw [hd] at h; cases h
    | ok plain =>
      rw [hd] at h
      exact ⟨plain, by rw [Open, if_pos henc, hd], of_map h⟩
  · exact ⟨v, by rw [Open, if_neg henc], of_map h⟩

omit [DecidableEq ι] in
theorem reencrypt_none {gcm : Gcm} {kr : Keyring} (h : reencrypt gcm kr random v = .ok none) (ho : Open gcm (some kr) v = .ok t) :
    Keyring.NeedsRotation (some kr) v = false := by
  have not_map : ∀ {x : Except Err Bytes}, x.map some ≠ .ok none := by
    intro x hx
    cases x <;> cases hx
  unfold reencrypt at h
  split_ifs at h with hrot henc
  · simpa using hrot
  · rw [Open, if_pos henc] at ho
    rw [ho] at h
    exact absurd h not_map
  · exact absurd h not_map

inductive Written (F : Fleet ι) (w w' : World ι) (c : SecretColumn) (r : Row) : Prop where
  | kept (h : r ∈ w.cells c) (hm : w'.meant c r.ID = w.meant c r.ID)
  | sealed (i : ι) (random : Option Random) (h : Keyring.Encrypt F.gcm (some (F.keyring i)) random (w'.meant c r.ID) = .ok r.Value)

omit [DecidableEq ι] in
theorem Written.of_eq (hc : w'.cells = w.cells) (hm : w'.meant = w.meant) (h : r ∈ w'.cells c) : Written F w w' c r :=
  .kept (hc ▸ h) (by rw [hm])

theorem written_step (hr : F.Readable w) (hu : F.Undisturbed w e) (hs : F.step w e = some w') (h : r ∈ w'.cells c) : Written F w w' c r := by
  cases stepped_of_step hs with
  | start | fail | scan | nextColumn | finish | refused | leave | unsealed => exact .of_eq rfl rfl h
  | delete d id =>
    rw [World.cells_setCells] at h
    by_cases hd : c = d
    · subst hd
      rw [Function.update_self] at h
      exact .kept (List.mem_of_mem_filter h) rfl
    · rw [Function.update_of_ne hd] at h
      exact .kept h rfl
  | @write i d id plaintext random value hv =>
    rw [seal_eq_encrypt hu] at hv
    rw [World.cells_setMeant, World.cells_setCells] at h
    by_cases hd : c = d
    · subst hd
      rw [Function.update_self] at h
      rcases mem_save h with ⟨hmem, hid⟩ | ⟨hid, hval⟩
      · exact .kept hmem (by simp [World.setMeant, World.setCells, Function.update_of_ne hid])
      · refine .sealed i random ?_
        simp only [World.setMeant, Function.update_self, hid, hval, hv]
    · rw [Function.update_of_ne hd] at h
      exact .kept h (by simp [World.setMeant, World.setCells, Function.update_of_ne hd])
  | @rewrite i d r₀ rows rest random t hp hv =>
    simp only [Undisturbed, hp] at hu
    rw [World.cells_setProgress, World.cells_setCells] at h
    by_cases hd : c = d
    · subst hd
      rw [Function.update_self] at h
      rcases mem_updateValue h with ⟨hmem, -⟩ | ⟨hid, hval, r', hmem, hid'⟩
      · exact .kept hmem rfl
      · -- the row still has the plaintext that was read
        obtain ⟨plain, hopen, henc⟩ := reencrypt_some hv
        have hmeant : plain = w.meant c r₀.ID := by
          have hnow := hr c r' hmem i
          rw [hu r' hmem hid', hopen, hid'] at hnow
          exact Except.ok.inj hnow
        refine .sealed i random ?_
        rw [hval, hid]
        exact hmeant ▸ henc
    · rw [Function.update_of_ne hd] at h
      exact .kept h rfl

theorem readable_step (hr : F.Readable w) (hu : F.Undisturbed w e) (hs : F.step w e = some w') : F.Readable w' := by
  intro c r h j
  cases written_step hr hu hs h with
  | kept h hm => rw [hm]; exact hr c r h j
  | sealed i random h => exact open_encrypt h (F.shared i j)

def Current (F : Fleet ι) (v : Bytes) : Prop := ∀ i, Keyring.NeedsRotation (some (F.keyring i)) v = false

def Covered (F : Fleet ι) (w : World ι) (p : Progress) : Prop := ∀ c, ∀ r ∈ w.cells c, F.Current r.Value ∨ p.pending c r

variable {p : Progress} (hsame : ∀ i j, (F.keyring i).active = (F.keyring j).active)

omit [DecidableEq ι] in
include hsame in
theorem current_of_needsRotation (h : Keyring.NeedsRotation (some (F.keyring i)) v = false) : F.Current v := by
  intro j
  rw [← h]
  simp only [Keyring.NeedsRotation, hsame j i]

include hsame in
theorem covered_step_other (hr : F.Readable w) (hu : F.Undisturbed w e) (hs : F.step w e = some w') (h : F.Covered w p) : F.Covered w' p := by
  intro c r hmem
  cases written_step hr hu hs hmem with
  | kept hold _ => exact h c r hold
  | sealed i random henc => exact .inl fun j => needsRotation_encrypt henc (hsame j i)

theorem mem_SecretColumns (c : SecretColumn) : c ∈ SecretColumns := by cases c <;> decide

omit [DecidableEq ι] in
theorem covered_rewritten {d : SecretColumn} {r₀ : Row} {rest : List SecretColumn} (h : F.Covered w (.rewriting d (r₀ :: rows) rest))
    (hdone : r₀ ∈ w.cells d → F.Current r₀.Value) : F.Covered w (.rewriting d rows rest) := by
  intro c r hmem
  rcases h c r hmem with hcur | hrest | ⟨rfl, hrow⟩
  · exact .inl hcur
  · exact .inr (.inl hrest)
  rcases List.mem_cons.1 hrow with rfl | hrow
  · exact .inl (hdone hmem)
  · exact .inr (.inr ⟨rfl, hrow⟩)

theorem progress_of_ne (hs : F.step w e = some w') (hi : ¬ ofRun i e) : w'.progress i = w.progress i := by
  cases stepped_of_step hs with
  | start | fail | scan | nextColumn | finish | refused | leave | rewrite => exact Function.update_of_ne (fun h => hi h.symm) ..
  | unsealed | write | delete => rfl

include hsame in
theorem covered_step (hr : F.Readable w) (hu : F.Undisturbed w e) (hs : F.step w e = some w') (h : F.Covered w (w.progress i)) :
    F.Covered w' (w'.progress i) := by
  have hkeep := covered_step_other hsame hr hu hs h
  by_cases hi : ofRun i e
  swap
  · rw [progress_of_ne hs hi]
    exact hkeep
  cases stepped_of_step hs with
  | unsealed | write | delete => cases hi
  | start j =>
    obtain rfl : j = i := hi
    simp only [World.progress_setProgress, Function.update_self]
    exact fun c r _ => .inr (mem_SecretColumns c)
  | fail j =>
    obtain rfl : j = i := hi
    simp only [World.progress_setProgress, Function.update_self]
    exact fun c r _ => .inr trivial
  | refused j =>
    obtain rfl : j = i := hi
    simp only [World.progress_setProgress, Function.update_self]
    exact fun c r _ => .inr trivial
  | @nextColumn j d rest hp =>
    obtain rfl : j = i := hi
    simp only [World.progress_setProgress, Function.update_self]
    intro c r hmem
    rcases hp ▸ hkeep c r hmem with hcur | hrest | ⟨-, hnil⟩
    · exact .inl hcur
    · exact .inr hrest
    · cases hnil
  | @finish j hp =>
    obtain rfl : j = i := hi
    simp only [World.progress_setProgress, Function.update_self]
    intro c r hmem
    rcases hp ▸ hkeep c r hmem with hcur | hnil
    · exact .inl hcur
    · cases hnil
  | @scan j d rest rows hp hperm =>
    obtain rfl : j = i := hi
    simp only [World.progress_setProgress, Function.update_self]
    intro c r hmem
    rcases hp ▸ hkeep c r hmem with hcur | hrest
    · exact .inl hcur
    rcases List.mem_cons.1 hrest with rfl | hrest
    · by_cases hnil : r.Value = []
      · exact .inl fun k => hnil ▸ needsRotation_nil
      · have hmem' : r ∈ (w.cells c).filter (·.Value ≠ []) := List.mem_filter.2 ⟨hmem, decide_eq_true hnil⟩
        exact .inr (.inr ⟨rfl, hperm.mem_iff.2 hmem'⟩)
    · exact .inr (.inl hrest)
  | @leave j d r₀ rows rest random hp hv =>
    obtain rfl : j = i := hi
    simp only [World.progress_setProgress, Function.update_self]
    exact covered_rewritten (hp ▸ hkeep) fun hmem => current_of_needsRotation hsame (reencrypt_none hv (hr d r₀ hmem j))
  | @rewrite j d r₀ rows rest random t hp hv =>
    obtain rfl : j = i := hi
    simp only [World.progress_setProgress, Function.update_self]
    refine covered_rewritten (hp ▸ hkeep) fun hmem => ?_
    obtain ⟨plain, -, henc⟩ := reencrypt_some hv
    simp only [World.cells_setProgress, World.cells_setCells, Function.update_self] at hmem
    rcases mem_updateValue hmem with ⟨-, hne⟩ | ⟨-, hval, -⟩
    · exact absurd rfl hne
    · exact hval ▸ fun k => needsRotation_encrypt henc (hsame k j)

/-- What every run under `Undisturbed` keeps. -/
structure Kept (F : Fleet ι) (w : World ι) : Prop where
  readable : F.Readable w
  covered : (∀ i j, (F.keyring i).active = (F.keyring j).active) → ∀ i, F.Covered w (w.progress i)

omit [DecidableEq ι] in
theorem Initial.kept (h : F.Initial w) (hp : Plain w) : F.Kept w where
  readable := by
    intro c r hmem i
    rcases h.stored c r hmem with hplain | ⟨version, master, random, hkeys, hval⟩
    · rw [open_plain (hp c r hmem hplain), hplain]
    · rw [hval, open_envelope (hkeys i)]
  covered := by
    intro _ i c r _
    rw [h.idle i]
    exact .inr trivial

theorem kept_step (h : F.Kept w) (hu : F.Undisturbed w e) (hs : F.step w e = some w') : F.Kept w' :=
  ⟨readable_step h.readable hu hs, fun hsame _ => covered_step hsame h.readable hu hs (h.covered hsame _)⟩

def Idle (F : Fleet ι) (i : ι) (p : Progress) : Prop :=
  match p with
  | .rewriting _ rows _ => ∀ r ∈ rows, Keyring.NeedsRotation (some (F.keyring i)) r.Value = false
  | _ => True

theorem idle_step {w₀ : World ι} (h : ∀ c, ∀ r ∈ w₀.cells c, F.Current r.Value) (hsame : w.cells = w₀.cells) (hidle : F.Idle i (w.progress i))
    (hof : ofRun i e) (hs : F.step w e = some w') : w'.cells = w₀.cells ∧ F.Idle i (w'.progress i) := by
  cases stepped_of_step hs with
  | unsealed | write | delete => cases hof
  | start | fail | nextColumn | finish | refused =>
    obtain rfl := hof
    refine ⟨hsame, ?_⟩
    simp only [World.progress_setProgress, Function.update_self]
    trivial
  | @scan j c rest rows hp hperm =>
    obtain rfl : j = i := hof
    refine ⟨hsame, ?_⟩
    simp only [World.progress_setProgress, Function.update_self]
    intro r hr
    have hmem : r ∈ w₀.cells c := hsame ▸ List.mem_of_mem_filter (hperm.mem_iff.1 hr)
    exact h c r hmem j
  | @leave j c r rows rest random hp hv =>
    obtain rfl : j = i := hof
    rw [hp] at hidle
    refine ⟨hsame, ?_⟩
    simp only [World.progress_setProgress, Function.update_self]
    exact fun r' hr' => hidle r' (List.mem_cons_of_mem _ hr')
  | @rewrite j c r rows rest random t hp hv =>
    -- a row that needs no rotation is left
    obtain rfl : j = i := hof
    rw [hp] at hidle
    rw [reencrypt, hidle r List.mem_cons_self] at hv
    cases hv

theorem settled_of_current (h : ∀ c, ∀ r ∈ w.cells c, F.Current r.Value) : F.Settled w := by
  intro i as w' has hrun
  obtain ⟨w₁, hs, hrun⟩ := Lts.run_cons.1 hrun
  have hstart : w₁.cells = w.cells ∧ F.Idle i (w₁.progress i) := by
    cases hs
    refine ⟨rfl, ?_⟩
    simp only [World.progress_setProgress, Function.update_self]
    trivial
  have hstep : ∀ w₂ e w₃, w₂.cells = w.cells ∧ F.Idle i (w₂.progress i) → ofRun i e → F.step w₂ e = some w₃ →
      w₃.cells = w.cells ∧ F.Idle i (w₃.progress i) := fun _ _ _ hinv hof hs => idle_step h hinv.1 hinv.2 hof hs
  exact (Lts.run_invariant hstep hstart (Lts.RunAll.of_mem as has w₁) hrun).1

theorem secrets_kept {w₀ : World ι} {as : List (Event ι)} (h : F.Initial w₀) (hp : Plain w₀) (hu : Lts.RunAll F.step F.Undisturbed w₀ as)
    (hrun : Lts.run F.step w₀ as = some w) :
    F.Readable w ∧ ((∀ i j, (F.keyring i).active = (F.keyring j).active) → (∃ i, w.progress i = .finished) → F.Settled w) := by
  have hk : F.Kept w := Lts.run_invariant (fun _ _ _ hk hu hs => kept_step hk hu hs) (h.kept hp) hu hrun
  refine ⟨hk.readable, fun hsame hfin => ?_⟩
  obtain ⟨i, hi⟩ := hfin
  have hcov := hk.covered hsame i
  rw [hi] at hcov
  exact settled_of_current fun c r hmem => (hcov c r hmem).resolve_right id

end Fleet

open Fleet

def random : Random := ⟨List.replicate 16 7, List.replicate 12 9, length_sevens, length_nines⟩

def keyring : Keyring where
  keys v := if v = str "v2" then some (str "an example of key material") else none
  active := str "v2"
  active_mem := rfl
  valid v h := by
    split_ifs at h with hv
    · subst hv
      decide
    · cases h

def office : Fleet Bool := ⟨sm4Gcm, fun _ => keyring, fun _ _ => rfl⟩

def legacy : World Bool where
  cells c := if c = .nodeToken then [⟨1, str "old"⟩] else []
  meant _ _ := str "old"
  progress _ := .idle

def rotateToken (id : Int) : List (Event Bool) :=
  [.start false, .scan false [⟨1, str "old"⟩], .write true .nodeToken id (str "new") (some random), .rewrite false (some random), .done false,
    .scan false [], .done false, .scan false [], .done false, .scan false [], .done false, .done false]

theorem initial_legacy : office.Initial legacy where
  idle _ := rfl
  stored c r h := by
    cases c <;> simp [legacy] at h
    exact .inl (by rw [h]; rfl)

theorem plain_legacy : Plain legacy := by
  intro c r h _
  cases c <;> simp [legacy] at h
  rw [h]
  decide

theorem overwritten_by_rewrite : ∃ w, office.Initial legacy ∧ Plain legacy ∧ Lts.run office.step legacy (rotateToken 1) = some w ∧
    w.progress false = .finished ∧ ¬ office.Readable w := by
  refine ⟨_, initial_legacy, plain_legacy, rfl, rfl, fun hr => ?_⟩
  have hopen := hr .nodeToken _ List.mem_cons_self false
  have hold := (open_envelope (keys_active (office.keyring false))).symm.trans hopen
  exact absurd (Except.ok.inj hold) (by decide)

theorem undisturbed_rotateToken : Lts.RunAll office.step office.Undisturbed legacy (rotateToken 2) := by
  refine ⟨trivial, fun w₁ h₁ => ?_⟩
  cases h₁
  refine ⟨trivial, fun w₂ h₂ => ?_⟩
  cases h₂
  refine ⟨rfl, fun w₃ h₃ => ?_⟩
  cases h₃
  refine ⟨?_, fun w₄ h₄ => ?_⟩
  · -- the second row is the one written in between
    intro r hmem hid
    rcases List.mem_cons.1 hmem with rfl | hmem
    · rfl
    · rw [List.mem_singleton.1 hmem] at hid
      cases hid
  · -- what is left neither writes nor rewrites
    exact ⟨trivial, fun _ _ => ⟨trivial, fun _ _ => ⟨trivial, fun _ _ => ⟨trivial, fun _ _ => ⟨trivial, fun _ _ => ⟨trivial, fun _ _ =>
      ⟨trivial, fun _ _ => ⟨trivial, fun _ _ => trivial⟩⟩⟩⟩⟩⟩⟩⟩

theorem secrets_kept_office : ∃ w, Lts.run office.step legacy (rotateToken 2) = some w ∧ office.Readable w ∧ office.Settled w :=
  have hkept := secrets_kept initial_legacy plain_legacy undisturbed_rotateToken rfl
  ⟨_, rfl, hkept.1, hkept.2 (fun _ _ => rfl) ⟨false, rfl⟩⟩

end AtRest
