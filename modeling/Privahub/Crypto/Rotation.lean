import Privahub.Crypto.Sm4Gcm
import Mathlib.Logic.Relation

/-!
# Values over a history of keyrings

A process seals a value, and later runs of it open what is stored, each with the keyring of its time. `Rotates` is one change of the keyring:
versions may be added and the active one may change, but no key is dropped or replaced, and a process without keys may get some. `open_stored`:
after any number of changes, a text that does not look like an envelope opens to itself. One that does is stored as it stands, so it
opens to what it is the envelope of.
-/

namespace Crypto

/-- One change of the process's keyring that keeps the old keys. -/
def Rotates (k j : Option Keyring) : Prop := ∀ i ∈ k, ∃ i' ∈ j, ∀ v, (i.keys v).isSome → i'.keys v = i.keys v

def History : Option Keyring → Option Keyring → Prop := Relation.ReflTransGen Rotates

variable {gcm : Gcm} {k j : Option Keyring} {random : Option Random} {text v : Bytes}

theorem History.rotates (h : History k j) : Rotates k j := by
  induction h with
  | refl => exact fun i hi => ⟨i, hi, fun _ _ => rfl⟩
  | @tail b c _ hbc ih =>
    intro i hi
    obtain ⟨i', hi', hkeep⟩ := ih i hi
    obtain ⟨i'', hi'', hkeep'⟩ := hbc i' hi'
    refine ⟨i'', hi'', fun v hv => ?_⟩
    have hv' : (i'.keys v).isSome := by rw [hkeep v hv]; exact hv
    rw [hkeep' v hv', hkeep v hv]

theorem seal_looks_sealed (h : IsEncrypted text) : Seal gcm k random text = .ok text := by simp [Seal, h]

theorem open_of_seal (hplain : IsEncrypted text = false) (hseal : Seal gcm k random text = .ok v) (hr : Rotates k j) :
    Open gcm j v = .ok text := by
  cases k with
  | none =>
    obtain rfl : text = v := Except.ok.inj hseal
    exact open_plain hplain
  | some i =>
    rw [seal_eq_encrypt hplain] at hseal
    obtain ⟨i', rfl, hkeep⟩ := hr i rfl
    exact open_encrypt hseal (hkeep i.active i.active_mem)

/-- A text that looks like an envelope is stored as it is; the others open to themselves under every later keyring. -/
theorem open_stored (hseal : Seal gcm k random text = .ok v) (hr : History k j) :
    (IsEncrypted text = false → Open gcm j v = .ok text) ∧
    (IsEncrypted text → v = text ∧ ∀ i ∈ j, ∀ version master r inner, i.keys version = some master →
      text = envelope gcm version master r inner → Open gcm j v = .ok inner) := by
  refine ⟨fun hplain => open_of_seal hplain hseal hr.rotates, fun henc => ?_⟩
  have hv : v = text := Except.ok.inj (hseal.symm.trans (seal_looks_sealed henc))
  refine ⟨hv, ?_⟩
  rintro i hi version master r inner hkey rfl
  obtain rfl : j = some i := hi
  rw [hv]
  exact open_envelope hkey

def firstKeys : Keyring where
  keys v := if v = str "v1" then some (str "the key of the first year") else none
  active := str "v1"
  active_mem := rfl
  valid v h := by
    split_ifs at h with hv
    · subst hv
      rfl
    · cases h

def secondKeys : Keyring where
  keys v := if v = str "v2" then some (str "the key of the second year") else firstKeys.keys v
  active := str "v2"
  active_mem := rfl
  valid v h := by
    split_ifs at h with hv
    · subst hv
      rfl
    · exact firstKeys.valid v h

theorem rotates_secondKeys : Rotates (some firstKeys) (some secondKeys) := by
  rintro i ⟨⟩
  refine ⟨secondKeys, rfl, fun v hv => ?_⟩
  have hv1 : v = str "v1" := by
    by_contra hne
    simp [firstKeys, hne] at hv
  subst hv1
  rfl

def ofSecret : Random := ⟨List.replicate 16 7, List.replicate 12 9, length_sevens, length_nines⟩

theorem open_stored_secret : Open sm4Gcm (some secondKeys)
    (envelope sm4Gcm (str "v1") (str "the key of the first year") ofSecret (str "a secret")) = .ok (str "a secret") := by
  have hseal : Seal sm4Gcm (some firstKeys) (some ofSecret) (str "a secret") = .ok _ := rfl
  exact (open_stored hseal (.single rotates_secondKeys)).1 rfl

/-- A text that starts like an envelope is stored in the clear, and no keyring opens it. -/
theorem looks_sealed : Seal sm4Gcm (some firstKeys) (some ofSecret) (str "enc:v1:mine") = .ok (str "enc:v1:mine") ∧
    History (some firstKeys) (some secondKeys) ∧ Open sm4Gcm (some secondKeys) (str "enc:v1:mine") = .error .invalidEnvelope :=
  ⟨rfl, .single rotates_secondKeys, rfl⟩

end Crypto
