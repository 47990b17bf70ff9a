import Privahub.Lib.Bytes

/-!
# Stored passwords

The client sends a hash of the password; the server stores a salted and iterated digest of that (password.go), or, of an
account from before the digests, the hash itself or a digest of it. `VerifyStoredPassword` compares one of them with what a client
sends, and says whether it should be stored in today's form. Client hashes are held as `NormalizeClientHash` leaves them.
-/

namespace Auth

inductive Stored where
  | kdf (salt : Bytes) (iterations : Nat) (digest : Bytes)
  | wrapped (salt : Bytes) (iterations : Nat) (digest : Bytes)
  | raw (hex : Bytes)
  | unknown
  deriving DecidableEq

/-- `iterate` is `iterateSM3`, `iterations` the work factor of new hashes. -/
structure Kdf where
  iterate : Bytes → Bytes → Nat → Bytes
  iterations : Nat
  inj : ∀ {salt n p q}, iterate salt p n = iterate salt q n → p = q

structure PasswordCandidates where
  sha256 : Bytes
  sm3 : Bytes
  deriving DecidableEq

structure VerifyResult where
  ok : Bool
  needsRehash : Bool
  deriving DecidableEq

def isHex (b : UInt8) : Bool := (48 ≤ b && b ≤ 57) || (97 ≤ b && b ≤ 102) || (65 ≤ b && b ≤ 70)

def IsClientHash (s : Bytes) : Bool := s.length == 64 && s.all isHex

namespace Kdf

variable (k : Kdf)

def VerifyStoredPassword (stored : Stored) (c : PasswordCandidates) : VerifyResult :=
  match stored with
  | .kdf salt n digest =>
    if c.sha256 ≠ [] ∧ k.iterate salt c.sha256 n = digest then ⟨true, decide (n < k.iterations)⟩ else ⟨false, false⟩
  | .wrapped salt n digest =>
    if (c.sha256 ≠ [] ∧ k.iterate salt c.sha256 n = digest) ∨ (c.sm3 ≠ [] ∧ IsClientHash c.sm3 ∧ k.iterate salt c.sm3 n = digest)
    then ⟨true, true⟩ else ⟨false, false⟩
  | .raw hex => if (c.sha256 ≠ [] ∧ c.sha256 = hex) ∨ (c.sm3 ≠ [] ∧ c.sm3 = hex) then ⟨true, true⟩ else ⟨false, false⟩
  | .unknown => ⟨false, false⟩

def HashClientPassword (p salt : Bytes) : Stored := .kdf salt k.iterations (k.iterate salt p k.iterations)

/-- `stored` is a hash of the password `p` in today's form. -/
def HashOf (p : Bytes) (stored : Stored) : Prop := ∃ salt, stored = k.HashClientPassword p salt

variable {k} {p : Bytes} {stored : Stored} {c : PasswordCandidates}

theorem HashOf.verify (h : k.HashOf p stored) : (k.VerifyStoredPassword stored c).ok = true ↔ p ≠ [] ∧ c.sha256 = p := by
  obtain ⟨salt, rfl⟩ := h
  simp only [VerifyStoredPassword, HashClientPassword]
  split_ifs with hc
  · have hp : c.sha256 = p := k.inj hc.2
    exact ⟨fun _ => ⟨hp ▸ hc.1, hp⟩, fun _ => rfl⟩
  · constructor
    · intro h
      cases h
    · rintro ⟨hp, rfl⟩
      exact absurd ⟨hp, rfl⟩ hc

end Kdf

end Auth
