import Privahub.Lib.Base64

/-!
# Envelopes of secrets at rest

`enc:<version>:<base64 of salt, nonce and sealed text>`. SM4-GCM under the key that HKDF-SM3 derives from the master key and the salt is
the parameter `Gcm`, of which only `open (seal x) = x` and the length of the tag are known. `open_seal` is what the rest of the development uses: a
text that a keyring seals opens again under every keyring that has the version.
-/

namespace Crypto

def Prefix : Bytes := str "enc:"
def SaltSize : Nat := 16
def NonceSize : Nat := 12
def tagSize : Nat := 16

inductive Err where
  | noKey
  | invalidEnvelope
  | keyVersionNotFound (version : Bytes)
  | decrypt
  | random
  deriving DecidableEq, Repr

/-- `deriveGCM(master, salt)` with its `Seal` and `Open`. -/
structure Gcm where
  Seal : (master salt nonce text header : Bytes) → Bytes
  Open : (master salt nonce sealed header : Bytes) → Option Bytes
  open_seal : ∀ master salt nonce text header, Open master salt nonce (Seal master salt nonce text header) header = some text
  length_seal : ∀ master salt nonce text header, (Seal master salt nonce text header).length = text.length + tagSize

/-- What one `Encrypt` reads from `rand.Reader`. -/
structure Random where
  salt : Bytes
  nonce : Bytes
  length_salt : salt.length = SaltSize
  length_nonce : nonce.length = NonceSize

theorem length_sevens : (List.replicate 16 (7 : UInt8)).length = SaltSize := rfl

theorem length_nines : (List.replicate 12 (9 : UInt8)).length = NonceSize := rfl

/-- `versionRe`. -/
def versionByte (b : UInt8) : Bool := (97 ≤ b && b ≤ 122) || (48 ≤ b && b ≤ 57)

def validVersion : Bytes → Bool
  | [] => false
  | b :: rest => versionByte b && decide (rest.length ≤ 31) && rest.all fun c => versionByte c || c == 95 || c == 46 || c == 45

/-- What `NewKeyring` returns: every version matches `versionRe` and the active one is among them. -/
structure Keyring where
  keys : Bytes → Option Bytes
  active : Bytes
  active_mem : (keys active).isSome
  valid : ∀ v, (keys v).isSome → validVersion v

def header (version : Bytes) : Bytes := Prefix ++ version ++ [58]

def splitEnvelope (s : Bytes) : Option (Bytes × Bytes) :=
  if s.take Prefix.length = Prefix then
    let rest := s.drop Prefix.length
    let i := rest.idxOf 58
    if i = 0 ∨ i = rest.length ∨ i + 1 = rest.length then none else some (rest.take i, rest.drop (i + 1))
  else none

def IsEncrypted (s : Bytes) : Bool := (splitEnvelope s).isSome

variable (gcm : Gcm)

def envelope (version master : Bytes) (r : Random) (plaintext : Bytes) : Bytes :=
  header version ++ Base64.encode (r.salt ++ r.nonce ++ gcm.Seal master r.salt r.nonce plaintext (header version))

def Keyring.Encrypt (k : Option Keyring) (random : Option Random) (plaintext : Bytes) : Except Err Bytes :=
  if plaintext = [] then .ok []
  else match k, random with
    | none, _ => .error .noKey
    | some _, none => .error .random
    | some k, some r => .ok (envelope gcm k.active ((k.keys k.active).getD []) r plaintext)

def Keyring.Decrypt (k : Option Keyring) (env : Bytes) : Except Err Bytes :=
  if env = [] then .ok []
  else match splitEnvelope env with
    | none => .error .invalidEnvelope
    | some (version, payload) => match k with
      | none => .error .noKey
      | some k => match k.keys version with
        | none => .error (.keyVersionNotFound version)
        | some master => match Base64.decode payload with
          | none => .error .invalidEnvelope
          | some data =>
            if data.length < SaltSize + NonceSize + tagSize then .error .invalidEnvelope
            else match gcm.Open master (data.take SaltSize) ((data.drop SaltSize).take NonceSize) (data.drop (SaltSize + NonceSize))
                (header version) with
              | none => .error .decrypt
              | some text => .ok text

def Keyring.NeedsRotation (k : Option Keyring) (value : Bytes) : Bool :=
  match k with
  | none => false
  | some k => decide (value ≠ []) && match splitEnvelope value with
    | none => true
    | some (version, _) => decide (version ≠ k.active)

/-- `Seal` and `Open` of a process whose default keyring is `k`. -/
def Seal (k : Option Keyring) (random : Option Random) (plaintext : Bytes) : Except Err Bytes :=
  if k.isNone || plaintext = [] || IsEncrypted plaintext then .ok plaintext else Keyring.Encrypt gcm k random plaintext

def Open (k : Option Keyring) (value : Bytes) : Except Err Bytes :=
  if IsEncrypted value then Keyring.Decrypt gcm k value else .ok value

variable {gcm} {version master text v : Bytes} {r : Random} {k j : Keyring}

theorem colon_notMem (h : validVersion version) : 58 ∉ version := by
  cases version with
  | nil => exact List.not_mem_nil
  | cons b rest =>
    simp only [validVersion, Bool.and_eq_true] at h
    intro hmem
    rcases List.mem_cons.1 hmem with rfl | hmem
    · exact absurd h.1.1 (by decide)
    · exact absurd (List.all_eq_true.1 h.2 _ hmem) (by decide)

theorem ne_nil_of_validVersion (h : validVersion version) : version ≠ [] := by
  rintro rfl
  cases h

theorem splitEnvelope_header (h : validVersion version) {payload : Bytes} (hp : payload ≠ []) :
    splitEnvelope (header version ++ payload) = some (version, payload) := by
  have hpos : 0 < version.length := List.length_pos_iff.2 (ne_nil_of_validVersion h)
  have hpay : 0 < payload.length := List.length_pos_iff.2 hp
  have hrest : (header version ++ payload).drop Prefix.length = version ++ 58 :: payload := by simp [header]
  have hidx : (version ++ 58 :: payload).idxOf 58 = version.length := by
    rw [List.idxOf_append_of_notMem (colon_notMem h), List.idxOf_cons_self, Nat.add_zero]
  have htake : (header version ++ payload).take Prefix.length = Prefix := by simp [header]
  rw [splitEnvelope, if_pos htake]
  simp only [hrest, hidx]
  rw [if_neg (by simp only [List.length_append, List.length_cons]; omega)]
  simp

theorem sealed_ne_nil : r.salt ++ r.nonce ++ text ≠ [] := by
  intro h
  have hlen := congrArg List.length h
  simp only [List.length_append, r.length_salt, SaltSize, List.length_nil] at hlen
  omega

theorem splitEnvelope_envelope (h : validVersion version) :
    splitEnvelope (envelope gcm version master r text) =
      some (version, Base64.encode (r.salt ++ r.nonce ++ gcm.Seal master r.salt r.nonce text (header version))) :=
  splitEnvelope_header h (Base64.encode_ne_nil sealed_ne_nil)

theorem envelope_ne_nil : envelope gcm version master r text ≠ [] := by simp [envelope, header]

theorem isEncrypted_envelope (h : validVersion version) : IsEncrypted (envelope gcm version master r text) := by
  rw [IsEncrypted, splitEnvelope_envelope h]
  rfl

theorem decrypt_envelope (h : k.keys version = some master) :
    Keyring.Decrypt gcm (some k) (envelope gcm version master r text) = .ok text := by
  have hv : validVersion version := k.valid version (by rw [h]; rfl)
  have hsalt : r.salt.length = SaltSize := r.length_salt
  have hnonce : r.nonce.length = NonceSize := r.length_nonce
  simp only [Keyring.Decrypt, if_neg envelope_ne_nil, splitEnvelope_envelope hv, h, Base64.decode_encode]
  have hlen : ¬ (r.salt ++ r.nonce ++ gcm.Seal master r.salt r.nonce text (header version)).length < SaltSize + NonceSize + tagSize := by
    simp only [List.length_append, gcm.length_seal, hsalt, hnonce]
    omega
  have hdrop : ∀ t : Bytes, (r.salt ++ r.nonce ++ t).drop (SaltSize + NonceSize) = t := by
    intro t
    rw [List.drop_left' (by rw [List.length_append, hsalt, hnonce])]
  have htake : ∀ t : Bytes, (r.salt ++ r.nonce ++ t).take SaltSize = r.salt := by
    intro t
    rw [List.append_assoc, List.take_left' hsalt]
  have hmid : ∀ t : Bytes, ((r.salt ++ r.nonce ++ t).drop SaltSize).take NonceSize = r.nonce := by
    intro t
    rw [List.append_assoc, List.drop_left' hsalt, List.take_left' hnonce]
  rw [if_neg hlen, htake, hmid, hdrop, gcm.open_seal]

theorem open_envelope (h : k.keys version = some master) : Open gcm (some k) (envelope gcm version master r text) = .ok text := by
  have hv : validVersion version := k.valid version (by rw [h]; rfl)
  rw [Open, if_pos (isEncrypted_envelope hv), decrypt_envelope h]

theorem open_nil : Open gcm (some k) [] = .ok [] := rfl

theorem open_plain {o : Option Keyring} (h : IsEncrypted v = false) : Open gcm o v = .ok v := by rw [Open, if_neg (by rw [h]; decide)]

theorem keys_active (k : Keyring) : k.keys k.active = some ((k.keys k.active).getD []) := by
  obtain ⟨m, hm⟩ := Option.isSome_iff_exists.1 k.active_mem
  rw [hm]
  rfl

theorem open_encrypt {random : Option Random} (h : Keyring.Encrypt gcm (some k) random text = .ok v) (hj : j.keys k.active = k.keys k.active) :
    Open gcm (some j) v = .ok text := by
  unfold Keyring.Encrypt at h
  split_ifs at h with hnil
  · cases h
    rw [hnil, open_nil]
  cases random with
  | none => cases h
  | some r =>
    cases h
    exact open_envelope (hj.trans (keys_active k))

theorem needsRotation_nil : Keyring.NeedsRotation (some k) [] = false := rfl

theorem needsRotation_encrypt {random : Option Random} (h : Keyring.Encrypt gcm (some k) random text = .ok v) (hj : j.active = k.active) :
    Keyring.NeedsRotation (some j) v = false := by
  unfold Keyring.Encrypt at h
  split_ifs at h with hnil
  · cases h
    exact needsRotation_nil
  cases random with
  | none => cases h
  | some r =>
    cases h
    simp [Keyring.NeedsRotation, splitEnvelope_envelope (k.valid _ k.active_mem), hj]

theorem seal_eq_encrypt {random : Option Random} (h : IsEncrypted text = false) :
    Seal gcm (some k) random text = Keyring.Encrypt gcm (some k) random text := by
  by_cases hnil : text = []
  · subst hnil
    rfl
  · simp [Seal, h, hnil]

end Crypto
