import Privahub.Auth.Password
import Privahub.Lib.Hex
import Privahub.Lib.Unicode
import Privahub.Sched.CronText
import Privahub.Sm3

/-!
# The texts of stored passwords

The forms of password.go as strings: how a client hash or a legacy hash is encoded with a salt and the work factor of the process, how a stored text
is told apart and parsed, and what `VerifyStoredPassword` makes of it. What is encoded is parsed back, a hash is accepted by its own encoding alone,
and a legacy hash and its wrapping accept the same (`stored_accepts`).
-/

namespace Auth

def DefaultPasswordKDFIterations : Int := 1000000
def MinPasswordKDFIterations : Int := 200000
def maxPasswordKDFIterations : Int := 50000000

structure WorkFactor where
  passwordKDFIterations : Int
  testIterationsOverride : Int

namespace WorkFactor

def ConfigurePasswordKDF (f : WorkFactor) (iterations : Int) : Int × WorkFactor :=
  if f.testIterationsOverride > 0 then (f.testIterationsOverride, f)
  else
    let n := if iterations ≤ 0 then DefaultPasswordKDFIterations else iterations
    let n := if n < MinPasswordKDFIterations then MinPasswordKDFIterations else n
    let n := if n > maxPasswordKDFIterations then maxPasswordKDFIterations else n
    (n, { f with passwordKDFIterations := n })

def SetPasswordKDFIterationsForTesting (n : Int) : WorkFactor := ⟨if n > 0 then n else DefaultPasswordKDFIterations, n⟩

/-- From the start of the process on, where no test sets more than what a stored text may say. -/
inductive Reachable : WorkFactor → Prop
  | init : Reachable ⟨DefaultPasswordKDFIterations, 0⟩
  | configure {f : WorkFactor} (h : Reachable f) (iterations : Int) : Reachable (f.ConfigurePasswordKDF iterations).2
  | test (n : Int) (h : n ≤ maxPasswordKDFIterations) : Reachable (SetPasswordKDFIterationsForTesting n)

theorem Reachable.bounds {f : WorkFactor} (h : f.Reachable) : 0 < f.passwordKDFIterations ∧ f.passwordKDFIterations ≤ maxPasswordKDFIterations := by
  induction h with
  | init => decide
  | @configure f h iterations ih =>
    unfold ConfigurePasswordKDF
    by_cases hover : f.testIterationsOverride > 0
    · rw [if_pos hover]
      exact ih
    · rw [if_neg hover]
      simp only [DefaultPasswordKDFIterations, MinPasswordKDFIterations, maxPasswordKDFIterations]
      split_ifs <;> omega
  | test n h =>
    simp only [SetPasswordKDFIterationsForTesting, DefaultPasswordKDFIterations, maxPasswordKDFIterations] at h ⊢
    split_ifs <;> constructor <;> omega

end WorkFactor

def PasswordKDFPrefix : Bytes := str "sm3kdf:v1:"
def PasswordKDFWrappedPrefix : Bytes := str "sm3kdf-w:v1:"
def passwordKDFSaltSize : Nat := 16

/-- `strings.ToLower`. -/
def toLower (u : CaseTables) (s : Bytes) : Bytes := (Utf8.runes s).flatMap fun r => Utf8.encodeRune (u.toLower r.1)

def NormalizeClientHash (u : CaseTables) (s : Bytes) : Bytes := toLower u (Utf8.trimSpace s)

def iterateSM3 (salt input : Bytes) (iterations : Int) : Bytes := Sm3.sum^[(iterations - 1).toNat] (Sm3.sum (salt ++ input))

abbrev Salt := { salt : Bytes // salt.length = passwordKDFSaltSize }

/-- `salt` is what the random source gives, if it works. -/
def deriveEncoded (pre input : Bytes) (iterations : Int) (salt : Option Salt) : Option Bytes :=
  salt.map fun salt => pre ++ Hex.encode salt ++ str ":" ++ Bytes.itoa iterations ++ str ":" ++ Hex.encode (iterateSM3 salt input iterations)

variable (u : CaseTables) (f : WorkFactor)

def HashClientPassword (clientHash : Bytes) (salt : Option Salt) : Option Bytes :=
  deriveEncoded PasswordKDFPrefix (NormalizeClientHash u clientHash) f.passwordKDFIterations salt

def WrapLegacyHash (rawHex : Bytes) (salt : Option Salt) : Option Bytes :=
  deriveEncoded PasswordKDFWrappedPrefix (NormalizeClientHash u rawHex) f.passwordKDFIterations salt

inductive PasswordFormat
  | unknown
  | kdf
  | wrapped
  | legacyRaw
  deriving DecidableEq

def StoredPasswordFormat (stored : Bytes) : PasswordFormat :=
  if PasswordKDFPrefix <+: stored then .kdf
  else if PasswordKDFWrappedPrefix <+: stored then .wrapped
  else if IsClientHash stored then .legacyRaw
  else .unknown

structure KdfParams where
  salt : Bytes
  iterations : Int
  digest : Bytes
  deriving DecidableEq

def parseKDF (stored pre : Bytes) : Option KdfParams :=
  if pre <+: stored then
    match (stored.drop pre.length).splitOn 58 with
    | [salt, n, digest] =>
      match Hex.decode salt, Cronutil.atoi n, Hex.decode digest with
      | some salt, some n, some digest =>
        if salt.length ≠ passwordKDFSaltSize ∨ n ≤ 0 ∨ n > maxPasswordKDFIterations ∨ digest.length ≠ 32 then none
        else some ⟨salt, n, digest⟩
      | _, _, _ => none
    | _ => none
  else none

def KdfParams.matches (p : KdfParams) (input : Bytes) : Bool := iterateSM3 p.salt input p.iterations == p.digest

def VerifyStoredPassword (stored : Bytes) (c : PasswordCandidates) : VerifyResult :=
  let sha := NormalizeClientHash u c.sha256
  let sm := NormalizeClientHash u c.sm3
  match StoredPasswordFormat stored with
  | .kdf =>
    match parseKDF stored PasswordKDFPrefix with
    | none => ⟨false, false⟩
    | some p =>
      if sha = [] then ⟨false, false⟩
      else if p.matches sha then ⟨true, decide (p.iterations < f.passwordKDFIterations)⟩
      else ⟨false, false⟩
  | .wrapped =>
    match parseKDF stored PasswordKDFWrappedPrefix with
    | none => ⟨false, false⟩
    | some p =>
      if sha ≠ [] ∧ p.matches sha then ⟨true, true⟩
      else if sm ≠ [] ∧ IsClientHash sm ∧ p.matches sm then ⟨true, true⟩
      else ⟨false, false⟩
  | .legacyRaw =>
    let st := toLower u stored
    if sha ≠ [] ∧ sha = st then ⟨true, true⟩
    else if sm ≠ [] ∧ sm = st then ⟨true, true⟩
    else ⟨false, false⟩
  | .unknown => ⟨false, false⟩

section Texts

variable {u : CaseTables} {f : WorkFactor} {pre input stored raw : Bytes} {n : Int} {salt : Salt} {c : PasswordCandidates}

theorem length_sum (data : Bytes) : (Sm3.sum data).length = 32 := by simp [Sm3.sum]

theorem length_iterateSM3 (salt input : Bytes) (n : Int) : (iterateSM3 salt input n).length = 32 := by
  rw [iterateSM3]
  cases (n - 1).toNat with
  | zero => exact length_sum _
  | succ k =>
    rw [Function.iterate_succ_apply']
    exact length_sum _

theorem colon_notMem_itoa (hn : 0 < n) : 58 ∉ Bytes.itoa n := by
  obtain ⟨m, rfl⟩ := Int.eq_ofNat_of_zero_le hn.le
  exact fun h => absurd (Bytes.isDigit_of_mem_digits h) (by decide)

theorem parseKDF_derive (hn : 0 < n) (h63 : n < 2 ^ 63) (h : deriveEncoded pre input n (some salt) = some stored) :
    parseKDF stored pre = if n > maxPasswordKDFIterations then none else some ⟨salt, n, iterateSM3 salt input n⟩ := by
  obtain rfl := Option.some.inj h
  have hparts : (Hex.encode salt.1 ++ str ":" ++ Bytes.itoa n ++ str ":" ++ Hex.encode (iterateSM3 salt input n)).splitOn 58 =
      [Hex.encode salt.1, Bytes.itoa n, Hex.encode (iterateSM3 salt input n)] := by
    refine Eq.trans (congrArg (List.splitOn 58) ?_) (List.splitOn_intercalate 58 (fun l hl => ?_) (List.cons_ne_nil _ _))
    · have hcolon : str ":" = [58] := by decide
      simp [hcolon, List.intercalate]
    · simp only [List.mem_cons, List.not_mem_nil, or_false] at hl
      obtain rfl | rfl | rfl := hl
      · exact Hex.colon_notMem_encode _
      · exact colon_notMem_itoa hn
      · exact Hex.colon_notMem_encode _
  have hatoi : Cronutil.atoi (Bytes.itoa n) = some n := Cronutil.atoi_itoa (by omega) h63
  simp only [List.append_assoc] at hparts ⊢
  rw [parseKDF, if_pos (List.prefix_append ..), List.drop_left, hparts]
  simp only [Hex.decode_encode, hatoi, salt.2, length_iterateSM3, not_le.2 hn, ne_eq, not_true, or_false, false_or]

theorem parseKDF_reachable (hf : f.Reachable) (h : deriveEncoded pre input f.passwordKDFIterations (some salt) = some stored) :
    parseKDF stored pre = some ⟨salt, f.passwordKDFIterations, iterateSM3 salt input f.passwordKDFIterations⟩ := by
  obtain ⟨hpos, hmax⟩ := hf.bounds
  rw [parseKDF_derive hpos (hmax.trans_lt (by decide)) h, if_neg (not_lt.2 hmax)]

theorem format_kdf (h : deriveEncoded PasswordKDFPrefix input n (some salt) = some stored) : StoredPasswordFormat stored = .kdf := by
  obtain rfl := Option.some.inj h
  simp only [List.append_assoc]
  exact if_pos (List.prefix_append ..)

theorem format_wrapped (h : deriveEncoded PasswordKDFWrappedPrefix input n (some salt) = some stored) : StoredPasswordFormat stored = .wrapped := by
  obtain rfl := Option.some.inj h
  simp only [List.append_assoc]
  have hne (x : Bytes) : ¬PasswordKDFPrefix <+: PasswordKDFWrappedPrefix ++ x := by
    intro h
    have heq := List.prefix_iff_eq_take.1 h
    rw [List.take_append_of_le_length (by decide)] at heq
    exact absurd heq (by decide)
  rw [StoredPasswordFormat, if_neg (hne _), if_pos (List.prefix_append ..)]

theorem format_legacy (h : IsClientHash raw = true) : StoredPasswordFormat raw = .legacyRaw := by
  have hhex := (Bool.and_eq_true_iff.1 h).2
  have hne {pre : Bytes} (hs : 115 ∈ pre) : ¬pre <+: raw := by
    intro hpre
    have := List.all_eq_true.1 hhex 115 (hpre.subset hs)
    exact absurd this (by decide)
  rw [StoredPasswordFormat, if_neg (hne (by decide)), if_neg (hne (by decide)), if_pos h]

theorem HashClientPassword_verify (hf : f.Reachable) (h : HashClientPassword u f input (some salt) = some stored) :
    (VerifyStoredPassword u f stored c).ok = true ↔ NormalizeClientHash u c.sha256 ≠ [] ∧
      iterateSM3 salt (NormalizeClientHash u c.sha256) f.passwordKDFIterations =
        iterateSM3 salt (NormalizeClientHash u input) f.passwordKDFIterations := by
  rw [VerifyStoredPassword, format_kdf h]
  dsimp only
  rw [parseKDF_reachable hf h]
  dsimp only
  split_ifs with hsha hmatch
  · simp [hsha]
  · simpa [hsha, KdfParams.matches] using hmatch
  · simpa [hsha, KdfParams.matches] using hmatch

theorem WrapLegacyHash_verify (hf : f.Reachable) (h : WrapLegacyHash u f raw (some salt) = some stored) :
    (VerifyStoredPassword u f stored c).ok = true ↔
      (NormalizeClientHash u c.sha256 ≠ [] ∧ iterateSM3 salt (NormalizeClientHash u c.sha256) f.passwordKDFIterations =
        iterateSM3 salt (NormalizeClientHash u raw) f.passwordKDFIterations) ∨
      (NormalizeClientHash u c.sm3 ≠ [] ∧ IsClientHash (NormalizeClientHash u c.sm3) ∧
        iterateSM3 salt (NormalizeClientHash u c.sm3) f.passwordKDFIterations =
          iterateSM3 salt (NormalizeClientHash u raw) f.passwordKDFIterations) := by
  rw [VerifyStoredPassword, format_wrapped h]
  dsimp only
  rw [parseKDF_reachable hf h]
  simp only [KdfParams.matches, beq_iff_eq]
  split_ifs with hsha hsm
  · exact iff_of_true rfl (.inl hsha)
  · exact iff_of_true rfl (.inr hsm)
  · exact iff_of_false nofun (not_or.2 ⟨hsha, hsm⟩)

theorem legacy_verify (h : IsClientHash raw = true) : (VerifyStoredPassword u f raw c).ok = true ↔
    (NormalizeClientHash u c.sha256 ≠ [] ∧ NormalizeClientHash u c.sha256 = toLower u raw) ∨
      (NormalizeClientHash u c.sm3 ≠ [] ∧ NormalizeClientHash u c.sm3 = toLower u raw) := by
  rw [VerifyStoredPassword, format_legacy h]
  dsimp only
  split_ifs with hsha hsm
  · exact iff_of_true rfl (.inl hsha)
  · exact iff_of_true rfl (.inr hsm)
  · exact iff_of_false nofun (not_or.2 ⟨hsha, hsm⟩)

def lowerByte (b : UInt8) : UInt8 := if 65 ≤ b ∧ b ≤ 90 then b + 32 else b

theorem lowerByte_facts (u : CaseTables) (b : UInt8) : (b.toNat < 128 → Utf8.encodeRune (u.toLower b.toNat) = [lowerByte b]) ∧
    (isHex b = true → b.toNat < 128 ∧ Utf8.isSpaceByte b = false ∧ isHex (lowerByte b) = true) := by
  have hall : ∀ n < 256, (n < 128 → Utf8.encodeRune (if 65 ≤ n ∧ n ≤ 90 then n + 32 else n) = [lowerByte (UInt8.ofNat n)]) ∧
      (isHex (UInt8.ofNat n) = true → n < 128 ∧ Utf8.isSpaceByte (UInt8.ofNat n) = false ∧ isHex (lowerByte (UInt8.ofNat n)) = true) := by
    decide +kernel
  have h := hall b.toNat b.toNat_lt
  rw [UInt8.ofNat_toNat] at h
  exact ⟨fun hb => u.toLower_ascii _ hb ▸ h.1 hb, h.2⟩

theorem toLower_ascii (h : Utf8.IsAscii raw) : toLower u raw = raw.map lowerByte := by
  rw [toLower, Utf8.runes_ascii h, List.flatMap_map, ← List.flatMap_pure_eq_map]
  exact List.flatMap_congr fun b hb => (lowerByte_facts u b).1 (h b hb)

theorem normalize_legacy (h : IsClientHash raw = true) :
    NormalizeClientHash u raw = toLower u raw ∧ IsClientHash (toLower u raw) = true := by
  obtain ⟨hlen, hhex⟩ := Bool.and_eq_true_iff.1 h
  have hfacts (b : UInt8) (hb : b ∈ raw) := (lowerByte_facts u b).2 (List.all_eq_true.1 hhex b hb)
  have hword : Utf8.IsWord raw := fun b hb => ⟨(hfacts b hb).1, (hfacts b hb).2.1⟩
  refine ⟨by rw [NormalizeClientHash, Utf8.trimSpace_word hword], ?_⟩
  rw [toLower_ascii hword.isAscii, IsClientHash, List.length_map, hlen, Bool.true_and, List.all_map]
  exact List.all_eq_true.2 fun b hb => (hfacts b hb).2.2

/-- A client hash is accepted by its own encoding alone, if it is not empty; a legacy hash and its wrapping accept the same; and both encodings are
parsed back. -/
theorem stored_accepts (u : CaseTables) {f : WorkFactor} (hf : f.Reachable) (salt : Salt) (inputs : Set Bytes)
    (hinj : inputs.InjOn fun p => iterateSM3 salt p f.passwordKDFIterations) :
    (∀ clientHash stored c, HashClientPassword u f clientHash (some salt) = some stored →
      NormalizeClientHash u clientHash ∈ inputs → NormalizeClientHash u c.sha256 ∈ inputs →
      ((VerifyStoredPassword u f stored c).ok = true ↔
        NormalizeClientHash u c.sha256 = NormalizeClientHash u clientHash ∧ NormalizeClientHash u clientHash ≠ [])) ∧
    (∀ rawHex stored c, IsClientHash rawHex = true → WrapLegacyHash u f rawHex (some salt) = some stored →
      NormalizeClientHash u rawHex ∈ inputs → NormalizeClientHash u c.sha256 ∈ inputs → NormalizeClientHash u c.sm3 ∈ inputs →
      ((VerifyStoredPassword u f stored c).ok = true ↔ (VerifyStoredPassword u f rawHex c).ok = true)) ∧
    (∀ clientHash stored, HashClientPassword u f clientHash (some salt) = some stored → parseKDF stored PasswordKDFPrefix =
      some ⟨salt, f.passwordKDFIterations, iterateSM3 salt (NormalizeClientHash u clientHash) f.passwordKDFIterations⟩) ∧
    ∀ rawHex stored, WrapLegacyHash u f rawHex (some salt) = some stored → parseKDF stored PasswordKDFWrappedPrefix =
      some ⟨salt, f.passwordKDFIterations, iterateSM3 salt (NormalizeClientHash u rawHex) f.passwordKDFIterations⟩ := by
  refine ⟨fun clientHash stored c h hin hc => ?_, fun rawHex stored c hlegacy h hin hsha hsm => ?_, fun _ _ h => parseKDF_reachable hf h,
    fun _ _ h => parseKDF_reachable hf h⟩
  · rw [HashClientPassword_verify hf h, hinj.eq_iff hc hin]
    exact ⟨fun ⟨hne, heq⟩ => ⟨heq, heq ▸ hne⟩, fun ⟨heq, hne⟩ => ⟨heq ▸ hne, heq⟩⟩
  · rw [WrapLegacyHash_verify hf h, legacy_verify hlegacy, hinj.eq_iff hsha hin, hinj.eq_iff hsm hin]
    obtain ⟨hnorm, hhash⟩ := normalize_legacy (u := u) hlegacy
    rw [hnorm]
    have hsmHash (h : NormalizeClientHash u c.sm3 = toLower u rawHex) : IsClientHash (NormalizeClientHash u c.sm3) = true := h ▸ hhash
    exact or_congr_right ⟨fun ⟨hne, _, heq⟩ => ⟨hne, heq⟩, fun ⟨hne, heq⟩ => ⟨hne, hsmHash heq, heq⟩⟩

end Texts

private def sevens : Salt := ⟨List.replicate 16 7, rfl⟩

/-- An empty password is not accepted by its own encoding, and what is encoded with more iterations than a stored text may have is not parsed back. -/
theorem not_stored_accepts :
    (∃ stored, HashClientPassword .asciiCase ⟨1000000, 0⟩ [] (some sevens) = some stored ∧
      (VerifyStoredPassword .asciiCase ⟨1000000, 0⟩ stored ⟨[], []⟩).ok = false) ∧
    ∃ stored, HashClientPassword .asciiCase (WorkFactor.SetPasswordKDFIterationsForTesting 50000001) [] (some sevens) = some stored ∧
      parseKDF stored PasswordKDFPrefix = none := by
  refine ⟨⟨_, rfl, Bool.eq_false_iff.2 fun h => ?_⟩, _, rfl, ?_⟩
  · exact ((HashClientPassword_verify (f := ⟨1000000, 0⟩) .init rfl).1 h).1 (by decide +kernel)
  · rw [parseKDF_derive (by decide) (by decide) rfl]
    exact if_pos (by decide)

private def hexA : Bytes := List.replicate 64 65
private def hexB : Bytes := List.replicate 64 98

private def quick : WorkFactor := WorkFactor.SetPasswordKDFIterationsForTesting 1

theorem stored_accepts_hex :
    ((VerifyStoredPassword .asciiCase quick ((HashClientPassword .asciiCase quick hexA (some sevens)).getD []) ⟨hexB, hexA⟩).ok = true ↔
      NormalizeClientHash .asciiCase hexB = NormalizeClientHash .asciiCase hexA ∧ NormalizeClientHash .asciiCase hexA ≠ []) ∧
    ((VerifyStoredPassword .asciiCase quick ((WrapLegacyHash .asciiCase quick hexA (some sevens)).getD []) ⟨hexB, hexA⟩).ok = true ↔
      (VerifyStoredPassword .asciiCase quick hexA ⟨hexB, hexA⟩).ok = true) := by
  have hne : iterateSM3 sevens (NormalizeClientHash .asciiCase hexA) 1 ≠ iterateSM3 sevens (NormalizeClientHash .asciiCase hexB) 1 := by
    decide +kernel
  have hinj : Set.InjOn (fun p => iterateSM3 sevens p quick.passwordKDFIterations)
      {NormalizeClientHash .asciiCase hexA, NormalizeClientHash .asciiCase hexB} := by
    rintro p (rfl | rfl) q (rfl | rfl) heq
    · rfl
    · exact absurd heq hne
    · exact absurd heq.symm hne
    · rfl
  have h := stored_accepts .asciiCase (f := quick) (.test 1 (by decide)) sevens _ hinj
  exact ⟨h.1 hexA _ ⟨hexB, hexA⟩ rfl (.inl rfl) (.inr rfl), h.2.1 hexA _ ⟨hexB, hexA⟩ (by decide +kernel) rfl (.inl rfl) (.inr rfl) (.inl rfl)⟩

end Auth
