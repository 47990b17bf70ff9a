import Privahub.Crypto.Envelope
import Privahub.Sm3

/-!
# SM4-GCM under a key from HKDF-SM3

The cipher that `deriveGCM` takes from its libraries: SM4 (GB/T 32907-2016) with its key schedule, counter mode with the GHASH tag, and
the key that HKDF (RFC 5869) derives with SM3. `sm4Gcm` is the instance of `Gcm` with them.
-/

namespace Sm4

open Sm3 (u32 rotateLeft32 bigEndian words)

def sbox : List Nat :=
  [0xd6, 0x90, 0xe9, 0xfe, 0xcc, 0xe1, 0x3d, 0xb7, 0x16, 0xb6, 0x14, 0xc2, 0x28, 0xfb, 0x2c, 0x05,
   0x2b, 0x67, 0x9a, 0x76, 0x2a, 0xbe, 0x04, 0xc3, 0xaa, 0x44, 0x13, 0x26, 0x49, 0x86, 0x06, 0x99,
   0x9c, 0x42, 0x50, 0xf4, 0x91, 0xef, 0x98, 0x7a, 0x33, 0x54, 0x0b, 0x43, 0xed, 0xcf, 0xac, 0x62,
   0xe4, 0xb3, 0x1c, 0xa9, 0xc9, 0x08, 0xe8, 0x95, 0x80, 0xdf, 0x94, 0xfa, 0x75, 0x8f, 0x3f, 0xa6,
   0x47, 0x07, 0xa7, 0xfc, 0xf3, 0x73, 0x17, 0xba, 0x83, 0x59, 0x3c, 0x19, 0xe6, 0x85, 0x4f, 0xa8,
   0x68, 0x6b, 0x81, 0xb2, 0x71, 0x64, 0xda, 0x8b, 0xf8, 0xeb, 0x0f, 0x4b, 0x70, 0x56, 0x9d, 0x35,
   0x1e, 0x24, 0x0e, 0x5e, 0x63, 0x58, 0xd1, 0xa2, 0x25, 0x22, 0x7c, 0x3b, 0x01, 0x21, 0x78, 0x87,
   0xd4, 0x00, 0x46, 0x57, 0x9f, 0xd3, 0x27, 0x52, 0x4c, 0x36, 0x02, 0xe7, 0xa0, 0xc4, 0xc8, 0x9e,
   0xea, 0xbf, 0x8a, 0xd2, 0x40, 0xc7, 0x38, 0xb5, 0xa3, 0xf7, 0xf2, 0xce, 0xf9, 0x61, 0x15, 0xa1,
   0xe0, 0xae, 0x5d, 0xa4, 0x9b, 0x34, 0x1a, 0x55, 0xad, 0x93, 0x32, 0x30, 0xf5, 0x8c, 0xb1, 0xe3,
   0x1d, 0xf6, 0xe2, 0x2e, 0x82, 0x66, 0xca, 0x60, 0xc0, 0x29, 0x23, 0xab, 0x0d, 0x53, 0x4e, 0x6f,
   0xd5, 0xdb, 0x37, 0x45, 0xde, 0xfd, 0x8e, 0x2f, 0x03, 0xff, 0x6a, 0x72, 0x6d, 0x6c, 0x5b, 0x51,
   0x8d, 0x1b, 0xaf, 0x92, 0xbb, 0xdd, 0xbc, 0x7f, 0x11, 0xd9, 0x5c, 0x41, 0x1f, 0x10, 0x5a, 0xd8,
   0x0a, 0xc1, 0x31, 0x88, 0xa5, 0xcd, 0x7b, 0xbd, 0x2d, 0x74, 0xd0, 0x12, 0xb8, 0xe5, 0xb4, 0xb0,
   0x89, 0x69, 0x97, 0x4a, 0x0c, 0x96, 0x77, 0x7e, 0x65, 0xb9, 0xf1, 0x09, 0xc5, 0x6e, 0xc6, 0x84,
   0x18, 0xf0, 0x7d, 0xec, 0x3a, 0xdc, 0x4d, 0x20, 0x79, 0xee, 0x5f, 0x3e, 0xd7, 0xcb, 0x39, 0x48]

def tau (x : Nat) : Nat := (bigEndian 4 x).foldl (fun y b => y * 256 + sbox.getD b.toNat 0) 0

def l (x : Nat) : Nat := x ^^^ rotateLeft32 x 2 ^^^ rotateLeft32 x 10 ^^^ rotateLeft32 x 18 ^^^ rotateLeft32 x 24

def l' (x : Nat) : Nat := x ^^^ rotateLeft32 x 13 ^^^ rotateLeft32 x 23

structure State where
  x0 : Nat
  x1 : Nat
  x2 : Nat
  x3 : Nat

def State.ofBytes (b : Bytes) : State :=
  let w := words b
  ⟨w.getD 0 0, w.getD 1 0, w.getD 2 0, w.getD 3 0⟩

def round (lin : Nat → Nat) (s : State) (rk : Nat) : State := ⟨s.x1, s.x2, s.x3, s.x0 ^^^ lin (tau (s.x1 ^^^ s.x2 ^^^ s.x3 ^^^ rk))⟩

def ck (i : Nat) : Nat := (List.range 4).foldl (fun y j => y * 256 + (4 * i + j) * 7 % 256) 0

def expandKey (key : Bytes) : List Nat :=
  let k := State.ofBytes key
  let k₀ : State := ⟨k.x0 ^^^ 0xa3b1bac6, k.x1 ^^^ 0x56aa3350, k.x2 ^^^ 0x677d9197, k.x3 ^^^ 0xb27022dc⟩
  ((List.range 32).foldl (fun (p : List Nat × State) i => let s := round l' p.2 (ck i); (s.x3 :: p.1, s)) ([], k₀)).1.reverse

def encrypt (key block : Bytes) : Bytes :=
  let s := (expandKey key).foldl (round l) (State.ofBytes block)
  [s.x3, s.x2, s.x1, s.x0].flatMap (bigEndian 4)

example : let key : Bytes := [0x01, 0x23, 0x45, 0x67, 0x89, 0xab, 0xcd, 0xef, 0xfe, 0xdc, 0xba, 0x98, 0x76, 0x54, 0x32, 0x10]
    encrypt key key = [0x68, 0x1e, 0xdf, 0x34, 0xd2, 0x06, 0x96, 0x5e, 0x86, 0xb3, 0xe9, 0x4f, 0x53, 0x6e, 0x42, 0x46] := by decide +kernel

def streamByte (key nonce : Bytes) (i : Nat) : UInt8 := (encrypt key (nonce ++ bigEndian 4 (i / 16 + 2))).getD (i % 16) 0

def ctr (key nonce text : Bytes) : Bytes := text.mapIdx fun i b => b ^^^ streamByte key nonce i

def ofBlock (b : Bytes) : Nat := b.foldl (fun y c => y * 256 + c.toNat) 0

def mul (x y : Nat) : Nat :=
  ((List.range 128).foldl (fun (p : Nat × Nat) i =>
    (if x.testBit (127 - i) then p.1 ^^^ p.2 else p.1, if p.2 % 2 = 1 then p.2 / 2 ^^^ (0xe1 <<< 120) else p.2 / 2)) (0, y)).1

def padBlock (b : Bytes) : Bytes := b ++ List.replicate ((16 - b.length % 16) % 16) 0

def ghash (h : Nat) : Nat → Nat → Bytes → Nat
  | 0, y, _ => y
  | n + 1, y, b => ghash h n (mul (y ^^^ ofBlock (b.take 16)) h) (b.drop 16)

def tag (key nonce text header : Bytes) : Bytes :=
  let data := padBlock header ++ padBlock text ++ bigEndian 8 (header.length * 8) ++ bigEndian 8 (text.length * 8)
  let s := ghash (ofBlock (encrypt key (List.replicate 16 0))) (data.length / 16) 0 data
  bigEndian 16 (s ^^^ ofBlock (encrypt key (nonce ++ bigEndian 4 1)))

theorem ctr_ctr (key nonce text : Bytes) : ctr key nonce (ctr key nonce text) = text := by
  refine List.ext_getElem (by simp [ctr]) fun i h₁ h₂ => ?_
  simp [ctr, UInt8.xor_assoc]

theorem length_ctr (key nonce text : Bytes) : (ctr key nonce text).length = text.length := by simp [ctr]

theorem length_tag (key nonce text header : Bytes) : (tag key nonce text header).length = 16 := by simp [tag]

def hmac (key msg : Bytes) : Bytes :=
  let k := if key.length > 64 then Sm3.sum key else key
  let pad (c : UInt8) : Bytes := (k ++ List.replicate (64 - k.length) 0).map (· ^^^ c)
  Sm3.sum (pad 0x5c ++ Sm3.sum (pad 0x36 ++ msg))

def hkdfInfo : Bytes := str "privahub at-rest SM4-GCM envelope"

def deriveKey (master salt : Bytes) : Bytes := (hmac (hmac salt master) (hkdfInfo ++ [1])).take 16

end Sm4

namespace Crypto

open Sm4

def sm4Gcm : Gcm where
  Seal master salt nonce text header :=
    let key := deriveKey master salt
    let sealed := ctr key nonce text
    sealed ++ tag key nonce sealed header
  Open master salt nonce sealed header :=
    let key := deriveKey master salt
    let n := sealed.length - tagSize
    if tagSize ≤ sealed.length ∧ sealed.drop n = tag key nonce (sealed.take n) header then some (ctr key nonce (sealed.take n)) else none
  open_seal master salt nonce text header := by
    have hn : (ctr (deriveKey master salt) nonce text ++ tag (deriveKey master salt) nonce (ctr (deriveKey master salt) nonce text) header).length
        - tagSize = (ctr (deriveKey master salt) nonce text).length := by
      simp only [List.length_append, length_tag, tagSize]
      omega
    simp only [hn, List.drop_left, List.take_left, ctr_ctr]
    rw [if_pos ⟨by simp only [List.length_append, length_tag, tagSize]; omega, trivial⟩]
  length_seal master salt nonce text header := by
    simp only [List.length_append, length_tag, length_ctr, tagSize]

end Crypto
