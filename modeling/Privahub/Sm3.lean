import Privahub.Lib.Bytes

/-!
# SM3

`pkg/sm3/sm3.go`: padding, message expansion, the 64-round compression function and the lowercase
hex digest `sumHex` that the audit chain stores. A `uint32` is a natural number below `2^32`
(`u32` reduces), the arrays `w` are lists and the registers `a … h` a record.
-/

namespace Sm3

def u32 (x : Nat) : Nat := x % 0x100000000

/-- `bits.RotateLeft32(x, k)` for `0 < k < 32` or `k = 0`. -/
def rotateLeft32 (x k : Nat) : Nat := u32 (x <<< k) ||| (x >>> (32 - k))

def sm3P0 (x : Nat) : Nat := x ^^^ rotateLeft32 x 9 ^^^ rotateLeft32 x 17

def sm3P1 (x : Nat) : Nat := x ^^^ rotateLeft32 x 15 ^^^ rotateLeft32 x 23

structure Regs where
  a : Nat
  b : Nat
  c : Nat
  d : Nat
  e : Nat
  f : Nat
  g : Nat
  h : Nat

def iv : Regs :=
  ⟨0x7380166f, 0x4914b2b9, 0x172442d7, 0xda8a0600, 0xa96f30bc, 0x163138aa, 0xe38dee4d, 0xb0fb0e4e⟩

def bigEndianUint32 (a b c d : UInt8) : Nat := ((a.toNat * 256 + b.toNat) * 256 + c.toNat) * 256 + d.toNat

/-- `x` as `n` big-endian bytes. -/
def bigEndian (n x : Nat) : Bytes := (List.range n).map fun i => UInt8.ofNat (x / 256 ^ (n - 1 - i))

/-- The first sixteen words of `w`: the block itself. -/
def words : Bytes → List Nat
  | a :: b :: c :: d :: rest => bigEndianUint32 a b c d :: words rest
  | _ => []

/-- The next word of `w`, which is listed from its last word down. -/
def nextWord : List Nat → Nat
  | _ :: _ :: w3 :: _ :: _ :: w6 :: _ :: _ :: w9 :: _ :: _ :: _ :: w13 :: _ :: _ :: w16 :: _ =>
    sm3P1 (w16 ^^^ w9 ^^^ rotateLeft32 w3 15) ^^^ rotateLeft32 w13 7 ^^^ w6
  | _ => 0

def extend : Nat → List Nat → List Nat
  | 0, w => w
  | n + 1, w => extend n (nextWord w :: w)

/-- The 68 words `w` of a block; `w1[i]` is `w[i] ^ w[i+4]` and is not stored. -/
def expand (block : Bytes) : List Nat := (extend 52 (words block).reverse).reverse

def tj (j : Nat) : Nat := if j ≥ 16 then 0x7a879d8a else 0x79cc4519

def ff (j a b c : Nat) : Nat := if j < 16 then a ^^^ b ^^^ c else (a &&& b) ||| (a &&& c) ||| (b &&& c)

def gg (j e f g : Nat) : Nat := if j < 16 then e ^^^ f ^^^ g else (e &&& f) ||| ((0xffffffff - e) &&& g)

/-- Round `j` with the words `w[j]` and `w[j+4]`. -/
def round (j wj wj4 : Nat) (r : Regs) : Regs :=
  let a12 := rotateLeft32 r.a 12
  let ss1 := rotateLeft32 (u32 (a12 + r.e + rotateLeft32 (tj j) (j % 32))) 7
  let ss2 := ss1 ^^^ a12
  let tt1 := u32 (ff j r.a r.b r.c + r.d + ss2 + (wj ^^^ wj4))
  let tt2 := u32 (gg j r.e r.f r.g + r.h + ss1 + wj)
  ⟨tt1, r.a, rotateLeft32 r.b 9, r.c, sm3P0 tt2, r.e, rotateLeft32 r.f 19, r.g⟩

def rounds : Nat → List Nat → Regs → Regs
  | j, wj :: w1 :: w2 :: w3 :: wj4 :: w, r => rounds (j + 1) (w1 :: w2 :: w3 :: wj4 :: w) (round j wj wj4 r)
  | _, _, r => r

def compress (v : Regs) (block : Bytes) : Regs :=
  let r := rounds 0 (expand block) v
  ⟨v.a ^^^ r.a, v.b ^^^ r.b, v.c ^^^ r.c, v.d ^^^ r.d, v.e ^^^ r.e, v.f ^^^ r.f, v.g ^^^ r.g, v.h ^^^ r.h⟩

/-- `0x80`, zeros up to 56 modulo 64, then the length in bits as 8 big-endian bytes. -/
def pad (data : Bytes) : Bytes :=
  data ++ 0x80 :: List.replicate ((119 - data.length % 64) % 64) 0 ++ bigEndian 8 (data.length * 8)

/-- The `n` blocks of 64 bytes of a padded message. -/
def blocks : Nat → Bytes → List Bytes
  | 0, _ => []
  | n + 1, msg => msg.take 64 :: blocks n (msg.drop 64)

def sum (data : Bytes) : Bytes :=
  let msg := pad data
  let v := (blocks (msg.length / 64) msg).foldl compress iv
  [v.a, v.b, v.c, v.d, v.e, v.f, v.g, v.h].flatMap (bigEndian 4)

def hexDigit (n : Nat) : UInt8 := UInt8.ofNat (if n < 10 then 48 + n else 87 + n)

def sumHex (data : Bytes) : Bytes := (sum data).flatMap fun b => [hexDigit (b.toNat / 16), hexDigit (b.toNat % 16)]

@[simp] theorem length_bigEndian (n x : Nat) : (bigEndian n x).length = n := by simp [bigEndian]

@[simp] theorem length_sumHex (data : Bytes) : (sumHex data).length = 64 := by
  simp [sumHex, sum, List.length_flatMap]

example : sumHex (str "abc") = str "66c7f0f462eeedd9d1f2d46bdc10e4e24167c4875cf2f7a2297da02b8f4ba8e0" := by
  decide +kernel

end Sm3
