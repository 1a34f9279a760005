/-
The hash of `tweetnacl.c`.

A word has 64 bits and is 8 bytes, the highest one first.  `crypto_hashblocks` takes the
blocks of 128 bytes one after the other: 80 rounds on eight words, and the eight words from
before are added to what comes of them.  The schedule of a block is kept in 16 words that are
rewritten in place after every 16th round, so the word of a round is found at its number
modulo 16.

`crypto_hash` hashes the blocks that the message fills, puts what is left of it into a buffer
with a bit and the length behind it, and hashes that as one block or as two.  The length is
counted in bytes by a word of 64 bits, and the number of bits is stored from its upper and its
lower part.
-/
import CmakeTemplate.Encryption
import CmakeTemplate.Lib.Loops
import CmakeTemplate.Lib.Limbs
import Mathlib.Data.Nat.Init
import Mathlib.Data.Nat.NthRoot.Defs
import Mathlib.Data.Nat.Prime.Defs

namespace CmakeTemplate

open Lib

/-- `dl64`, at `x + off`. -/
def dl64 (x : Bytes) (off : Nat) : UInt64 :=
  forUp (fun i u => (u <<< 8) ||| (x (off + i)).toUInt64) 8 0

/-- `ts64`, at `x + off`. -/
def ts64 (x : Bytes) (off : Nat) (u : UInt64) : Bytes :=
  -- `i` counts down from 7
  (forUp (fun k (s : Bytes × UInt64) =>
    (Function.update s.1 (off + (7 - k)) s.2.toUInt8, s.2 >>> 8)) 8 (x, u)).1

namespace Sha512

/-- `R`. -/
def R (x c : UInt64) : UInt64 := (x >>> c) ||| (x <<< (64 - c))

/-- `Ch`. -/
def Ch (x y z : UInt64) : UInt64 := (x &&& y) ^^^ (~~~x &&& z)

/-- `Maj`. -/
def Maj (x y z : UInt64) : UInt64 := (x &&& y) ^^^ (x &&& z) ^^^ (y &&& z)

/-- `Sigma0`. -/
def Sigma0 (x : UInt64) : UInt64 := R x 28 ^^^ R x 34 ^^^ R x 39

/-- `Sigma1`. -/
def Sigma1 (x : UInt64) : UInt64 := R x 14 ^^^ R x 18 ^^^ R x 41

/-- `sigma0`. -/
def sigma0 (x : UInt64) : UInt64 := R x 1 ^^^ R x 8 ^^^ (x >>> 7)

/-- `sigma1`. -/
def sigma1 (x : UInt64) : UInt64 := R x 19 ^^^ R x 61 ^^^ (x >>> 6)

/-- `K`. -/
def K : List UInt64 := [
  0x428a2f98d728ae22, 0x7137449123ef65cd, 0xb5c0fbcfec4d3b2f, 0xe9b5dba58189dbbc,
  0x3956c25bf348b538, 0x59f111f1b605d019, 0x923f82a4af194f9b, 0xab1c5ed5da6d8118,
  0xd807aa98a3030242, 0x12835b0145706fbe, 0x243185be4ee4b28c, 0x550c7dc3d5ffb4e2,
  0x72be5d74f27b896f, 0x80deb1fe3b1696b1, 0x9bdc06a725c71235, 0xc19bf174cf692694,
  0xe49b69c19ef14ad2, 0xefbe4786384f25e3, 0x0fc19dc68b8cd5b5, 0x240ca1cc77ac9c65,
  0x2de92c6f592b0275, 0x4a7484aa6ea6e483, 0x5cb0a9dcbd41fbd4, 0x76f988da831153b5,
  0x983e5152ee66dfab, 0xa831c66d2db43210, 0xb00327c898fb213f, 0xbf597fc7beef0ee4,
  0xc6e00bf33da88fc2, 0xd5a79147930aa725, 0x06ca6351e003826f, 0x142929670a0e6e70,
  0x27b70a8546d22ffc, 0x2e1b21385c26c926, 0x4d2c6dfc5ac42aed, 0x53380d139d95b3df,
  0x650a73548baf63de, 0x766a0abb3c77b2a8, 0x81c2c92e47edaee6, 0x92722c851482353b,
  0xa2bfe8a14cf10364, 0xa81a664bbc423001, 0xc24b8b70d0f89791, 0xc76c51a30654be30,
  0xd192e819d6ef5218, 0xd69906245565a910, 0xf40e35855771202a, 0x106aa07032bbd1b8,
  0x19a4c116b8d2d0c8, 0x1e376c085141ab53, 0x2748774cdf8eeb99, 0x34b0bcb5e19b48a8,
  0x391c0cb3c5c95a63, 0x4ed8aa4ae3418acb, 0x5b9cca4f7763e373, 0x682e6ff3d6b2b8a3,
  0x748f82ee5defb2fc, 0x78a5636f43172f60, 0x84c87814a1f0ab72, 0x8cc702081a6439ec,
  0x90befffa23631e28, 0xa4506cebde82bde9, 0xbef9a3f7b2c67915, 0xc67178f2e372532b,
  0xca273eceea26619c, 0xd186b8c721c0c207, 0xeada7dd6cde0eb1e, 0xf57d4f7fee6ed178,
  0x06f067aa72176fba, 0x0a637dc5a2c898a6, 0x113f9804bef90dae, 0x1b710b35131c471b,
  0x28db77f523047d84, 0x32caab7b40c72493, 0x3c9ebe0a15c9bebc, 0x431d67c49c100d4c,
  0x4cc5d4becb3e42b6, 0x597f299cfc657e2a, 0x5fcb6fab3ad6faec, 0x6c44198c4a475817]

/-- `w[j] += ...`, for all `j`. -/
def extend (w : Arr UInt64) : Arr UInt64 :=
  forUp (fun j w => w.set j (w j + (w ((j + 9) % 16) + sigma0 (w ((j + 1) % 16)) +
    sigma1 (w ((j + 14) % 16))))) 16 w

/-- A round, on `a` and `w`. -/
def round (i : Nat) (s : Arr UInt64 × Arr UInt64) : Arr UInt64 × Arr UInt64 :=
  let (a, w) := s
  let b := (Arr.of fun _ => 0).fill 8 a
  let t := a 7 + Sigma1 (a 4) + Ch (a 4) (a 5) (a 6) + K.getD i 0 + w (i % 16)
  let b := b.set 7 (t + Sigma0 (a 0) + Maj (a 0) (a 1) (a 2))
  let b := b.set 3 (b 3 + t)
  let a := forUp (fun j a => a.set ((j + 1) % 8) (b j)) 8 a
  (a, if i % 16 = 15 then extend w else w)

end Sha512

/-- The turn of the loop over the blocks, on `a` and `z`; the block is at `m + off`. -/
def hashBlock (m : Bytes) (off : Nat) (s : Arr UInt64 × Arr UInt64) : Arr UInt64 × Arr UInt64 :=
  let (a, z) := s
  let w := (Arr.of fun _ => 0).fill 16 fun i => dl64 m (off + 8 * i)
  let a := (forUp Sha512.round 80 (a, w)).1
  forUp (fun i s =>
    let a := s.1.set i (s.1 i + s.2 i)
    (a, s.2.set i (a i))) 8 (a, z)

/-- The loop over the blocks, with `n` bytes left from `off` on. -/
def hashblocksLoop (m : Bytes) :
    Nat → Nat → Nat → Arr UInt64 × Arr UInt64 → Arr UInt64 × Arr UInt64
  | 0, _, _, s => s
  | fuel + 1, off, n, s =>
    if 128 ≤ n then hashblocksLoop m fuel (off + 128) (n - 128) (hashBlock m off s) else s

/-- `crypto_hashblocks`, with `x` behind it. -/
def cryptoHashblocks (x m : Bytes) (n : Nat) : Bytes :=
  let z := (Arr.of fun _ => 0).fill 8 fun i => dl64 x (8 * i)
  -- every turn takes 128 bytes
  let z := (hashblocksLoop m n 0 n (z, z)).2
  forUp (fun i x => ts64 x (8 * i) (z i)) 8 x

/-- `iv`. -/
def iv : Bytes := fun i => [
  0x6a, 0x09, 0xe6, 0x67, 0xf3, 0xbc, 0xc9, 0x08, 0xbb, 0x67, 0xae, 0x85,
  0x84, 0xca, 0xa7, 0x3b, 0x3c, 0x6e, 0xf3, 0x72, 0xfe, 0x94, 0xf8, 0x2b,
  0xa5, 0x4f, 0xf5, 0x3a, 0x5f, 0x1d, 0x36, 0xf1, 0x51, 0x0e, 0x52, 0x7f,
  0xad, 0xe6, 0x82, 0xd1, 0x9b, 0x05, 0x68, 0x8c, 0x2b, 0x3e, 0x6c, 0x1f,
  0x1f, 0x83, 0xd9, 0xab, 0xfb, 0x41, 0xbd, 0x6b, 0x5b, 0xe0, 0xcd, 0x19,
  0x13, 0x7e, 0x21, 0x79].getD i 0

/-- `x`, with the `n` bytes from `m + off` on in front; `b` is the length of the message. -/
def hashTail (m : Bytes) (off : Nat) (n b : UInt64) : Bytes × Nat :=
  let x := write (fun _ => 0) 0 n.toNat fun i => m (off + i)
  let x := Function.update x n.toNat 128
  let n : UInt64 := 256 - 128 * (if n < 112 then 1 else 0)
  let x := Function.update x (n - 9).toNat (b >>> 61).toUInt8
  (ts64 x (n - 8).toNat (b <<< 3), n.toNat)

/-- `crypto_hash`, with `out` behind it. -/
def cryptoHash512 (out m : Bytes) (n : UInt64) : Bytes :=
  let h := write (fun _ => 0) 0 64 iv
  let h := cryptoHashblocks h m n.toNat
  let (x, k) := hashTail m (n - (n &&& 127)).toNat (n &&& 127) n
  let h := cryptoHashblocks h x k
  write out 0 64 h

/-! ### What it is for

The hash as it is published: the constants are what is behind the point in roots of the first
primes, and the functions on words are said bit by bit.  Nothing of the code above is used.
-/

/-- The 8 bytes from `off` on as a word, the highest one first. -/
def bigEndianAt (b : Bytes) (off : Nat) : UInt64 :=
  UInt64.ofNat (digitSum 256 8 fun i => (b (off + (7 - i))).toNat)

/-- A function of three bits, on the words at each place. -/
def bitwise (f : Bool → Bool → Bool → Bool) (x y z : UInt64) : UInt64 :=
  .ofNat (Nat.ofBits fun i : Fin 64 => f x.toBitVec[i] y.toBitVec[i] z.toBitVec[i])

/-- A bit of `x` says which of the two others is taken. -/
def sha512Choose : UInt64 → UInt64 → UInt64 → UInt64 := bitwise fun x y z => if x then y else z

/-- What two of three bits are. -/
def sha512Majority : UInt64 → UInt64 → UInt64 → UInt64 :=
  bitwise fun x y z => x && y || x && z || y && z

/-- Rotation to the right. -/
def rotr (n : Nat) (x : UInt64) : UInt64 := .ofBitVec (x.toBitVec.rotateRight n)

/-- Shift to the right. -/
def shr (n : Nat) (x : UInt64) : UInt64 := .ofBitVec (x.toBitVec >>> n)

/-- The sum over `h₀` in a round. -/
def sha512Sum0 (x : UInt64) : UInt64 := rotr 28 x ^^^ rotr 34 x ^^^ rotr 39 x

/-- The sum over `h₄` in a round. -/
def sha512Sum1 (x : UInt64) : UInt64 := rotr 14 x ^^^ rotr 18 x ^^^ rotr 41 x

/-- What the schedule makes of the word 15 places before. -/
def sha512Mix0 (x : UInt64) : UInt64 := rotr 1 x ^^^ rotr 8 x ^^^ shr 7 x

/-- What the schedule makes of the word 2 places before. -/
def sha512Mix1 (x : UInt64) : UInt64 := rotr 19 x ^^^ rotr 61 x ^^^ shr 6 x

/-- The first 80 primes. -/
def sha512Primes : List Nat := (List.range 410).filter fun n => n.Prime

/-- The first 64 bits behind the point of the `k`-th root of `p`. -/
def rootBits (k p : Nat) : UInt64 := UInt64.ofNat (Nat.nthRoot k (p * 2 ^ (64 * k)))

/-- The constant of the `t`-th round, from a cube root. -/
def sha512Constant (t : Nat) : UInt64 := rootBits 3 (sha512Primes.getD t 0)

/-- The words before the first block, from square roots. -/
def sha512Initial : Vector UInt64 8 := Vector.ofFn fun i => rootBits 2 (sha512Primes.getD i 0)

/-- The words of the schedule of a block. -/
def schedule (block : Nat → UInt64) (t : Nat) : UInt64 :=
  if t < 16 then block t
  else sha512Mix1 (schedule block (t - 2)) + schedule block (t - 7) +
    sha512Mix0 (schedule block (t - 15)) + schedule block (t - 16)
termination_by t

/-- A round of the compression. -/
def sha512Round (k w : UInt64) (h : Vector UInt64 8) : Vector UInt64 8 :=
  let t₁ := h[7] + sha512Sum1 h[4] + sha512Choose h[4] h[5] h[6] + k + w
  let t₂ := sha512Sum0 h[0] + sha512Majority h[0] h[1] h[2]
  #v[t₁ + t₂, h[0], h[1], h[2], h[3] + t₁, h[4], h[5], h[6]]

/-- The rounds before the `t`-th, for a block of words. -/
def sha512Rounds (block : Nat → UInt64) (h : Vector UInt64 8) : Nat → Vector UInt64 8
  | 0 => h
  | t + 1 => sha512Round (sha512Constant t) (schedule block t) (sha512Rounds block h t)

def sha512Compress (h : Vector UInt64 8) (block : Nat → UInt64) : Vector UInt64 8 :=
  Vector.zipWith (· + ·) (sha512Rounds block h 80) h

/-- How many blocks there are, with a bit and a length of 128 bits behind the message. -/
def sha512Count (n : Nat) : Nat := (n + 17 + 127) / 128

/-- The message, a bit, zeroes, and the number of bits in the message at the very end. -/
def sha512Padded (m : Bytes) (n : Nat) : Bytes := fun i =>
  if i < n then m i
  else if i = n then 128
  else UInt8.ofNat (8 * n / 256 ^ (128 * sha512Count n - 1 - i))

/-- The words after `k` blocks. -/
def sha512Blocks (b : Bytes) (h : Vector UInt64 8) : Nat → Vector UInt64 8
  | 0 => h
  | k + 1 => sha512Compress (sha512Blocks b h k) fun t => bigEndianAt b (128 * k + 8 * t)

/-- The hash of the first `n` bytes. -/
def sha512 (m : Bytes) (n : Nat) : Vector UInt64 8 :=
  sha512Blocks (sha512Padded m n) sha512Initial (sha512Count n)

end CmakeTemplate
