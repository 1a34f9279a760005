/-
The one-time authenticator of `tweetnacl.c`.

A number of 136 bits is 17 bytes, the least one first, each in a word of its own.  `u32` is
`unsigned long`, which has 64 bits, so a word has room for the sum of many products of bytes,
and the carries are taken when a block has been multiplied.

The message is read in blocks of 16 bytes, the last one as long as it is, each with a 1 behind
it.  A block is added, the sum is multiplied by `r`, the first half of the key with some of
its bits cleared, and what is above `2 ^ 130` is folded down, five times for the prime is `2 ^
130 - 5`.  Behind the loop the prime is subtracted if that leaves nothing negative, chosen by
a mask, and the second half of the key is added modulo `2 ^ 128`.
-/
import CmakeTemplate.Encryption
import CmakeTemplate.Lib.Loops
import CmakeTemplate.Lib.Limbs
import CmakeTemplate.Lib.Polynomial

namespace CmakeTemplate

open Lib

/-- The turn of a loop that carries bytes: `u` grows by `g j` of what the slot holds. -/
def carryByte (g : Nat → UInt64 → UInt64) (j : Nat) (u hj : UInt64) : UInt64 × UInt64 :=
  let u := u + g j hj
  (u >>> 8, u &&& 255)

/-- `add1305`. -/
def add1305 (h c : Arr UInt64) : Arr UInt64 := (sweep (carryByte fun j hj => hj + c j) 17 0 h).2

/-- `minusp`. -/
def minusp : Arr UInt64 := .of fun j => if j = 0 then 5 else if j = 16 then 252 else 0

/-- An array of zeroes. -/
def zero1305 : Arr UInt64 := .of fun _ => 0

/-- The first half of the key, as `r`. -/
def authKey (k : Bytes) : Arr UInt64 :=
  let r := zero1305.fill 16 fun j => (k j).toUInt64
  let r := r.set 3 (r 3 &&& 15)
  let r := r.set 4 (r 4 &&& 252)
  let r := r.set 7 (r 7 &&& 15)
  let r := r.set 8 (r 8 &&& 252)
  let r := r.set 11 (r 11 &&& 15)
  let r := r.set 12 (r 12 &&& 252)
  r.set 15 (r 15 &&& 15)

/-- The `j` bytes from `m[off]` on, with a 1 behind them, as `c`. -/
def authBlock (m : Bytes) (off j : Nat) : Arr UInt64 :=
  (zero1305.fill j fun i => (m (off + i)).toUInt64).set j 1

/-- The product, as `x`. -/
def authProduct (h r : Arr UInt64) : Arr UInt64 :=
  zero1305.fill 17 fun i =>
    forUp (fun j x => x + h j * (if j ≤ i then r (i - j) else 320 * r (i + 17 - j))) 17 0

/-- The loops that carry. -/
def carry1305 (u : UInt64) (h : Arr UInt64) : UInt64 × Arr UInt64 :=
  sweep (carryByte fun _ hj => hj) 16 u h

/-- The rest of the turn of the loop, from the product on. -/
def squeeze1305 (h : Arr UInt64) : Arr UInt64 :=
  let s := carry1305 0 h
  let u : UInt64 := s.1 + s.2 16
  let h := s.2.set 16 (u &&& 3)
  let s := carry1305 ((5 : UInt64) * (u >>> 2)) h
  s.2.set 16 (s.1 + s.2 16)

/-- The loop over the message, with `n` bytes left from `off` on. -/
def authLoop (m : Bytes) (r : Arr UInt64) : Nat → Nat → Nat → Arr UInt64 → Arr UInt64
  | 0, _, _, h => h
  | fuel + 1, off, n, h =>
    if n = 0 then h
    else
      let j := min 16 n
      let h := add1305 h (authBlock m off j)
      authLoop m r fuel (off + j) (n - j) (squeeze1305 (authProduct h r))

/-- `h` modulo `2 ^ 130 - 5`. -/
def freeze1305 (g : Arr UInt64) : Arr UInt64 :=
  let h := add1305 g minusp
  let s := -(h 16 >>> 7)
  h.fill 17 fun j => h j ^^^ (s &&& (g j ^^^ h j))

/-- `crypto_onetimeauth`, with `out` behind it. -/
def cryptoOnetimeauth (out m : Bytes) (n : Nat) (k : Bytes) : Bytes :=
  -- every turn takes a byte at least
  let h := freeze1305 (authLoop m (authKey k) n 0 n zero1305)
  let h := add1305 h (zero1305.fill 16 fun j => (k (16 + j)).toUInt64)
  write out 0 16 fun j => (h j).toUInt8

/-! ### What it is for

A polynomial over the numbers modulo `2 ^ 130 - 5`, whose coefficients are the blocks of the
message and which is taken at the first half of the key.
-/

/-- The `n` bytes from `off` on as a number, the least one first. -/
def littleEndian (b : Bytes) (off n : Nat) : Nat := digitSum 256 n fun i => (b (off + i)).toNat

/-- `2 ^ 130 - 5`. -/
def p1305 : Nat := 2 ^ 130 - 5

/-- The bits that are used of the first half of a key. -/
def clamp1305 : Nat := 0x0ffffffc0ffffffc0ffffffc0fffffff

/-- The 16 bytes from `off` on, or as many as there are, with a 1 behind them. -/
def blockNumber (m : Bytes) (off n : Nat) : Nat := littleEndian m off (min 16 n) + 256 ^ min 16 n

/-- The message as the coefficients of a polynomial. -/
def blockNumbers (m : Bytes) (n : Nat) : List Nat :=
  (List.range ((n + 15) / 16)).map fun i => blockNumber m (16 * i) (n - 16 * i)

/-- The polynomial of the message at the first half of the key, modulo `2 ^ 130 - 5`, and the second
half of the key modulo `2 ^ 128`. -/
def poly1305 (m : Bytes) (n : Nat) (k : Bytes) : Nat :=
  let r := littleEndian k 0 16 &&& clamp1305
  (polynomial r (blockNumbers m n) * r % p1305 + littleEndian k 16 16) % 2 ^ 128

end CmakeTemplate
