/-
The field and the scalar multiplication of `tweetnacl.c`.

A number of the field is 16 limbs that count powers of `2 ^ 16`, each a signed word of 64
bits.  The limbs may be negative, or larger than 16 bits; addition and subtraction leave them
so, and a multiplication carries twice at its end.  Where an operation would overflow its
word, there is no result, so that a result is also a proof that nothing has overflowed.  `x >>
16` rounds down, and `c << 16` multiplies.

The loops are those of the source, with a definition for each turn.  `sel25519` exchanges two
numbers by a mask instead of a branch; the ladder of `crypto_scalarmult` calls it on both
fractions in front of each step and behind it, with a bit of the scalar, which has been
clamped before.
-/
import CmakeTemplate.Poly1305
import CmakeTemplate.Lib.Checked
import CmakeTemplate.Lib.Montgomery
import Mathlib.Data.ZMod.Basic

namespace CmakeTemplate

open Lib

/-- `gf`. -/
abbrev Gf := Arr Int

/-- A value, if an `i64` has it. -/
def i64 (v : Int) : Option Int := fit (-(2 ^ 63)) (2 ^ 63 - 1) v

/-- `gf0`. -/
def gf0 : Gf := .of fun _ => 0

/-- `_121665`. -/
def _121665 : Gf := .of fun i => if i = 0 then 0xDB41 else if i = 1 then 1 else 0

/-- A turn of the loop of `car25519`. -/
def car25519Turn (i : Nat) (o : Gf) : Option Gf := do
  let v ← i64 (o i + 2 ^ 16)
  let o := o.set i v
  let c := v / 2 ^ 16
  let d ← i64 (37 * (c - 1))
  let d ← i64 (c - 1 + if i = 15 then d else 0)
  -- `(i + 1) * (i < 15)`
  let j := if i < 15 then i + 1 else 0
  let v ← i64 (o j + d)
  let o := o.set j v
  let v ← i64 (o i - c * 2 ^ 16)
  return o.set i v

/-- `car25519`. -/
def car25519 (o : Gf) : Option Gf := forUpM car25519Turn 16 o

/-- `sel25519`. -/
def sel25519 (p q : Gf) (b : Int) : Gf × Gf :=
  let c : BitVec 64 := (~~~ BitVec.ofInt 32 (b - 1)).signExtend 64
  forUp (fun i s =>
    let x := BitVec.ofInt 64 (s.1 i)
    let y := BitVec.ofInt 64 (s.2 i)
    let t := c &&& (x ^^^ y)
    (s.1.set i (x ^^^ t).toInt, s.2.set i (y ^^^ t).toInt)) 16 (p, q)

/-- The turn of the loop over `m[i]` and `m[i - 1]`. -/
def packTurn (t : Gf) (k : Nat) (m : Gf) : Option Gf := do
  let i := k + 1
  let v ← i64 (t i - 0xffff - m k / 2 ^ 16 % 2)
  let m := m.set i v
  return m.set k (m k % 2 ^ 16)

/-- `m`, and `b`: the prime subtracted from `t`, and whether that leaves something negative. -/
def packSub (t : Gf) : Option (Gf × Int) := do
  let v ← i64 (t 0 - 0xffed)
  let m ← forUpM (packTurn t) 14 (gf0.set 0 v)
  let v ← i64 (t 15 - 0x7fff - m 14 / 2 ^ 16 % 2)
  let m := m.set 15 v
  let b := m 15 / 2 ^ 16 % 2
  return (m.set 14 (m 14 % 2 ^ 16), b)

/-- The turn of the outer loop. -/
def packSelect (t : Gf) : Option Gf := do
  let (m, b) ← packSub t
  return (sel25519 t m (1 - b)).1

/-- `t[i / 2] & 0xff`, and `t[i / 2] >> 8`. -/
def packByte (t : Gf) (i : Nat) : UInt8 :=
  if i % 2 = 0 then UInt8.ofInt (t (i / 2) % 2 ^ 8) else UInt8.ofInt (t (i / 2) / 2 ^ 8)

/-- `pack25519`. -/
def pack25519 (o : Bytes) (n : Gf) : Option Bytes := do
  let t ← car25519 (gf0.fill 16 n)
  let t ← car25519 t
  let t ← car25519 t
  let t ← forUpM (fun _ => packSelect) 2 t
  return write o 0 32 (packByte t)

/-- `unpack25519`. -/
def unpack25519 (n : Bytes) : Gf :=
  let o := gf0.fill 16 fun i => ((n (2 * i)).toNat : Int) + (n (2 * i + 1)).toNat * 2 ^ 8
  o.set 15 (o 15 % 2 ^ 15)

namespace Gf

/-- `A`. -/
def A (a b : Gf) : Option Gf := forUpM (fun i o => return o.set i (← i64 (a i + b i))) 16 gf0

/-- `Z`. -/
def Z (a b : Gf) : Option Gf := forUpM (fun i o => return o.set i (← i64 (a i - b i))) 16 gf0

/-- `t[i + j] += a[i] * b[j]`. -/
def mulTurn (a b : Gf) (i j : Nat) (t : Gf) : Option Gf := do
  let p ← i64 (a i * b j)
  let v ← i64 (t (i + j) + p)
  return t.set (i + j) v

/-- `t[i] += 38 * t[i + 16]`. -/
def foldTurn (i : Nat) (t : Gf) : Option Gf := do
  let p ← i64 (38 * t (i + 16))
  let v ← i64 (t i + p)
  return t.set i v

/-- `M`. -/
def M (a b : Gf) : Option Gf := do
  let t ← forUpM (fun i t => forUpM (mulTurn a b i) 16 t) 16 gf0
  let t ← forUpM foldTurn 15 t
  let o ← car25519 (gf0.fill 16 t)
  car25519 o

/-- `S`. -/
def S (a : Gf) : Option Gf := M a a

end Gf

/-- `inv25519`. -/
def inv25519 (i : Gf) : Option Gf :=
  forDownM (fun a c => do
    let c ← Gf.S c
    if a ≠ 2 ∧ a ≠ 4 then Gf.M c i else return c) 254 (gf0.fill 16 i)

/-- `a`, `b`, `c` and `d` of `crypto_scalarmult`. -/
structure Rungs where
  /-- The numerator for the lower multiple. -/
  a : Gf
  /-- The numerator for the higher one. -/
  b : Gf
  /-- The denominator for the lower multiple. -/
  c : Gf
  /-- The denominator for the higher one. -/
  d : Gf

/-- `sel25519(a, b, r)` and `sel25519(c, d, r)`. -/
def Rungs.sel (s : Rungs) (r : Int) : Rungs :=
  let (a, b) := sel25519 s.a s.b r
  let (c, d) := sel25519 s.c s.d r
  ⟨a, b, c, d⟩

/-- What is between them. -/
def Rungs.step (x : Gf) (s : Rungs) : Option Rungs := do
  let e ← Gf.A s.a s.c
  let a ← Gf.Z s.a s.c
  let c ← Gf.A s.b s.d
  let b ← Gf.Z s.b s.d
  let d ← Gf.S e
  let f ← Gf.S a
  let a ← Gf.M c a
  let c ← Gf.M b e
  let e ← Gf.A a c
  let a ← Gf.Z a c
  let b ← Gf.S a
  let c ← Gf.Z d f
  let a ← Gf.M c _121665
  let a ← Gf.A a d
  let c ← Gf.M c a
  let a ← Gf.M d f
  let d ← Gf.M b x
  let b ← Gf.S e
  return ⟨a, b, c, d⟩

/-- `z`. -/
def clampScalar (n : Bytes) : Bytes :=
  let z := write (fun _ => 0) 0 31 n
  let z := Function.update z 31 (n 31 &&& 127 ||| 64)
  Function.update z 0 (z 0 &&& 248)

/-- `(z[i >> 3] >> (i & 7)) & 1`. -/
def scalarBit (z : Bytes) (i : Nat) : Int := (z (i / 8)).toNat / 2 ^ (i % 8) % 2

/-- The loop of `crypto_scalarmult`. -/
def scalarmultLoop (z : Bytes) (x : Gf) : Option Rungs :=
  let one := gf0.set 0 1
  forDownM (fun i s => do
    let r := scalarBit z i
    let s ← (s.sel r).step x
    return s.sel r) 255 ⟨one, gf0.fill 16 x, gf0, one⟩

/-- `crypto_scalarmult`, with `q` behind it. -/
def cryptoScalarmult (q n p : Bytes) : Option Bytes := do
  let x := unpack25519 p
  let s ← scalarmultLoop (clampScalar n) x
  let c ← inv25519 s.c
  let a ← Gf.M s.a c
  pack25519 q a

/-! ### What it is for

The multiple of a point on the curve `y² = x³ + 486662x² + x` over the field of `2 ^ 255 -
19`.  A coordinate and a scalar are 32 bytes each, the least one first.
-/

/-- `2 ^ 255 - 19`. -/
def p25519 : Nat := 2 ^ 255 - 19

/-- `2 ^ 254 + 8k`, with 251 bits of the scalar for `k`. -/
def clamp25519 (n : Nat) : Nat := 2 ^ 254 + n % 2 ^ 254 / 8 * 8

/-- The x-coordinate that 32 bytes stand for; the highest bit is not used. -/
def coordinate (p : Bytes) : ZMod p25519 := (littleEndian p 0 32 % 2 ^ 255 : Nat)

end CmakeTemplate
