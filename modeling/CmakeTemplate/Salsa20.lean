/-
The Salsa20 core of `tweetnacl.c`.

One function computes both Salsa20 and HSalsa20: the input, the key and a constant are put in
their places among 16 words, twenty rounds are made of them, and then either the words from
before are added and all are stored, or the ones that were added are subtracted again from
eight of them and those are stored.

`u32` is `unsigned long`, which has 64 bits: sums and shifts to the left run over into the
upper half of a word, `L32` clears it in front of its shift to the right, and `st32` leaves it
out.  A round of the source does the four columns and transposes, so that two of them are a
round of columns and one of rows; the arrays are rewritten slot by slot.
-/
import CmakeTemplate.Encryption
import CmakeTemplate.Lib.Loops
import CmakeTemplate.Lib.Limbs
import Mathlib.Tactic.FinCases
import Mathlib.Tactic.IntervalCases

namespace CmakeTemplate

open Lib

/-- `L32`. -/
def l32 (x c : UInt64) : UInt64 := (x <<< c) ||| ((x &&& 0xffffffff) >>> (32 - c))

/-- `ld32`, at `x + off`. -/
def ld32 (x : Bytes) (off : Nat) : UInt64 :=
  let u := (x (off + 3)).toUInt64
  let u := (u <<< 8) ||| (x (off + 2)).toUInt64
  let u := (u <<< 8) ||| (x (off + 1)).toUInt64
  (u <<< 8) ||| (x off).toUInt64

/-- `st32`, at `x + off`. -/
def st32 (x : Bytes) (off : Nat) (u : UInt64) : Bytes :=
  (forUp (fun i (s : Bytes × UInt64) =>
    (Function.update s.1 (off + i) s.2.toUInt8, s.2 >>> 8)) 4 (x, u)).1

/-- An array that has not been written. -/
def blank : Arr UInt64 := .of fun _ => 0

/-- The first loop of `core`. -/
def coreInput (input k c : Bytes) : Arr UInt64 :=
  forUp (fun i x =>
    let x := x.set (5 * i) (ld32 c (4 * i))
    let x := x.set (1 + i) (ld32 k (4 * i))
    let x := x.set (6 + i) (ld32 input (4 * i))
    x.set (11 + i) (ld32 k (16 + 4 * i))) 4 blank

/-- The four steps on `t`. -/
def coreQuarter (t : Arr UInt64) : Arr UInt64 :=
  let t := t.set 1 (t 1 ^^^ l32 (t 0 + t 3) 7)
  let t := t.set 2 (t 2 ^^^ l32 (t 1 + t 0) 9)
  let t := t.set 3 (t 3 ^^^ l32 (t 2 + t 1) 13)
  t.set 0 (t 0 ^^^ l32 (t 3 + t 2) 18)

/-- A round of `core`. -/
def coreRound (x : Arr UInt64) : Arr UInt64 :=
  let w := forUp (fun j w =>
    let t := coreQuarter (blank.fill 4 fun m => x ((5 * j + 4 * m) % 16))
    forUp (fun m w => w.set (4 * j + (j + m) % 4) (t m)) 4 w) 4 blank
  x.fill 16 fun m => w m

/-- `core`, with `out` behind it. -/
def core (out input k c : Bytes) (h : Bool) : Bytes :=
  let y := coreInput input k c
  let x := forUp (fun _ x => coreRound x) 20 y
  if h then
    let x := x.fill 16 fun i => x i + y i
    let x := forUp (fun i x =>
      let x := x.set (5 * i) (x (5 * i) - ld32 c (4 * i))
      x.set (6 + i) (x (6 + i) - ld32 input (4 * i))) 4 x
    forUp (fun i out => st32 (st32 out (4 * i) (x (5 * i))) (16 + 4 * i) (x (6 + i))) 4 out
  else forUp (fun i out => st32 out (4 * i) (x i + y i)) 16 out

/-- `crypto_core_salsa20`. -/
def cryptoCoreSalsa20 (out input k c : Bytes) : Bytes := core out input k c false

/-- `crypto_core_hsalsa20`. -/
def cryptoCoreHsalsa20 (out input k c : Bytes) : Bytes := core out input k c true

/-- `sigma`: `"expand 32-byte k"`. -/
def sigma : Bytes := fun i =>
  [101, 120, 112, 97, 110, 100, 32, 51, 50, 45, 98, 121, 116, 101, 32, 107].getD i 0

/-! ### What it is for

The cipher as it is published, on words of 32 bits in a matrix of four by four: the quarter
round, the round of columns and the round of rows.
-/

/-- The bits of a word, moved around to the left. -/
def rotateLeft (x c : UInt32) : UInt32 := (x <<< c) ||| (x >>> (32 - c))

/-- The quarter round of Salsa20. -/
def quarterround (y₀ y₁ y₂ y₃ : UInt32) : UInt32 × UInt32 × UInt32 × UInt32 :=
  let z₁ := y₁ ^^^ rotateLeft (y₀ + y₃) 7
  let z₂ := y₂ ^^^ rotateLeft (z₁ + y₀) 9
  let z₃ := y₃ ^^^ rotateLeft (z₂ + z₁) 13
  (y₀ ^^^ rotateLeft (z₃ + z₂) 18, z₁, z₂, z₃)

/-- Sixteen words, row by row. -/
abbrev Words := Vector UInt32 16

/-- The quarter round on the words at four places. -/
def quarterAt (x : Words) (i₀ i₁ i₂ i₃ : Fin 16) : Words :=
  let z := quarterround x[i₀] x[i₁] x[i₂] x[i₃]
  (((x.set i₀ z.1).set i₁ z.2.1).set i₂ z.2.2.1).set i₃ z.2.2.2

def rowround (x : Words) : Words :=
  quarterAt (quarterAt (quarterAt (quarterAt x 0 1 2 3) 5 6 7 4) 10 11 8 9) 15 12 13 14

def columnround (x : Words) : Words :=
  quarterAt (quarterAt (quarterAt (quarterAt x 0 4 8 12) 5 9 13 1) 10 14 2 6) 15 3 7 11

def doubleround (x : Words) : Words := rowround (columnround x)

/-- The four bytes from `off` on as a word, the least one first. -/
def wordAt (b : Bytes) (off : Nat) : UInt32 :=
  UInt32.ofNat (digitSum 256 4 fun i => (b (off + i)).toNat)

/-- The constant, the key and the input in their places. -/
def salsa20Input (input k c : Bytes) : Words :=
  #v[wordAt c 0, wordAt k 0, wordAt k 4, wordAt k 8,
    wordAt k 12, wordAt c 4, wordAt input 0, wordAt input 4,
    wordAt input 8, wordAt input 12, wordAt c 8, wordAt k 16,
    wordAt k 20, wordAt k 24, wordAt k 28, wordAt c 12]

/-- The words of a block of Salsa20. -/
def salsa20 (input k c : Bytes) : Words :=
  let x := salsa20Input input k c
  Vector.zipWith (· + ·) (doubleround^[10] x) x

/-- The words of a key of HSalsa20, in their order. -/
def hsalsa20 (input k c : Bytes) : Vector UInt32 8 :=
  let z := doubleround^[10] (salsa20Input input k c)
  #v[z[0], z[5], z[10], z[15], z[6], z[7], z[8], z[9]]

/-! ### Word by word

A round computes each of the sixteen words from four, and written out it is compared with what
the source does.
-/

theorem columnround_eq (x : Words) :
    columnround x =
      let c₀ := quarterround x[0] x[4] x[8] x[12]
      let c₁ := quarterround x[5] x[9] x[13] x[1]
      let c₂ := quarterround x[10] x[14] x[2] x[6]
      let c₃ := quarterround x[15] x[3] x[7] x[11]
      #v[c₀.1, c₁.2.2.2, c₂.2.2.1, c₃.2.1,
        c₀.2.1, c₁.1, c₂.2.2.2, c₃.2.2.1,
        c₀.2.2.1, c₁.2.1, c₂.1, c₃.2.2.2,
        c₀.2.2.2, c₁.2.2.1, c₂.2.1, c₃.1] := by
  refine Vector.ext fun i hi => ?_
  interval_cases i <;> simp [columnround, quarterAt]

theorem rowround_eq (x : Words) :
    rowround x =
      let r₀ := quarterround x[0] x[1] x[2] x[3]
      let r₁ := quarterround x[5] x[6] x[7] x[4]
      let r₂ := quarterround x[10] x[11] x[8] x[9]
      let r₃ := quarterround x[15] x[12] x[13] x[14]
      #v[r₀.1, r₀.2.1, r₀.2.2.1, r₀.2.2.2,
        r₁.2.2.2, r₁.1, r₁.2.1, r₁.2.2.1,
        r₂.2.2.1, r₂.2.2.2, r₂.1, r₂.2.1,
        r₃.2.1, r₃.2.2.1, r₃.2.2.2, r₃.1] := by
  refine Vector.ext fun i hi => ?_
  interval_cases i <;> simp [rowround, quarterAt]

theorem wordAt_keyVector {key : Bytes} {z : Words}
    (h : ∀ i, i < 4 → ∀ (_ : 5 * i < 16) (_ : 6 + i < 16),
      wordAt key (4 * i) = z[5 * i] ∧ wordAt key (16 + 4 * i) = z[6 + i]) (i : Fin 8) :
    wordAt key (4 * i)
      = (#v[z[0], z[5], z[10], z[15], z[6], z[7], z[8], z[9]] : Vector UInt32 8).get i := by
  fin_cases i
  · exact (h 0 (by decide) (by decide) (by decide)).1
  · exact (h 1 (by decide) (by decide) (by decide)).1
  · exact (h 2 (by decide) (by decide) (by decide)).1
  · exact (h 3 (by decide) (by decide) (by decide)).1
  · exact (h 0 (by decide) (by decide) (by decide)).2
  · exact (h 1 (by decide) (by decide) (by decide)).2
  · exact (h 2 (by decide) (by decide) (by decide)).2
  · exact (h 3 (by decide) (by decide) (by decide)).2

end CmakeTemplate
