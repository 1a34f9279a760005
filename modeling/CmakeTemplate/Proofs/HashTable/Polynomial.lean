/-
`hash` as a polynomial.

The loop multiplies what it has by 256, adds a character and reduces modulo the prime 65521,
so it is Horner's rule for the polynomial whose coefficients are the characters of the key.
All of that is done in 32 bits.  What the loop has so far is below the prime, which is why the
next step fits: 256 times a number below the prime, and a byte, are far below `2 ^ 32`.

So no step overflows, for keys of any length, and the index of a key is the value of its
polynomial modulo the prime and then modulo the size of the table.  The bound is the invariant
of the loop, and the value is read off it as on natural numbers.
-/
import CmakeTemplate.HashTable
import CmakeTemplate.Lib.Polynomial

namespace CmakeTemplate

open Lib

/-- `target` behind some letters. -/
def target (letters : List UInt8) : UInt32 :=
  letters.foldl (fun target letter => (target * hashBase + letter.toUInt32) % hashPrime) 0

theorem hash_eq_target (size : UInt32) (key : CString) :
    hash size key = target key.chars % size := by
  unfold hash target
  rfl

/-- A value below the prime leaves room for one more step. -/
theorem step_fits {value : UInt32} (hvalue : value.toNat < hashPrime.toNat) (letter : UInt8) :
    value.toNat * hashBase.toNat + letter.toNat < 2 ^ 32 := by
  have hprime : hashPrime.toNat = 65521 := by decide
  have hbase : hashBase.toNat = 256 := by decide
  have hletter := letter.toNat_lt
  rw [hprime] at hvalue
  rw [hbase]
  omega

/-- So the step on 32 bits is the one on numbers. -/
theorem step_toNat {value : UInt32} (hvalue : value.toNat < hashPrime.toNat) (letter : UInt8) :
    ((value * hashBase + letter.toUInt32) % hashPrime).toNat
      = hornerStep hashPrime.toNat hashBase.toNat value.toNat letter.toNat := by
  have hfits := step_fits hvalue letter
  have hproduct : value.toNat * hashBase.toNat < 2 ^ 32 := by omega
  rw [UInt32.toNat_mod, UInt32.toNat_add, UInt32.toNat_mul, UInt8.toNat_toUInt32,
    Nat.mod_eq_of_lt hproduct, Nat.mod_eq_of_lt hfits, hornerStep]

theorem foldl_toNat (letters : List UInt8) {value : UInt32}
    (hvalue : value.toNat < hashPrime.toNat) :
    (letters.foldl (fun target letter => (target * hashBase + letter.toUInt32) % hashPrime)
        value).toNat
      = (letters.map UInt8.toNat).foldl (hornerStep hashPrime.toNat hashBase.toNat)
        value.toNat := by
  induction letters generalizing value with
  | nil => rfl
  | cons letter letters ih =>
      have hstep := step_toNat hvalue letter
      have hnext : ((value * hashBase + letter.toUInt32) % hashPrime).toNat < hashPrime.toNat := by
        rw [hstep]
        exact hornerStep_lt (by decide) _ _ _
      rw [List.foldl_cons, List.map_cons, List.foldl_cons, ih hnext, hstep]

theorem target_toNat (letters : List UInt8) :
    (target letters).toNat
      = polynomial hashBase.toNat (letters.map UInt8.toNat) % hashPrime.toNat := by
  rw [target, foldl_toNat letters (by decide)]
  exact foldl_hornerStep (by decide) _ _

theorem target_lt (letters : List UInt8) : (target letters).toNat < hashPrime.toNat := by
  rw [target_toNat]
  exact Nat.mod_lt _ (by decide)

/-- The index of a key is its polynomial in 256 modulo 65521 and modulo the size, and no step of the
loop overflows on the way. -/
theorem hash_polynomial (z : TableSize) (key : CString) :
    (∀ i : Fin key.chars.length,
      (target (key.chars.take i)).toNat * hashBase.toNat + key.chars[i].toNat < 2 ^ 32) ∧
    (target key.chars).toNat
      = (∑ i : Fin key.chars.length,
          key.chars[i].toNat * 256 ^ (key.chars.length - 1 - i)) % 65521 ∧
    (hash z.1 key).toNat
      = (∑ i : Fin key.chars.length,
          key.chars[i].toNat * 256 ^ (key.chars.length - 1 - i)) % 65521 % z.1.toNat ∧
    (hash z.1 key).toNat < z.1.toNat := by
  have htarget : (target key.chars).toNat
      = (∑ i : Fin key.chars.length,
          key.chars[i].toNat * 256 ^ (key.chars.length - 1 - i)) % 65521 := by
    rw [target_toNat, polynomial_map]
    rfl
  refine ⟨?_, htarget, ?_, hash_lt z key⟩
  · intro i
    exact step_fits (target_lt _) _
  · rw [hash_eq_target, UInt32.toNat_mod, htarget]

end CmakeTemplate
