/-
The words and the constants of `crypto_hash` are those of SHA-512.

`tweetnacl.c` writes its functions on words with shifts, `&` and `^`, and has its constants as
tables.  The published hash says the same of bits and of roots: `Ch` chooses between two bits,
`Maj` is what two of three bits are, a constant is what is behind the point in the root of a prime.

A word is equal to another if it is so at each of its places, which leaves a truth table.  An entry
of a table is the right one if the number that it is the end of is the greatest whose power is not
above the prime, shifted to the left.  That is a matter of two multiplications for each entry, so
the tables are checked as they stand, against primes that are found by trial division.
-/
import CmakeTemplate.Sha512
import Mathlib.Analysis.SpecialFunctions.Pow.NthRootLemmas

namespace CmakeTemplate

open Lib

/-! ### The functions on words

Each is compared at one place of the words, where it is a function of two or three bits.
-/

/-- Words that are equal at each place. -/
theorem word_ext {x y : UInt64} (h : ∀ i (hi : i < 64), x.toBitVec[i] = y.toBitVec[i]) : x = y :=
  UInt64.toBitVec_inj.mp (BitVec.eq_of_getElem_eq h)

theorem getElem_bitwise (f : Bool → Bool → Bool → Bool) (x y z : UInt64) {i : Nat} (hi : i < 64) :
    (bitwise f x y z).toBitVec[i] = f x.toBitVec[i] y.toBitVec[i] z.toBitVec[i] := by
  rw [bitwise, UInt64.toBitVec_ofNat', ← BitVec.getLsbD_eq_getElem hi, BitVec.getLsbD_ofNat,
    Nat.testBit_ofBits_lt _ _ hi, decide_eq_true hi, Bool.true_and]
  rfl

theorem Ch_eq (x y z : UInt64) : Sha512.Ch x y z = sha512Choose x y z := by
  refine word_ext fun i hi => ?_
  simp only [Sha512.Ch, sha512Choose, getElem_bitwise, UInt64.toBitVec_xor, UInt64.toBitVec_and,
    UInt64.toBitVec_not, BitVec.getElem_xor, BitVec.getElem_and, BitVec.getElem_not]
  cases x.toBitVec[i] <;> cases y.toBitVec[i] <;> cases z.toBitVec[i] <;> rfl

theorem Maj_eq (x y z : UInt64) : Sha512.Maj x y z = sha512Majority x y z := by
  refine word_ext fun i hi => ?_
  simp only [Sha512.Maj, sha512Majority, getElem_bitwise, UInt64.toBitVec_xor, UInt64.toBitVec_and,
    BitVec.getElem_xor, BitVec.getElem_and]
  cases x.toBitVec[i] <;> cases y.toBitVec[i] <;> cases z.toBitVec[i] <;> rfl

/-- Two shifts, by an amount that leaves something of both, are a rotation. -/
theorem R_eq (x : UInt64) {c : UInt64} (hpos : 0 < c) (hlt : c < 64) :
    Sha512.R x c = rotr c.toNat x := by
  have hc : c.toNat < 64 := UInt64.lt_iff_toNat_lt.mp hlt
  have hc0 : 0 < c.toNat := UInt64.lt_iff_toNat_lt.mp hpos
  have hrest : (64 - c).toNat = 64 - c.toNat :=
    UInt64.toNat_sub_of_le 64 c (UInt64.le_of_lt hlt)
  have hright : (x >>> c).toBitVec = x.toBitVec >>> c.toNat := by
    rw [UInt64.toBitVec_shiftRight, BitVec.ushiftRight_eq']
    congr 1
    exact Nat.mod_eq_of_lt hc
  have hleft : (x <<< (64 - c)).toBitVec = x.toBitVec <<< (64 - c.toNat) := by
    rw [UInt64.toBitVec_shiftLeft, BitVec.shiftLeft_eq']
    congr 1
    show (64 - c).toNat % 64 = 64 - c.toNat
    rw [hrest]
    exact Nat.mod_eq_of_lt (by omega)
  refine UInt64.toBitVec_inj.mp ?_
  rw [Sha512.R, UInt64.toBitVec_or, hright, hleft, rotr, BitVec.rotateRight_def,
    Nat.mod_eq_of_lt hc]

theorem shiftRight_eq (x : UInt64) {c : UInt64} (hlt : c < 64) : x >>> c = shr c.toNat x := by
  refine UInt64.toBitVec_inj.mp ?_
  rw [UInt64.toBitVec_shiftRight, BitVec.ushiftRight_eq', shr]
  congr 1
  exact Nat.mod_eq_of_lt (UInt64.lt_iff_toNat_lt.mp hlt)

theorem Sigma0_eq (x : UInt64) : Sha512.Sigma0 x = sha512Sum0 x := by
  rw [Sha512.Sigma0, R_eq x (by decide) (by decide), R_eq x (by decide) (by decide),
    R_eq x (by decide) (by decide)]
  rfl

theorem Sigma1_eq (x : UInt64) : Sha512.Sigma1 x = sha512Sum1 x := by
  rw [Sha512.Sigma1, R_eq x (by decide) (by decide), R_eq x (by decide) (by decide),
    R_eq x (by decide) (by decide)]
  rfl

theorem sigma0_eq (x : UInt64) : Sha512.sigma0 x = sha512Mix0 x := by
  rw [Sha512.sigma0, R_eq x (by decide) (by decide), R_eq x (by decide) (by decide),
    shiftRight_eq x (by decide)]
  rfl

theorem sigma1_eq (x : UInt64) : Sha512.sigma1 x = sha512Mix1 x := by
  rw [Sha512.sigma1, R_eq x (by decide) (by decide), R_eq x (by decide) (by decide),
    shiftRight_eq x (by decide)]
  rfl

/-! ### The primes

Below `21 ^ 2` a divisor of its own is below 21, so that few divisions tell a prime.
-/

theorem prime_iff_of_lt {n : Nat} (h : n < 21 ^ 2) :
    n.Prime ↔ 2 ≤ n ∧ ∀ d < 21, 2 ≤ d → d < n → ¬ d ∣ n := by
  constructor
  · intro hprime
    refine ⟨hprime.two_le, fun d _ hd hlt hdvd => ?_⟩
    rcases hprime.eq_one_or_self_of_dvd d hdvd with rfl | rfl
    · exact absurd hd (by decide)
    · exact Nat.lt_irrefl _ hlt
  · rintro ⟨htwo, hnone⟩
    refine Nat.prime_def_le_sqrt.mpr ⟨htwo, fun d hd hle => ?_⟩
    have hlt : Nat.sqrt n < 21 := Nat.sqrt_lt'.mpr h
    exact hnone d (hle.trans_lt hlt) hd (hle.trans_lt (Nat.sqrt_lt_self htwo))

theorem sha512Primes_eq : sha512Primes = [
    2, 3, 5, 7, 11, 13, 17, 19, 23, 29, 31, 37, 41, 43, 47, 53, 59, 61, 67, 71,
    73, 79, 83, 89, 97, 101, 103, 107, 109, 113, 127, 131, 137, 139, 149, 151, 157, 163, 167, 173,
    179, 181, 191, 193, 197, 199, 211, 223, 227, 229, 233, 239, 241, 251, 257, 263, 269, 271, 277, 281,
    283, 293, 307, 311, 313, 317, 331, 337, 347, 349, 353, 359, 367, 373, 379, 383, 389, 397, 401,
    409] := by
  have hfilter : sha512Primes =
      (List.range 410).filter fun n => 2 ≤ n ∧ ∀ d < 21, 2 ≤ d → d < n → ¬ d ∣ n := by
    refine List.filter_congr fun n hn => ?_
    have hlt : n < 21 ^ 2 := (List.mem_range.mp hn).trans (by decide)
    exact decide_eq_decide.mpr (prime_iff_of_lt hlt)
  rw [hfilter]
  decide +kernel

/-! ### The constants

A table of numbers in the source, and the roots they are the ends of.
-/

/-- A number whose `k`-th power is not above `p`, when shifted to the left, and the next one's is:
its last 64 bits are those behind the point. -/
theorem rootBits_eq {k p c : Nat} {w : UInt64}
    (hle : (c * 2 ^ 64 + w.toNat) ^ k ≤ p * 2 ^ (64 * k))
    (hlt : p * 2 ^ (64 * k) < (c * 2 ^ 64 + w.toNat + 1) ^ k) : rootBits k p = w := by
  have hw := UInt64.toNat_lt w
  have hroot := Nat.nthRoot_eq_of_le_of_lt hle hlt
  refine UInt64.toNat_inj.mp ?_
  rw [rootBits, hroot, UInt64.toNat_ofNat']
  omega

/-- Tables of the roots of some numbers. -/
theorem map_rootBits {k : Nat} {ps : List Nat} {ws : List UInt64} (hlength : ps.length = ws.length)
    (h : ∀ x ∈ ps.zip ws, ∃ c < 32, (c * 2 ^ 64 + x.2.toNat) ^ k ≤ x.1 * 2 ^ (64 * k) ∧
      x.1 * 2 ^ (64 * k) < (c * 2 ^ 64 + x.2.toNat + 1) ^ k) : ps.map (rootBits k) = ws := by
  refine List.ext_getElem (by rw [List.length_map, hlength]) fun i hi hi' => ?_
  have hzip : i < (ps.zip ws).length := by
    rw [List.length_zip]
    rw [List.length_map] at hi
    omega
  obtain ⟨c, -, hle, hlt⟩ := h _ (List.getElem_mem hzip)
  rw [List.getElem_zip] at hle hlt
  rw [List.getElem_map]
  exact rootBits_eq hle hlt

theorem length_sha512Primes : sha512Primes.length = 80 := by
  rw [sha512Primes_eq]
  rfl

theorem K_eq : sha512Primes.map (rootBits 3) = Sha512.K := by
  have hlength : sha512Primes.length = Sha512.K.length := length_sha512Primes
  refine map_rootBits hlength ?_
  rw [sha512Primes_eq]
  decide +kernel

/-- An entry of a table of roots. -/
theorem getD_of_map {ps : List Nat} {ws : List UInt64} {f : Nat → UInt64} (h : ps.map f = ws) {t : Nat}
    (ht : t < ps.length) : ws.getD t 0 = f (ps.getD t 0) := by
  subst h
  rw [List.getD_eq_getElem _ _ (by rwa [List.length_map]), List.getElem_map,
    List.getD_eq_getElem _ _ ht]

/-- The constants of the rounds. -/
theorem K_getD {t : Nat} (ht : t < 80) : Sha512.K.getD t 0 = sha512Constant t :=
  getD_of_map K_eq (length_sha512Primes.symm ▸ ht)

/-- The words that `crypto_hash` starts from, as `crypto_hashblocks` loads them. -/
theorem iv_words : (List.ofFn fun i : Fin 8 => dl64 iv (8 * i)) = [
    0x6a09e667f3bcc908, 0xbb67ae8584caa73b, 0x3c6ef372fe94f82b, 0xa54ff53a5f1d36f1,
    0x510e527fade682d1, 0x9b05688c2b3e6c1f, 0x1f83d9abfb41bd6b, 0x5be0cd19137e2179] := by
  decide +kernel

theorem iv_table : (sha512Primes.take 8).map (rootBits 2)
    = List.ofFn fun i : Fin 8 => dl64 iv (8 * i) := by
  rw [iv_words]
  refine map_rootBits ?_ ?_
  · rw [List.length_take, length_sha512Primes]
    rfl
  · rw [sha512Primes_eq]
    decide +kernel

theorem iv_eq : (Vector.ofFn fun i : Fin 8 => dl64 iv (8 * i)) = sha512Initial := by
  have hlength : (sha512Primes.take 8).length = 8 := by
    rw [List.length_take, length_sha512Primes]
    rfl
  refine Vector.ext fun i hi => ?_
  have hget := getD_of_map iv_table (t := i) (by rwa [hlength])
  have hprimes : (sha512Primes.take 8).getD i 0 = sha512Primes.getD i 0 := by
    rw [List.getD_eq_getElem?_getD, List.getElem?_take_of_lt hi, List.getD_eq_getElem?_getD]
  rw [List.getD_eq_getElem _ _ (by rwa [List.length_ofFn]), List.getElem_ofFn, hprimes] at hget
  rw [Vector.getElem_ofFn, sha512Initial, Vector.getElem_ofFn]
  exact hget

end CmakeTemplate
