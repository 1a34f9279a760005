/-
The core is Salsa20.

Only the lower halves of the words matter: a sum, a difference and an exclusive or take them
to those of the result, and so does `L32`, which is a rotation of them.  A shift to the right
would bring bits of the upper half down, and `L32` clears it first; so what a word has in its
upper half is never seen.

A round of `core` is a column round and then the transpose, so that two of them are a double
round: the transpose of a round of columns between two transposes is a round of rows.  Twenty
rounds are ten double rounds.  The constant, the key and the input are loaded byte by byte
into their places, and the words are stored byte by byte, one behind the other.
-/
import CmakeTemplate.Salsa20
import CmakeTemplate.Proofs.Crypto.Poly1305
import Mathlib.Tactic.FinCases
import Mathlib.Tactic.IntervalCases

namespace CmakeTemplate

open Lib

/-! ### The lower half of a word

The functions on words of 64 bits are compared with those on words of 32.
-/

theorem toUInt32_and_shiftRight (x : UInt64) {c : UInt64} (hc : c.toNat < 32) :
    ((x &&& 0xffffffff) >>> c).toUInt32 = x.toUInt32 >>> c.toUInt32 := by
  refine UInt32.toNat_inj.mp ?_
  have hmask : (x &&& 0xffffffff).toNat = x.toNat % 2 ^ 32 := by
    rw [UInt64.toNat_and]
    exact Nat.and_two_pow_sub_one_eq_mod x.toNat 32
  have hshift : c.toUInt32.toNat = c.toNat := by
    rw [UInt64.toNat_toUInt32, Nat.mod_eq_of_lt (by omega)]
  have hlow : x.toNat % 2 ^ 32 / 2 ^ c.toNat < 2 ^ 32 :=
    (Nat.div_le_self _ _).trans_lt (Nat.mod_lt _ (by decide))
  rw [UInt64.toNat_toUInt32, UInt64.toNat_shiftRight, UInt32.toNat_shiftRight, hmask, hshift,
    Nat.mod_eq_of_lt (show c.toNat < 64 by omega), Nat.mod_eq_of_lt hc, Nat.shiftRight_eq_div_pow,
    Nat.shiftRight_eq_div_pow, UInt64.toNat_toUInt32, Nat.mod_eq_of_lt hlow]

/-- `L32` moves the lower half around. -/
theorem toUInt32_l32 (x : UInt64) {c : UInt64} (hpos : 0 < c.toNat) (hc : c.toNat < 32) :
    (l32 x c).toUInt32 = rotateLeft x.toUInt32 c.toUInt32 := by
  have hlt : c < 32 := hc
  have hsub : (32 - c).toNat = 32 - c.toNat := UInt64.toNat_sub_of_le _ _ (Nat.le_of_lt hc)
  rw [l32, rotateLeft, UInt64.toUInt32_or, UInt64.toUInt32_shiftLeft _ _ hlt,
    toUInt32_and_shiftRight x (by omega)]
  congr 2
  refine UInt32.toNat_inj.mp ?_
  have hle : c.toUInt32 ≤ 32 := by
    rw [UInt32.le_iff_toNat_le, UInt64.toNat_toUInt32]
    exact (Nat.mod_le _ _).trans (Nat.le_of_lt hc)
  rw [UInt64.toNat_toUInt32, hsub, UInt32.toNat_sub_of_le _ _ hle, UInt64.toNat_toUInt32,
    Nat.mod_eq_of_lt (show c.toNat < 2 ^ 32 by omega)]
  exact Nat.mod_eq_of_lt (by omega)

/-! ### The rounds

A round goes along the columns from the diagonal down, and stores each of them as a row.
-/

/-- The lower halves. -/
def lowWords (x : Arr UInt64) : Words := Vector.ofFn fun i => (x i).toUInt32

theorem lowWords_get (x : Arr UInt64) {i : Nat} (hi : i < 16) :
    (lowWords x)[i] = (x i).toUInt32 := Vector.getElem_ofFn hi

/-- Rows as columns. -/
def transpose (x : Words) : Words := Vector.ofFn fun i => x[4 * (i.val % 4) + i.val / 4]

/-- The four words behind the four steps. -/
theorem toUInt32_coreQuarter (t : Arr UInt64) :
    quarterround (t 0).toUInt32 (t 1).toUInt32 (t 2).toUInt32 (t 3).toUInt32
      = ((coreQuarter t 0).toUInt32, (coreQuarter t 1).toUInt32, (coreQuarter t 2).toUInt32,
          (coreQuarter t 3).toUInt32) := by
  have h₇ := fun x => toUInt32_l32 x (c := 7) (by decide) (by decide)
  have h₉ := fun x => toUInt32_l32 x (c := 9) (by decide) (by decide)
  have h₁₃ := fun x => toUInt32_l32 x (c := 13) (by decide) (by decide)
  have h₁₈ := fun x => toUInt32_l32 x (c := 18) (by decide) (by decide)
  simp [quarterround, coreQuarter, h₇, h₉, h₁₃, h₁₈]

/-- The slots that a round writes. -/
theorem coreRound_slot (x : Arr UInt64) {j m : Nat} (hj : j < 4) (hm : m < 4) :
    coreRound x (4 * j + (j + m) % 4)
      = coreQuarter (blank.fill 4 fun m => x ((5 * j + 4 * m) % 16)) m := by
  unfold coreRound
  rw [Arr.fill_of_lt (by omega)]
  interval_cases j <;> interval_cases m <;> simp

/-- The quarter round on column `j`, from the diagonal down. -/
theorem quarterround_column (x : Arr UInt64) {j : Nat} (hj : j < 4) :
    quarterround (x (5 * j % 16)).toUInt32 (x ((5 * j + 4) % 16)).toUInt32
        (x ((5 * j + 8) % 16)).toUInt32 (x ((5 * j + 12) % 16)).toUInt32
      = ((coreRound x (4 * j + j % 4)).toUInt32, (coreRound x (4 * j + (j + 1) % 4)).toUInt32,
          (coreRound x (4 * j + (j + 2) % 4)).toUInt32,
          (coreRound x (4 * j + (j + 3) % 4)).toUInt32) := by
  have hquarter := toUInt32_coreQuarter (blank.fill 4 fun m => x ((5 * j + 4 * m) % 16))
  rw [Arr.fill_of_lt (by decide), Arr.fill_of_lt (by decide), Arr.fill_of_lt (by decide),
    Arr.fill_of_lt (by decide), ← coreRound_slot x hj (by decide), ← coreRound_slot x hj (by decide),
    ← coreRound_slot x hj (by decide), ← coreRound_slot x hj (by decide)] at hquarter
  exact hquarter

theorem lowWords_coreRound (x : Arr UInt64) :
    lowWords (coreRound x) = transpose (columnround (lowWords x)) := by
  have h₀ := quarterround_column x (j := 0) (by decide)
  have h₁ := quarterround_column x (j := 1) (by decide)
  have h₂ := quarterround_column x (j := 2) (by decide)
  have h₃ := quarterround_column x (j := 3) (by decide)
  simp only [Nat.reduceMul, Nat.reduceAdd, Nat.reduceMod] at h₀ h₁ h₂ h₃
  refine Vector.ext fun i hi => ?_
  interval_cases i <;>
    simp [lowWords, transpose, columnround_eq, h₀, h₁, h₂, h₃]

/-- Transposed, the columns are the rows. -/
theorem transpose_columnround_transpose (x : Words) :
    transpose (columnround (transpose x)) = rowround x := by
  refine Vector.ext fun i hi => ?_
  interval_cases i <;> simp [transpose, columnround_eq, rowround_eq]

/-- Two rounds are a double round. -/
theorem lowWords_rounds (x : Arr UInt64) (n : Nat) :
    lowWords (forUp (fun _ x => coreRound x) (2 * n) x) = doubleround^[n] (lowWords x) := by
  induction n with
  | zero => rfl
  | succ n ih =>
      rw [Nat.mul_succ, forUp_succ, forUp_succ, lowWords_coreRound, lowWords_coreRound, ih,
        Function.iterate_succ_apply', doubleround, transpose_columnround_transpose]

/-! ### Words and bytes

Loading and storing go from the least byte to the highest.
-/

theorem toNat_shiftLeft_or {u : UInt64} (hu : u.toNat < 2 ^ 56) (x : UInt8) :
    ((u <<< 8) ||| x.toUInt64).toNat = u.toNat * 256 + x.toNat := by
  have hconst : (8 : UInt64).toNat % 64 = 8 := rfl
  have hshift : (u <<< 8).toNat = u.toNat <<< 8 := by
    rw [UInt64.toNat_shiftLeft, hconst, Nat.shiftLeft_eq, Nat.mod_eq_of_lt (by omega)]
  rw [UInt64.toNat_or, hshift, UInt8.toNat_toUInt64,
    ← Nat.shiftLeft_add_eq_or_of_lt (UInt8.toNat_lt x), Nat.shiftLeft_eq]

/-- `ld32` loads four bytes, the least one first. -/
theorem toUInt32_ld32 (x : Bytes) (off : Nat) : (ld32 x off).toUInt32 = wordAt x off := by
  have h₀ := UInt8.toNat_lt (x off)
  have h₁ := UInt8.toNat_lt (x (off + 1))
  have h₂ := UInt8.toNat_lt (x (off + 2))
  have h₃ := UInt8.toNat_lt (x (off + 3))
  have htop : (x (off + 3)).toUInt64.toNat = (x (off + 3)).toNat := UInt8.toNat_toUInt64 _
  have htwo := toNat_shiftLeft_or (u := (x (off + 3)).toUInt64) (by omega) (x (off + 2))
  have hthree := toNat_shiftLeft_or (u := ((x (off + 3)).toUInt64 <<< 8) ||| (x (off + 2)).toUInt64)
    (by omega) (x (off + 1))
  have hnumber : (ld32 x off).toNat = digitSum 256 4 fun i => (x (off + i)).toNat := by
    rw [ld32, toNat_shiftLeft_or (by omega), hthree, htwo, htop]
    simp only [digitSum_succ, digitSum_zero, Nat.add_zero]
    ring
  refine UInt32.toNat_inj.mp ?_
  rw [UInt64.toNat_toUInt32, hnumber, wordAt, UInt32.toNat_ofNat']

theorem ofNat_shiftRight_8 {m : Nat} (hm : m < 2 ^ 64) :
    UInt64.ofNat m >>> 8 = UInt64.ofNat (m / 256) := by
  have hdiv : m / 256 < 2 ^ 64 := (Nat.div_le_self _ _).trans_lt hm
  refine UInt64.toNat_inj.mp ?_
  rw [toNat_shiftRight_8, UInt64.toNat_ofNat', UInt64.toNat_ofNat', Nat.mod_eq_of_lt hm,
    Nat.mod_eq_of_lt hdiv]

/-- `st32` writes the four bytes of the lower half. -/
theorem st32_eq (x : Bytes) (off : Nat) (u : UInt64) :
    st32 x off u = write x off 4 fun i => UInt8.ofNat (u.toNat / 256 ^ i) := by
  have hloop : ∀ n, forUp (fun i (s : Bytes × UInt64) =>
      (Function.update s.1 (off + i) s.2.toUInt8, s.2 >>> 8)) n (x, u)
        = (write x off n (fun i => UInt8.ofNat (u.toNat / 256 ^ i)),
            UInt64.ofNat (u.toNat / 256 ^ n)) := by
    intro n
    induction n with
    | zero => rw [forUp_zero, write_length_zero, Nat.pow_zero, Nat.div_one, UInt64.ofNat_toNat]
    | succ n ih =>
        have hlt : u.toNat / 256 ^ n < 2 ^ 64 := (Nat.div_le_self _ _).trans_lt (UInt64.toNat_lt u)
        rw [forUp_succ, ih, write_succ, ofNat_shiftRight_8 hlt, Nat.div_div_eq_div_mul,
          ← Nat.pow_succ, UInt64.toUInt8_ofNat']
  rw [st32, hloop 4]

theorem wordAt_st32 (x : Bytes) (off : Nat) (u : UInt64) :
    wordAt (st32 x off u) off = u.toUInt32 := by
  have hbytes : digitSum 256 4 (fun i => (st32 x off u (off + i)).toNat) = u.toNat % 256 ^ 4 := by
    rw [← digitSum_digits]
    refine digitSum_congr fun i hi => ?_
    rw [st32_eq, write_at hi, UInt8.toNat_ofNat']
  refine UInt32.toNat_inj.mp ?_
  rw [wordAt, hbytes, UInt32.toNat_ofNat', UInt64.toNat_toUInt32]
  exact Nat.mod_mod _ _

theorem wordAt_congr {x x' : Bytes} {off : Nat} (h : ∀ i, i < 4 → x (off + i) = x' (off + i)) :
    wordAt x off = wordAt x' off := by
  rw [wordAt, wordAt, digitSum_congr fun i hi => by rw [h i hi]]

theorem wordAt_st32_of_ne {x : Bytes} {off off' : Nat} (h : off' + 4 ≤ off ∨ off + 4 ≤ off')
    (u : UInt64) : wordAt (st32 x off u) off' = wordAt x off' := by
  refine wordAt_congr fun i hi => ?_
  rw [st32_eq]
  exact write_changed _ (by omega)

/-! ### The core

What is stored are the words of the rounds, with those of the input added.
-/

theorem lowWords_coreInput (input k c : Bytes) :
    lowWords (coreInput input k c) = salsa20Input input k c := by
  refine Vector.ext fun i hi => ?_
  rw [lowWords_get _ hi]
  interval_cases i <;> simp [coreInput, salsa20Input, toUInt32_ld32]

/-- The words that the rounds leave. -/
theorem toUInt32_rounds (input k c : Bytes) {i : Nat} (hi : i < 16) :
    (forUp (fun _ x => coreRound x) 20 (coreInput input k c) i).toUInt32
      = (doubleround^[10] (salsa20Input input k c))[i] := by
  rw [← lowWords_get _ hi]
  simp only [lowWords_rounds _ 10, lowWords_coreInput]

theorem toUInt32_coreInput (input k c : Bytes) {i : Nat} (hi : i < 16) :
    (coreInput input k c i).toUInt32 = (salsa20Input input k c)[i] := by
  rw [← lowWords_get _ hi]
  simp only [lowWords_coreInput]

/-- Words that are stored one behind the other. -/
theorem wordAt_stores (v : Nat → UInt64) (out : Bytes) {n i : Nat} (hi : i < n) :
    wordAt (forUp (fun i out => st32 out (4 * i) (v i)) n out) (4 * i) = (v i).toUInt32 := by
  induction n with
  | zero => exact absurd hi (Nat.not_lt_zero i)
  | succ n ih =>
      rw [forUp_succ]
      rcases Nat.lt_succ_iff_lt_or_eq.mp hi with hlt | rfl
      · rw [wordAt_st32_of_ne (by omega), ih hlt]
      · exact wordAt_st32 _ _ _

theorem stores_changed (v : Nat → UInt64) (out : Bytes) (n : Nat) :
    ChangedWithin 0 (4 * n) out (forUp (fun i out => st32 out (4 * i) (v i)) n out) := by
  intro a ha
  refine forUp_invariant (I := fun _ (out' : Bytes) => out' a = out a) rfl fun i out' hi hout => ?_
  rw [st32_eq, write_behind (by omega), hout]

theorem salsa20_get (input k c : Bytes) {i : Nat} (hi : i < 16) :
    (salsa20 input k c)[i]
      = (doubleround^[10] (salsa20Input input k c))[i] + (salsa20Input input k c)[i] := by
  simp only [salsa20, Vector.getElem_zipWith]

theorem wordAt_salsa20 (out input k c : Bytes) {i : Nat} (hi : i < 16) :
    wordAt (cryptoCoreSalsa20 out input k c) (4 * i) = (salsa20 input k c)[i] := by
  have hrounds := toUInt32_rounds input k c hi
  dsimp only [cryptoCoreSalsa20, core]
  rw [if_neg Bool.false_ne_true, wordAt_stores _ out hi, salsa20_get input k c hi,
    UInt64.toUInt32_add, hrounds, toUInt32_coreInput input k c hi]

/-! ### The core for keys

What was added is subtracted again where the words are used for a key.
-/

/-- What is subtracted from the words that go into the key. -/
theorem keyWords (a : Arr UInt64) (input c : Bytes) {i : Nat} (hi : i < 4) :
    let x := forUp (fun i (x : Arr UInt64) =>
      let x := x.set (5 * i) (x (5 * i) - ld32 c (4 * i))
      x.set (6 + i) (x (6 + i) - ld32 input (4 * i))) 4 a
    x (5 * i) = a (5 * i) - ld32 c (4 * i) ∧ x (6 + i) = a (6 + i) - ld32 input (4 * i) := by
  interval_cases i <;> simp

/-- Subtracting what had been added leaves the words of the last round. -/
theorem toUInt32_keyWords (input k c : Bytes) {i : Nat} (hi : i < 4) (h₅ : 5 * i < 16)
    (h₆ : 6 + i < 16) :
    let y := coreInput input k c
    let x := forUp (fun _ x => coreRound x) 20 y
    let x := x.fill 16 fun i => x i + y i
    let x := forUp (fun i (x : Arr UInt64) =>
      let x := x.set (5 * i) (x (5 * i) - ld32 c (4 * i))
      x.set (6 + i) (x (6 + i) - ld32 input (4 * i))) 4 x
    (x (5 * i)).toUInt32 = (doubleround^[10] (salsa20Input input k c))[5 * i] ∧
      (x (6 + i)).toUInt32 = (doubleround^[10] (salsa20Input input k c))[6 + i] := by
  intro y x sum
  obtain ⟨hconst, hinput⟩ := keyWords sum input c hi
  have hround₅ := toUInt32_rounds input k c h₅
  have hround₆ := toUInt32_rounds input k c h₆
  have hplace₅ : (salsa20Input input k c)[5 * i] = wordAt c (4 * i) := by
    interval_cases i <;> rfl
  have hplace₆ : (salsa20Input input k c)[6 + i] = wordAt input (4 * i) := by
    interval_cases i <;> rfl
  constructor
  · rw [hconst, Arr.fill_of_lt (by omega), UInt64.toUInt32_sub, UInt64.toUInt32_add, hround₅,
      toUInt32_coreInput input k c (by omega), hplace₅, toUInt32_ld32, UInt32.add_sub_cancel]
  · rw [hinput, Arr.fill_of_lt (by omega), UInt64.toUInt32_sub, UInt64.toUInt32_add, hround₆,
      toUInt32_coreInput input k c (by omega), hplace₆, toUInt32_ld32, UInt32.add_sub_cancel]

/-- The words of a key are stored in two halves. -/
theorem wordAt_keyStores (v w : Nat → UInt64) (out : Bytes) {n i : Nat} (hn : n ≤ 4) (hi : i < n) :
    let out' := forUp (fun i out => st32 (st32 out (4 * i) (v i)) (16 + 4 * i) (w i)) n out
    wordAt out' (4 * i) = (v i).toUInt32 ∧ wordAt out' (16 + 4 * i) = (w i).toUInt32 := by
  induction n with
  | zero => exact absurd hi (Nat.not_lt_zero i)
  | succ n ih =>
      dsimp only
      rw [forUp_succ]
      rcases Nat.lt_succ_iff_lt_or_eq.mp hi with hlt | rfl
      · obtain ⟨hfirst, hsecond⟩ := ih (by omega) hlt
        rw [wordAt_st32_of_ne (by omega), wordAt_st32_of_ne (by omega),
          wordAt_st32_of_ne (by omega), wordAt_st32_of_ne (by omega)]
        exact ⟨hfirst, hsecond⟩
      · rw [wordAt_st32_of_ne (by omega)]
        exact ⟨wordAt_st32 _ _ _, wordAt_st32 _ _ _⟩

theorem keyStores_changed (v w : Nat → UInt64) (out : Bytes) :
    ChangedWithin 0 32 out
      (forUp (fun i out => st32 (st32 out (4 * i) (v i)) (16 + 4 * i) (w i)) 4 out) := by
  intro a ha
  refine forUp_invariant (I := fun _ (out' : Bytes) => out' a = out a) rfl fun i out' hi hout => ?_
  rw [st32_eq, write_behind (by omega), st32_eq, write_behind (by omega), hout]

theorem wordAt_hsalsa20 (out input k c : Bytes) {i : Nat} (hi : i < 4) (h₅ : 5 * i < 16)
    (h₆ : 6 + i < 16) :
    wordAt (cryptoCoreHsalsa20 out input k c) (4 * i)
        = (doubleround^[10] (salsa20Input input k c))[5 * i] ∧
      wordAt (cryptoCoreHsalsa20 out input k c) (16 + 4 * i)
        = (doubleround^[10] (salsa20Input input k c))[6 + i] := by
  obtain ⟨hfirst, hsecond⟩ := toUInt32_keyWords input k c hi h₅ h₆
  dsimp only [cryptoCoreHsalsa20, core]
  rw [if_pos rfl, ← hfirst, ← hsecond]
  exact wordAt_keyStores _ _ out (Nat.le_refl 4) hi

theorem wordAt_cryptoCoreHsalsa20 (out input k c : Bytes) (i : Fin 8) :
    wordAt (cryptoCoreHsalsa20 out input k c) (4 * i) = (hsalsa20 input k c).get i :=
  wordAt_keyVector (fun _ hi => wordAt_hsalsa20 out input k c hi) i

/-- The two cores are Salsa20 and HSalsa20, though their words have 64 bits, and they write 64 and 32
bytes. -/
theorem core_salsa20 (out input k c : Bytes) :
    (∀ i : Fin 16, wordAt (cryptoCoreSalsa20 out input k c) (4 * i) = (salsa20 input k c).get i) ∧
      (∀ i : Fin 8, wordAt (cryptoCoreHsalsa20 out input k c) (4 * i) = (hsalsa20 input k c).get i) ∧
      ChangedWithin 0 64 out (cryptoCoreSalsa20 out input k c) ∧
      ChangedWithin 0 32 out (cryptoCoreHsalsa20 out input k c) := by
  refine ⟨fun i => wordAt_salsa20 out input k c i.isLt, wordAt_cryptoCoreHsalsa20 out input k c,
    ?_, ?_⟩
  · dsimp only [cryptoCoreSalsa20, core]
    rw [if_neg Bool.false_ne_true]
    exact stores_changed _ out 16
  · dsimp only [cryptoCoreHsalsa20, core]
    rw [if_pos rfl]
    exact keyStores_changed _ _ out

end CmakeTemplate
