/-
The authenticator evaluates a polynomial.

No sum in `crypto_onetimeauth` overflows its word, so every loop does to the numbers what it
looks like: `add1305` adds modulo `2 ^ 136`, the product and the carries behind it multiply
modulo `2 ^ 130 - 5` as far as to a number of 130 bits and a little, and subtracting the prime
at the end where that leaves something is enough for the remainder.

Between two blocks the sum is not reduced but bounded: it is less than twice the prime, in
bytes that are bytes, and congruent to the value of the polynomial so far.  That is the
invariant of the loop over the message.  A block enters as the next coefficient, as in
Horner's rule; the blocks are numbered from the front, and the last one may be shorter.
-/
import CmakeTemplate.Poly1305
import Mathlib.Data.ZMod.Basic
import Mathlib.Tactic.IntervalCases

namespace CmakeTemplate

open Lib

/-- The number in an array. -/
def numberOf (h : Arr UInt64) : Nat := digitSum 256 17 fun j => (h j).toNat

/-- All slots are bytes. -/
def IsBytes (h : Arr UInt64) : Prop := ∀ j, j < 17 → (h j).toNat < 256

/-- The last slot is what is left of the number behind the others. -/
theorem numberOf_split (h : Arr UInt64) :
    numberOf h = digitSum 256 16 (fun j => (h j).toNat) + (h 16).toNat * 256 ^ 16 :=
  digitSum_succ

/-! ### Carrying

A loop that takes the low byte of a sum and hands on the rest keeps the number.
-/

theorem toNat_and_255 (x : UInt64) : (x &&& 255).toNat = x.toNat % 256 := by
  rw [UInt64.toNat_and]
  exact Nat.and_two_pow_sub_one_eq_mod x.toNat 8

theorem toNat_shiftRight_8 (x : UInt64) : (x >>> 8).toNat = x.toNat / 256 := by
  rw [UInt64.toNat_shiftRight]
  exact Nat.shiftRight_eq_div_pow x.toNat 8

theorem toNat_add_of_lt {x y : UInt64} (h : x.toNat + y.toNat < 2 ^ 64) :
    (x + y).toNat = x.toNat + y.toNat := by
  rw [UInt64.toNat_add, Nat.mod_eq_of_lt h]

theorem toNat_mul_of_lt {x y : UInt64} (h : x.toNat * y.toNat < 2 ^ 64) :
    (x * y).toNat = x.toNat * y.toNat := by
  rw [UInt64.toNat_mul, Nat.mod_eq_of_lt h]

section
variable {g : Nat → UInt64 → UInt64} {n : Nat} {u : UInt64} {a : Arr UInt64}

theorem carried_le (hu : u.toNat ≤ 2 ^ 32) (hg : ∀ j, j < n → (g j (a j)).toNat ≤ 2 ^ 32) :
    (sweep (carryByte g) n u a).1.toNat ≤ 2 ^ 25 + u.toNat := by
  induction n with
  | zero => exact Nat.le_add_left _ _
  | succ n ih =>
      have hcarried := ih fun j hj => hg j (Nat.lt_succ_of_lt hj)
      have hslot := hg n (Nat.lt_succ_self n)
      rw [sweep_succ_fst, carryByte, toNat_shiftRight_8, toNat_add_of_lt (by omega)]
      omega

/-- A loop that carries leaves bytes, and what they lack of the sum is what it has carried. -/
theorem carried_sum (hu : u.toNat ≤ 2 ^ 32) (hg : ∀ j, j < n → (g j (a j)).toNat ≤ 2 ^ 32) :
    (∀ j, j < n → ((sweep (carryByte g) n u a).2 j).toNat < 256) ∧
      u.toNat + digitSum 256 n (fun j => (g j (a j)).toNat)
        = digitSum 256 n (fun j => ((sweep (carryByte g) n u a).2 j).toNat)
          + 256 ^ n * (sweep (carryByte g) n u a).1.toNat := by
  have hstep : ∀ j, j < n →
      ((sweep (carryByte g) j u a).1 + g j (a j)).toNat
        = (sweep (carryByte g) j u a).1.toNat + (g j (a j)).toNat := by
    intro j hj
    have hcarried := carried_le (n := j) hu fun i hi => hg i (hi.trans hj)
    have hslot := hg j hj
    exact toNat_add_of_lt (by omega)
  constructor
  · intro j hj
    rw [sweep_of_lt hj, carryByte, toNat_and_255]
    exact Nat.mod_lt _ (by decide)
  · refine digitSum_carry (u := fun j => (sweep (carryByte g) j u a).1.toNat) fun j hj => ?_
    rw [sweep_of_lt hj, sweep_succ_fst, carryByte, toNat_and_255, toNat_shiftRight_8, hstep j hj]
    exact (Nat.mod_add_div _ _).symm

end

/-! ### Adding

The last slot keeps what a carry out of it would be, modulo its eight bits.
-/

section
variable {h c : Arr UInt64}

/-- `add1305` adds modulo `2 ^ 136`. -/
theorem add1305_spec (hh : IsBytes h) (hc : IsBytes c) :
    IsBytes (add1305 h c) ∧ numberOf (add1305 h c) = (numberOf h + numberOf c) % 256 ^ 17 := by
  have hslot : ∀ j, j < 17 → (h j + c j).toNat = (h j).toNat + (c j).toNat := by
    intro j hj
    have hhj := hh j hj
    have hcj := hc j hj
    exact toNat_add_of_lt (by omega)
  have hle : ∀ j, j < 17 → (h j + c j).toNat ≤ 2 ^ 32 := by
    intro j hj
    have hhj := hh j hj
    have hcj := hc j hj
    rw [hslot j hj]
    omega
  obtain ⟨hbytes, hsum⟩ :=
    carried_sum (g := fun j hj => hj + c j) (u := 0) (a := h) (Nat.zero_le _) hle
  rw [← add1305] at hbytes hsum
  refine ⟨hbytes, ?_⟩
  have hnumber : numberOf h + numberOf c = digitSum 256 17 fun j => (h j + c j).toNat := by
    rw [numberOf, numberOf, ← digitSum_add]
    exact digitSum_congr fun j hj => (hslot j hj).symm
  rw [UInt64.toNat_zero, Nat.zero_add, ← hnumber] at hsum
  rw [hsum, Nat.add_mul_mod_self_left]
  exact (Nat.mod_eq_of_lt (digitSum_lt hbytes)).symm

theorem add1305_of_lt (hh : IsBytes h) (hc : IsBytes c) (hlt : numberOf h + numberOf c < 256 ^ 17) :
    numberOf (add1305 h c) = numberOf h + numberOf c := by
  rw [(add1305_spec hh hc).2, Nat.mod_eq_of_lt hlt]

end

/-! ### Multiplying

A byte that comes out behind the 17th slot counts 320 times as much at the bottom, as `2 ^
136` is 64 times 5.
-/

instance : NeZero p1305 := ⟨by decide⟩

/-- A 1 behind the last slot counts 320. -/
theorem pow_p1305 : (256 : ZMod p1305) ^ 17 = 320 := by
  have h : ((256 ^ 17 : Nat) : ZMod p1305) = ((320 : Nat) : ZMod p1305) := by
    rw [ZMod.natCast_eq_natCast_iff]
    decide
  exact_mod_cast h

section
variable {h r x : Arr UInt64}

/-- The slots of the product, which stay small. -/
theorem authProduct_slot (hh : IsBytes h) (hr : IsBytes r) {i : Nat} (hi : i < 17) :
    (authProduct h r i).toNat
        = ∑ j ∈ Finset.range 17, (h j).toNat *
            (if j ≤ i then (r (i - j)).toNat else 320 * (r (i + 17 - j)).toNat) ∧
      (authProduct h r i).toNat ≤ 2 ^ 30 := by
  have hfactor : ∀ j, j < 17 →
      (if j ≤ i then r (i - j) else 320 * r (i + 17 - j)).toNat
          = (if j ≤ i then (r (i - j)).toNat else 320 * (r (i + 17 - j)).toNat) ∧
        (if j ≤ i then (r (i - j)).toNat else 320 * (r (i + 17 - j)).toNat) ≤ 320 * 255 := by
    intro j hj
    by_cases hji : j ≤ i
    · have hslot := hr (i - j) (by omega)
      rw [if_pos hji, if_pos hji]
      exact ⟨rfl, by omega⟩
    · have hslot := hr (i + 17 - j) (by omega)
      have hconst : (320 : UInt64).toNat = 320 := rfl
      rw [if_neg hji, if_neg hji, toNat_mul_of_lt (by rw [hconst]; omega), hconst]
      exact ⟨rfl, by omega⟩
  have hloop := forUp_invariant
    (f := fun j x => x + h j * (if j ≤ i then r (i - j) else 320 * r (i + 17 - j)))
    (n := 17) (s := (0 : UInt64))
    (I := fun n x => x.toNat = ∑ j ∈ Finset.range n, (h j).toNat *
        (if j ≤ i then (r (i - j)).toNat else 320 * (r (i + 17 - j)).toNat) ∧
      x.toNat ≤ n * 2 ^ 25)
    ⟨rfl, Nat.le_of_eq rfl⟩
    (by
      rintro j x hj ⟨hsum, hle⟩
      obtain ⟨hcast, hbound⟩ := hfactor j hj
      have hterm : (h j).toNat *
          (if j ≤ i then (r (i - j)).toNat else 320 * (r (i + 17 - j)).toNat) ≤ 255 * (320 * 255) :=
        Nat.mul_le_mul (Nat.le_of_lt_succ (hh j hj)) hbound
      rw [toNat_add_of_lt, toNat_mul_of_lt, hcast, Finset.sum_range_succ, hsum]
      · rw [hsum] at hle
        exact ⟨rfl, by omega⟩
      · rw [hcast]
        omega
      · rw [toNat_mul_of_lt (by rw [hcast]; omega), hcast]
        omega)
  rw [authProduct, Arr.fill_of_lt hi]
  exact ⟨hloop.1, hloop.2.trans (by decide)⟩

/-- The product is that of the numbers. -/
theorem authProduct_number (hh : IsBytes h) (hr : IsBytes r) :
    (numberOf (authProduct h r) : ZMod p1305) = numberOf h * numberOf r := by
  have hslots : numberOf (authProduct h r) = digitSum 256 17 fun i =>
      ∑ j ∈ Finset.range 17, (h j).toNat *
        (if j ≤ i then (r (i - j)).toNat else 320 * (r (i + 17 - j)).toNat) := by
    rw [numberOf]
    exact digitSum_congr fun i hi => (authProduct_slot hh hr hi).1
  rw [hslots, numberOf, numberOf, digitSum_cast, digitSum_cast, digitSum_cast]
  simp only [Nat.cast_sum, Nat.cast_mul, Nat.cast_ite, Nat.cast_ofNat]
  exact digitSum_cyclic pow_p1305 (fun j => ((h j).toNat : ZMod p1305))
    fun j => ((r j).toNat : ZMod p1305)

/-- The last slot of a number that is not too long. -/
theorem lastSlot_lt {m : Nat} (h : numberOf x < m * 256 ^ 16) : (x 16).toNat < m := by
  rw [numberOf_split] at h
  exact Nat.lt_of_mul_lt_mul_right ((Nat.le_add_left _ _).trans_lt h)

/-- What the loops that carry leave. -/
structure Carried (u : UInt64) (h : Arr UInt64) (s : UInt64 × Arr UInt64) : Prop where
  /-- All slots but the last are bytes. -/
  bytes : ∀ j, j < 16 → (s.2 j).toNat < 256
  /-- What they lack of the sum has been carried. -/
  sum : u.toNat + digitSum 256 16 (fun j => (h j).toNat)
    = digitSum 256 16 (fun j => (s.2 j).toNat) + 256 ^ 16 * s.1.toNat
  /-- That is little. -/
  carried : s.1.toNat ≤ 2 ^ 25 + u.toNat
  /-- The last slot is as it was. -/
  last : s.2 16 = h 16

theorem carried_carry1305 {u : UInt64} (hu : u.toNat ≤ 2 ^ 32)
    (hh : ∀ j, j < 16 → (h j).toNat ≤ 2 ^ 32) : Carried u h (carry1305 u h) := by
  obtain ⟨hbytes, hsum⟩ := carried_sum (g := fun _ hj => hj) hu hh
  exact ⟨hbytes, hsum, carried_le (g := fun _ hj => hj) hu hh, sweep_of_le (Nat.le_refl 16)⟩

theorem toNat_and_3 (u : UInt64) : (u &&& 3).toNat = u.toNat % 4 := by
  rw [UInt64.toNat_and]
  exact Nat.and_two_pow_sub_one_eq_mod u.toNat 2

theorem toNat_five_mul_shiftRight {u : UInt64} (hu : u.toNat ≤ 2 ^ 32) :
    ((5 : UInt64) * (u >>> 2)).toNat = 5 * (u.toNat / 4) := by
  have hconst : (5 : UInt64).toNat = 5 := rfl
  have hshift : (u >>> 2).toNat = u.toNat / 4 := by
    rw [UInt64.toNat_shiftRight]
    exact Nat.shiftRight_eq_div_pow u.toNat 2
  rw [toNat_mul_of_lt (by rw [hshift, hconst]; omega), hshift, hconst]

/-- The slots in front of the last one do not see it change. -/
theorem digitSum_set_last (v : UInt64) :
    digitSum 256 16 (fun j => (h.set 16 v j).toNat) = digitSum 256 16 fun j => (h j).toNat :=
  digitSum_congr fun j hj => by rw [Arr.set_of_ne (Nat.ne_of_lt hj)]

theorem numberOf_set_last (v : UInt64) :
    numberOf (h.set 16 v) = digitSum 256 16 (fun j => (h j).toNat) + v.toNat * 256 ^ 16 := by
  rw [numberOf_split, digitSum_set_last, Arr.set_self]

/-- Carrying twice takes what is behind the 130th bit and adds it five times at the bottom. -/
theorem squeeze1305_number (hx : ∀ i, i < 17 → (x i).toNat ≤ 2 ^ 30) :
    (∀ j, j < 16 → (squeeze1305 x j).toNat < 256) ∧
      ∃ low high, low < 2 ^ 130 ∧ high ≤ 2 ^ 29 ∧ numberOf x = low + 2 ^ 130 * high ∧
        numberOf (squeeze1305 x) = low + 5 * high := by
  have hslots : ∀ j, j < 16 → (x j).toNat ≤ 2 ^ 32 := by
    intro j hj
    have hslot := hx j (by omega)
    omega
  have hx₁₆ := hx 16 (by decide)
  have hfirst := carried_carry1305 (u := 0) (Nat.zero_le _) hslots
  dsimp only [squeeze1305]
  generalize carry1305 0 x = s₁ at hfirst ⊢
  obtain ⟨hbytes₁, hsum₁, hcarried₁, hlast₁⟩ := hfirst
  rw [UInt64.toNat_zero] at hsum₁ hcarried₁
  -- `u` is what is behind the 128th bit
  have hu : (s₁.1 + s₁.2 16).toNat = s₁.1.toNat + (x 16).toNat := by
    rw [hlast₁]
    exact toNat_add_of_lt (by omega)
  generalize s₁.1 + s₁.2 16 = u at hu ⊢
  have hfive := toNat_five_mul_shiftRight (u := u) (by omega)
  have hsecond := carried_carry1305 (u := (5 : UInt64) * (u >>> 2)) (h := s₁.2.set 16 (u &&& 3))
    (by omega) fun j hj => by
      rw [Arr.set_of_ne (Nat.ne_of_lt hj)]
      exact (hbytes₁ j hj).le.trans (by decide)
  generalize carry1305 ((5 : UInt64) * (u >>> 2)) (s₁.2.set 16 (u &&& 3)) = s₂ at hsecond ⊢
  obtain ⟨hbytes₂, hsum₂, hcarried₂, hlast₂⟩ := hsecond
  rw [digitSum_set_last, hfive] at hsum₂
  rw [hfive] at hcarried₂
  rw [Arr.set_self] at hlast₂
  have htop : (s₂.1 + s₂.2 16).toNat = s₂.1.toNat + u.toNat % 4 := by
    rw [hlast₂, toNat_add_of_lt (by rw [toNat_and_3]; omega), toNat_and_3]
  have hlow := digitSum_lt hbytes₁
  refine ⟨fun j hj => ?_, digitSum 256 16 (fun j => (s₁.2 j).toNat) + u.toNat % 4 * 256 ^ 16,
    u.toNat / 4, ?_, ?_, ?_, ?_⟩
  · rw [Arr.set_of_ne (Nat.ne_of_lt hj)]
    exact hbytes₂ j hj
  · omega
  · omega
  · rw [numberOf_split]
    omega
  · rw [numberOf_set_last, htop]
    omega

/-- The turn leaves bytes, a number less than twice the prime, and the same remainder. -/
theorem squeeze1305_spec (hx : ∀ i, i < 17 → (x i).toNat ≤ 2 ^ 30) :
    IsBytes (squeeze1305 x) ∧ numberOf (squeeze1305 x) < 2 * p1305 ∧
      (numberOf (squeeze1305 x) : ZMod p1305) = numberOf x := by
  obtain ⟨hbytes, low, high, hlow, hhigh, hx, hsqueeze⟩ := squeeze1305_number hx
  have hp : (p1305 : Nat) = 2 ^ 130 - 5 := rfl
  have hlt : numberOf (squeeze1305 x) < 2 * p1305 := by omega
  refine ⟨fun j hj => ?_, hlt, ?_⟩
  · rcases Nat.lt_or_ge j 16 with hj' | hj'
    · exact hbytes j hj'
    · have hlast : (squeeze1305 x 16).toNat < 8 := lastSlot_lt (by omega)
      have hj₁₆ : j = 16 := by omega
      rw [hj₁₆]
      omega
  · have hadd : numberOf x = numberOf (squeeze1305 x) + p1305 * high := by
      rw [hp]
      omega
    rw [hadd, Nat.cast_add, Nat.cast_mul, ZMod.natCast_self, zero_mul, add_zero]

end

/-! ### The remainder

A mask chooses between the number and the number less the prime, by the highest bit of the
difference.
-/

theorem isBytes_minusp : IsBytes minusp := by
  unfold IsBytes
  decide

theorem numberOf_minusp : numberOf minusp = 256 ^ 17 - p1305 := by decide

/-- `h ^= s & (g ^ h)`. -/
theorem select_xor (g h : UInt64) :
    h ^^^ (-(0 : UInt64) &&& (g ^^^ h)) = h ∧ h ^^^ (-(1 : UInt64) &&& (g ^^^ h)) = g := by
  constructor
  · simp
  · have hones : (-(1 : UInt64) &&& (g ^^^ h)) = g ^^^ h := by simp
    rw [hones, UInt64.xor_comm g h, ← UInt64.xor_assoc, UInt64.xor_self, UInt64.zero_xor]

/-- Subtracting the prime where it can be leaves the remainder. -/
theorem freeze1305_spec {g : Arr UInt64} (hg : IsBytes g) (hlt : numberOf g < 2 * p1305) :
    IsBytes (freeze1305 g) ∧ numberOf (freeze1305 g) = numberOf g % p1305 := by
  obtain ⟨hbytes, hsum⟩ := add1305_spec hg isBytes_minusp
  have hp : (p1305 : Nat) = 2 ^ 130 - 5 := rfl
  have hshift : (add1305 g minusp 16 >>> 7).toNat = (add1305 g minusp 16).toNat / 2 ^ 7 := by
    rw [UInt64.toNat_shiftRight]
    exact Nat.shiftRight_eq_div_pow _ 7
  have hsplit := numberOf_split (add1305 g minusp)
  have hrest : digitSum 256 16 (fun j => (add1305 g minusp j).toNat) < 256 ^ 16 :=
    digitSum_lt fun j hj => hbytes j (by omega)
  have hlast := hbytes 16 (by decide)
  rw [numberOf_minusp] at hsum
  by_cases hge : p1305 ≤ numberOf g
  · have hless : numberOf (add1305 g minusp) = numberOf g - p1305 := by omega
    have hbit : add1305 g minusp 16 >>> 7 = 0 := by
      refine UInt64.toNat_inj.mp ?_
      rw [hshift, UInt64.toNat_zero]
      omega
    have hslot : ∀ j, j < 17 → freeze1305 g j = add1305 g minusp j := by
      intro j hj
      rw [freeze1305, Arr.fill_of_lt hj, hbit]
      exact (select_xor _ _).1
    refine ⟨fun j hj => by rw [hslot j hj]; exact hbytes j hj, ?_⟩
    have hnumber : numberOf (freeze1305 g) = numberOf (add1305 g minusp) :=
      digitSum_congr fun j hj => by rw [hslot j hj]
    rw [hnumber, hless, Nat.mod_eq_sub_mod hge, Nat.mod_eq_of_lt (by omega)]
  · have hmore : numberOf (add1305 g minusp) = numberOf g + (256 ^ 17 - p1305) := by omega
    have hbit : add1305 g minusp 16 >>> 7 = 1 := by
      refine UInt64.toNat_inj.mp ?_
      rw [hshift, UInt64.toNat_one]
      omega
    have hslot : ∀ j, j < 17 → freeze1305 g j = g j := by
      intro j hj
      rw [freeze1305, Arr.fill_of_lt hj, hbit]
      exact (select_xor _ _).2
    refine ⟨fun j hj => by rw [hslot j hj]; exact hg j hj, ?_⟩
    have hnumber : numberOf (freeze1305 g) = numberOf g :=
      digitSum_congr fun j hj => by rw [hslot j hj]
    rw [hnumber, Nat.mod_eq_of_lt (by omega)]

/-! ### The message

The first block has its coefficient multiplied once for every block behind it, and once more.
-/

theorem isBytes_zero1305 : IsBytes zero1305 := fun _ _ => Nat.zero_lt_succ 255

theorem numberOf_zero1305 : numberOf zero1305 = 0 := by decide

theorem littleEndian_lt (b : Bytes) (off n : Nat) : littleEndian b off n < 256 ^ n :=
  digitSum_lt fun _ _ => UInt8.toNat_lt _

/-- The bytes in front, and zeroes behind. -/
theorem fill_bytes (b : Bytes) (off : Nat) {n : Nat} (hn : n ≤ 17) :
    IsBytes (zero1305.fill n fun i => (b (off + i)).toUInt64) ∧
      numberOf (zero1305.fill n fun i => (b (off + i)).toUInt64) = littleEndian b off n := by
  have hlow : ∀ j, j < n →
      (zero1305.fill n (fun i => (b (off + i)).toUInt64) j).toNat = (b (off + j)).toNat := by
    intro j hj
    rw [Arr.fill_of_lt hj, UInt8.toNat_toUInt64]
  have hhigh : ∀ j, n ≤ j → (zero1305.fill n (fun i => (b (off + i)).toUInt64) j).toNat = 0 := by
    intro j hj
    rw [Arr.fill_of_le hj]
    rfl
  constructor
  · intro j _
    rcases Nat.lt_or_ge j n with hj | hj
    · rw [hlow j hj]
      exact UInt8.toNat_lt _
    · rw [hhigh j hj]
      decide
  · obtain ⟨k, hk⟩ := Nat.exists_eq_add_of_le hn
    have hzero : digitSum 256 k (fun i =>
        (zero1305.fill n (fun i => (b (off + i)).toUInt64) (n + i)).toNat) = 0 :=
      Finset.sum_eq_zero fun i _ => by
        dsimp only
        rw [hhigh (n + i) (Nat.le_add_right n i), Nat.zero_mul]
    rw [numberOf, hk, digitSum_split, hzero, Nat.mul_zero, Nat.add_zero]
    exact digitSum_congr hlow

theorem authBlock_spec (m : Bytes) (off : Nat) {j : Nat} (hj : j ≤ 16) :
    IsBytes (authBlock m off j) ∧ numberOf (authBlock m off j) = littleEndian m off j + 256 ^ j := by
  obtain ⟨hbytes, hnumber⟩ := fill_bytes m off (n := j) (by omega)
  constructor
  · intro i hi
    unfold authBlock
    rcases eq_or_ne i j with rfl | hne
    · rw [Arr.set_self]
      decide
    · rw [Arr.set_of_ne hne]
      exact hbytes i hi
  · have hslots : numberOf (authBlock m off j) = digitSum 256 17 (Function.update
        (fun i => (zero1305.fill j (fun i => (m (off + i)).toUInt64) i).toNat) j 1) := by
      refine digitSum_congr fun i _ => ?_
      unfold authBlock
      rcases eq_or_ne i j with rfl | hne
      · rw [Arr.set_self, Function.update_self]
        rfl
      · rw [Arr.set_of_ne hne, Function.update_of_ne hne]
    have hupdate := digitSum_update (b := 256) (n := 17) (i := j)
      (a := fun i => (zero1305.fill j (fun i => (m (off + i)).toUInt64) i).toNat) (by omega) 1
    have hslot : (zero1305.fill j (fun i => (m (off + i)).toUInt64) j).toNat = 0 := by
      rw [Arr.fill_of_le (Nat.le_refl j)]
      rfl
    rw [hslot, Nat.zero_mul, Nat.add_zero, Nat.one_mul] at hupdate
    rw [hslots, hupdate, ← hnumber]
    rfl

/-- The blocks of the `n` bytes from `off` on. -/
def blocksFrom (m : Bytes) (off n : Nat) : List Nat :=
  (List.range ((n + 15) / 16)).map fun i => blockNumber m (off + 16 * i) (n - 16 * i)

theorem blocksFrom_zero (m : Bytes) (off : Nat) : blocksFrom m off 0 = [] := rfl

/-- The first block, and those behind it. -/
theorem blocksFrom_of_pos (m : Bytes) (off : Nat) {n : Nat} (hn : 0 < n) :
    blocksFrom m off n
      = blockNumber m off n :: blocksFrom m (off + min 16 n) (n - min 16 n) := by
  have hcount : (n + 15) / 16 = (n - min 16 n + 15) / 16 + 1 := by omega
  rw [blocksFrom, hcount, List.range_succ_eq_map, List.map_cons, List.map_map]
  refine congrArg _ (List.map_congr_left fun i hi => ?_)
  have hi := List.mem_range.mp hi
  have hoff : off + 16 * (i + 1) = off + min 16 n + 16 * i := by omega
  have hrest : n - 16 * (i + 1) = n - min 16 n - 16 * i := by omega
  rw [Function.comp_apply, hoff, hrest]

section
variable {m : Bytes} {r h : Arr UInt64}

/-- One turn of the loop. -/
theorem authTurn_spec (hr : IsBytes r) (hh : IsBytes h) (hlt : numberOf h < 2 * p1305)
    (off n : Nat) :
    let h' := squeeze1305 (authProduct (add1305 h (authBlock m off (min 16 n))) r)
    IsBytes h' ∧ numberOf h' < 2 * p1305 ∧
      (numberOf h' : ZMod p1305) = (numberOf h + blockNumber m off n) * numberOf r := by
  obtain ⟨hblock, hnumber⟩ := authBlock_spec m off (Nat.min_le_left 16 n)
  have hshort : numberOf (authBlock m off (min 16 n)) < 2 * 256 ^ 16 := by
    have hbytes := littleEndian_lt m off (min 16 n)
    have hpow : 256 ^ min 16 n ≤ 256 ^ 16 :=
      Nat.pow_le_pow_right (by decide) (Nat.min_le_left 16 n)
    omega
  have hp : (p1305 : Nat) = 2 ^ 130 - 5 := rfl
  have hsum := add1305_of_lt hh hblock (by omega)
  have hbytes := (add1305_spec hh hblock).1
  obtain ⟨hbytes', hlt', hcast⟩ :=
    squeeze1305_spec fun i hi => (authProduct_slot hbytes hr hi).2
  refine ⟨hbytes', hlt', ?_⟩
  rw [hcast, authProduct_number hbytes hr, hsum, hnumber, blockNumber, Nat.cast_add]

omit m r h in
theorem horner_turn {R : Type} [CommRing R] (h b r p : R) (k : Nat) :
    (h + b) * r * r ^ k + r * p = h * r ^ (k + 1) + r * (b * r ^ k + p) := by
  ring

/-- The loop evaluates the polynomial of the message at `r`, and multiplies by it once more. -/
theorem authLoop_spec (hr : IsBytes r) (fuel off : Nat) {n : Nat} (hfuel : n ≤ fuel)
    (hh : IsBytes h) (hlt : numberOf h < 2 * p1305) :
    IsBytes (authLoop m r fuel off n h) ∧ numberOf (authLoop m r fuel off n h) < 2 * p1305 ∧
      (numberOf (authLoop m r fuel off n h) : ZMod p1305)
        = numberOf h * numberOf r ^ (blocksFrom m off n).length
          + numberOf r * (polynomial (numberOf r) (blocksFrom m off n) : Nat) := by
  have hstay : ∀ {h : Arr UInt64}, (numberOf h : ZMod p1305)
      = numberOf h * numberOf r ^ ([] : List Nat).length
        + numberOf r * (polynomial (numberOf r) [] : Nat) := by
    intro h
    rw [List.length_nil, pow_zero, mul_one, polynomial_nil, Nat.cast_zero, mul_zero, add_zero]
  induction fuel generalizing off n h with
  | zero =>
      obtain rfl : n = 0 := by omega
      rw [authLoop, blocksFrom_zero]
      exact ⟨hh, hlt, hstay⟩
  | succ fuel ih =>
      rcases Nat.eq_zero_or_pos n with rfl | hn
      · rw [authLoop, if_pos rfl, blocksFrom_zero]
        exact ⟨hh, hlt, hstay⟩
      · obtain ⟨hbytes, hlt', hcast⟩ := authTurn_spec (m := m) hr hh hlt off n
        obtain ⟨hloop, hloop', hloopCast⟩ :=
          ih (off + min 16 n) (n := n - min 16 n) (by omega) hbytes hlt'
        rw [authLoop, if_neg (by omega), blocksFrom_of_pos m off hn]
        refine ⟨hloop, hloop', ?_⟩
        rw [hloopCast, hcast, List.length_cons, polynomial_cons, Nat.cast_add, Nat.cast_mul,
          Nat.cast_pow]
        exact horner_turn _ _ _ _ _

end

/-! ### The key

Twenty-two bits of the first half are cleared, before any of it is used.
-/

/-- What is left of a byte of the key. -/
def keyMask (j : Nat) : Nat :=
  if j = 3 ∨ j = 7 ∨ j = 11 ∨ j = 15 then 15
  else if j = 4 ∨ j = 8 ∨ j = 12 then 252
  else if j < 16 then 255
  else 0

theorem authKey_slot (k : Bytes) {j : Nat} (hj : j < 17) :
    (authKey k j).toNat = (k j).toNat &&& keyMask j := by
  have hbyte : ∀ j, (k j).toNat &&& 255 = (k j).toNat := by
    intro j
    have hmod : (k j).toNat &&& 255 = (k j).toNat % 2 ^ 8 := Nat.and_two_pow_sub_one_eq_mod _ 8
    rw [hmod, Nat.mod_eq_of_lt (UInt8.toNat_lt _)]
  have hfill : ∀ j, (zero1305.fill 16 (fun j => (k j).toUInt64)) j
      = if j < 16 then (k j).toUInt64 else 0 := by
    intro j
    split
    case isTrue h => exact Arr.fill_of_lt h
    case isFalse h => exact Arr.fill_of_le (Nat.le_of_not_lt h)
  dsimp only [authKey]
  interval_cases j <;> simp [hfill, keyMask, hbyte]

theorem authKey_spec (k : Bytes) :
    IsBytes (authKey k) ∧ numberOf (authKey k) = littleEndian k 0 16 &&& clamp1305 := by
  have hbyte : ∀ j, j < 16 → (k j).toNat < 2 ^ 8 := fun j _ => UInt8.toNat_lt _
  have hmask : ∀ j, j < 16 → keyMask j < 2 ^ 8 := by decide
  have hslots : numberOf (authKey k) = digitSum (2 ^ 8) 17 fun j => (k j).toNat &&& keyMask j :=
    digitSum_congr fun j hj => authKey_slot k hj
  have hclamp : digitSum (2 ^ 8) 16 keyMask = clamp1305 := by decide
  have htop : (k 16).toNat &&& keyMask 16 = 0 := Nat.and_zero _
  constructor
  · intro j hj
    rw [authKey_slot k hj]
    exact Nat.and_le_left.trans_lt (UInt8.toNat_lt _)
  · rw [hslots, digitSum_succ, htop, Nat.zero_mul, Nat.add_zero,
      digitSum_and (by decide) hbyte hmask, hclamp]
    simp only [littleEndian, Nat.zero_add]
    rfl

theorem littleEndian_cryptoOnetimeauth (out m : Bytes) (n : Nat) (k : Bytes) :
    littleEndian (cryptoOnetimeauth out m n k) 0 16 = poly1305 m n k := by
  obtain ⟨hkey, hkeyNumber⟩ := authKey_spec k
  obtain ⟨hloop, hlt, hcast⟩ := authLoop_spec (m := m) hkey n 0 (Nat.le_refl n)
    isBytes_zero1305 (by rw [numberOf_zero1305]; decide)
  obtain ⟨hfrozen, hnumber⟩ := freeze1305_spec hloop hlt
  obtain ⟨hpad, hpadNumber⟩ := fill_bytes k 16 (n := 16) (by decide)
  obtain ⟨hbytes, hsum⟩ := add1305_spec hfrozen hpad
  have hblocks : blocksFrom m 0 n = blockNumbers m n := by
    simp only [blocksFrom, blockNumbers, Nat.zero_add]
  rw [numberOf_zero1305, hkeyNumber, hblocks, Nat.cast_zero, zero_mul, zero_add, ← Nat.cast_mul,
    ZMod.natCast_eq_natCast_iff'] at hcast
  have hout : littleEndian (cryptoOnetimeauth out m n k) 0 16
      = digitSum 256 16 fun j => (add1305 (freeze1305 (authLoop m (authKey k) n 0 n zero1305))
          (zero1305.fill 16 fun j => (k (16 + j)).toUInt64) j).toNat := by
    refine digitSum_congr fun j hj => ?_
    rw [Nat.zero_add, cryptoOnetimeauth, write_zero_at hj, UInt64.toNat_toUInt8]
    exact Nat.mod_eq_of_lt (hbytes j (by omega))
  rw [hout, ← digitSum_mod (n := 1) fun j hj => hbytes j (by omega)]
  rw [← numberOf, hsum, hnumber, hcast, hpadNumber, poly1305, Nat.mul_comm (polynomial _ _)]
  exact Nat.mod_mod_of_dvd _ (Nat.pow_dvd_pow 256 (by decide))

/-- The authenticator is Poly1305, in 16 bytes. -/
theorem cryptoOnetimeauth_poly1305 (out m : Bytes) (n : Nat) (k : Bytes) :
    littleEndian (cryptoOnetimeauth out m n k) 0 16 = poly1305 m n k ∧
      ChangedWithin 0 16 out (cryptoOnetimeauth out m n k) := by
  refine ⟨littleEndian_cryptoOnetimeauth out m n k, ?_⟩
  unfold cryptoOnetimeauth
  exact write_changed

end CmakeTemplate
