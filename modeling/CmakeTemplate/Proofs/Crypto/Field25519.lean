/-
The arithmetic of the field.

`car25519` carries from limb to limb, and brings what goes out at the top in at the bottom, 38
times, as `2 ^ 256` is 38 modulo the prime.  Two passes after a product leave limbs of 16 bits
and a little, so the sums and differences of two products are small enough for the next
product: no operation on the way overflows.

A number is its limbs, and two things are kept of them: the element of the field that they
stand for, and a bound on their size.  Each operation has one lemma that says both, with the
result there, so a caller goes on with the numbers and their bounds and never looks at a loop
again.  `pack25519` needs more, since its result is the remainder itself: after three passes
the limbs are those of a number below `2 ^ 256`, from which the prime is subtracted twice, if
it can be.
-/
import CmakeTemplate.Curve25519
import CmakeTemplate.Lib.Primality
import Mathlib.Tactic.LinearCombination

namespace CmakeTemplate

open Lib

/-- The number that the limbs stand for. -/
def Gf.number (g : Gf) : Int := digitSum (2 ^ 16) 16 g

/-- The element of the field. -/
def Gf.value (g : Gf) : ZMod p25519 := (Gf.number g : Int)

/-- All limbs are at most `b`, and so are their negatives. -/
def Gf.Within (b : Int) (g : Gf) : Prop := ∀ i, i < 16 → -b ≤ g i ∧ g i ≤ b

theorem Gf.Within.mono {b c : Int} {g : Gf} (h : Gf.Within b g) (hbc : b ≤ c) : Gf.Within c g := by
  intro i hi
  have hlimb := h i hi
  omega

theorem i64_of_le {v : Int} (h : -(2 ^ 63) ≤ v ∧ v ≤ 2 ^ 63 - 1) : i64 v = some v :=
  fit_eq_some h.1 h.2

/-! ### Carrying

What a pass carries out of a limb is a function of the limbs below it.
-/

/-- What the limbs before the `i`-th carry to it. -/
def carryOut (o : Nat → Int) : Nat → Int
  | 0 => 0
  | i + 1 => (carryOut o i + o i) / 2 ^ 16

theorem car25519Turn_eq {o : Gf} {i : Nat} (hi : i < 16) {j : Nat}
    (hj : j = if i < 15 then i + 1 else 0) (hoi : -(2 ^ 61) ≤ o i ∧ o i ≤ 2 ^ 61)
    (hoj : -(2 ^ 61) ≤ o j ∧ o j ≤ 2 ^ 61) :
    ∃ o', car25519Turn i o = some o' ∧ o' i = o i % 2 ^ 16 ∧
      o' j = o j + (if i = 15 then 38 else 1) * (o i / 2 ^ 16) ∧ ∀ k, k ≠ i → k ≠ j → o' k = o k := by
  have hne : j ≠ i := by
    rw [hj]
    split <;> omega
  have hcarry : (o i + 2 ^ 16) / 2 ^ 16 - 1 = o i / 2 ^ 16 := by omega
  have hturn : car25519Turn i o = some (((o.set i (o i + 2 ^ 16)).set j
      (o j + (o i / 2 ^ 16 + if i = 15 then 37 * (o i / 2 ^ 16) else 0))).set i
      (o i + 2 ^ 16 - (o i + 2 ^ 16) / 2 ^ 16 * 2 ^ 16)) := by
    have hv := i64_of_le (v := o i + 2 ^ 16) (by omega)
    have hd := i64_of_le (v := 37 * (o i / 2 ^ 16)) (by omega)
    have hs := i64_of_le (v := o i / 2 ^ 16 + if i = 15 then 37 * (o i / 2 ^ 16) else 0)
      (by split <;> omega)
    have hw := i64_of_le (v := o j + (o i / 2 ^ 16 + if i = 15 then 37 * (o i / 2 ^ 16) else 0))
      (by split <;> omega)
    have hx := i64_of_le (v := o i + 2 ^ 16 - (o i + 2 ^ 16) / 2 ^ 16 * 2 ^ 16) (by omega)
    simp only [car25519Turn, hv, hcarry, hd, hs, ← hj, Option.bind_eq_bind, Option.bind_some,
      Arr.set_of_ne hne, hw, Arr.set_of_ne hne.symm, Arr.set_self, hx]
    rfl
  refine ⟨_, hturn, ?_, ?_, ?_⟩
  · rw [Arr.set_self]
    omega
  · rw [Arr.set_of_ne hne, Arr.set_self]
    split <;> omega
  · intro k hki hkj
    rw [Arr.set_of_ne hki, Arr.set_of_ne hkj, Arr.set_of_ne hki]

theorem carryOut_le {o : Nat → Int} {i : Nat} (ho : ∀ j, j < i → -(2 ^ 60) ≤ o j ∧ o j ≤ 2 ^ 60) :
    -(2 ^ 45) ≤ carryOut o i ∧ carryOut o i ≤ 2 ^ 45 := by
  induction i with
  | zero =>
      rw [carryOut]
      omega
  | succ i ih =>
      have hcarry := ih fun j hj => ho j (Nat.lt_succ_of_lt hj)
      have hlimb := ho i (Nat.lt_succ_self i)
      rw [carryOut]
      omega

/-- What a pass leaves. -/
theorem car25519_eq {o : Gf} (ho : Gf.Within (2 ^ 60) o) :
    ∃ o', car25519 o = some o' ∧ o' 0 = o 0 % 2 ^ 16 + 38 * carryOut o 16 ∧
      ∀ i, 0 < i → i < 16 → o' i = (carryOut o i + o i) % 2 ^ 16 := by
  have hcarry : ∀ i, i ≤ 16 → -(2 ^ 45) ≤ carryOut o i ∧ carryOut o i ≤ 2 ^ 45 :=
    fun i hi => carryOut_le fun j hj => ho j (by omega)
  -- the limbs below have been carried from, and the one the loop has come to has been carried to
  obtain ⟨s, hs, hdone, hnext, -⟩ := forUpM_invariant (n := 15) (s := o) (g := car25519Turn)
    (I := fun i s => (∀ j, j < i → s j = (carryOut o j + o j) % 2 ^ 16) ∧
      s i = carryOut o i + o i ∧ ∀ j, i < j → s j = o j)
    ⟨fun j hj => absurd hj (Nat.not_lt_zero j), (Int.zero_add _).symm, fun _ _ => rfl⟩
    (by
      intro i s hi ⟨hdone, hnext, hrest⟩
      have hlimb := ho i (by omega)
      have hlimb' := ho (i + 1) (by omega)
      have hi' := hcarry i (by omega)
      obtain ⟨s', hs', hself, hcarried, hframe⟩ := car25519Turn_eq (o := s) (j := i + 1)
        (by omega) (if_pos hi).symm (by omega) (by rw [hrest (i + 1) (by omega)]; omega)
      refine ⟨s', hs', fun j hj => ?_, ?_, fun j hj => ?_⟩
      · rcases Nat.lt_succ_iff_lt_or_eq.mp hj with hlt | rfl
        · rw [hframe j (by omega) (by omega), hdone j hlt]
        · rw [hself, hnext]
      · rw [hcarried, hrest (i + 1) (by omega), hnext, if_neg (by omega), carryOut]
        omega
      · rw [hframe j (by omega) (by omega), hrest j (by omega)])
  have hlimb := ho 15 (by decide)
  have hi' := hcarry 15 (by decide)
  have hfirst : s 0 = o 0 % 2 ^ 16 := by rw [hdone 0 (by decide), carryOut, Int.zero_add]
  obtain ⟨o', ho', hself, hcarried, hframe⟩ := car25519Turn_eq (o := s) (i := 15) (j := 0)
    (by decide) rfl (by omega) (by omega)
  refine ⟨o', by rw [car25519, forUpM, hs, Option.bind_some, ho'], ?_, ?_⟩
  · rw [hcarried, hfirst, hnext, if_pos rfl]
    rfl
  · intro i hpos hi
    rcases eq_or_ne i 15 with rfl | hne
    · rw [hself, hnext]
    · rw [hframe i hne hpos.ne', hdone i (by omega)]

/-- A limb after a pass, but for what the last one has brought in at the bottom. -/
def carried (o : Nat → Int) (i : Nat) : Int := (carryOut o i + o i) % 2 ^ 16

theorem digitSum_eq_carried (o : Nat → Int) :
    digitSum (2 ^ 16) 16 o = digitSum (2 ^ 16) 16 (carried o) + 2 ^ 256 * carryOut o 16 := by
  have hcarry := digitSum_carry (b := (2 ^ 16 : Int)) (n := 16) (x := o) (y := carried o)
    (u := carryOut o) fun i _ => (Int.emod_add_mul_ediv _ _).symm
  rw [carryOut, Int.zero_add] at hcarry
  rw [hcarry]
  congr 1

theorem car25519_number {o o' : Gf} (h0 : o' 0 = o 0 % 2 ^ 16 + 38 * carryOut o 16)
    (hrest : ∀ i, 0 < i → i < 16 → o' i = carried o i) :
    Gf.number o = Gf.number o' + 2 * p25519 * carryOut o 16 := by
  have hfirst : carried o 0 = o 0 % 2 ^ 16 := by rw [carried, carryOut, Int.zero_add]
  have hslots : Gf.number o' = digitSum (2 ^ 16) 16 (Function.update (carried o) 0 (o' 0)) := by
    refine digitSum_congr fun i hi => ?_
    rcases Nat.eq_zero_or_pos i with rfl | hpos
    · rw [Function.update_self]
    · rw [Function.update_of_ne hpos.ne', hrest i hpos hi]
  have hupdate := digitSum_update (b := (2 ^ 16 : Int)) (n := 16) (i := 0) (a := carried o)
    (by decide) (o' 0)
  have hp : (p25519 : Int) = 2 ^ 255 - 19 := by decide
  rw [← hslots, h0, hfirst, pow_zero] at hupdate
  rw [Gf.number, digitSum_eq_carried, hp]
  linear_combination -hupdate

theorem value_eq_of_number {g h : Gf} {k : Int}
    (heq : Gf.number g = Gf.number h + p25519 * k) : Gf.value g = Gf.value h := by
  rw [Gf.value, Gf.value, heq, Int.cast_add, Int.cast_mul, Int.cast_natCast, ZMod.natCast_self,
    zero_mul, add_zero]

/-- All limbs have 16 bits, but the first one may be `c` out of them. -/
def Gf.Carried (c : Int) (g : Gf) : Prop :=
  (-c ≤ g 0 ∧ g 0 < 2 ^ 16 + c) ∧ ∀ i, 0 < i → i < 16 → 0 ≤ g i ∧ g i < 2 ^ 16

theorem Gf.Carried.within {c : Int} {g : Gf} (h : Gf.Carried c g) (hc : c ≤ 2 ^ 16) :
    Gf.Within (2 ^ 17) g := by
  intro i hi
  rcases Nat.eq_zero_or_pos i with rfl | hpos
  · have hfirst := h.1
    omega
  · have hrest := h.2 i hpos hi
    omega

section
variable {o : Gf}

/-- A pass keeps the value. -/
theorem car25519_value (ho : Gf.Within (2 ^ 60) o) {c : Int}
    (hc : -c ≤ 38 * carryOut o 16 ∧ 38 * carryOut o 16 ≤ c) :
    ∃ o', car25519 o = some o' ∧ Gf.Carried c o' ∧ Gf.value o' = Gf.value o := by
  obtain ⟨o', ho', hfirst, hrest⟩ := car25519_eq ho
  refine ⟨o', ho', ⟨by rw [hfirst]; omega, fun i hpos hi => by rw [hrest i hpos hi]; omega⟩, ?_⟩
  refine (value_eq_of_number (k := 2 * carryOut o 16) ?_).symm
  rw [car25519_number hfirst hrest]
  ring

theorem carryOut_of_within (ho : Gf.Within (2 ^ 50) o) {i : Nat} (hi : i ≤ 16) :
    -(2 ^ 35) ≤ carryOut o i ∧ carryOut o i ≤ 2 ^ 35 := by
  induction i with
  | zero =>
      rw [carryOut]
      omega
  | succ i ih =>
      have hcarry := ih (by omega)
      have hlimb := ho i hi
      rw [carryOut]
      omega

/-- From the third limb on, nothing but the sign of a large first limb is carried. -/
theorem carryOut_of_carried (ho : Gf.Carried (2 ^ 41) o) {i : Nat} (hi : i ≤ 13) :
    -1 ≤ carryOut o (i + 3) ∧ carryOut o (i + 3) ≤ 1 := by
  induction i with
  | zero =>
      have hfirst := ho.1
      have hsecond := ho.2 1 (by decide) (by decide)
      have hthird := ho.2 2 (by decide) (by decide)
      simp only [carryOut]
      omega
  | succ i ih =>
      have hcarry := ih (by omega)
      have hlimb := ho.2 (i + 3) (by omega) (by omega)
      rw [Nat.add_right_comm, carryOut]
      omega

/-- Two passes. -/
theorem car25519_twice (ho : Gf.Within (2 ^ 50) o) :
    ∃ o' o'', car25519 o = some o' ∧ car25519 o' = some o'' ∧ Gf.Carried 38 o'' ∧
      Gf.value o'' = Gf.value o := by
  have hcarry := carryOut_of_within ho (Nat.le_refl 16)
  obtain ⟨o', ho', hcarried, hvalue⟩ :=
    car25519_value (c := 2 ^ 41) (ho.mono (by decide)) (by omega)
  have hwithin : Gf.Within (2 ^ 60) o' := by
    intro i hi
    rcases Nat.eq_zero_or_pos i with rfl | hpos
    · have hfirst := hcarried.1
      omega
    · have hrest := hcarried.2 i hpos hi
      omega
  have hcarry' : -1 ≤ carryOut o' 16 ∧ carryOut o' 16 ≤ 1 :=
    carryOut_of_carried hcarried (i := 13) (by decide)
  obtain ⟨o'', ho'', hcarried', hvalue'⟩ := car25519_value (c := 38) hwithin (by omega)
  exact ⟨o', o'', ho', ho'', hcarried', hvalue'.trans hvalue⟩

end

/-! ### Sums and differences

The limbs are added and subtracted one by one, and the bounds are added.
-/

section
variable {a b : Gf}

/-- A loop that writes one limb after the other. -/
theorem forUpM_slots {f : Nat → Option Int} {v : Nat → Int} (n : Nat)
    (hf : ∀ i, i < n → f i = some (v i)) (o : Gf) :
    ∃ o', forUpM (fun i o => return o.set i (← f i)) n o = some o' ∧ ∀ i, i < n → o' i = v i := by
  refine forUpM_invariant (I := fun i (o : Gf) => ∀ j, j < i → o j = v j)
    (fun j hj => absurd hj (Nat.not_lt_zero j)) fun i o hi hdone => ?_
  refine ⟨o.set i (v i), by simp [hf i hi], fun j hj => ?_⟩
  rcases Nat.lt_succ_iff_lt_or_eq.mp hj with hlt | rfl
  · rw [Arr.set_of_ne (Nat.ne_of_lt hlt), hdone j hlt]
  · rw [Arr.set_self]

theorem A_spec (ha : Gf.Within (2 ^ 17) a) (hb : Gf.Within (2 ^ 17) b) :
    ∃ o, Gf.A a b = some o ∧ Gf.Within (2 ^ 18) o ∧ Gf.value o = Gf.value a + Gf.value b := by
  obtain ⟨o, ho, hslots⟩ := forUpM_slots (f := fun i => i64 (a i + b i)) (v := fun i => a i + b i)
    16 (fun i hi => by
      have hai := ha i hi
      have hbi := hb i hi
      exact i64_of_le (by omega)) gf0
  refine ⟨o, ho, fun i hi => ?_, ?_⟩
  · have hai := ha i hi
    have hbi := hb i hi
    rw [hslots i hi]
    omega
  · rw [Gf.value, Gf.number, digitSum_congr hslots, digitSum_add, Int.cast_add]
    rfl

theorem Z_spec (ha : Gf.Within (2 ^ 17) a) (hb : Gf.Within (2 ^ 17) b) :
    ∃ o, Gf.Z a b = some o ∧ Gf.Within (2 ^ 18) o ∧ Gf.value o = Gf.value a - Gf.value b := by
  obtain ⟨o, ho, hslots⟩ := forUpM_slots (f := fun i => i64 (a i - b i)) (v := fun i => a i - b i)
    16 (fun i hi => by
      have hai := ha i hi
      have hbi := hb i hi
      exact i64_of_le (by omega)) gf0
  have hnumber : Gf.number o = Gf.number a - Gf.number b := by
    have hneg : (fun i => a i - b i) = fun i => a i + -1 * b i := by
      funext i
      ring
    rw [Gf.number, digitSum_congr hslots, hneg, digitSum_add, digitSum_mul_left]
    rw [Gf.number, Gf.number]
    ring
  refine ⟨o, ho, fun i hi => ?_, ?_⟩
  · have hai := ha i hi
    have hbi := hb i hi
    rw [hslots i hi]
    omega
  · rw [Gf.value, hnumber, Int.cast_sub]
    rfl

/-! ### Products

A product of limbs has 36 bits at most, and no slot gets more than 16 of them, so the sums
stay within the word.
-/

/-- One turn of the two loops; `n` turns before have added at most `n * 2 ^ 36`. -/
theorem mulTurn_spec (ha : Gf.Within (2 ^ 18) a) (hb : Gf.Within (2 ^ 18) b) {i j n : Nat}
    (hi : i < 16) (hj : j < 16) (hn : n < 256) {t : Gf}
    (ht : ∀ k, -(n * 2 ^ 36) ≤ t k ∧ t k ≤ n * 2 ^ 36) :
    ∃ t', Gf.mulTurn a b i j t = some t' ∧
      (∀ k, -((n + 1 : Nat) * 2 ^ 36) ≤ t' k ∧ t' k ≤ (n + 1 : Nat) * 2 ^ 36) ∧
      digitSum (2 ^ 16) 31 t' = digitSum (2 ^ 16) 31 t + a i * (2 ^ 16) ^ i * (b j * (2 ^ 16) ^ j) := by
  have hproduct : -(2 ^ 36) ≤ a i * b j ∧ a i * b j ≤ 2 ^ 36 := by
    have habs : |a i * b j| ≤ 2 ^ 18 * 2 ^ 18 := by
      rw [abs_mul]
      exact mul_le_mul (abs_le.mpr (ha i hi)) (abs_le.mpr (hb j hj)) (abs_nonneg _) (by decide)
    exact abs_le.mp habs
  have hslot := ht (i + j)
  have hturn : Gf.mulTurn a b i j t = some (t.set (i + j) (t (i + j) + a i * b j)) := by
    have hp := i64_of_le (v := a i * b j) (by omega)
    have hv := i64_of_le (v := t (i + j) + a i * b j) (by omega)
    simp only [Gf.mulTurn, hp, Option.bind_eq_bind, Option.bind_some, hv]
    rfl
  refine ⟨_, hturn, fun k => ?_, ?_⟩
  · have hk := ht k
    rcases eq_or_ne k (i + j) with rfl | hne
    · rw [Arr.set_self]
      push_cast
      omega
    · rw [Arr.set_of_ne hne]
      push_cast
      omega
  · have hupdate := digitSum_update (b := (2 ^ 16 : Int)) (n := 31) (i := i + j) (a := t.get)
      (by omega) (t (i + j) + a i * b j)
    rw [← Arr.get_set, pow_add] at hupdate
    linear_combination hupdate

/-- The inner loop multiplies `b` by a limb. -/
theorem mulRow_spec (ha : Gf.Within (2 ^ 18) a) (hb : Gf.Within (2 ^ 18) b) {i : Nat} (hi : i < 16)
    {t : Gf} (ht : ∀ k, -((16 * i : Nat) * 2 ^ 36) ≤ t k ∧ t k ≤ (16 * i : Nat) * 2 ^ 36) :
    ∃ t', forUpM (Gf.mulTurn a b i) 16 t = some t' ∧
      (∀ k, -((16 * (i + 1) : Nat) * 2 ^ 36) ≤ t' k ∧ t' k ≤ (16 * (i + 1) : Nat) * 2 ^ 36) ∧
      digitSum (2 ^ 16) 31 t' = digitSum (2 ^ 16) 31 t + a i * (2 ^ 16) ^ i * Gf.number b := by
  refine forUpM_invariant (I := fun j (s : Gf) =>
    (∀ k, -((16 * i + j : Nat) * 2 ^ 36) ≤ s k ∧ s k ≤ (16 * i + j : Nat) * 2 ^ 36) ∧
      digitSum (2 ^ 16) 31 s = digitSum (2 ^ 16) 31 t + a i * (2 ^ 16) ^ i * digitSum (2 ^ 16) j b)
    ⟨ht, by rw [digitSum_zero, mul_zero, add_zero]⟩ ?_
  intro j s hj ⟨hbound, hsum⟩
  obtain ⟨s', hs', hbound', hsum'⟩ := mulTurn_spec ha hb hi hj (by omega) hbound
  refine ⟨s', hs', hbound', ?_⟩
  rw [hsum', hsum, digitSum_succ (n := j)]
  ring

theorem mulAll_spec (ha : Gf.Within (2 ^ 18) a) (hb : Gf.Within (2 ^ 18) b) :
    ∃ t, forUpM (fun i t => forUpM (Gf.mulTurn a b i) 16 t) 16 gf0 = some t ∧
      (∀ k, -(2 ^ 44) ≤ t k ∧ t k ≤ 2 ^ 44) ∧
      digitSum (2 ^ 16) 31 t = Gf.number a * Gf.number b := by
  have hinit : digitSum (2 ^ 16) 31 gf0 = digitSum (2 ^ 16) 0 a * Gf.number b := by
    rw [digitSum_zero, zero_mul]
    decide
  refine forUpM_invariant (I := fun i (t : Gf) =>
    (∀ k, -((16 * i : Nat) * 2 ^ 36) ≤ t k ∧ t k ≤ (16 * i : Nat) * 2 ^ 36) ∧
      digitSum (2 ^ 16) 31 t = digitSum (2 ^ 16) i a * Gf.number b)
    ⟨fun k => ⟨Int.le_refl 0, Int.le_refl 0⟩, hinit⟩ ?_
  intro i t hi ⟨hbound, hsum⟩
  obtain ⟨t', ht', hbound', hsum'⟩ := mulRow_spec ha hb hi hbound
  refine ⟨t', ht', hbound', ?_⟩
  rw [hsum', hsum, digitSum_succ (n := i)]
  ring

/-- The limbs from the 16th on come in at the bottom, 38 times. -/
theorem foldLoop_spec {t : Gf} (ht : ∀ k, -(2 ^ 44) ≤ t k ∧ t k ≤ 2 ^ 44) :
    ∃ t', forUpM Gf.foldTurn 15 t = some t' ∧
      ∀ i, i < 16 → t' i = t i + if i < 15 then 38 * t (16 + i) else 0 := by
  obtain ⟨t', ht', hdone, hrest⟩ := forUpM_invariant (n := 15) (s := t) (g := Gf.foldTurn)
    (I := fun i (s : Gf) => (∀ j, j < i → s j = t j + 38 * t (16 + j)) ∧ ∀ j, i ≤ j → s j = t j)
    ⟨fun j hj => absurd hj (Nat.not_lt_zero j), fun _ _ => rfl⟩
    (by
      intro i s hi ⟨hdone, hrest⟩
      have hlow := ht i
      have hhigh := ht (16 + i)
      have hp := i64_of_le (v := 38 * t (16 + i)) (by omega)
      have hv := i64_of_le (v := t i + 38 * t (16 + i)) (by omega)
      refine ⟨s.set i (t i + 38 * t (16 + i)), ?_, fun j hj => ?_, fun j hj => ?_⟩
      · rw [Gf.foldTurn, hrest (i + 16) (by omega), Nat.add_comm i 16, hrest i (Nat.le_refl i), hp]
        simp [hv]
      · rcases Nat.lt_succ_iff_lt_or_eq.mp hj with hlt | rfl
        · rw [Arr.set_of_ne (Nat.ne_of_lt hlt), hdone j hlt]
        · rw [Arr.set_self]
      · rw [Arr.set_of_ne (by omega), hrest j (by omega)])
  refine ⟨t', ht', fun i hi => ?_⟩
  split
  case isTrue hlt => exact hdone i hlt
  case isFalse hge => rw [hrest i (by omega), add_zero]

/-- `M` multiplies. -/
theorem M_spec (ha : Gf.Within (2 ^ 18) a) (hb : Gf.Within (2 ^ 18) b) :
    ∃ o, Gf.M a b = some o ∧ Gf.Carried 38 o ∧ Gf.value o = Gf.value a * Gf.value b := by
  obtain ⟨t, ht, hbound, hsum⟩ := mulAll_spec ha hb
  obtain ⟨t', ht', hslots⟩ := foldLoop_spec hbound
  have hfill : ∀ i, i < 16 → gf0.fill 16 t' i = t i + if i < 15 then 38 * t (16 + i) else 0 :=
    fun i hi => by rw [Arr.fill_of_lt hi, hslots i hi]
  have hwithin : Gf.Within (2 ^ 50) (gf0.fill 16 t') := by
    intro i hi
    have hlow := hbound i
    have hhigh := hbound (16 + i)
    rw [hfill i hi]
    split <;> omega
  obtain ⟨o', o, ho', ho, hcarried, hvalue⟩ := car25519_twice hwithin
  refine ⟨o, by simp [Gf.M, ht, ht', ho', ho], hcarried, hvalue.trans ?_⟩
  have hfold : Gf.number (gf0.fill 16 t')
      = digitSum (2 ^ 16) 16 t + 38 * digitSum (2 ^ 16) 15 fun i => t (16 + i) := by
    have htop : digitSum (2 ^ 16 : Int) 16 (fun i => if i < 15 then t (16 + i) else 0)
        = digitSum (2 ^ 16) 15 fun i => t (16 + i) := by
      rw [digitSum_succ, if_neg (Nat.lt_irrefl 15), zero_mul, add_zero]
      exact digitSum_congr fun i hi => if_pos hi
    rw [Gf.number, digitSum_congr hfill, ← htop, ← digitSum_mul_left, ← digitSum_add]
    exact digitSum_congr fun i _ => by split <;> ring
  have hsplit := digitSum_split (b := (2 ^ 16 : Int)) (n := 15) (a := t.get) 16
  have hp : (p25519 : Int) = 2 ^ 255 - 19 := by decide
  have hnumber : Gf.number a * Gf.number b = Gf.number (gf0.fill 16 t')
      + p25519 * (2 * digitSum (2 ^ 16) 15 fun i => t (16 + i)) := by
    rw [← hsum, hsplit, hfold, hp]
    ring
  rw [Gf.value, Gf.value, Gf.value, ← Int.cast_mul, hnumber, Int.cast_add, Int.cast_mul,
    Int.cast_natCast, ZMod.natCast_self, zero_mul, add_zero]

theorem S_spec (ha : Gf.Within (2 ^ 18) a) :
    ∃ o, Gf.S a = some o ∧ Gf.Carried 38 o ∧ Gf.value o = Gf.value a ^ 2 := by
  obtain ⟨o, ho, hcarried, hvalue⟩ := M_spec ha ha
  exact ⟨o, ho, hcarried, by rw [hvalue, sq]⟩

end

/-! ### Selecting

The numbers are swapped by a mask of all ones or all zeroes.
-/

/-- All limbs are words. -/
def Gf.Words (g : Gf) : Prop := ∀ i, i < 16 → -(2 ^ 63) ≤ g i ∧ g i ≤ 2 ^ 63 - 1

theorem Gf.Within.words {g : Gf} (h : Gf.Within (2 ^ 18) g) : Gf.Words g := by
  intro i hi
  have hlimb := h i hi
  omega

theorem toInt_ofInt_word {v : Int} (h : -(2 ^ 63) ≤ v ∧ v ≤ 2 ^ 63 - 1) :
    (BitVec.ofInt 64 v).toInt = v := by
  rw [BitVec.toInt_ofInt]
  exact Int.bmod_eq_of_le (by omega) (by omega)

/-- `c` is all ones or all zeroes, as `b` is 1 or 0. -/
theorem selectMask (b : Bool) :
    (~~~ BitVec.ofInt 32 ((b.toNat : Int) - 1)).signExtend 64 = if b then BitVec.allOnes 64 else 0 := by
  cases b <;> decide

theorem selectMask_xor (b : Bool) (x y : BitVec 64) :
    let t := (if b then BitVec.allOnes 64 else 0) &&& (x ^^^ y)
    x ^^^ t = (if b then y else x) ∧ y ^^^ t = if b then x else y := by
  cases b with
  | false => simp
  | true =>
      have hfirst (x y : BitVec 64) : x ^^^ (x ^^^ y) = y := by
        rw [← BitVec.xor_assoc, BitVec.xor_self, BitVec.zero_xor]
      simp only [BitVec.allOnes_and, if_true, hfirst, true_and]
      rw [BitVec.xor_comm x y, hfirst]

/-- `sel25519` swaps its numbers if `b` is 1. -/
theorem sel25519_spec {p q : Gf} (hp : Gf.Words p) (hq : Gf.Words q) (b : Bool) :
    ∀ i, i < 16 → (sel25519 p q b.toNat).1 i = (if b then q i else p i) ∧
      (sel25519 p q b.toNat).2 i = if b then p i else q i := by
  have hloop := forUp_invariant (n := 16) (s := (p, q))
    (f := fun i s =>
      let x := BitVec.ofInt 64 (s.1 i)
      let y := BitVec.ofInt 64 (s.2 i)
      let t := (~~~ BitVec.ofInt 32 ((b.toNat : Int) - 1)).signExtend 64 &&& (x ^^^ y)
      (s.1.set i (x ^^^ t).toInt, s.2.set i (y ^^^ t).toInt))
    (I := fun i (s : Gf × Gf) =>
      (∀ j, j < i → s.1 j = (if b then q j else p j) ∧ s.2 j = if b then p j else q j) ∧
        ∀ j, i ≤ j → s.1 j = p j ∧ s.2 j = q j)
    ⟨fun j hj => absurd hj (Nat.not_lt_zero j), fun _ _ => ⟨rfl, rfl⟩⟩
    (by
      intro i s hi ⟨hdone, hrest⟩
      obtain ⟨hpi, hqi⟩ := hrest i (Nat.le_refl i)
      have hpw := toInt_ofInt_word (hp i hi)
      have hqw := toInt_ofInt_word (hq i hi)
      refine ⟨fun j hj => ?_, fun j hj => ?_⟩
      · rcases Nat.lt_succ_iff_lt_or_eq.mp hj with hlt | rfl
        · dsimp only
          rw [Arr.set_of_ne (Nat.ne_of_lt hlt), Arr.set_of_ne (Nat.ne_of_lt hlt)]
          exact hdone j hlt
        · dsimp only
          obtain ⟨hfirst, hsecond⟩ :=
            selectMask_xor b (BitVec.ofInt 64 (p j)) (BitVec.ofInt 64 (q j))
          rw [Arr.set_self, Arr.set_self, hpi, hqi, selectMask, hfirst, hsecond]
          cases b
          · exact ⟨hpw, hqw⟩
          · exact ⟨hqw, hpw⟩
      · dsimp only
        rw [Arr.set_of_ne (by omega), Arr.set_of_ne (by omega)]
        exact hrest j (by omega))
  exact hloop.1

/-! ### The inverse

The inverse is the power whose exponent is the prime less two, and the bits of that are all
ones but for two.
-/

theorem fill_value (g : Gf) : Gf.value (gf0.fill 16 g) = Gf.value g := by
  rw [Gf.value, Gf.number, digitSum_congr fun i hi => Arr.fill_of_lt hi]
  rfl

theorem fill_within {b : Int} {g : Gf} (h : Gf.Within b g) : Gf.Within b (gf0.fill 16 g) := by
  intro i hi
  rw [Arr.fill_of_lt hi]
  exact h i hi

/-- The turns of `inv25519` that square only are those for the bits of `2 ^ 255 - 21` that are 0. -/
theorem invBits :
    ∀ a, a < 254 → (p25519 - 2) / 2 ^ a % 2 = if a ≠ 2 ∧ a ≠ 4 then 1 else 0 := by
  decide +kernel

/-- `inv25519` is a power. -/
theorem inv25519_spec {x : Gf} (hx : Gf.Within (2 ^ 17) x) :
    ∃ o, inv25519 x = some o ∧ Gf.Within (2 ^ 17) o ∧ Gf.value o = Gf.value x ^ (p25519 - 2) := by
  have hx' : Gf.Within (2 ^ 18) x := hx.mono (by decide)
  have hinit : Gf.Within (2 ^ 17) (gf0.fill 16 x) ∧
      Gf.value (gf0.fill 16 x) = Gf.value x ^ ((p25519 - 2) / 2 ^ 254) := by
    have hone : (p25519 - 2) / 2 ^ 254 = 1 := by decide
    exact ⟨fill_within hx, by rw [fill_value, hone, pow_one]⟩
  obtain ⟨o, ho, hwithin, hvalue⟩ := forDownM_invariant (n := 254) (s := gf0.fill 16 x)
    (g := fun a c => do
      let c ← Gf.S c
      if a ≠ 2 ∧ a ≠ 4 then Gf.M c x else return c)
    (I := fun a c => Gf.Within (2 ^ 17) c ∧ Gf.value c = Gf.value x ^ ((p25519 - 2) / 2 ^ a)) hinit
    (by
      intro a c ha ⟨hwithin, hvalue⟩
      obtain ⟨d, hd, hdc, hdv⟩ := S_spec (hwithin.mono (by decide))
      have hbits : (p25519 - 2) / 2 ^ a
          = 2 * ((p25519 - 2) / 2 ^ (a + 1)) + (p25519 - 2) / 2 ^ a % 2 := by
        rw [Nat.pow_succ, ← Nat.div_div_eq_div_mul]
        omega
      have hdw := hdc.within (by decide)
      rw [hbits, invBits a ha]
      by_cases hbit : a ≠ 2 ∧ a ≠ 4
      · obtain ⟨e, he, hec, hev⟩ := M_spec (hdw.mono (by decide)) hx'
        refine ⟨e, by simp [hd, hbit, he], hec.within (by decide), ?_⟩
        rw [hev, hdv, hvalue, if_pos hbit]
        ring
      · refine ⟨d, by simp only [hd, Option.bind_eq_bind, Option.bind_some, if_neg hbit]; rfl, hdw, ?_⟩
        rw [hdv, hvalue, if_neg hbit, add_zero, ← pow_mul, Nat.mul_comm])
  rw [pow_zero, Nat.div_one] at hvalue
  exact ⟨o, ho, hwithin, hvalue⟩

/-! ### Packing

The prime is subtracted with a borrow from limb to limb, and the last borrow says whether it
was too much.
-/

/-- All limbs have 16 bits. -/
def Gf.Reduced (g : Gf) : Prop := ∀ i, i < 16 → 0 ≤ g i ∧ g i < 2 ^ 16

theorem Gf.Reduced.within {g : Gf} (h : Gf.Reduced g) : Gf.Within (2 ^ 17) g := by
  intro i hi
  have hlimb := h i hi
  omega

/-- The number of reduced limbs, as a natural number. -/
theorem Gf.Reduced.number {g : Gf} (h : Gf.Reduced g) :
    Gf.number g = (digitSum (2 ^ 16) 16 fun i => (g i).toNat : Nat) ∧
      digitSum (2 ^ 16) 16 (fun i => (g i).toNat) < 2 ^ 256 := by
  constructor
  · rw [digitSum_cast]
    exact digitSum_congr fun i hi => (Int.toNat_of_nonneg (h i hi).1).symm
  · have hlt := digitSum_lt (b := 2 ^ 16) (n := 16) (a := fun i => (g i).toNat) fun i hi => by
      have hlimb := h i hi
      omega
    exact hlt

/-- What is carried has the sign of what the first limb has too much. -/
theorem carryOut_sign {o : Gf} (ho : Gf.Carried 38 o) {i : Nat} (hi : i ≤ 15) :
    (-1 ≤ carryOut o (i + 1) ∧ carryOut o (i + 1) ≤ 1) ∧
      (0 < carryOut o (i + 1) → 2 ^ 16 ≤ o 0) ∧ (carryOut o (i + 1) < 0 → o 0 < 0) := by
  induction i with
  | zero =>
      have hfirst := ho.1
      simp only [carryOut]
      omega
  | succ i ih =>
      have hcarry := ih (by omega)
      have hlimb := ho.2 (i + 1) (by omega) (by omega)
      rw [carryOut]
      omega

/-- The third pass leaves limbs of 16 bits. -/
theorem car25519_reduced {o : Gf} (ho : Gf.Carried 38 o) :
    ∃ o', car25519 o = some o' ∧ Gf.Reduced o' ∧ Gf.value o' = Gf.value o := by
  have hwithin : Gf.Within (2 ^ 60) o := (ho.within (by decide)).mono (by decide)
  obtain ⟨o', ho', hfirst, hrest⟩ := car25519_eq hwithin
  have hsign : (-1 ≤ carryOut o 16 ∧ carryOut o 16 ≤ 1) ∧
      (0 < carryOut o 16 → 2 ^ 16 ≤ o 0) ∧ (carryOut o 16 < 0 → o 0 < 0) :=
    carryOut_sign ho (i := 15) (Nat.le_refl 15)
  refine ⟨o', ho', fun i hi => ?_, ?_⟩
  · rcases Nat.eq_zero_or_pos i with rfl | hpos
    · have hlimb := ho.1
      rw [hfirst]
      omega
    · rw [hrest i hpos hi]
      omega
  · refine (value_eq_of_number (k := 2 * carryOut o 16) ?_).symm
    rw [car25519_number hfirst hrest]
    ring

/-- The limbs of the prime. -/
def primeLimb (i : Nat) : Int := if i = 0 then 0xffed else if i = 15 then 0x7fff else 0xffff

theorem primeLimb_sum : digitSum (2 ^ 16) 16 primeLimb = p25519 := by decide

theorem primeLimb_le (i : Nat) : 0 ≤ primeLimb i ∧ primeLimb i < 2 ^ 16 := by
  unfold primeLimb
  split
  · decide
  · split <;> decide

/-- The limbs of the difference, before anything is borrowed. -/
def lessPrime (t : Gf) (i : Nat) : Int := t i - primeLimb i

theorem carryOut_lessPrime {t : Gf} (ht : Gf.Reduced t) {i : Nat} (hi : i ≤ 16) :
    -1 ≤ carryOut (lessPrime t) i ∧ carryOut (lessPrime t) i ≤ 0 := by
  induction i with
  | zero =>
      rw [carryOut]
      omega
  | succ i ih =>
      have hcarry := ih (by omega)
      have hlimb := ht i hi
      have hprime := primeLimb_le i
      rw [carryOut, lessPrime]
      omega

/-- The loop borrows: `k` limbs have 16 bits, and the next one is what is left of it. -/
theorem packLoop_spec {t : Gf} (ht : Gf.Reduced t) {m : Gf} (hm : m 0 = lessPrime t 0) :
    ∃ m', forUpM (packTurn t) 14 m = some m' ∧ (∀ i, i < 14 → m' i = carried (lessPrime t) i) ∧
      m' 14 = carryOut (lessPrime t) 14 + lessPrime t 14 := by
  refine forUpM_invariant (I := fun k (m : Gf) =>
    (∀ i, i < k → m i = carried (lessPrime t) i) ∧ m k = carryOut (lessPrime t) k + lessPrime t k)
    ⟨fun i hi => absurd hi (Nat.not_lt_zero i), by rw [hm, carryOut, Int.zero_add]⟩ ?_
  intro k m hk ⟨hdone, hnext⟩
  have hlimb := ht (k + 1) (by omega)
  have hprime : primeLimb (k + 1) = 0xffff := by
    rw [primeLimb, if_neg (Nat.succ_ne_zero k), if_neg (by omega)]
  have hcarry := carryOut_lessPrime ht (i := k + 1) (by omega)
  have hborrow : m k / 2 ^ 16 = carryOut (lessPrime t) (k + 1) := by
    rw [hnext]
    rfl
  have hv := i64_of_le (v := t (k + 1) - 0xffff - m k / 2 ^ 16 % 2) (by omega)
  have hne : k + 1 ≠ k := Nat.succ_ne_self k
  refine ⟨(m.set (k + 1) (t (k + 1) - 0xffff - m k / 2 ^ 16 % 2)).set k (m k % 2 ^ 16), ?_,
    fun i hi => ?_, ?_⟩
  · simp only [packTurn, hv, Option.bind_eq_bind, Option.bind_some, Arr.set_of_ne hne.symm]
    rfl
  · rcases Nat.lt_succ_iff_lt_or_eq.mp hi with hlt | rfl
    · rw [Arr.set_of_ne (by omega), Arr.set_of_ne (by omega), hdone i hlt]
    · rw [Arr.set_self, hnext, carried]
  · rw [Arr.set_of_ne hne, Arr.set_self, hborrow, lessPrime, hprime]
    omega

/-- `b` is what the last limb borrows. -/
theorem packSub_eq {t : Gf} (ht : Gf.Reduced t) :
    ∃ m, packSub t = some (m, -carryOut (lessPrime t) 16) ∧
      (∀ i, i < 15 → m i = carried (lessPrime t) i) ∧
      m 15 = carryOut (lessPrime t) 15 + lessPrime t 15 := by
  have hfirst := ht 0 (by decide)
  have hlast := ht 15 (by decide)
  have hcarry := carryOut_lessPrime ht (i := 15) (by decide)
  have hcarry' := carryOut_lessPrime ht (i := 16) (by decide)
  have hv := i64_of_le (v := t 0 - 0xffed) (by omega)
  obtain ⟨m, hm, hdone, hnext⟩ :=
    packLoop_spec ht (m := gf0.set 0 (t 0 - 0xffed)) (by rw [Arr.set_self]; rfl)
  have hborrow : m 14 / 2 ^ 16 = carryOut (lessPrime t) 15 := by
    rw [hnext]
    rfl
  have hprime : primeLimb 15 = 0x7fff := by decide
  have hraw : t 15 - 0x7fff - m 14 / 2 ^ 16 % 2 = carryOut (lessPrime t) 15 + lessPrime t 15 := by
    rw [hborrow, lessPrime, hprime]
    omega
  have hw := i64_of_le (v := carryOut (lessPrime t) 15 + lessPrime t 15) (by rw [← hraw]; omega)
  have hbit : (carryOut (lessPrime t) 15 + lessPrime t 15) / 2 ^ 16 % 2
      = -carryOut (lessPrime t) 16 := by
    have hdiv : (carryOut (lessPrime t) 15 + lessPrime t 15) / 2 ^ 16 = carryOut (lessPrime t) 16 := rfl
    rw [hdiv]
    omega
  refine ⟨(m.set 15 (carryOut (lessPrime t) 15 + lessPrime t 15)).set 14 (m 14 % 2 ^ 16), ?_,
    fun i hi => ?_, ?_⟩
  · simp only [packSub, hv, hm, hraw, hw, Option.bind_eq_bind, Option.bind_some, Arr.set_self, hbit]
    rfl
  · rcases Nat.lt_succ_iff_lt_or_eq.mp hi with hlt | rfl
    · rw [Arr.set_of_ne (by omega), Arr.set_of_ne (by omega), hdone i hlt]
    · rw [Arr.set_self, hnext]
      rfl
  · rw [Arr.set_of_ne (by decide), Arr.set_self]

/-- The difference, as far as 16 limbs can hold it. -/
theorem lessPrime_sum (t : Gf) :
    ∃ n : Nat, n < 2 ^ 256 ∧ digitSum (2 ^ 16) 16 (carried (lessPrime t)) = n ∧
      Gf.number t - p25519 = n + 2 ^ 256 * carryOut (lessPrime t) 16 := by
  have hreduced : Gf.Reduced (.of (carried (lessPrime t))) := fun i _ =>
    ⟨Int.emod_nonneg _ (by decide), Int.emod_lt_of_pos _ (by decide)⟩
  obtain ⟨hnumber, hlt⟩ := hreduced.number
  have hsum : digitSum (2 ^ 16) 16 (fun i => lessPrime t i + primeLimb i)
      = digitSum (2 ^ 16) 16 (lessPrime t) + digitSum (2 ^ 16) 16 primeLimb := digitSum_add
  simp only [lessPrime, sub_add_cancel] at hsum
  refine ⟨_, hlt, hnumber, ?_⟩
  rw [Gf.number, hsum, primeLimb_sum, add_sub_cancel_right]
  rw [← hnumber]
  exact digitSum_eq_carried (lessPrime t)

/-- The prime is subtracted, and `b` says if it was too much. -/
theorem packSub_spec {t : Gf} (ht : Gf.Reduced t) :
    ∃ m, ∃ b : Bool, packSub t = some (m, (b.toNat : Int)) ∧ Gf.Words m ∧
      (b = true ↔ Gf.number t < p25519) ∧
      (b = false → Gf.Reduced m ∧ Gf.number m = Gf.number t - p25519) := by
  obtain ⟨m, hm, hlow, hlast⟩ := packSub_eq ht
  obtain ⟨n, hn, hsum, hdifference⟩ := lessPrime_sum t
  have hcarry := carryOut_lessPrime ht (i := 15) (by decide)
  have hcarry' := carryOut_lessPrime ht (i := 16) (by decide)
  have hdiv : (carryOut (lessPrime t) 15 + lessPrime t 15) / 2 ^ 16 = carryOut (lessPrime t) 16 := rfl
  have hlimb := ht 15 (by decide)
  have hprime := primeLimb_le 15
  have hless : lessPrime t 15 = t 15 - primeLimb 15 := rfl
  refine ⟨m, decide (carryOut (lessPrime t) 16 = -1), ?_, fun i hi => ?_, ?_, fun hb => ?_⟩
  · rw [hm]
    by_cases hborrow : carryOut (lessPrime t) 16 = -1
    · rw [hborrow]
      rfl
    · have hzero : carryOut (lessPrime t) 16 = 0 := by omega
      rw [hzero]
      rfl
  · rcases Nat.lt_succ_iff_lt_or_eq.mp hi with hlt | rfl
    · rw [hlow i hlt, carried]
      omega
    · rw [hlast]
      omega
  · rw [decide_eq_true_iff]
    omega
  · have hzero : carryOut (lessPrime t) 16 = 0 := by
      have hne := of_decide_eq_false hb
      omega
    have hslots : ∀ i, i < 16 → m i = carried (lessPrime t) i := by
      intro i hi
      rcases Nat.lt_succ_iff_lt_or_eq.mp hi with hlt | rfl
      · exact hlow i hlt
      · rw [hlast, carried]
        omega
    constructor
    · intro i hi
      rw [hslots i hi, carried]
      omega
    · rw [Gf.number, digitSum_congr hslots, hsum]
      omega

/-- The turn of the loop subtracts the prime if that leaves something. -/
theorem packSelect_spec {t : Gf} (ht : Gf.Reduced t) :
    ∃ t', packSelect t = some t' ∧ Gf.Reduced t' ∧
      Gf.number t' = if Gf.number t < p25519 then Gf.number t else Gf.number t - p25519 := by
  obtain ⟨m, b, hm, hwords, hless, hkept⟩ := packSub_spec ht
  have hb : 1 - (b.toNat : Int) = ((!b).toNat : Int) := by cases b <;> rfl
  have hslots := sel25519_spec (ht.within.mono (by decide)).words hwords (!b)
  refine ⟨(sel25519 t m ((!b).toNat : Int)).1, by simp [packSelect, hm, hb], ?_⟩
  have hnumber : ∀ g : Gf, (∀ i, i < 16 → (sel25519 t m ((!b).toNat : Int)).1 i = g i) →
      Gf.number (sel25519 t m ((!b).toNat : Int)).1 = Gf.number g := fun g hg => digitSum_congr hg
  cases b with
  | true =>
      have hkeep : ∀ i, i < 16 → (sel25519 t m ((!true).toNat : Int)).1 i = t i :=
        fun i hi => (hslots i hi).1
      rw [hnumber t hkeep, if_pos (hless.mp rfl)]
      exact ⟨fun i hi => by rw [hkeep i hi]; exact ht i hi, rfl⟩
  | false =>
      have htake : ∀ i, i < 16 → (sel25519 t m ((!false).toNat : Int)).1 i = m i :=
        fun i hi => (hslots i hi).1
      obtain ⟨hreduced, hdifference⟩ := hkept rfl
      rw [hnumber m htake, if_neg fun h => by cases hless.mpr h]
      exact ⟨fun i hi => by rw [htake i hi]; exact hreduced i hi, hdifference⟩

/-- Twice is enough. -/
theorem packSelect_twice {t : Gf} (ht : Gf.Reduced t) :
    ∃ t', forUpM (fun _ => packSelect) 2 t = some t' ∧ Gf.Reduced t' ∧
      Gf.value t' = Gf.value t ∧ Gf.number t' < p25519 := by
  obtain ⟨t₁, ht₁, hreduced₁, hnumber₁⟩ := packSelect_spec ht
  obtain ⟨t₂, ht₂, hreduced₂, hnumber₂⟩ := packSelect_spec hreduced₁
  have hkept : ∀ {t t' : Gf},
      (Gf.number t' = if Gf.number t < p25519 then Gf.number t else Gf.number t - p25519) →
        Gf.value t' = Gf.value t := by
    intro t t' h
    split at h
    case isTrue => rw [Gf.value, h, Gf.value]
    case isFalse => exact (value_eq_of_number (k := 1) (by omega)).symm
  obtain ⟨hnat, hlt⟩ := ht.number
  have hp : (p25519 : Int) = 2 ^ 255 - 19 := by decide
  refine ⟨t₂, ?_, hreduced₂, (hkept hnumber₂).trans (hkept hnumber₁), ?_⟩
  · rw [forUpM, forUpM, forUpM, Option.bind_some, ht₁, Option.bind_some, ht₂]
  · rw [hnumber₂, hnumber₁, hnat, hp]
    split_ifs <;> omega

theorem toNat_ofInt_byte {v : Int} (h : 0 ≤ v ∧ v < 2 ^ 8) : (UInt8.ofInt v).toNat = v.toNat := by
  rw [UInt8.ofInt, UInt8.toNat_ofNat']
  omega

/-- `pack25519` writes the remainder modulo the prime, the least byte first. -/
theorem pack25519_spec (o : Bytes) {g : Gf} (hg : Gf.Within (2 ^ 50) g) :
    ∃ out, pack25519 o g = some out ∧ littleEndian out 0 32 = (Gf.value g).val ∧
      ChangedWithin 0 32 o out := by
  obtain ⟨t₁, t₂, ht₁, ht₂, hcarried, hvalue₂⟩ := car25519_twice (fill_within hg)
  obtain ⟨t₃, ht₃, hreduced₃, hvalue₃⟩ := car25519_reduced hcarried
  obtain ⟨t, ht, hreduced, hvalue, hlt⟩ := packSelect_twice hreduced₃
  refine ⟨write o 0 32 (packByte t), ?_, ?_, write_changed⟩
  · simp only [pack25519, ht₁, ht₂, ht₃, ht, Option.bind_eq_bind, Option.bind_some]
    rfl
  · obtain ⟨hnat, -⟩ := hreduced.number
    have hvalue' : Gf.value g = ((digitSum (2 ^ 16) 16 fun i => (t i).toNat : Nat) : ZMod p25519) := by
      rw [← fill_value g, ← hvalue₂, ← hvalue₃, ← hvalue, Gf.value, hnat, Int.cast_natCast]
    rw [hvalue', ZMod.val_cast_of_lt (by omega)]
    rw [littleEndian, ← digitSum_pairs (b := 256) (n := 16)]
    refine digitSum_congr fun i hi => ?_
    have hlimb := hreduced i hi
    have hlow : write o 0 32 (packByte t) (2 * i) = UInt8.ofInt (t i % 2 ^ 8) := by
      rw [write_zero_at (by omega), packByte, if_pos (by omega),
        Nat.mul_div_cancel_left i (by decide)]
    have hhigh : write o 0 32 (packByte t) (2 * i + 1) = UInt8.ofInt (t i / 2 ^ 8) := by
      have hodd : (2 * i + 1) / 2 = i := by omega
      rw [write_zero_at (by omega), packByte, if_neg (by omega), hodd]
    rw [Nat.zero_add, Nat.zero_add, hlow, hhigh, toNat_ofInt_byte (by omega),
      toNat_ofInt_byte (by omega)]
    omega

/-! ### Unpacking

The highest bit of the 32 bytes is cleared.
-/

theorem mod_top {l t : Nat} (hl : l < (2 ^ 16) ^ 15) :
    (l + t * (2 ^ 16) ^ 15) % 2 ^ 255 = l + t % 2 ^ 15 * (2 ^ 16) ^ 15 := by
  omega

/-- `unpack25519` reads 255 bits. -/
theorem unpack25519_spec (n : Bytes) :
    Gf.Reduced (unpack25519 n) ∧ Gf.number (unpack25519 n) = (littleEndian n 0 32 % 2 ^ 255 : Nat) := by
  have hfill : ∀ i, i < 16 →
      gf0.fill 16 (fun i => ((n (2 * i)).toNat : Int) + (n (2 * i + 1)).toNat * 2 ^ 8) i
        = ((n (2 * i)).toNat + (n (2 * i + 1)).toNat * 256 : Nat) := by
    intro i hi
    rw [Arr.fill_of_lt hi]
    push_cast
    rfl
  have hlow : ∀ i, i < 15 →
      unpack25519 n i = ((n (2 * i)).toNat + (n (2 * i + 1)).toNat * 256 : Nat) := by
    intro i hi
    rw [unpack25519, Arr.set_of_ne (Nat.ne_of_lt hi), hfill i (by omega)]
  have hlast : unpack25519 n 15
      = (((n 30).toNat + (n 31).toNat * 256) % 2 ^ 15 : Nat) := by
    rw [unpack25519, Arr.set_self, hfill 15 (by decide)]
    rfl
  constructor
  · intro i hi
    rcases Nat.lt_succ_iff_lt_or_eq.mp hi with hlt | rfl
    · have hfirst := UInt8.toNat_lt (n (2 * i))
      have hsecond := UInt8.toNat_lt (n (2 * i + 1))
      rw [hlow i hlt]
      omega
    · rw [hlast]
      omega
  · have hpairs : digitSum (2 ^ 16) 16 (fun i => (n (2 * i)).toNat + (n (2 * i + 1)).toNat * 256)
        = digitSum 256 32 fun i => (n i).toNat := by
      have hbase : (2 : Nat) ^ 16 = 256 ^ 2 := by norm_num
      rw [hbase]
      exact digitSum_pairs (a := fun i => (n i).toNat)
    have hlimbs : digitSum (2 ^ 16) 15 (fun i => (n (2 * i)).toNat + (n (2 * i + 1)).toNat * 256)
        < (2 ^ 16) ^ 15 := digitSum_lt fun i _ => by
      have hfirst := UInt8.toNat_lt (n (2 * i))
      have hsecond := UInt8.toNat_lt (n (2 * i + 1))
      omega
    have hnumber : Gf.number (unpack25519 n)
        = (digitSum (2 ^ 16) 15 (fun i => (n (2 * i)).toNat + (n (2 * i + 1)).toNat * 256)
          + ((n 30).toNat + (n 31).toNat * 256) % 2 ^ 15 * (2 ^ 16) ^ 15 : Nat) := by
      rw [Gf.number, digitSum_succ, hlast, digitSum_congr hlow, Nat.cast_add, digitSum_cast,
        Nat.cast_mul]
      rfl
    have hbytes : littleEndian n 0 32 = digitSum 256 32 fun i => (n i).toNat := by
      simp only [littleEndian, Nat.zero_add]
    rw [digitSum_succ] at hpairs
    rw [hnumber, hbytes, ← hpairs, mod_top hlimbs]

end CmakeTemplate
