/-
Numbers that are spread over an array, the least digit first.

A word that is stored byte by byte, a number of 256 bits in limbs of 16 and a counter in the
last bytes of a block are all sums `a 0 + a 1 * b + a 2 * b ^ 2 + ...`; `digitSum` is that
sum, over any commutative ring.  A digit need not be below the base: it may be anything,
negative numbers included, as long as the sum is right.  That is what the arithmetic on limbs
rests on: digits are added and multiplied first, and the carries are taken later, each without
a change to the sum.

In the natural numbers, where all digits are below the base, they are the digits of the
number: the sum is below the power of the base, remainders and quotients are the lower and the
upper digits, and each digit can be read off.
-/
import Mathlib.Algebra.BigOperators.Intervals
import Mathlib.Algebra.BigOperators.Ring.Finset
import Mathlib.Data.Nat.Bitwise
import Mathlib.Tactic.Ring

namespace CmakeTemplate.Lib

section
variable {R : Type} [CommSemiring R]

/-- The number with the digits `a 0`, ..., `a (n - 1)` in base `b`. -/
def digitSum (b : R) (n : Nat) (a : Nat → R) : R := ∑ i ∈ Finset.range n, a i * b ^ i

variable {b : R} {n : Nat} {a a' : Nat → R}

@[simp] theorem digitSum_zero : digitSum b 0 a = 0 := rfl

theorem digitSum_succ : digitSum b (n + 1) a = digitSum b n a + a n * b ^ n :=
  Finset.sum_range_succ _ _

theorem digitSum_congr (h : ∀ i, i < n → a i = a' i) : digitSum b n a = digitSum b n a' :=
  Finset.sum_congr rfl fun i hi => by rw [h i (Finset.mem_range.mp hi)]

theorem digitSum_add : digitSum b n (fun i => a i + a' i) = digitSum b n a + digitSum b n a' := by
  unfold digitSum
  rw [← Finset.sum_add_distrib]
  exact Finset.sum_congr rfl fun i _ => add_mul _ _ _

theorem digitSum_mul_left (c : R) : digitSum b n (fun i => c * a i) = c * digitSum b n a := by
  unfold digitSum
  rw [Finset.mul_sum]
  exact Finset.sum_congr rfl fun i _ => mul_assoc _ _ _

/-- The digits from the `m`-th on count `b ^ m` times as much. -/
theorem digitSum_split (m : Nat) :
    digitSum b (m + n) a = digitSum b m a + b ^ m * digitSum b n fun i => a (m + i) := by
  unfold digitSum
  rw [Finset.sum_range_add, Finset.mul_sum]
  congr 1
  exact Finset.sum_congr rfl fun i _ => by rw [pow_add]; ring

/-- Rewriting one digit. -/
theorem digitSum_update {i : Nat} (hi : i < n) (v : R) :
    digitSum b n (Function.update a i v) + a i * b ^ i = digitSum b n a + v * b ^ i := by
  have hmem : i ∈ Finset.range n := Finset.mem_range.mpr hi
  unfold digitSum
  rw [← Finset.add_sum_erase _ _ hmem, ← Finset.add_sum_erase _ (fun i => a i * b ^ i) hmem]
  have hrest : ∑ j ∈ (Finset.range n).erase i, Function.update a i v j * b ^ j
      = ∑ j ∈ (Finset.range n).erase i, a j * b ^ j :=
    Finset.sum_congr rfl fun j hj => by
      rw [Function.update_of_ne (Finset.ne_of_mem_erase hj)]
  rw [hrest, Function.update_self]
  ring

/-- Carrying from one digit to the next keeps the number. -/
theorem digitSum_carry {x y u : Nat → R} (h : ∀ i, i < n → u i + x i = y i + b * u (i + 1)) :
    u 0 + digitSum b n x = digitSum b n y + b ^ n * u n := by
  induction n with
  | zero => simp
  | succ n ih =>
      have hlast := h n (Nat.lt_succ_self n)
      rw [digitSum_succ, digitSum_succ, ← add_assoc, ih fun i hi => h i (Nat.lt_succ_of_lt hi)]
      calc digitSum b n y + b ^ n * u n + x n * b ^ n
          = digitSum b n y + b ^ n * (u n + x n) := by ring
        _ = digitSum b n y + y n * b ^ n + b ^ (n + 1) * u (n + 1) := by rw [hlast]; ring

/-- Moving the digits up by `j` places multiplies by `b ^ j`, where the ones that go out at the top
come in at the bottom, with what `b ^ n` counts. -/
theorem digitSum_rotate {c : R} {j : Nat} (hb : b ^ n = c) (hj : j ≤ n) :
    digitSum b n (fun i => if j ≤ i then a (i - j) else c * a (i + n - j))
      = b ^ j * digitSum b n a := by
  obtain ⟨k, rfl⟩ := Nat.exists_eq_add_of_le hj
  have hlow : digitSum b j (fun i => if j ≤ i then a (i - j) else c * a (i + (j + k) - j))
      = c * digitSum b j fun i => a (k + i) := by
    rw [← digitSum_mul_left]
    refine digitSum_congr fun i hi => ?_
    rw [if_neg (by omega), show i + (j + k) - j = k + i by omega]
  have hhigh : (fun i => if j ≤ j + i then a (j + i - j) else c * a (j + i + (j + k) - j)) = a := by
    funext i
    rw [if_pos (Nat.le_add_right j i), Nat.add_sub_cancel_left]
  calc digitSum b (j + k) (fun i => if j ≤ i then a (i - j) else c * a (i + (j + k) - j))
      = c * digitSum b j (fun i => a (k + i)) + b ^ j * digitSum b k a := by
        rw [digitSum_split, hlow, hhigh]
    _ = b ^ j * (digitSum b k a + b ^ k * digitSum b j fun i => a (k + i)) := by
        rw [← hb]
        ring
    _ = b ^ j * digitSum b (j + k) a := by rw [Nat.add_comm j k, digitSum_split k]

/-- The product of two numbers, digit by digit, where `b ^ n` counts `c`. -/
theorem digitSum_cyclic {c : R} (hb : b ^ n = c) (h r : Nat → R) :
    digitSum b n (fun i => ∑ j ∈ Finset.range n,
        h j * if j ≤ i then r (i - j) else c * r (i + n - j))
      = digitSum b n h * digitSum b n r := by
  have hterm : ∀ j ∈ Finset.range n,
      ∑ i ∈ Finset.range n, h j * (if j ≤ i then r (i - j) else c * r (i + n - j)) * b ^ i
        = h j * b ^ j * digitSum b n r := by
    intro j hj
    have hrotate := digitSum_rotate (a := r) hb (Nat.le_of_lt (Finset.mem_range.mp hj))
    rw [mul_assoc (h j), ← hrotate, digitSum, Finset.mul_sum]
    exact Finset.sum_congr rfl fun i _ => mul_assoc _ _ _
  calc digitSum b n (fun i => ∑ j ∈ Finset.range n,
        h j * if j ≤ i then r (i - j) else c * r (i + n - j))
      = ∑ i ∈ Finset.range n, ∑ j ∈ Finset.range n,
          h j * (if j ≤ i then r (i - j) else c * r (i + n - j)) * b ^ i :=
        Finset.sum_congr rfl fun i _ => Finset.sum_mul _ _ _
    _ = ∑ j ∈ Finset.range n, ∑ i ∈ Finset.range n,
          h j * (if j ≤ i then r (i - j) else c * r (i + n - j)) * b ^ i := Finset.sum_comm
    _ = ∑ j ∈ Finset.range n, h j * b ^ j * digitSum b n r := Finset.sum_congr rfl hterm
    _ = digitSum b n h * digitSum b n r := (Finset.sum_mul _ _ _).symm

/-- Two digits as one, in the square of the base. -/
theorem digitSum_pairs :
    digitSum (b ^ 2) n (fun i => a (2 * i) + a (2 * i + 1) * b) = digitSum b (2 * n) a := by
  induction n with
  | zero => rfl
  | succ n ih =>
      rw [digitSum_succ, ih, Nat.mul_succ, digitSum_succ, digitSum_succ, ← pow_mul]
      ring

/-- The same number in another ring. -/
theorem digitSum_cast (b n : Nat) (a : Nat → Nat) :
    ((digitSum b n a : Nat) : R) = digitSum (b : R) n fun i => (a i : R) := by
  unfold digitSum
  push_cast
  rfl

end

/-! ### Digits below the base

A sum of digits below the base is a numeral, so the digits are determined by the number.
-/

section
variable {b n : Nat} {a a' : Nat → Nat}

theorem digitSum_lt (h : ∀ i, i < n → a i < b) : digitSum b n a < b ^ n := by
  induction n with
  | zero => simp
  | succ n ih =>
      have hrest := ih fun i hi => h i (Nat.lt_succ_of_lt hi)
      have hlast : a n + 1 ≤ b := h n (Nat.lt_succ_self n)
      rw [digitSum_succ]
      calc digitSum b n a + a n * b ^ n
          < b ^ n + a n * b ^ n := Nat.add_lt_add_right hrest _
        _ = (a n + 1) * b ^ n := by ring
        _ ≤ b * b ^ n := Nat.mul_le_mul_right _ hlast
        _ = b ^ (n + 1) := by ring

/-- The first digits are the remainder. -/
theorem digitSum_mod {m : Nat} (h : ∀ i, i < m → a i < b) :
    digitSum b (m + n) a % b ^ m = digitSum b m a := by
  rw [digitSum_split, Nat.add_mul_mod_self_left, Nat.mod_eq_of_lt (digitSum_lt h)]

/-- The digits from the `m`-th on are the quotient. -/
theorem digitSum_div {m : Nat} (hb : 0 < b) (h : ∀ i, i < m → a i < b) :
    digitSum b (m + n) a / b ^ m = digitSum b n fun i => a (m + i) := by
  rw [digitSum_split, Nat.add_mul_div_left _ _ (Nat.pow_pos hb),
    Nat.div_eq_of_lt (digitSum_lt h), Nat.zero_add]

/-- Each digit can be read off. -/
theorem digitSum_digit {i : Nat} (hb : 0 < b) (h : ∀ j, j < n → a j < b) (hi : i < n) :
    digitSum b n a / b ^ i % b = a i := by
  obtain ⟨k, rfl⟩ : ∃ k, n = i + (k + 1) := ⟨n - i - 1, by omega⟩
  rw [digitSum_div hb fun j hj => h j (by omega), Nat.add_comm k 1, digitSum_split]
  simp [digitSum_succ, Nat.mod_eq_of_lt (h i hi)]

/-- The digits of a number give it back, as far as there are enough. -/
theorem digitSum_digits (b n m : Nat) : digitSum b n (fun i => m / b ^ i % b) = m % b ^ n := by
  induction n with
  | zero => simp [Nat.mod_one]
  | succ n ih => rw [digitSum_succ, ih, Nat.pow_succ, Nat.mod_mul, Nat.mul_comm (b ^ n)]

/-- A digit is not changed by what is above it. -/
theorem mod_pow_digit (x : Nat) {i : Nat} (hi : i < n) :
    x % b ^ n / b ^ i % b = x / b ^ i % b := by
  have hpow : b ^ n = b ^ i * b ^ (n - i) := by rw [← pow_add, Nat.add_sub_cancel' hi.le]
  rw [hpow, Nat.mod_mul_right_div_self]
  exact Nat.mod_mod_of_dvd _ (dvd_pow_self b (by omega))

/-- A number has its digits once. -/
theorem digitSum_inj (hb : 0 < b) (h : ∀ i, i < n → a i < b) (h' : ∀ i, i < n → a' i < b)
    (heq : digitSum b n a = digitSum b n a') : ∀ i, i < n → a i = a' i := by
  intro i hi
  rw [← digitSum_digit hb h hi, heq, digitSum_digit hb h' hi]

/-- The bits of a number are those of its digits. -/
theorem digitSum_testBit {w : Nat} (hw : 0 < w) (h : ∀ i, i < n → a i < 2 ^ w) (i : Nat) :
    (digitSum (2 ^ w) n a).testBit i = (decide (i / w < n) && (a (i / w)).testBit (i % w)) := by
  induction n with
  | zero => simp
  | succ n ih =>
      have hrest : ∀ i, i < n → a i < 2 ^ w := fun i hi => h i (Nat.lt_succ_of_lt hi)
      have hlow : digitSum (2 ^ w) n a < 2 ^ (w * n) := by
        rw [Nat.pow_mul]
        exact digitSum_lt hrest
      have hsum : digitSum (2 ^ w) (n + 1) a = 2 ^ (w * n) * a n + digitSum (2 ^ w) n a := by
        rw [digitSum_succ, Nat.pow_mul]
        ring
      rw [hsum, Nat.testBit_two_pow_mul_add _ hlow]
      rcases Nat.lt_trichotomy (i / w) n with hlt | heq | hgt
      · have hi : i < w * n := by
          rw [Nat.mul_comm]
          exact (Nat.div_lt_iff_lt_mul hw).mp hlt
        rw [if_pos hi, ih hrest, decide_eq_true hlt, decide_eq_true (Nat.lt_succ_of_lt hlt)]
      · have hi : w * n + i % w = i := by rw [← heq, Nat.div_add_mod]
        rw [if_neg (by omega), heq, decide_eq_true (Nat.lt_succ_self n), Bool.true_and]
        congr 1
        omega
      · have hi : w * n + w ≤ i := by
          rw [← Nat.mul_succ]
          exact (Nat.mul_le_mul_left w hgt).trans (Nat.mul_div_le i w)
        have htop : a n < 2 ^ (i - w * n) :=
          (h n (Nat.lt_succ_self n)).trans_le (Nat.pow_le_pow_right (by decide) (by omega))
        rw [if_neg (by omega), Nat.testBit_lt_two_pow htop, decide_eq_false (by omega),
          Bool.false_and]

/-- Masking a number masks its digits. -/
theorem digitSum_and {w : Nat} (hw : 0 < w) (h : ∀ i, i < n → a i < 2 ^ w)
    (h' : ∀ i, i < n → a' i < 2 ^ w) :
    digitSum (2 ^ w) n (fun i => a i &&& a' i) = digitSum (2 ^ w) n a &&& digitSum (2 ^ w) n a' := by
  refine Nat.eq_of_testBit_eq fun i => ?_
  have hand : ∀ i, i < n → a i &&& a' i < 2 ^ w :=
    fun i hi => Nat.and_le_left.trans_lt (h i hi)
  rw [Nat.testBit_and, digitSum_testBit hw hand, digitSum_testBit hw h, digitSum_testBit hw h',
    Nat.testBit_and]
  cases decide (i / w < n) <;> simp

end

end CmakeTemplate.Lib
