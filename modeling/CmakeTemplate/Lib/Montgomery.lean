/-
Multiples of a point of a Montgomery curve, by its x-coordinate alone.

The curve is `y² = x³ + ax² + x`.  An x-coordinate is a fraction `X / Z`, and the point at infinity
has any fraction with `Z = 0` but `0 / 0`.  Doubling, and adding two points whose difference is
known, are polynomials in the fractions, without a case for infinity.  The ladder keeps the fractions
of two points that differ by the one it started from.
-/
import Mathlib.AlgebraicGeometry.EllipticCurve.Affine.Point
import Mathlib.Tactic.FieldSimp
import Mathlib.Tactic.LinearCombination

namespace CmakeTemplate.Lib.Montgomery

open WeierstrassCurve.Affine

variable {F : Type} [Field F]

/-- `y² = x³ + ax² + x`. -/
def curve (a : F) : WeierstrassCurve.Affine F := ⟨0, a, 0, 1, 0⟩

/-- The x-coordinate of a point, and 0 for the one at infinity. -/
def xOf {a : F} : (curve a).Point → F
  | .zero => 0
  | .some x _ _ => x

/-- A fraction of a point's x-coordinate. -/
def IsX {a : F} : (curve a).Point → F × F → Prop
  | .zero, q => q.1 ≠ 0 ∧ q.2 = 0
  | .some x _ _, q => q.2 ≠ 0 ∧ q.1 = x * q.2

/-! ### Doubling and adding

The formulas are those for the x-coordinate, cleared of their denominators.  They are checked
against the group law of the curve case by case: infinity, a point and its negative, a point
twice, and the general case.
-/

/-- The fraction of the double. -/
def double (a : F) (q : F × F) : F × F :=
  ((q.1 ^ 2 - q.2 ^ 2) ^ 2, 4 * q.1 * q.2 * (q.1 ^ 2 + a * q.1 * q.2 + q.2 ^ 2))

/-- The fraction of the sum, where the difference has the x-coordinate `x`. -/
def addDiff (x : F) (q r : F × F) : F × F :=
  (4 * (q.1 * r.1 - q.2 * r.2) ^ 2, 4 * x * (q.1 * r.2 - r.1 * q.2) ^ 2)

section
variable {a : F}

@[simp] theorem xOf_zero : xOf (0 : (curve a).Point) = 0 := rfl

theorem isX_zero_iff {q : F × F} : IsX (0 : (curve a).Point) q ↔ q.1 ≠ 0 ∧ q.2 = 0 := Iff.rfl

theorem isX_some_iff {x y : F} (h : (curve a).Nonsingular x y) {q : F × F} :
    IsX (Point.some x y h) q ↔ q.2 ≠ 0 ∧ q.1 = x * q.2 := Iff.rfl

@[simp] theorem negY_curve (x y : F) : (curve a).negY x y = -y := by
  simp [WeierstrassCurve.Affine.negY, curve]

theorem addX_curve (x₁ x₂ l : F) : (curve a).addX x₁ x₂ l = l ^ 2 - a - x₁ - x₂ := by
  simp [WeierstrassCurve.Affine.addX, curve]

theorem equation_curve {x y : F} (h : (curve a).Nonsingular x y) :
    y ^ 2 = x ^ 3 + a * x ^ 2 + x := by
  have heq := (equation_iff _ _).mp h.1
  simpa [curve] using heq

theorem xOf_eq_div {P : (curve a).Point} {q : F × F} (h : IsX P q) : xOf P = q.1 / q.2 := by
  rcases P with _ | ⟨x, y, hP⟩
  · rw [h.2, div_zero]
    rfl
  · rw [h.2, mul_div_cancel_right₀ _ h.1]
    rfl

@[simp] theorem isX_neg_iff {P : (curve a).Point} {q : F × F} : IsX (-P) q ↔ IsX P q := by
  rcases P with _ | ⟨x, y, hP⟩
  · exact Iff.rfl
  · exact Iff.rfl

/-- Two fractions of one point. -/
theorem isX_unique {P : (curve a).Point} {q r : F × F} (hq : IsX P q) (hr : IsX P r) :
    q.1 * r.2 = r.1 * q.2 := by
  rcases P with _ | ⟨x, y, hP⟩
  · rw [hq.2, hr.2, mul_zero, mul_zero]
  · rw [hq.2, hr.2]
    ring

/-- On the x-axis there is no point with `x² = 1`. -/
theorem sq_ne_one {x : F} (ha : a ^ 2 ≠ 4) (hx : x ^ 3 + a * x ^ 2 + x = 0) : x ^ 2 - 1 ≠ 0 := by
  intro hone
  have hsq : x ^ 2 = 1 := sub_eq_zero.mp hone
  have hax : a = -(2 * x) := by linear_combination hx - (a + x) * hsq
  exact ha (by rw [hax]; linear_combination 4 * hsq)

theorem four_ne_zero (h2 : (2 : F) ≠ 0) : (4 : F) ≠ 0 := by
  have hfour : (4 : F) = 2 * 2 := by norm_num
  rw [hfour]
  exact mul_ne_zero h2 h2

/-- The curve has no singular points. -/
theorem nonsingular_curve (h2 : (2 : F) ≠ 0) (ha : a ^ 2 ≠ 4) {x y : F}
    (h : y ^ 2 = x ^ 3 + a * x ^ 2 + x) : (curve a).Nonsingular x y := by
  have hdisc : (curve a).Δ = 4 * 4 * (a ^ 2 - 4) := by
    simp only [curve, WeierstrassCurve.Δ, WeierstrassCurve.b₂, WeierstrassCurve.b₄,
      WeierstrassCurve.b₆, WeierstrassCurve.b₈]
    ring
  have h4 := four_ne_zero h2
  refine (equation_iff_nonsingular_of_Δ_ne_zero ?_).mp ((equation_iff _ _).mpr ?_)
  · rw [hdisc]
    exact mul_ne_zero (mul_ne_zero h4 h4) (sub_ne_zero.mpr ha)
  · simpa [curve] using h

/-- The x-coordinates of the sum and of the difference of two points. -/
theorem addX_mul_subX {x₁ y₁ x₂ y₂ : F} (h₁ : (curve a).Nonsingular x₁ y₁)
    (h₂ : (curve a).Nonsingular x₂ y₂) (hne : x₁ ≠ x₂) :
    (((y₁ - y₂) / (x₁ - x₂)) ^ 2 - a - x₁ - x₂) * (((y₁ + y₂) / (x₁ - x₂)) ^ 2 - a - x₁ - x₂)
        * (x₁ - x₂) ^ 2
      = (x₁ * x₂ - 1) ^ 2 := by
  have hd : x₁ - x₂ ≠ 0 := sub_ne_zero.mpr hne
  have hcurve₁ := equation_curve h₁
  have hcurve₂ := equation_curve h₂
  have hadd : (((y₁ - y₂) / (x₁ - x₂)) ^ 2 - a - x₁ - x₂) * (x₁ - x₂) ^ 2
      = (y₁ - y₂) ^ 2 - (a + x₁ + x₂) * (x₁ - x₂) ^ 2 := by
    field_simp
    ring
  have hsub : (((y₁ + y₂) / (x₁ - x₂)) ^ 2 - a - x₁ - x₂) * (x₁ - x₂) ^ 2
      = (y₁ + y₂) ^ 2 - (a + x₁ + x₂) * (x₁ - x₂) ^ 2 := by
    field_simp
    ring
  have hproduct : ((y₁ - y₂) ^ 2 - (a + x₁ + x₂) * (x₁ - x₂) ^ 2)
        * ((y₁ + y₂) ^ 2 - (a + x₁ + x₂) * (x₁ - x₂) ^ 2)
      = (x₁ * x₂ - 1) ^ 2 * (x₁ - x₂) ^ 2 := by
    -- the ordinates only come in as squares
    have hsquares : ((y₁ - y₂) ^ 2 - (a + x₁ + x₂) * (x₁ - x₂) ^ 2)
          * ((y₁ + y₂) ^ 2 - (a + x₁ + x₂) * (x₁ - x₂) ^ 2)
        = (y₁ ^ 2 + y₂ ^ 2 - (a + x₁ + x₂) * (x₁ - x₂) ^ 2) ^ 2 - 4 * y₁ ^ 2 * y₂ ^ 2 := by
      ring
    rw [hsquares, hcurve₁, hcurve₂]
    ring
  refine mul_right_cancel₀ (pow_ne_zero 2 hd) ?_
  calc _ = ((((y₁ - y₂) / (x₁ - x₂)) ^ 2 - a - x₁ - x₂) * (x₁ - x₂) ^ 2)
        * ((((y₁ + y₂) / (x₁ - x₂)) ^ 2 - a - x₁ - x₂) * (x₁ - x₂) ^ 2) := by ring
    _ = _ := by rw [hadd, hsub, hproduct]

/-- Adding infinity. -/
theorem isX_addDiff_zero (h2 : (2 : F) ≠ 0) {Q : (curve a).Point} {q r : F × F} {x : F}
    (hx : x ≠ 0) (hq : IsX (0 : (curve a).Point) q) (hQ : IsX Q r) (hd : IsX Q (x, 1)) :
    IsX Q (addDiff x q r) := by
  rcases Q with _ | ⟨x₂, y₂, hQn⟩
  · exact absurd hd.2 one_ne_zero
  · obtain ⟨hq1, hq2⟩ := isX_zero_iff.mp hq
    obtain ⟨hr2, hr1⟩ := hQ
    have hxx : x = x₂ := by simpa using hd.2
    rw [isX_some_iff, addDiff, hq2, hr1, ← hxx]
    refine ⟨?_, by ring⟩
    have hden : (4 : F) * x * (q.1 * r.2 - x * r.2 * 0) ^ 2 = 4 * x * (q.1 ^ 2 * r.2 ^ 2) := by ring
    rw [hden]
    exact mul_ne_zero (mul_ne_zero (four_ne_zero h2) hx)
      (mul_ne_zero (pow_ne_zero 2 hq1) (pow_ne_zero 2 hr2))

theorem addDiff_swap (x : F) (q r : F × F) : addDiff x q r = addDiff x r q := by
  unfold addDiff
  congr 1 <;> ring

variable [DecidableEq F]

theorem isX_double (h2 : (2 : F) ≠ 0) (ha : a ^ 2 ≠ 4) {P : (curve a).Point} {q : F × F}
    (h : IsX P q) : IsX (P + P) (double a q) := by
  rcases P with _ | ⟨x, y, hP⟩
  · have hzero : (Point.zero + Point.zero : (curve a).Point) = 0 := add_zero (0 : (curve a).Point)
    rw [hzero, isX_zero_iff, double, h.2]
    refine ⟨?_, by ring⟩
    have hpow : (q.1 ^ 2 - 0 ^ 2) ^ 2 = q.1 ^ 4 := by ring
    rw [hpow]
    exact pow_ne_zero 4 h.1
  · obtain ⟨hz, hx⟩ := h
    have hcurve := equation_curve hP
    have hsnd : (double a q).2 = 4 * q.2 ^ 4 * y ^ 2 := by
      rw [double, hx, hcurve]
      ring
    have hfst : (double a q).1 = (x ^ 2 - 1) ^ 2 * q.2 ^ 4 := by
      rw [double, hx]
      ring
    by_cases hy : y = 0
    · -- the tangent is vertical
      rw [Point.add_self_of_Y_eq (by rw [negY_curve, hy, neg_zero]), isX_zero_iff, hfst, hsnd, hy]
      have hroot : x ^ 3 + a * x ^ 2 + x = 0 := by rw [← hcurve, hy]; ring
      exact ⟨mul_ne_zero (pow_ne_zero 2 (sq_ne_one ha hroot)) (pow_ne_zero 4 hz), by ring⟩
    · have hne : y ≠ (curve a).negY x y := by
        rw [negY_curve]
        intro heq
        have htwo : 2 * y = 0 := by linear_combination heq
        exact hy ((mul_eq_zero.mp htwo).resolve_left h2)
      have hslope : (curve a).slope x x y y = (3 * x ^ 2 + 2 * a * x + 1) / (2 * y) := by
        rw [slope_of_Y_ne rfl hne, negY_curve]
        congr 1
        · simp [curve]
        · ring
      have hsquare : (curve a).slope x x y y ^ 2 * (4 * y ^ 2) = (3 * x ^ 2 + 2 * a * x + 1) ^ 2 := by
        rw [hslope]
        field_simp
        ring
      rw [Point.add_self_of_Y_ne hne, isX_some_iff, hfst, hsnd, addX_curve]
      refine ⟨mul_ne_zero (mul_ne_zero (four_ne_zero h2) (pow_ne_zero 4 hz)) (pow_ne_zero 2 hy), ?_⟩
      linear_combination 4 * q.2 ^ 4 * (a + 2 * x) * hcurve - q.2 ^ 4 * hsquare

/-- Adding a point and its negative. -/
theorem isX_addDiff_neg (h2 : (2 : F) ≠ 0) (ha : a ^ 2 ≠ 4) {P : (curve a).Point} {q r : F × F}
    {x : F} (hx : x ≠ 0) (hq : IsX P q) (hr : IsX P r) (hd : IsX (P + P) (x, 1)) :
    IsX (0 : (curve a).Point) (addDiff x q r) := by
  have hdouble := isX_unique (isX_double h2 ha hq) hd
  rw [mul_one] at hdouble
  have hz : (double a q).2 ≠ 0 := by
    intro hzero
    have hinf := isX_double h2 ha hq
    generalize P + P = D at hd hinf
    rcases D with _ | ⟨x', y', hD⟩
    · exact one_ne_zero hd.2
    · exact hinf.1 hzero
  have hsq : q.1 ^ 2 - q.2 ^ 2 ≠ 0 := by
    intro hzero
    refine mul_ne_zero hx hz ?_
    rw [← hdouble, double, hzero]
    ring
  rw [isX_zero_iff, addDiff]
  have hcross := isX_unique hq hr
  refine ⟨mul_ne_zero (four_ne_zero h2) (pow_ne_zero 2 ?_), by rw [hcross]; ring⟩
  intro hzero
  rcases P with _ | ⟨x₁, y₁, hP⟩
  · rw [hq.2, hr.2, mul_zero, sub_zero] at hzero
    exact mul_ne_zero hq.1 hr.1 hzero
  · obtain ⟨hq2, hq1⟩ := hq
    obtain ⟨hr2, hr1⟩ := hr
    have hone : (x₁ ^ 2 - 1) * (q.2 * r.2) = 0 := by
      rw [← hzero, hq1, hr1]
      ring
    have hroot : x₁ ^ 2 - 1 = 0 := (mul_eq_zero.mp hone).resolve_right (mul_ne_zero hq2 hr2)
    refine hsq ?_
    rw [hq1]
    linear_combination q.2 ^ 2 * hroot

theorem isX_addDiff (h2 : (2 : F) ≠ 0) (ha : a ^ 2 ≠ 4) {P Q : (curve a).Point} {q r : F × F} {x : F}
    (hx : x ≠ 0) (hP : IsX P q) (hQ : IsX Q r) (hd : IsX (P - Q) (x, 1)) :
    IsX (P + Q) (addDiff x q r) := by
  rcases P with _ | ⟨x₁, y₁, hPn⟩
  · change IsX (0 + Q) _
    change IsX (0 - Q) _ at hd
    rw [zero_add]
    rw [zero_sub] at hd
    exact isX_addDiff_zero h2 hx hP hQ (isX_neg_iff.mp hd)
  rcases Q with _ | ⟨x₂, y₂, hQn⟩
  · change IsX (_ + 0) _
    change IsX (_ - 0) _ at hd
    rw [add_zero, addDiff_swap]
    rw [sub_zero] at hd
    exact isX_addDiff_zero h2 hx hQ hP hd
  rcases eq_or_ne x₁ x₂ with heq | hne
  · rcases Point.X_eq_iff.mp heq with hsame | hneg
    · rw [hsame, sub_self] at hd
      exact absurd hd.2 one_ne_zero
    · rw [hneg, neg_add_cancel]
      rw [hneg, ← neg_add'] at hd
      rw [hneg] at hP
      exact isX_addDiff_neg h2 ha hx (isX_neg_iff.mp hP) hQ (isX_neg_iff.mp hd)
  · have hsum := addX_mul_subX hPn hQn hne
    obtain ⟨hq2, hq1⟩ := hP
    obtain ⟨hr2, hr1⟩ := hQ
    rw [sub_eq_add_neg, Point.neg_some, Point.add_of_X_ne hne, isX_some_iff, slope_of_X_ne hne,
      addX_curve, negY_curve, sub_neg_eq_add, mul_one] at hd
    rw [Point.add_of_X_ne hne, isX_some_iff, slope_of_X_ne hne, addX_curve]
    rw [← hd.2] at hsum
    have hsub : x₁ - x₂ ≠ 0 := sub_ne_zero.mpr hne
    have hden : (addDiff x q r).2 = 4 * x * ((x₁ - x₂) ^ 2 * (q.2 * r.2) ^ 2) := by
      rw [addDiff, hq1, hr1]
      ring
    have hnum : (addDiff x q r).1 = 4 * (x₁ * x₂ - 1) ^ 2 * (q.2 * r.2) ^ 2 := by
      rw [addDiff, hq1, hr1]
      ring
    rw [hden, hnum, ← hsum]
    refine ⟨mul_ne_zero (mul_ne_zero (four_ne_zero h2) hx)
      (mul_ne_zero (pow_ne_zero 2 hsub) (pow_ne_zero 2 (mul_ne_zero hq2 hr2))), by ring⟩

end

/-! ### The ladder

A bit decides which of the two points is doubled; the other becomes their sum, and the
difference of the two stays the point that the ladder started from.
-/

/-- One rung: the multiples `k` and `k + 1` become `2k` and `2k + 1`, or `2k + 1` and `2k + 2`. -/
def ladderStep (a x : F) (bit : Bool) (s : (F × F) × (F × F)) : (F × F) × (F × F) :=
  let s := if bit then s.swap else s
  let s := (double a s.1, addDiff x s.1 s.2)
  if bit then s.swap else s

/-- The rungs for the bits of `n` below `i`, the highest one first. -/
def ladder (a x : F) (n : Nat) : Nat → (F × F) × (F × F) → (F × F) × (F × F)
  | 0, s => s
  | i + 1, s => ladder a x n i (ladderStep a x (n.testBit i) s)

/-- The `x` of the multiple of a point with the x-coordinate `x`, by the lowest `t` bits of `n`. -/
def multiply (a x : F) (n t : Nat) : F :=
  let s := ladder a x n t ((1, 0), (x, 1))
  s.1.1 / s.1.2

section
variable {a x : F} {n i : Nat} {s : (F × F) × (F × F)}

@[simp] theorem ladder_succ :
    ladder a x n (i + 1) s = ladder a x n i (ladderStep a x (n.testBit i) s) := rfl

/-- Where the x-coordinate is 0 and both denominators are, they stay 0. -/
theorem ladder_snd_eq_zero (hs : s.1.2 = 0 ∧ s.2.2 = 0) : (ladder a 0 n i s).1.2 = 0 := by
  induction i generalizing s with
  | zero => exact hs.1
  | succ i ih =>
      refine ih ?_
      cases n.testBit i <;> simp [ladderStep, double, addDiff, hs]

/-- The first rung makes them 0. -/
theorem multiply_zero {t : Nat} (ht : 0 < t) : multiply a 0 n t = 0 := by
  obtain ⟨i, rfl⟩ := Nat.exists_eq_add_of_le' ht
  have hsnd : (ladder a 0 n (i + 1) ((1, 0), (0, 1))).1.2 = 0 := by
    rw [ladder_succ]
    refine ladder_snd_eq_zero ?_
    cases n.testBit i <;> simp [ladderStep, double, addDiff]
  rw [multiply, hsnd, div_zero]

variable [DecidableEq F]

theorem isX_ladderStep (h2 : (2 : F) ≠ 0) (ha : a ^ 2 ≠ 4) {D : (curve a).Point} (hx : x ≠ 0)
    (hD : IsX D (x, 1)) {k : Nat} (bit : Bool) (hs : IsX (k • D) s.1 ∧ IsX ((k + 1) • D) s.2) :
    IsX ((2 * k + bit.toNat) • D) (ladderStep a x bit s).1 ∧
      IsX ((2 * k + bit.toNat + 1) • D) (ladderStep a x bit s).2 := by
  obtain ⟨hs1, hs2⟩ := hs
  have hdiff : k • D - (k + 1) • D = -D := by rw [add_smul, one_smul]; abel
  have hadd : k • D + (k + 1) • D = (2 * k + 1) • D := by rw [← add_smul]; congr 1; ring
  have hodd : IsX ((2 * k + 1) • D) (addDiff x s.1 s.2) := by
    rw [← hadd]
    refine isX_addDiff h2 ha hx hs1 hs2 ?_
    rw [hdiff]
    exact isX_neg_iff.mpr hD
  cases bit with
  | false =>
      have heven := isX_double h2 ha hs1
      rw [← add_smul, ← two_mul] at heven
      exact ⟨heven, hodd⟩
  | true =>
      have heven := isX_double h2 ha hs2
      rw [← add_smul, ← two_mul] at heven
      rw [addDiff_swap] at hodd
      exact ⟨hodd, heven⟩

/-- The ladder keeps two multiples next to each other. -/
theorem isX_ladder (h2 : (2 : F) ≠ 0) (ha : a ^ 2 ≠ 4) {D : (curve a).Point} (hx : x ≠ 0)
    (hD : IsX D (x, 1)) {k : Nat} (hs : IsX (k • D) s.1 ∧ IsX ((k + 1) • D) s.2) :
    IsX ((k * 2 ^ i + n % 2 ^ i) • D) (ladder a x n i s).1 := by
  induction i generalizing k s with
  | zero =>
      rw [pow_zero, mul_one, Nat.mod_one]
      exact hs.1
  | succ i ih =>
      have hstep := ih (isX_ladderStep h2 ha hx hD (n.testBit i) hs)
      have hbits : k * 2 ^ (i + 1) + n % 2 ^ (i + 1)
          = (2 * k + (n.testBit i).toNat) * 2 ^ i + n % 2 ^ i := by
        rw [Nat.mod_pow_succ, Nat.toNat_testBit]
        ring
      rw [ladder_succ, hbits]
      exact hstep

/-- A point without an x-coordinate, or with the x-coordinate 0, is its own negative. -/
theorem add_self_of_xOf {D : (curve a).Point} (hD : xOf D = 0) : D + D = 0 := by
  rcases D with _ | ⟨x, y, hP⟩
  · exact add_zero 0
  · have hx : x = 0 := hD
    have hcurve := equation_curve hP
    have hy : y ^ 2 = 0 := by
      rw [hcurve, hx]
      ring
    refine Point.add_self_of_Y_eq ?_
    rw [negY_curve, pow_eq_zero_iff two_ne_zero |>.mp hy, neg_zero]

theorem xOf_smul_eq_zero {D : (curve a).Point} (hD : xOf D = 0) (k : Nat) : xOf (k • D) = 0 := by
  have hself := add_self_of_xOf hD
  have hmultiple : k • D = 0 ∨ k • D = D := by
    induction k with
    | zero => exact .inl (zero_smul _ D)
    | succ k ih =>
        rw [add_smul, one_smul]
        rcases ih with h | h
        · exact .inr (by rw [h, zero_add])
        · exact .inl (by rw [h, hself])
  rcases hmultiple with h | h
  · rw [h, xOf_zero]
  · rw [h, hD]

/-- The ladder multiplies points. -/
theorem multiply_xOf (h2 : (2 : F) ≠ 0) (ha : a ^ 2 ≠ 4) (D : (curve a).Point) {t : Nat}
    (ht : 0 < t) : multiply a (xOf D) n t = xOf ((n % 2 ^ t) • D) := by
  rcases eq_or_ne (xOf D) 0 with hzero | hne
  · rw [hzero, multiply_zero ht, xOf_smul_eq_zero hzero]
  · have hD : IsX D (xOf D, 1) := by
      rcases D with _ | ⟨x, y, hD⟩
      · exact absurd rfl hne
      · exact ⟨one_ne_zero, (mul_one x).symm⟩
    have hinit : IsX (0 • D) ((1 : F), (0 : F)) ∧ IsX ((0 + 1) • D) (xOf D, (1 : F)) := by
      rw [zero_smul, zero_add, one_smul]
      exact ⟨⟨one_ne_zero, rfl⟩, hD⟩
    have hladder := isX_ladder (n := n) (i := t) (s := ((1, 0), (xOf D, 1))) h2 ha hne hD hinit
    rw [zero_mul, zero_add] at hladder
    exact (xOf_eq_div hladder).symm

end

/-! ### In a larger field

The formulas have no divisions, so they commute with every embedding of fields.  What is
proved over an algebraic closure holds of the computation in the field below.
-/

section
variable {K : Type} [Field K] (f : F →+* K) {a x : F} {n i : Nat}

theorem ladder_map (s : (F × F) × (F × F)) :
    ladder (f a) (f x) n i (s.map (Prod.map f f) (Prod.map f f))
      = (ladder a x n i s).map (Prod.map f f) (Prod.map f f) := by
  induction i generalizing s with
  | zero => rfl
  | succ i ih =>
      rw [ladder_succ, ladder_succ, ← ih]
      congr 1
      cases n.testBit i <;> simp [ladderStep, double, addDiff, map_ofNat]

theorem multiply_map (t : Nat) : multiply (f a) (f x) n t = f (multiply a x n t) := by
  have hmap := ladder_map f (a := a) (x := x) (n := n) (i := t) ((1, 0), (x, 1))
  simp only [Prod.map_apply, map_one, map_zero] at hmap
  rw [multiply, multiply, hmap, map_div₀]
  rfl

end

end CmakeTemplate.Lib.Montgomery
