/-
Where `random_number` stays in its range.

The checks in front of the arithmetic compare `int`s with the bounds of an `int`, so they stop
nothing but an upper bound below the lower one.  The width of the range is then computed in
`int`, and one is added to it; both may overflow, and where they do the call has no result.
Where they do not, the divisor is positive, and the remainder is a number of the range.

So the call stays in its range just in case the width of the range is less than `INT_MAX`.  A
die is such a range.  The whole range of `int` is not, nor are the numbers that are not
negative, of which there is one too many.
-/
import CmakeTemplate.NumberGenerator
import CmakeTemplate.Proofs.Math.NumberConverter

namespace CmakeTemplate

open Lib

theorem divisor_eq_some {lowerBound upperBound : Int32}
    (hle : lowerBound.toInt ≤ upperBound.toInt)
    (hwidth : upperBound.toInt - lowerBound.toInt < int32Max) :
    divisor lowerBound upperBound = some (upperBound.toInt - lowerBound.toInt + 1) := by
  have hmin : int32Min ≤ 0 := by decide
  have hsub : checkedSub int32Min int32Max upperBound.toInt lowerBound.toInt
      = some (upperBound.toInt - lowerBound.toInt) := fit_eq_some (by omega) (by omega)
  have hadd : checkedAdd int32Min int32Max (upperBound.toInt - lowerBound.toInt) 1
      = some (upperBound.toInt - lowerBound.toInt + 1) := fit_eq_some (by omega) (by omega)
  rw [divisor, hsub]
  exact hadd

theorem divisor_eq_none {lowerBound upperBound : Int32}
    (hwidth : int32Max ≤ upperBound.toInt - lowerBound.toInt) :
    divisor lowerBound upperBound = none := by
  rw [divisor]
  by_cases hsub : int32Max < upperBound.toInt - lowerBound.toInt
  · rw [checkedSub, fit_eq_none (.inr hsub)]
    rfl
  · -- the width itself still fits
    have heq : upperBound.toInt - lowerBound.toInt = int32Max := by omega
    rw [checkedSub, heq]
    rfl

theorem int32_checks (v : Int32) : ¬ (int32Max < v.toInt ∨ int32Min > v.toInt) := by
  have hrange := int32_range v
  omega

/-- The value of `random` fits into an `int`. -/
theorem toInt_random {random : Int} (hmin : 0 ≤ random) (hmax : random ≤ int32Max) :
    (Int32.ofInt random).toInt = random :=
  toInt_ofInt_of_range (by unfold int32Min; omega) hmax

/-- Past the checks only the arithmetic is left. -/
theorem randomNumber_eq {random : Int} {lowerBound upperBound : Int32} (state : SeedState)
    (sources : SeedSources) (result : Int32) (hmin : 0 ≤ random) (hmax : random ≤ int32Max)
    (hle : lowerBound.toInt ≤ upperBound.toInt) :
    randomNumber state sources random lowerBound upperBound (some result) =
      ((divisor lowerBound upperBound).bind (checkedRem int32Min int32Max random)).bind
        fun offset => (checkedAdd int32Min int32Max lowerBound.toInt offset).bind
          fun sum => some (.success, some (Int32.ofInt sum), setSeed state sources) := by
  unfold randomNumber
  dsimp only
  rw [if_neg (int32_checks lowerBound), if_neg (int32_checks upperBound), if_neg (by omega),
    toInt_random hmin hmax, if_neg (by omega)]
  rfl

theorem randomNumber_success {random : Int} {lowerBound upperBound : Int32} (state : SeedState)
    (sources : SeedSources) (result : Int32) (hmin : 0 ≤ random) (hmax : random ≤ int32Max)
    (hle : lowerBound.toInt ≤ upperBound.toInt)
    (hwidth : upperBound.toInt - lowerBound.toInt < int32Max) :
    ∃ r, randomNumber state sources random lowerBound upperBound (some result)
        = some (.success, some r, setSeed state sources) ∧
      r.toInt = lowerBound.toInt + random % (upperBound.toInt - lowerBound.toInt + 1) := by
  have hpos : 0 < upperBound.toInt - lowerBound.toInt + 1 := by omega
  have hnonneg := Int.emod_nonneg random hpos.ne'
  have hlt := Int.emod_lt_of_pos random hpos
  have hlower := int32_range lowerBound
  have hupper := int32_range upperBound
  refine ⟨_, ?_, toInt_ofInt_of_range (by omega) (by omega)⟩
  rw [randomNumber_eq state sources result hmin hmax hle, divisor_eq_some hle hwidth,
    Option.bind_some, checkedRem_eq_some (by decide) hmin hmax hpos, Option.bind_some, checkedAdd,
    fit_eq_some (by omega) (by omega), Option.bind_some]

/-- `random_number` stays in its range just in case the width of the range is less than
`INT_MAX`. -/
theorem staysInRange_iff (state : SeedState) (sources : SeedSources) {random : Int}
    {lowerBound upperBound : Int32} (result : Int32) (hmin : 0 ≤ random)
    (hmax : random ≤ int32Max) (hle : lowerBound.toInt ≤ upperBound.toInt) :
    StaysInRange state sources random lowerBound upperBound result ↔
      upperBound.toInt - lowerBound.toInt < int32Max := by
  constructor
  · rintro ⟨⟨d, hd, -⟩, -⟩
    by_contra hwidth
    rw [divisor_eq_none (not_lt.mp hwidth)] at hd
    cases hd
  · intro hwidth
    refine ⟨⟨_, divisor_eq_some hle hwidth, by omega⟩, ?_⟩
    obtain ⟨r, hcall, hvalue⟩ :=
      randomNumber_success state sources result hmin hmax hle hwidth
    have hpos : 0 < upperBound.toInt - lowerBound.toInt + 1 := by omega
    have hnonneg := Int.emod_nonneg random hpos.ne'
    have hlt := Int.emod_lt_of_pos random hpos
    exact ⟨r, _, hcall, by omega, by omega⟩

theorem staysInRange_dice : StaysInRange ⟨false, none⟩ ⟨true, some 1, 0⟩ 2147483647 1 6 0 :=
  (staysInRange_iff ⟨false, none⟩ ⟨true, some 1, 0⟩ 0 (by decide) (by decide) (by decide)).mpr
    (by decide)

/-- The whole range of `int`, and the numbers that are not negative. -/
theorem randomNumber_overflow :
    randomNumber ⟨true, some 1⟩ ⟨true, some 1, 0⟩ 0 (-2147483648) 2147483647 (some 0) = none ∧
      randomNumber ⟨true, some 1⟩ ⟨true, some 1, 0⟩ 0 0 2147483647 (some 0) = none ∧
      ¬ StaysInRange ⟨true, some 1⟩ ⟨true, some 1, 0⟩ 0 (-2147483648) 2147483647 0 ∧
      ¬ StaysInRange ⟨true, some 1⟩ ⟨true, some 1, 0⟩ 0 0 2147483647 0 := by
  have hall : divisor (-2147483648) 2147483647 = none := divisor_eq_none (by decide)
  have hhalf : divisor 0 2147483647 = none := divisor_eq_none (by decide)
  refine ⟨?_, ?_, fun h => ?_, fun h => ?_⟩
  · rw [randomNumber_eq _ _ _ (by decide) (by decide) (by decide), hall]
    rfl
  · rw [randomNumber_eq _ _ _ (by decide) (by decide) (by decide), hhalf]
    rfl
  · obtain ⟨d, hd, -⟩ := h.divisor
    rw [hall] at hd
    cases hd
  · obtain ⟨d, hd, -⟩ := h.divisor
    rw [hhalf] at hd
    cases hd

end CmakeTemplate
