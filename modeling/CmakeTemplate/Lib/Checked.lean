/-
Signed arithmetic that is defined only where it does not overflow.

A signed type of C has the numbers from `lo` to `hi`, and an operation whose mathematical
result is not one of them is undefined.  So the operations are functions to `Option`: the
integer result where it is in the range (`fit`), and nothing elsewhere.  A program that is
written with them has no result as soon as one of its operations has none.

A remainder is a case of its own.  The result of `a % b` is always small, but the standard
defines it only where the quotient `a / b` can be represented, so the division of the least
number by -1 has neither.  Where both numbers are in the range, the divisor is positive and
the dividend is not negative, the remainder is the one of the integers.
-/
import Mathlib.Data.Int.Order.Basic

namespace CmakeTemplate.Lib

/-- A number, if it is in the range. -/
def fit (lo hi v : Int) : Option Int := if lo ≤ v ∧ v ≤ hi then some v else none

def checkedAdd (lo hi a b : Int) : Option Int := fit lo hi (a + b)

def checkedSub (lo hi a b : Int) : Option Int := fit lo hi (a - b)

/-- The remainder of a division that truncates. -/
def checkedRem (lo hi a b : Int) : Option Int :=
  if b = 0 then none else (fit lo hi (a.tdiv b)).map fun _ => a.tmod b

theorem fit_eq_some {lo hi v : Int} (hlo : lo ≤ v) (hhi : v ≤ hi) : fit lo hi v = some v :=
  if_pos ⟨hlo, hhi⟩

theorem fit_eq_none {lo hi v : Int} (h : v < lo ∨ hi < v) : fit lo hi v = none :=
  if_neg (by omega)

/-- A number that is not negative, by a positive one. -/
theorem checkedRem_eq_some {lo hi a b : Int} (hlo : lo ≤ 0) (ha : 0 ≤ a) (hhi : a ≤ hi)
    (hb : 0 < b) : checkedRem lo hi a b = some (a % b) := by
  have hquotient : a.tdiv b = a / b := Int.tdiv_eq_ediv_of_nonneg ha
  have hnonneg : 0 ≤ a / b := Int.ediv_nonneg ha (Int.le_of_lt hb)
  have hle : a / b ≤ a := Int.ediv_le_self b ha
  have hfit : fit lo hi (a / b) = some (a / b) :=
    fit_eq_some (Int.le_trans hlo hnonneg) (Int.le_trans hle hhi)
  rw [checkedRem, if_neg (Int.ne_of_gt hb), hquotient, hfit, Option.map_some,
    Int.tmod_eq_emod_of_nonneg ha]

end CmakeTemplate.Lib
