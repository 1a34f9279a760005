/-
Ledgers kept over threads of which one has moved.

Things are conserved in a concurrent program in this form: what came in is what the threads
have in hand and what went out.  What every thread has in hand is a sum over the threads, and
a step of the system moves one thread, so it changes one term of the sum.

So the ledger stays balanced when the entries of the thread that moved balance: what it had in
hand, with what came in by the step, is what it has in hand now, with what went out.
`ledger_step` says that for an equation, in any commutative monoid that can be cancelled
(numbers, or multisets of what is conserved), and `ledger_step_le` for an inequality in an
ordered one.  Neither looks at the other threads, so a proof about a step is about one thread,
however many there are.
-/
import Mathlib.Algebra.BigOperators.Group.Finset.Basic
import Mathlib.Algebra.Order.BigOperators.Group.Finset

namespace CmakeTemplate.Lib

variable {ι M : Type} [Fintype ι] {f g : ι → M}

/-- The sums before and after differ by the one term that differs. -/
theorem sum_change [AddCommMonoid M] (i : ι) (h : ∀ j, j ≠ i → g j = f j) :
    ∑ j, g j + f i = ∑ j, f j + g i := by
  classical
  have hrest : ∑ j ∈ Finset.univ.erase i, g j = ∑ j ∈ Finset.univ.erase i, f j :=
    Finset.sum_congr rfl fun j hj => h j (Finset.ne_of_mem_erase hj)
  rw [← Finset.add_sum_erase _ g (Finset.mem_univ i), ← Finset.add_sum_erase _ f (Finset.mem_univ i),
    hrest]
  ac_rfl

/-- A balanced ledger stays balanced. -/
theorem ledger_step [AddCancelCommMonoid M] (i : ι) (h : ∀ j, j ≠ i → g j = f j)
    {came came' went went' : M} (hown : came' + f i + went = came + g i + went')
    (hled : came = ∑ j, f j + went) : came' = ∑ j, g j + went' := by
  have hsum : came' + (f i + went) = ∑ j, g j + went' + (f i + went) :=
    calc came' + (f i + went) = came + g i + went' := by rw [← add_assoc, hown]
      _ = (∑ j, f j + g i) + went + went' := by rw [hled]; ac_rfl
      _ = (∑ j, g j + f i) + went + went' := by rw [sum_change i h]
      _ = ∑ j, g j + went' + (f i + went) := by ac_rfl
  exact add_right_cancel hsum

/-- What is accounted for stays within what there is. -/
theorem ledger_step_le [AddCommMonoid M] [PartialOrder M] [IsOrderedCancelAddMonoid M] (i : ι)
    (h : ∀ j, j ≠ i → g j = f j) {came came' all all' : M}
    (hown : came' + g i + all ≤ came + f i + all') (hled : came + ∑ j, f j ≤ all) :
    came' + ∑ j, g j ≤ all' := by
  have hsum : came' + ∑ j, g j + (f i + all) ≤ all' + (f i + all) :=
    calc came' + ∑ j, g j + (f i + all) = came' + (∑ j, g j + f i) + all := by ac_rfl
      _ = ∑ j, f j + (came' + g i + all) := by rw [sum_change i h]; ac_rfl
      _ ≤ ∑ j, f j + (came + f i + all') := by gcongr
      _ = (came + ∑ j, f j) + (f i + all') := by ac_rfl
      _ ≤ all + (f i + all') := by gcongr
      _ = all' + (f i + all) := by ac_rfl
  exact le_of_add_le_add_right hsum

end CmakeTemplate.Lib
