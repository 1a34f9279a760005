/-
Counting in 32 bits.

A `uint32_t` counter steps like a natural number until it would pass `2 ^ 32 - 1`, and a step
down from a positive value never wraps.  So a counter that is kept beside a data structure is
its size exactly as long as the structure has fewer than `2 ^ 32` elements, and a bound on the
structure is what the proofs about counters ask for.

Without a bound, a step up adds one at most, as the one that wraps goes to 0.  That is enough
where a counter is only compared from above: a count that is never above the number of
elements stays so, wrapping or not.  The step that wraps is the only one after which the
counter is 0, which is how a test for emptiness goes wrong.
-/
import Mathlib.Algebra.Group.Nat.Defs

namespace CmakeTemplate.Lib

theorem toNat_succ {n : UInt32} (h : n.toNat + 1 < 2 ^ 32) : (n + 1).toNat = n.toNat + 1 := by
  rw [UInt32.toNat_add]
  exact Nat.mod_eq_of_lt h

/-- Counting up, wrapping or not, adds at most one. -/
theorem toNat_succ_le (n : UInt32) : (n + 1).toNat ≤ n.toNat + 1 := by
  rw [UInt32.toNat_add]
  exact Nat.mod_le _ _

theorem toNat_pred {n : UInt32} (h : 0 < n.toNat) : (n - 1).toNat = n.toNat - 1 :=
  UInt32.toNat_sub_of_le n 1 (UInt32.le_iff_toNat_le.mpr h)

/-- The step that wraps. -/
theorem succ_eq_zero {n : UInt32} (h : n.toNat + 1 = 2 ^ 32) : n + 1 = 0 := by
  apply UInt32.toNat_inj.mp
  rw [UInt32.toNat_add]
  show (n.toNat + 1) % 2 ^ 32 = 0
  omega

theorem eq_zero_iff {n : UInt32} : n = 0 ↔ n.toNat = 0 :=
  UInt32.toNat_inj.symm

end CmakeTemplate.Lib
