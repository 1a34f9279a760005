/-
An array of which the first few slots are in use.

A table with a count keeps its entries in the slots below the count, and what lies behind is
no entry, whatever stands there.  `slots f n` is what is in the first `n` slots, as a
multiset, where `f` reads a slot.

Appending writes the slot at the count, and is one insertion.  Overwriting a slot takes the
old value out and puts the new one in.  Removing by moving the last slot into the hole takes
one value out, and the order of the others changes, which a multiset does not see; where the
hole is the last slot itself, the move is onto itself.  So every change of such a table is at
most one insertion and one removal of the multiset, whatever the order in the array.
-/
import Mathlib.Data.Multiset.Range
import Mathlib.Logic.Function.Basic

namespace CmakeTemplate.Lib

variable {β : Type}

def slots (f : ℕ → β) (n : ℕ) : Multiset β := (Multiset.range n).map f

variable {f g : ℕ → β} {n i : ℕ}

theorem slots_succ (f : ℕ → β) (n : ℕ) : slots f (n + 1) = f n ::ₘ slots f n := by
  rw [slots, Multiset.range_succ, Multiset.map_cons, slots]

theorem slots_congr (h : ∀ i, i < n → f i = g i) : slots f n = slots g n :=
  Multiset.map_congr rfl fun i hi => h i (Multiset.mem_range.mp hi)

theorem mem_slots (h : i < n) : f i ∈ slots f n :=
  Multiset.mem_map_of_mem f (Multiset.mem_range.mpr h)

/-- Appending. -/
theorem slots_push (f : ℕ → β) (n : ℕ) (x : β) :
    slots (Function.update f n x) (n + 1) = x ::ₘ slots f n := by
  rw [slots_succ, Function.update_self]
  exact congrArg (x ::ₘ ·) (slots_congr fun i hi => Function.update_of_ne (Nat.ne_of_lt hi) _ _)

/-- Overwriting. -/
theorem slots_write (x : β) (h : i < n) :
    f i ::ₘ slots (Function.update f i x) n = x ::ₘ slots f n := by
  induction n with
  | zero => exact absurd h (Nat.not_lt_zero i)
  | succ n ih =>
      by_cases hi : i = n
      · subst hi
        rw [slots_push, slots_succ, Multiset.cons_swap]
      · have hlt : i < n := Nat.lt_of_le_of_ne (Nat.le_of_lt_succ h) hi
        rw [slots_succ, slots_succ, Function.update_of_ne (Ne.symm hi), Multiset.cons_swap, ih hlt,
          Multiset.cons_swap]

/-- Removing, with the last slot moved into the hole. -/
theorem slots_swapRemove (f : ℕ → β) (h : i ≤ n) :
    f i ::ₘ slots (Function.update f i (f n)) n = slots f (n + 1) := by
  rcases Nat.lt_or_eq_of_le h with hlt | rfl
  · rw [slots_write (f n) hlt, slots_succ]
  · rw [Function.update_eq_self, slots_succ]

end CmakeTemplate.Lib
