/-
What the C standard says of `qsort`.

The callback is called with two slots of the array as it is at that moment, so a callback may
look at where they stand as well as at what is in them.  Its results have to agree with one
total order of the objects, wherever these stand; then the objects end up in ascending order,
and those that compare as equal in any order.  Where the callback does not meet that, the
standard promises nothing, and nothing is said here.

Which algorithm sorts is not known, so what `qsort` leaves is a relation: any rearrangement of
the objects in which no slot is above a later one.  A callback that never returns a negative
number can only find all objects equal, and then every rearrangement is allowed.
-/
import CmakeTemplate.Lib.Memory
import Mathlib.Data.List.Perm.Basic

namespace CmakeTemplate.Lib

variable {β : Type}

/-- A callback, with the array at the time of the call. -/
abbrev Compar (β : Type) := (Nat → β) → Nat → Nat → Int

/-- The same objects in any order, and the same behind them. -/
structure Rearranged (n : Nat) (array now : Nat → β) : Prop where
  /-- The slots hold the same objects. -/
  perm : (read now 0 n).Perm (read array 0 n)
  /-- Nothing behind them has changed. -/
  behind : ∀ idx, n ≤ idx → now idx = array idx

/-- The callback agrees with one total order of the objects. -/
def Compar.Orders (compar : Compar β) (array : Nat → β) (n : Nat) : Prop :=
  ∃ le : β → β → Prop, (∀ x y, le x y ∨ le y x) ∧ (∀ x y z, le x y → le y z → le x z) ∧
    ∀ now, Rearranged n array now → ∀ i j, i < n → j < n →
      (compar now i j ≤ 0 ↔ le (now i) (now j)) ∧ (0 ≤ compar now i j ↔ le (now j) (now i))

/-- What `qsort` may leave. -/
structure QsortLeaves (compar : Compar β) (array : Nat → β) (n : Nat) (sorted : Nat → β) :
    Prop where
  /-- No object is lost or made up. -/
  rearranged : Rearranged n array sorted
  /-- No slot is above a later one. -/
  ascending : ∀ i j, i < j → j < n → compar sorted i j ≤ 0

variable {compar : Compar β} {array now : Nat → β} {n i : Nat}

/-! ### Rearranging

An order of the objects that is possible is reached by some array, so a statement about all
arrays is one about all orders.
-/

theorem mem_read (h : i < n) : array i ∈ read array 0 n := by
  unfold read
  refine List.mem_map.mpr ⟨i, List.mem_range.mpr h, ?_⟩
  rw [Nat.zero_add]

/-- What stands in a slot was somewhere in the array before. -/
theorem Rearranged.mem (h : Rearranged n array now) (hi : i < n) : now i ∈ read array 0 n :=
  h.perm.subset (mem_read hi)

/-- Every order of the objects is the order in some array. -/
theorem exists_rearranged {ys : List β} (h : ys.Perm (read array 0 n)) :
    ∃ now, Rearranged n array now ∧ ∀ i (hi : i < ys.length), now i = ys[i] := by
  have hlen : ys.length = n := by
    rw [h.length_eq, length_read]
  have hat : ∀ i (hi : i < ys.length),
      write array 0 n (fun j => ys.getD j (array j)) i = ys[i] := by
    intro i hi
    rw [write_zero_at (by omega)]
    rw [List.getD_eq_getElem?_getD, List.getElem?_eq_getElem hi, Option.getD_some]
  refine ⟨_, ⟨?_, ?_⟩, hat⟩
  · have hread : read (write array 0 n fun j => ys.getD j (array j)) 0 n = ys := by
      refine List.ext_getElem (by rw [length_read, hlen]) ?_
      intro i hi hi'
      rw [← hat i hi']
      simp [read]
    rw [hread]
    exact h
  · intro idx hidx
    exact write_behind (by omega)

/-- Two objects can stand side by side in either order, so a relation of neighbours in all
arrays is one of any two objects. -/
theorem forall_neighbours_iff {R : β → β → Prop} (hrefl : ∀ x, R x x) :
    (∀ now, Rearranged n array now → ∀ i, i + 1 < n → R (now i) (now (i + 1))) ↔
      ∀ x ∈ read array 0 n, ∀ y ∈ read array 0 n, R x y := by
  classical
  constructor
  · intro h x hx y hy
    by_cases hxy : y = x
    · rw [hxy]
      exact hrefl x
    · have hy' : y ∈ (read array 0 n).erase x := (List.mem_erase_of_ne hxy).mpr hy
      have hperm : (x :: y :: ((read array 0 n).erase x).erase y).Perm (read array 0 n) :=
        ((List.perm_cons_erase hx).trans ((List.perm_cons_erase hy').cons x)).symm
      obtain ⟨now, hnow, hat⟩ := exists_rearranged hperm
      have hlen := hperm.length_eq
      rw [length_read] at hlen
      simp only [List.length_cons] at hlen
      have hside := h now hnow 0 (by omega)
      rwa [hat 0 (by simp), hat (0 + 1) (by simp)] at hside
  · intro h now hnow i hi
    exact h _ (hnow.mem (by omega)) _ (hnow.mem hi)

/-! ### A callback that is never negative

It says of any two objects that the first is not below the second, in both orders.
-/

/-- It orders the objects only where it finds all of them equal. -/
theorem Compar.orders_iff_zero (hnonneg : ∀ now i j, 0 ≤ compar now i j) :
    compar.Orders array n ↔
      ∀ now, Rearranged n array now → ∀ i j, i < n → j < n → compar now i j = 0 := by
  constructor
  · rintro ⟨le, -, -, hsign⟩ now hnow i j hi hj
    -- `j` is not before `i`, nor `i` before `j`
    have hle : le (now i) (now j) := (hsign now hnow j i hj hi).2.mp (hnonneg now j i)
    have hneg : compar now i j ≤ 0 := (hsign now hnow i j hi hj).1.mpr hle
    exact Int.le_antisymm hneg (hnonneg now i j)
  · intro hzero
    refine ⟨fun _ _ => True, fun _ _ => .inl trivial, fun _ _ _ _ _ => trivial, ?_⟩
    intro now hnow i j hi hj
    rw [hzero now hnow i j hi hj]
    exact ⟨iff_of_true (Int.le_refl 0) trivial, iff_of_true (Int.le_refl 0) trivial⟩

/-- And then `qsort` may leave them in any order. -/
theorem qsortLeaves_iff_of_zero
    (hzero : ∀ now, Rearranged n array now → ∀ i j, i < n → j < n → compar now i j = 0) :
    QsortLeaves compar array n now ↔ Rearranged n array now := by
  constructor
  · intro h
    exact h.rearranged
  · intro h
    refine ⟨h, ?_⟩
    intro i j hij hj
    exact Int.le_of_eq (hzero now h i j (by omega) hj)

end CmakeTemplate.Lib
