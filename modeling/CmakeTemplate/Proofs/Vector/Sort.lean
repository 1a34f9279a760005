/-
Which vectors `vector_sort` sorts.

`qsort` wants a callback that says by a negative number that the first of two objects is below
the second.  A comparison function of the library returns EQUAL, GREATER_THAN or LESS_THAN,
which are 0, 1 and 2, so it never does; `qsort` can take it for an order only where it finds
everything equal.  It is given addresses of slots, too, so what it compares is not the
elements but what stands at the slots.

So a vector is sorted, whatever `qsort` does, if and only if `compare_func` finds equal both
any two slots, in whatever order the pointers are in them, and any two elements.  A vector
that has one pointer twice is such a one.  With `int_comp` and pointers to 2 and to 1 the
callback returns a positive number for the two slots, whichever comes first.
-/
import CmakeTemplate.VectorSort
import Mathlib.Data.Int.Order.Basic

namespace CmakeTemplate

open Lib

variable {α κ : Type} [LinearOrder κ]

/-! ### Comparing keys

The number of a comparison is that of the order of two keys.
-/

theorem rankKeys_eq_equal {dataOne dataTwo : κ} :
    rankKeys dataOne dataTwo = .equal ↔ dataOne = dataTwo := by
  unfold rankKeys
  split
  · rename_i h
    exact iff_of_true rfl h
  · rename_i h
    split <;> exact iff_of_false CompRtns.noConfusion h

theorem rankKeys_eq_greaterThan {dataOne dataTwo : κ} :
    rankKeys dataOne dataTwo = .greaterThan ↔ dataTwo < dataOne := by
  unfold rankKeys
  split
  · rename_i h
    subst h
    exact iff_of_false CompRtns.noConfusion (lt_irrefl dataOne)
  · split
    · rename_i h
      exact iff_of_true rfl h
    · rename_i h
      exact iff_of_false CompRtns.noConfusion h

theorem rankKeys_toInt_nonneg (dataOne dataTwo : κ) : 0 ≤ (rankKeys dataOne dataTwo).toInt := by
  unfold rankKeys
  split
  · decide
  · split <;> decide

theorem rankKeys_toInt_eq_zero {dataOne dataTwo : κ} :
    (rankKeys dataOne dataTwo).toInt = 0 ↔ rankKeys dataOne dataTwo = .equal := by
  unfold rankKeys
  split
  · decide
  · split <;> decide

/-- `int_comp` compares the `int`s it reads. -/
theorem intComp_eq_rankKeys (order : ByteOrder) (one two : List UInt8) :
    intComp order (some one) (some two) = rankKeys (loadInt order one) (loadInt order two) := by
  unfold intComp rankKeys
  dsimp only
  split
  · rfl
  · split
    · rfl
    · rw [if_pos (by omega)]

/-- The bytes of the `int` at an address. -/
def intBytes (memory : UInt64 → UInt8) (p : UInt64) : List UInt8 :=
  [memory p, memory (p + 1), memory (p + 2), memory (p + 3)]

theorem intKeys_compareFunc (order : ByteOrder) (memory : UInt64 → UInt8)
    (elements : Nat → Option UInt64) (a b : Option UInt64) :
    intComp order (a.map (intBytes memory)) (b.map (intBytes memory)) =
      (intKeys order memory).compareFunc elements (a.map .data) (b.map .data) := by
  cases a with
  | none => rfl
  | some x =>
      cases b with
      | none => rfl
      | some y => exact intComp_eq_rankKeys order (intBytes memory x) (intBytes memory y)

/-- As `qsort` calls it, it compares the first bytes of two pointers. -/
theorem intKeys_vectorCmp (order : ByteOrder) (memory : UInt64 → UInt8)
    (elements : Nat → Option UInt64) (i j : Nat) :
    (intKeys order memory).vectorCmp elements i j =
      (intComp order (some (pointerBytes order ((elements i).getD 0)))
        (some (pointerBytes order ((elements j).getD 0)))).toInt := by
  rw [intComp_eq_rankKeys]
  rfl

/-! ### The callback

It is never negative, so what `qsort` may do is known.
-/

variable {k : KeyRead α κ} {v : VectorT α} {xs : List α}

theorem vectorCmp_nonneg (now : Nat → Option α) (i j : Nat) : 0 ≤ k.vectorCmp now i j :=
  rankKeys_toInt_nonneg _ _

theorem vectorCmp_eq_zero {now : Nat → Option α} {i j : Nat} :
    k.vectorCmp now i j = 0 ↔ k.compareFunc now (some (.slot i)) (some (.slot j)) = .equal :=
  rankKeys_toInt_eq_zero

/-- `qsort` takes the callback where it finds all slots equal. -/
theorem vectorCmp_orders_iff :
    k.vectorCmp.Orders v.elements v.size.toNat ↔ k.SlotsEqual v := by
  rw [Compar.orders_iff_zero vectorCmp_nonneg]
  unfold KeyRead.SlotsEqual
  simp only [vectorCmp_eq_zero]

/-! ### The elements

Being in order is asked of any two elements, either way round.
-/

/-- A key that a pointer to data leads to does not depend on the array. -/
theorem compareFunc_data (now : Nat → Option α) (x y : α) :
    k.compareFunc now (some (.data x)) (some (.data y)) = rankKeys (k.ofData x) (k.ofData y) := rfl

/-- No two elements are in the wrong order, either way round, if and only if all are equal. -/
theorem not_greater_iff_allEqual (hv : v.Holds xs) (hcmp : k.ComparesFor v) :
    (∀ a ∈ read v.elements 0 v.size.toNat, ∀ b ∈ read v.elements 0 v.size.toNat,
        v.compareFunc a b ≠ .greaterThan) ↔ AllEqual v xs := by
  have hread : read v.elements 0 v.size.toNat = xs.map some := by
    rw [hv.size, Int.toNat_natCast]
    exact hv.elements
  rw [hread]
  constructor
  · intro h x hx y hy
    have hxy := h _ (List.mem_map_of_mem hx) _ (List.mem_map_of_mem hy)
    have hyx := h _ (List.mem_map_of_mem hy) _ (List.mem_map_of_mem hx)
    rw [hcmp, Option.map_some, Option.map_some, compareFunc_data, Ne, rankKeys_eq_greaterThan,
      not_lt] at hxy hyx
    rw [hcmp, Option.map_some, Option.map_some, compareFunc_data, rankKeys_eq_equal]
    exact le_antisymm hxy hyx
  · intro h a ha b hb
    obtain ⟨x, hx, rfl⟩ := List.mem_map.mp ha
    obtain ⟨y, hy, rfl⟩ := List.mem_map.mp hb
    rw [h x hx y hy]
    exact CompRtns.noConfusion

theorem compareFunc_self (hcmp : k.ComparesFor v) (a : Option α) :
    v.compareFunc a a ≠ .greaterThan := by
  rw [hcmp]
  cases a with
  | none => exact CompRtns.noConfusion
  | some x =>
      rw [Option.map_some, compareFunc_data, Ne, rankKeys_eq_greaterThan]
      exact lt_irrefl _

/-- A vector is sorted, whatever `qsort` does, if and only if `compare_func` finds equal both
any two slots and any two elements. -/
theorem vectorSort_sorts_iff (hv : v.Holds xs) (hcmp : k.ComparesFor v) :
    SortsByCompare k v ↔ k.SlotsEqual v ∧ AllEqual v xs := by
  unfold SortsByCompare
  rw [vectorCmp_orders_iff]
  refine and_congr_right fun hslots => ?_
  have hzero : ∀ now, Rearranged v.size.toNat v.elements now → ∀ i j, i < v.size.toNat →
      j < v.size.toNat → k.vectorCmp now i j = 0 := by
    intro now hnow i j hi hj
    exact vectorCmp_eq_zero.mpr (hslots now hnow i j hi hj)
  rw [← not_greater_iff_allEqual hv hcmp, ← forall_neighbours_iff (compareFunc_self hcmp)]
  constructor
  · intro h now hnow i hi
    obtain ⟨v', hsort, -, -, hord⟩ := h now ((qsortLeaves_iff_of_zero hzero).mpr hnow)
    obtain rfl := (Prod.mk.inj hsort).2
    exact hord i hi
  · intro h sorted hleaves
    exact ⟨_, rfl, rfl, hleaves.rearranged.perm, h sorted hleaves.rearranged⟩

/-! ### Two runs

Two pointers in a vector with `int_comp`.
-/

/-- A memory with the `int` 2 at address 16 and the `int` 1 at address 32. -/
def twoInts : UInt64 → UInt8 := fun a => if a = 16 then 2 else if a = 32 then 1 else 0

/-- A vector of two pointers, made with `int_comp`. -/
def pairOf (p q : UInt64) : VectorT UInt64 where
  elements idx := if idx = 0 then some p else if idx = 1 then some q else none
  size := 2
  capacity := 2
  compareFunc a b := intComp .littleEndian (a.map (intBytes twoInts)) (b.map (intBytes twoInts))

theorem pairOf_holds (p q : UInt64) : (pairOf p q).Holds [p, q] := ⟨rfl, rfl⟩

theorem pairOf_compares (p q : UInt64) :
    (intKeys .littleEndian twoInts).ComparesFor (pairOf p q) := by
  intro a b
  exact intKeys_compareFunc .littleEndian twoInts _ a b

/-- One pointer twice is sorted. -/
theorem vectorSort_sorts_same : SortsByCompare (intKeys .littleEndian twoInts) (pairOf 16 16) := by
  refine (vectorSort_sorts_iff (pairOf_holds 16 16) (pairOf_compares 16 16)).mpr ⟨?_, ?_⟩
  · intro now hnow i j hi hj
    have hread : ∀ i, i < 2 → now i = some 16 := by
      intro i hi
      have hmem : now i ∈ [some 16, some (16 : UInt64)] := hnow.mem hi
      simpa using hmem
    have hsame : (intKeys .littleEndian twoInts).ofSlot now i =
        (intKeys .littleEndian twoInts).ofSlot now j := by
      unfold intKeys
      dsimp only
      rw [hread i hi, hread j hj]
    exact rankKeys_eq_equal.mpr hsame
  · intro x hx y hy
    simp only [List.mem_cons, List.not_mem_nil, or_false, or_self] at hx hy
    rw [hx, hy]
    rfl

/-- Pointers to 2 and to 1: the callback returns a positive number for the two slots, whichever
comes first. -/
theorem callback_never_negative :
    (intKeys .littleEndian twoInts).vectorCmp (pairOf 16 32).elements 0 1 = 2 ∧
      (intKeys .littleEndian twoInts).vectorCmp (pairOf 16 32).elements 1 0 = 1 ∧
      ¬ SortsByCompare (intKeys .littleEndian twoInts) (pairOf 16 32) := by
  have hcmp : (intKeys .littleEndian twoInts).vectorCmp (pairOf 16 32).elements 0 1 = 2 := by
    decide
  refine ⟨hcmp, by decide, ?_⟩
  rintro ⟨horders, -⟩
  have hzero := (Compar.orders_iff_zero vectorCmp_nonneg).mp horders _
    ⟨List.Perm.refl _, fun _ _ => rfl⟩ 0 1 (by decide) (by decide)
  rw [hcmp] at hzero
  exact absurd hzero (by decide)

end CmakeTemplate
