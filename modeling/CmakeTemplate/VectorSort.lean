/-
`vector_sort`, with what `qsort` leaves for an argument.

`compare_func` is a function like those of `comparisons.c`: it reads a key where either of its
arguments points to and reports the order of the keys.  It is meant for pointers to data, but
may be given the address of a slot as well; what it reads there depends on the pointers in the
array.  `qsort` is given the array of pointers, so it calls back with the addresses of slots,
and the function reads its keys there.

The result of `compare_func` is one of `comp_rtns_t`, where LESS_THAN is 2 and only ERROR is
negative, and `qsort` takes it as it is.  So a callback that compares two keys never says that
the first of two objects is below the second, and it sorts only where all objects are to be
equal.
-/
import CmakeTemplate.Comparisons
import CmakeTemplate.Lib.Qsort
import CmakeTemplate.Vector
import Mathlib.Order.Lattice

namespace CmakeTemplate

open Lib

/-- The number of a `comp_rtns_t`. -/
def CompRtns.toInt : CompRtns → Int
  | .error => -1
  | .equal => 0
  | .greaterThan => 1
  | .lessThan => 2
  | .notEqual => 3

variable {α κ : Type}

/-- Where a pointer may point to. -/
inductive Place (α : Type)
  | slot (idx : Nat)
  | data (p : α)

/-- What a comparison function reads. -/
structure KeyRead (α κ : Type) where
  /-- The key behind a pointer to data. -/
  ofData : α → κ
  /-- The key that is read at the address of a slot. -/
  ofSlot : (Nat → Option α) → Nat → κ

def KeyRead.key (k : KeyRead α κ) (elements : Nat → Option α) : Place α → κ
  | .slot idx => k.ofSlot elements idx
  | .data p => k.ofData p

section

variable [LinearOrder κ]

/-- The order of two keys. -/
def rankKeys (dataOne dataTwo : κ) : CompRtns :=
  if dataOne = dataTwo then .equal else if dataTwo < dataOne then .greaterThan else .lessThan

/-- A comparison function that reads these keys, at any two addresses. -/
def KeyRead.compareFunc (k : KeyRead α κ) (elements : Nat → Option α)
    (one two : Option (Place α)) : CompRtns :=
  match one, two with
  | some one, some two => rankKeys (k.key elements one) (k.key elements two)
  | _, _ => .error

/-- `(VECTOR_CMP)vector->compare_func`, as `qsort` calls it. -/
def KeyRead.vectorCmp (k : KeyRead α κ) : Compar (Option α) := fun elements i j =>
  (k.compareFunc elements (some (.slot i)) (some (.slot j))).toInt

/-- `vector_sort`; `sorted` is the array that `qsort` leaves. -/
def vectorSort (v : VectorT α) (sorted : Nat → Option α) : ExitCode × VectorT α :=
  (.success, { v with elements := sorted })

/-- The vector's comparison function reads these keys. -/
def KeyRead.ComparesFor (k : KeyRead α κ) (v : VectorT α) : Prop :=
  ∀ a b, v.compareFunc a b = k.compareFunc v.elements (a.map .data) (b.map .data)

/-- The callback is one that `qsort` takes, and whatever `qsort` leaves is sorted. -/
def SortsByCompare (k : KeyRead α κ) (v : VectorT α) : Prop :=
  k.vectorCmp.Orders v.elements v.size.toNat ∧
    ∀ sorted, QsortLeaves k.vectorCmp v.elements v.size.toNat sorted →
      ∃ v', vectorSort v sorted = (.success, v') ∧ v'.size = v.size ∧
        (read v'.elements 0 v.size.toNat).Perm (read v.elements 0 v.size.toNat) ∧
        ∀ i, i + 1 < v.size.toNat →
          v'.compareFunc (v'.elements i) (v'.elements (i + 1)) ≠ .greaterThan

/-- The addresses of any two slots compare as equal, in whatever order the pointers are. -/
def KeyRead.SlotsEqual (k : KeyRead α κ) (v : VectorT α) : Prop :=
  ∀ now, Rearranged v.size.toNat v.elements now → ∀ i j, i < v.size.toNat → j < v.size.toNat →
    k.compareFunc now (some (.slot i)) (some (.slot j)) = .equal

/-- Any two elements compare as equal. -/
def AllEqual (v : VectorT α) (xs : List α) : Prop :=
  ∀ x ∈ xs, ∀ y ∈ xs, v.compareFunc (some x) (some y) = .equal

end

/-- What `int_comp` reads: the `int` at the address, and in a slot the first bytes of the
pointer. -/
def intKeys (order : ByteOrder) (memory : UInt64 → UInt8) : KeyRead UInt64 Int where
  ofData p := intAt order memory p
  ofSlot elements idx := loadInt order (pointerBytes order ((elements idx).getD 0))

end CmakeTemplate
