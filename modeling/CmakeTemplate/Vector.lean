/-
The growable array of `vector.c`.

`elements` is an array of `capacity` slots.  A read outside it finds whatever lies there,
which is an argument of every function that may read there: `memmove` in
`vector_shift_elements` reads one slot behind the elements, and the bounds checks let an index
pass that is the size.  A write outside the array has no result, and neither has a capacity
that an `int` does not hold.  A slot is a pointer to the data, or NULL.

The indices, the size and the capacity are `int`s, so an index may be negative, and the checks
of the source compare it from both sides.  An array that is full is doubled before an
insertion.  `custom_free` is known only by what it is called with, which the calls that use it
return.
-/
import CmakeTemplate.Core
import CmakeTemplate.Lib.Memory
import CmakeTemplate.Lib.System
import Mathlib.Algebra.Ring.Int.Defs

namespace CmakeTemplate

open Lib

/-- `vector_t`, less `custom_free`, of which is known what it is called with. -/
structure VectorT (α : Type) where
  /-- What is in a slot. -/
  elements : Nat → Option α
  /-- `size`. -/
  size : Int
  /-- `capacity`. -/
  capacity : Int
  /-- `compare_func`. -/
  compareFunc : Option α → Option α → CompRtns

/-- `INT_MAX`. -/
def intMax : Int := 2 ^ 31 - 1

variable {α : Type}

/-- `vector_new`, once its allocations have succeeded. -/
def vectorNew (compFunc : Option α → Option α → CompRtns) (initialCapacity : Int) : VectorT α :=
  { elements := fun _ => none, size := 0, capacity := initialCapacity, compareFunc := compFunc }

/-- `elements[idx]`. -/
def VectorT.slot (v : VectorT α) (outside : Int → Option α) (idx : Int) : Option α :=
  if 0 ≤ idx ∧ idx < v.capacity then v.elements idx.toNat else outside idx

/-- `elements[idx] = data`. -/
def VectorT.setSlot (v : VectorT α) (idx : Int) (data : Option α) : Option (VectorT α) :=
  if 0 ≤ idx ∧ idx < v.capacity then
    some { v with elements := Function.update v.elements idx.toNat data }
  else none

/-- `vector_resize`; `realloc` is what the new slots hold, if there are any. -/
def vectorResize (v : VectorT α) (realloc : Option (Nat → Option α)) :
    Option (ExitCode × VectorT α) :=
  if intMax < v.capacity * 2 then none
  else
    match realloc with
    | none => some (.failure, v)
    | some fresh =>
      some (.success, { v with
        elements := fun idx => if (idx : Int) < v.capacity then v.elements idx else fresh idx
        capacity := v.capacity * 2 })

/-! ### Shifting

An insertion moves the elements behind its place to the right, and a removal moves them to the
left.
-/

/-- `LEFT` and `RIGHT`. -/
inductive Direction
  | left
  | right

/-- `memmove` of `count` slots. -/
def moveSlots (v : VectorT α) (outside : Int → Option α) (destination source : Int) (count : Nat) :
    Option (VectorT α) :=
  if count = 0 then some v
  else if 0 ≤ destination ∧ destination + count ≤ v.capacity then
    some { v with
      elements := write v.elements destination.toNat count fun j => v.slot outside (source + j) }
  else none

/-- `vector_shift_elements`. -/
def vectorShiftElements (v : VectorT α) (outside : Int → Option α) (index : Int)
    (direction : Direction) : Option (ExitCode × VectorT α) :=
  if 0 > index ∨ index > v.size then some (.failure, v)
  else do
    let elementsToShift := (v.size - index).toNat
    let v ← match direction with
      | .right => moveSlots v outside (index + 1) index elementsToShift
      | .left => moveSlots v outside index (index + 1) elementsToShift
    some (.success, v)

/-- `vector_shift_elements_right`. -/
def vectorShiftElementsRight (v : VectorT α) (outside : Int → Option α) (index : Int) :
    Option (ExitCode × VectorT α) := do
  let (exitCode, v) ← vectorShiftElements v outside index .right
  if exitCode = .success then some (.success, { v with size := v.size + 1 })
  else some (exitCode, v)

/-- `vector_shift_elements_left`. -/
def vectorShiftElementsLeft (v : VectorT α) (outside : Int → Option α) (index : Int) :
    Option (ExitCode × VectorT α) := do
  let (exitCode, v) ← vectorShiftElements v outside index .left
  if exitCode = .success then some (.success, { v with size := v.size - 1 })
  else some (exitCode, v)

/-! ### The calls

Each takes what it finds outside the array as an argument, if it may look there.
-/

/-- What `vector_insert` makes room with. -/
def growIfFull (v : VectorT α) (realloc : Option (Nat → Option α)) :
    Option (ExitCode × VectorT α) :=
  if v.size = v.capacity then vectorResize v realloc else some (.success, v)

/-- `vector_insert`. -/
def vectorInsert (v : VectorT α) (outside : Int → Option α) (data : Option α) (index : Int)
    (realloc : Option (Nat → Option α)) : Option (ExitCode × VectorT α) :=
  if data.isNone then some (.failure, v)
  else if 0 > index ∨ index > v.size then some (.failure, v)
  else do
    let (exitCode, v) ← growIfFull v realloc
    if exitCode = .success then do
      let (exitCode, v) ← vectorShiftElementsRight v outside index
      if exitCode = .success then do
        let v ← v.setSlot index data
        some (.success, v)
      else some (exitCode, v)
    else some (exitCode, v)

/-- `vector_append`. -/
def vectorAppend (v : VectorT α) (outside : Int → Option α) (data : Option α)
    (realloc : Option (Nat → Option α)) : Option (ExitCode × VectorT α) :=
  if data.isNone then some (.failure, v) else vectorInsert v outside data v.size realloc

/-- `vector_pop`. -/
def vectorPop (v : VectorT α) (outside : Int → Option α) : Option (Option α × VectorT α) := do
  let temp := v.slot outside (v.size - 1)
  let (exitCode, v) ← vectorShiftElementsLeft v outside v.size
  if exitCode = .success then some (temp, v) else some (none, v)

/-- `vector_remove`, with what it calls `custom_free` on. -/
def vectorRemove (v : VectorT α) (outside : Int → Option α) (index : Int) :
    Option (ExitCode × List (Option α) × VectorT α) :=
  if 0 > index ∨ index > v.size then some (.failure, [], v)
  else do
    let temp := v.slot outside index
    let (exitCode, v) ← vectorShiftElementsLeft v outside index
    if exitCode = .success then some (.success, [temp], v) else some (exitCode, [], v)

/-- `vector_get_element`. -/
def vectorGetElement (v : VectorT α) (outside : Int → Option α) (index : Int) : Option α :=
  if 0 > index ∨ index > v.size then none else v.slot outside index

/-- `vector_set_element`. -/
def vectorSetElement (v : VectorT α) (data : Option α) (index : Int) :
    Option (ExitCode × VectorT α) :=
  if data.isNone then some (.failure, v)
  else if 0 > index ∨ index > v.size then some (.failure, v)
  else do
    let v ← v.setSlot index data
    some (.success, v)

/-- What a loop over the vector reads. -/
def VectorT.slots (v : VectorT α) (outside : Int → Option α) : List (Option α) :=
  (List.range v.size.toNat).map fun (idx : Nat) => v.slot outside idx

/-- `vector_find_first_occurrence`. -/
def vectorFindFirstOccurrence (v : VectorT α) (outside : Int → Option α) (searchData : Option α) :
    Option α :=
  if searchData.isNone then none
  else ((v.slots outside).find? fun element => v.compareFunc searchData element = .equal).join

/-- `vector_clear`, with what it calls `custom_free` on. -/
def vectorClear (v : VectorT α) (outside : Int → Option α) :
    ExitCode × List (Option α) × VectorT α :=
  (.success, v.slots outside, { v with size := 0 })

/-! ### Runs

A run may find something else outside the array at every call.
-/

inductive VecOp (α : Type)
  | append (data : Option α) (realloc : Option (Nat → Option α))
  | insert (data : Option α) (index : Int) (realloc : Option (Nat → Option α))
  | pop
  | remove (index : Int)
  | getElement (index : Int)
  | setElement (data : Option α) (index : Int)
  | findFirstOccurrence (searchData : Option α)
  | clear

/-- What a call returns. -/
inductive VecRet (α : Type)
  | code (exitCode : ExitCode)
  | data (p : Option α)
  deriving DecidableEq

/-- What a call leaves: its result, what `custom_free` was called with, and the vector. -/
abbrev VecOutcome (α σ : Type) := VecRet α × List (Option α) × σ

def vectorExec (v : VectorT α) (outside : Int → Option α) :
    VecOp α → Option (VecOutcome α (VectorT α))
  | .append data realloc =>
    (vectorAppend v outside data realloc).map fun (c, v) => (.code c, [], v)
  | .insert data index realloc =>
    (vectorInsert v outside data index realloc).map fun (c, v) => (.code c, [], v)
  | .pop => (vectorPop v outside).map fun (p, v) => (.data p, [], v)
  | .remove index => (vectorRemove v outside index).map fun (c, freed, v) => (.code c, freed, v)
  | .getElement index => some (.data (vectorGetElement v outside index), [], v)
  | .setElement data index => (vectorSetElement v data index).map fun (c, v) => (.code c, [], v)
  | .findFirstOccurrence searchData =>
    some (.data (vectorFindFirstOccurrence v outside searchData), [], v)
  | .clear =>
    let (c, freed, v) := vectorClear v outside
    some (.code c, freed, v)

/-- The runs of a vector made by `vector_new`, each call with what lies outside the array. -/
def vectorSystem (compFunc : Option α → Option α → CompRtns) (initialCapacity : Int) :
    System (VectorT α) (VecOp α × (Int → Option α)) where
  init v := v = vectorNew compFunc initialCapacity
  step v call := (vectorExec v call.2 call.1).map fun out => out.2.2

/-! ### Calls out of bounds

What a call owes for an index without an element, or for an empty vector: to fail, and to
leave everything as it is.
-/

/-- The size is one that the array has room for. -/
def VectorT.Bounded (v : VectorT α) : Prop := 0 ≤ v.size ∧ v.size ≤ v.capacity

/-- `elements[0..size)` is the list. -/
structure VectorT.Holds (v : VectorT α) (xs : List α) : Prop where
  /-- The size is the length of the list. -/
  size : v.size = xs.length
  /-- The first slots hold the list. -/
  elements : read v.elements 0 xs.length = xs.map some

/-- There is no element, or no place, for the call. -/
def OutOfBounds (v : VectorT α) : VecOp α → Prop
  | .getElement index | .setElement _ index | .remove index => ¬ (0 ≤ index ∧ index < v.size)
  | .insert _ index _ => ¬ (0 ≤ index ∧ index ≤ v.size)
  | .pop => v.size = 0
  | .append _ _ | .findFirstOccurrence _ | .clear => False

/-- What a call returns when it fails. -/
def failureRet : VecOp α → VecRet α
  | .getElement _ | .pop | .findFirstOccurrence _ => .data none
  | .setElement _ _ | .remove _ | .insert _ _ _ | .append _ _ | .clear => .code .failure

/-- A call out of bounds fails, frees nothing and leaves the vector. -/
def Refuses (v : VectorT α) (call : VecOp α × (Int → Option α)) : Prop :=
  OutOfBounds v call.1 → vectorExec v call.2 call.1 = some (failureRet call.1, [], v)

/-- The index is not the size, which the bounds checks let pass, and a pop has something to take;
reading at the size is harmless where a NULL is found, and NULL is not written anywhere. -/
def Checked (v : VectorT α) (call : VecOp α × (Int → Option α)) : Prop :=
  match call.1 with
  | .getElement index => index = v.size → v.slot call.2 index = none
  | .setElement data index => index = v.size → data = none
  | .remove index => index ≠ v.size
  | .pop => v.size ≠ 0
  | .insert _ _ _ | .append _ _ | .findFirstOccurrence _ | .clear => True

end CmakeTemplate
