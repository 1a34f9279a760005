/-
The slots that the calls on a vector touch.

The vector of `Vector.lean` says what a call leaves and returns.  A call that reads or writes
a slot outside the array may leave and return the right thing all the same, so what it touches
is followed on its own here: `touches` goes through `vector.c` and notes every slot that is
read or written, both ranges of the `memmove` included, with the number of slots that the
array has at that moment.

An insertion touches the array behind the growth, and a removal the slot behind the last
element, which is a slot of the array unless that is full.  A `realloc` to nothing may return
NULL or not; `realloc` says which, and in the second case the call goes on with an array of no
slots.
-/
import CmakeTemplate.Vector

namespace CmakeTemplate

open Lib

variable {α : Type}

/-- A slot, in an array of `capacity` slots. -/
structure Touch where
  /-- The slot. -/
  slot : Int
  /-- How many slots the array has. -/
  capacity : Int

def Touch.Inside (t : Touch) : Prop := 0 ≤ t.slot ∧ t.slot < t.capacity

/-- A slot of the array as it is. -/
def VectorT.touch (v : VectorT α) (idx : Int) : Touch := ⟨idx, v.capacity⟩

/-- `count` slots from `first` on. -/
def VectorT.touchRange (v : VectorT α) (first : Int) (count : Nat) : List Touch :=
  (List.range count).map fun (j : Nat) => v.touch (first + j)

/-- What `vector_shift_elements` touches. -/
def shiftTouches (v : VectorT α) (index : Int) (direction : Direction) : List Touch :=
  if 0 > index ∨ index > v.size then []
  else
    let elementsToShift := (v.size - index).toNat
    match direction with
    | .right => v.touchRange index elementsToShift ++ v.touchRange (index + 1) elementsToShift
    | .left => v.touchRange (index + 1) elementsToShift ++ v.touchRange index elementsToShift

/-- The calls that shift elements. -/
inductive ShiftCall (α : Type)
  | insert (data : Option α) (index : Int) (realloc : Option (Nat → Option α))
  | append (data : Option α) (realloc : Option (Nat → Option α))
  | remove (index : Int)
  | pop

/-- What `vector_insert` touches. -/
def insertTouches (v : VectorT α) (data : Option α) (index : Int)
    (realloc : Option (Nat → Option α)) : List Touch :=
  if data.isNone then []
  else if 0 > index ∨ index > v.size then []
  else
    match growIfFull v realloc with
    | some (.success, v) => shiftTouches v index .right ++ [v.touch index]
    | _ => []

/-- What a call touches. -/
def touches (v : VectorT α) : ShiftCall α → List Touch
  | .insert data index realloc => insertTouches v data index realloc
  | .append data realloc => if data.isNone then [] else insertTouches v data v.size realloc
  | .remove index =>
    if 0 > index ∨ index > v.size then [] else v.touch index :: shiftTouches v index .left
  | .pop => v.touch (v.size - 1) :: shiftTouches v v.size .left

/-- The call, on the vector of `Vector.lean`. -/
def ShiftCall.op : ShiftCall α → VecOp α
  | .insert data index realloc => .insert data index realloc
  | .append data realloc => .append data realloc
  | .remove index => .remove index
  | .pop => .pop

/-- There is a place, or an element, for the call. -/
def ShiftCall.Valid (v : VectorT α) : ShiftCall α → Prop
  | .insert _ index _ => 0 ≤ index ∧ index ≤ v.size
  | .append _ _ => True
  | .remove index => 0 ≤ index ∧ index < v.size
  | .pop => 0 < v.size

/-- Nothing is removed from a full array, and `realloc` returns NULL for an array without slots. -/
def ShiftCall.Fits (v : VectorT α) : ShiftCall α → Prop
  | .insert data _ realloc | .append data realloc =>
    v.capacity = 0 → data.isSome → realloc = none
  | .remove _ => v.size ≠ v.capacity
  | .pop => True

end CmakeTemplate
