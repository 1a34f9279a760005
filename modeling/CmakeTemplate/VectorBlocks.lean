/-
The blocks behind a vector: the array that `vector_append` reallocates, and the two vectors of
`vector_find_all_occurrences`.

`realloc` of no bytes frees the block and returns NULL, any other succeeds.  `vector_resize`
takes NULL for a failure and keeps the pointer to the old block, so `freed` says whether that
block is gone; no call may touch it then.  A vector with the capacity 0 asks for no bytes when
it is doubled.

`vector_find_all_occurrences` makes a new vector as large as the one that is searched and
appends what it finds.  Which of the two vectors is deleted where something goes wrong, and
whether the new one is ever made larger, can be seen in what is left of both.
-/
import CmakeTemplate.Vector

namespace CmakeTemplate

open Lib

variable {α : Type}

/-- `vector_append` calls `vector_resize`. -/
def VectorT.resizesFor (v : VectorT α) (data : Option α) : Bool :=
  data.isSome && decide (0 ≤ v.size ∧ v.size = v.capacity)

/-! ### Appending

A vector may hold a pointer to a block that is gone; a call on it that touches the block has
no result.
-/

/-- A vector, and whether `elements` points to a block that was freed. -/
structure HeldVector (α : Type) where
  /-- The vector. -/
  vector : VectorT α
  /-- Whether its block is gone. -/
  freed : Bool

/-- An append, with what lies outside the array and what is in new slots. -/
structure AppendCall (α : Type) where
  /-- What is appended. -/
  data : α
  /-- What lies outside the array. -/
  outside : Int → Option α
  /-- What is in new slots. -/
  fresh : Nat → Option α

/-- What `realloc` returns to `vector_resize`. -/
def reallocDoubled (capacity : Int) (fresh : Nat → Option α) : Option (Nat → Option α) :=
  if capacity * 2 = 0 then none else some fresh

/-- `vector_append`. -/
def vectorAppendHeld (h : HeldVector α) (call : AppendCall α) :
    Option (ExitCode × HeldVector α) :=
  if h.freed then none
  else do
    let v := h.vector
    let (exitCode, v') ←
      vectorAppend v call.outside (some call.data) (reallocDoubled v.capacity call.fresh)
    some (exitCode, ⟨v', v.resizesFor (some call.data) && decide (v.capacity * 2 = 0)⟩)

/-- One append after the other, with what each returns. -/
def appendAll (h : HeldVector α) : List (AppendCall α) → Option (List ExitCode × HeldVector α)
  | [] => some ([], h)
  | call :: calls => do
    let (exitCode, h) ← vectorAppendHeld h call
    let (exitCodes, h) ← appendAll h calls
    some (exitCode :: exitCodes, h)

/-- Behind each of the appends, all have succeeded and the array holds what was appended. -/
def Appends (h : HeldVector α) (calls : List (AppendCall α)) : Prop :=
  ∀ made, made <+: calls → ∃ exitCodes h', appendAll h made = some (exitCodes, h') ∧
    (∀ c ∈ exitCodes, c = .success) ∧ h'.vector.Holds (made.map AppendCall.data) ∧
    h'.vector.size ≤ h'.vector.capacity ∧ h'.freed = false

/-! ### Finding all occurrences

The result should be a vector of the matching elements in their order, and the vector that is
searched should be left alone.
-/

/-- What `vector_find_all_occurrences` leaves. -/
structure Occurrences (α : Type) where
  /-- The vector that is returned, or NULL. -/
  result : Option (VectorT α)
  /-- The vector that was searched, unless it has been deleted. -/
  input : Option (VectorT α)
  /-- What `custom_free` was called with. -/
  freed : List (Option α)
  /-- The result had to be made larger. -/
  resized : Bool

/-- What `vector_delete` calls `custom_free` with. -/
def vectorDelete (v : VectorT α) (outside : Int → Option α) : List (Option α) :=
  (vectorClear v outside).2.1

/-- The loop with `left` slots left from `idx` on; `resized` as it is so far. -/
def occurrencesLoop (v : VectorT α) (outside behind : Int → Option α) (searchData : Option α)
    (realloc : Nat → Option (Nat → Option α)) :
    Nat → Nat → VectorT α → Bool → Option (ExitCode × VectorT α × Bool)
  | 0, _, result, resized => some (.success, result, resized)
  | left + 1, idx, result, resized =>
    let element := v.slot outside idx
    if v.compareFunc searchData element = .equal then do
      let (exitCode, result') ← vectorAppend result behind element (realloc idx)
      let resized := resized || result.resizesFor element
      if exitCode = .success then
        occurrencesLoop v outside behind searchData realloc left (idx + 1) result' resized
      else some (exitCode, result', resized)
    else occurrencesLoop v outside behind searchData realloc left (idx + 1) result resized

/-- `vector_find_all_occurrences`; `allocated` says whether `vector_new` gets its memory, and
`behind` is what lies outside the array of the result. -/
def vectorFindAllOccurrences (v : VectorT α) (outside behind : Int → Option α)
    (searchData : Option α) (allocated : Bool) (realloc : Nat → Option (Nat → Option α)) :
    Option (Occurrences α) :=
  if searchData.isNone then some ⟨none, some v, [], false⟩
  else if v.size = 0 then some ⟨none, some v, [], false⟩
  else if allocated = false then some ⟨none, some v, [], false⟩
  else do
    let (exitCode, result, resized) ← occurrencesLoop v outside behind searchData realloc
      v.size.toNat 0 (vectorNew v.compareFunc v.size) false
    if exitCode ≠ .success then some ⟨some result, none, vectorDelete v outside, resized⟩
    else if result.size = 0 then some ⟨none, some v, vectorDelete result behind, resized⟩
    else some ⟨some result, some v, [], resized⟩

/-- The elements that compare as equal to what is searched for. -/
def VectorT.matching (v : VectorT α) (d : α) (xs : List α) : List α :=
  xs.filter fun x => v.compareFunc (some d) (some x) = .equal

/-- The result is a new vector of the matching elements, or NULL where there are none, and
nothing else has happened. -/
structure FiltersInto (v : VectorT α) (matching : List α) (out : Occurrences α) : Prop where
  /-- The vector that was searched is left alone. -/
  kept : out.input = some v
  /-- Nothing is freed. -/
  freed : out.freed = []
  /-- The result is large enough from the beginning. -/
  resized : out.resized = false
  /-- It holds the matching elements. -/
  result : if matching = [] then out.result = none
    else ∃ r, out.result = some r ∧ r.Holds matching ∧ r.capacity = v.size ∧
      r.compareFunc = v.compareFunc

end CmakeTemplate
