/-
What a vector is for: a sequence with positions.

`elemExec` says what each call does to the sequence, what it returns and what it frees, with
no slot in sight.  Positions are `int`s, as in the source.  A call is made with data, with
memory, and with a position that there is, or `elemExec` says nothing of use about it;
`ValidCall` is that condition, and an insertion may also name the position behind the last
element.

A vector keeps a capacity as well, which a caller can read.  It is a function of the calls
too: it doubles when an insertion finds no room, and `capacityBehind` follows it.

Between two calls of a run the slots that hold no element may change in any way.  A program
that relied on them would be found out, so a run has their contents at every call (`VecCall`),
and what it returns must not depend on them.
-/
import CmakeTemplate.Vector

namespace CmakeTemplate

open Lib

variable {α : Type}

/-- One call on a sequence. -/
def elemExec (cmp : Option α → Option α → CompRtns) (xs : List α) :
    VecOp α → VecOutcome α (List α)
  | .append (some d) _ => (.code .success, [], xs ++ [d])
  | .insert (some d) index _ => (.code .success, [], xs.insertIdx index.toNat d)
  | .append none _ | .insert none _ _ => (.code .failure, [], xs)
  | .pop => (.data xs.getLast?, [], xs.dropLast)
  | .remove index => (.code .success, [xs[index.toNat]?], xs.eraseIdx index.toNat)
  | .getElement index => (.data xs[index.toNat]?, [], xs)
  | .setElement (some d) index => (.code .success, [], xs.set index.toNat d)
  | .setElement none _ => (.code .failure, [], xs)
  | .findFirstOccurrence none => (.data none, [], xs)
  | .findFirstOccurrence (some d) =>
    (.data (xs.find? fun x => cmp (some d) (some x) = .equal), [], xs)
  | .clear => (.code .success, xs.map some, [])

/-- The call is made with data and memory, and with a position that there is. -/
def ValidCall (xs : List α) : VecOp α → Prop
  | .append data realloc => data.isSome ∧ realloc.isSome
  | .insert data index realloc =>
    data.isSome ∧ realloc.isSome ∧ 0 ≤ index ∧ index ≤ xs.length
  | .pop => xs ≠ []
  | .remove index | .getElement index => 0 ≤ index ∧ index < xs.length
  | .setElement data index => data.isSome ∧ 0 ≤ index ∧ index < xs.length
  | .findFirstOccurrence _ | .clear => True

/-- The capacity behind an insertion. -/
def grown (xs : List α) (capacity : Int) : Int :=
  if (xs.length : Int) = capacity then capacity * 2 else capacity

/-- The capacity behind a call. -/
def capacityBehind (xs : List α) (capacity : Int) : VecOp α → Int
  | .append _ _ | .insert _ _ _ => grown xs capacity
  | _ => capacity

/-- A call, and what it finds where there is no element. -/
structure VecCall (α : Type) where
  /-- The call. -/
  op : VecOp α
  /-- What the slots without an element hold when it is made. -/
  junk : Int → Option α

/-- The vector with other contents where there is no element. -/
def VectorT.withJunk (v : VectorT α) (junk : Int → Option α) : VectorT α :=
  { v with elements := fun idx => if (idx : Int) < v.size then v.elements idx else junk idx }

/-- A run of calls on a vector, with all that they return and free. -/
def vecRun (v : VectorT α) :
    List (VecCall α) → Option (VectorT α × List (VecRet α × List (Option α)))
  | [] => some (v, [])
  | call :: calls => do
    let (ret, freed, v) ← vectorExec (v.withJunk call.junk) call.junk call.op
    let (v, outs) ← vecRun v calls
    some (v, (ret, freed) :: outs)

/-- The run on a sequence. -/
def elemRun (cmp : Option α → Option α → CompRtns) (xs : List α) :
    List (VecCall α) → List α × List (VecRet α × List (Option α))
  | [] => (xs, [])
  | call :: calls =>
    let (ret, freed, ys) := elemExec cmp xs call.op
    let (zs, outs) := elemRun cmp ys calls
    (zs, (ret, freed) :: outs)

/-- Every call is valid, and the capacity stays below `2 ^ 30`. -/
def VecFits (cmp : Option α → Option α → CompRtns) : List α → Int → List (VecCall α) → Prop
  | _, _, [] => True
  | xs, capacity, call :: calls =>
    (ValidCall xs call.op ∧ capacityBehind xs capacity call.op < 2 ^ 30) ∧
    VecFits cmp (elemExec cmp xs call.op).2.2 (capacityBehind xs capacity call.op) calls

end CmakeTemplate
