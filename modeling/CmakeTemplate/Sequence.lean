/-
What a linked list is for: a sequence of data pointers.

`seqExec` says what each call on a list does to the sequence and what it returns, with no node
and no pointer in sight.  Positions count from the head, a removal by data takes the first
element that the comparator finds EQUAL, and a call that finds nothing to do leaves the
sequence and says so, except where the source does not.

`CallsFree` are the calls that reach `custom_free`, which a list made without one cannot
answer: which calls do depends on the sequence, as an empty one has nothing to hand over but
NULL.  A sort is not among the calls of a run, since what it leaves behind is a matter of its
own; and a list of `2 ^ 32` elements counts none.
-/
import CmakeTemplate.LinkedList
import CmakeTemplate.Lib.Word

namespace CmakeTemplate

open Lib

variable {α : Type}

/-- `x` is what `compare_func` finds EQUAL to the searched `d`. -/
def Matches (cmp : Option α → Option α → CompRtns) (d x : α) : Bool :=
  cmp (some d) (some x) = .equal

/-- One call on a sequence: what is left, and what is returned. -/
def seqExec (cmp : Option α → Option α → CompRtns) (xs : List α) :
    ListOp α → List α × ListRet α
  | .pushHead d => (d :: xs, .code .success)
  | .pushTail d => (xs ++ [d], .code .success)
  | .pushPosition d p =>
    if p.toNat ≤ xs.length then (xs.insertIdx p.toNat d, .code .success) else (xs, .code .failure)
  | .popHead => (xs.tail, .data xs.head?)
  | .popTail => (xs.dropLast, .data xs.getLast?)
  | .popPosition p =>
    if p.toNat < xs.length then (xs.eraseIdx p.toNat, .data xs[p.toNat]?) else (xs, .data none)
  | .removeHead => (xs.tail, .code .success)
  | .removeTail => (xs.dropLast, .code .success)
  | .removePosition p =>
    if p.toNat < xs.length then (xs.eraseIdx p.toNat, .code .success) else (xs, .code .failure)
  | .removeData d =>
    (xs.eraseP (Matches cmp d), .code (if xs.any (Matches cmp d) then .success else .failure))
  | .sort => (xs.mergeSort fun x y => cmp (some x) (some y) = .lessThan, .code .success)
  | .clear => ([], .code .success)

/-- The calls that add an element. -/
def ListOp.isPush : ListOp α → Bool
  | .pushHead _ => true
  | .pushTail _ => true
  | .pushPosition _ _ => true
  | _ => false

/-- Only a push makes a sequence longer, and by one. -/
theorem length_seqExec_le (cmp : Option α → Option α → CompRtns) (xs : List α) (op : ListOp α) :
    (seqExec cmp xs op).1.length ≤ xs.length + op.isPush.toNat := by
  cases op with
  | pushHead d => simp [seqExec, ListOp.isPush]
  | pushTail d => simp [seqExec, ListOp.isPush]
  | pushPosition d p =>
      simp only [seqExec, ListOp.isPush]
      split
      · rw [List.length_insertIdx_of_le_length (by assumption)]
        rfl
      · exact Nat.le_succ _
  | popHead => simp [seqExec, ListOp.isPush]
  | popTail => simp [seqExec, ListOp.isPush]
  | popPosition p =>
      simp only [seqExec, ListOp.isPush]
      split
      · exact List.length_eraseIdx_le _ _
      · exact Nat.le_refl _
  | removeHead => simp [seqExec, ListOp.isPush]
  | removeTail => simp [seqExec, ListOp.isPush]
  | removePosition p =>
      simp only [seqExec, ListOp.isPush]
      split
      · exact List.length_eraseIdx_le _ _
      · exact Nat.le_refl _
  | removeData d => exact List.length_eraseP_le
  | sort => simp [seqExec, ListOp.isPush]
  | clear => simp [seqExec, ListOp.isPush]

/-- The calls that hand data to `custom_free` whether or not there is one. -/
def CallsFree (cmp : Option α → Option α → CompRtns) (xs : List α) : ListOp α → Prop
  | .popPosition p => 0 < p.toNat ∧ p.toNat + 1 < xs.length
  | .removeHead => True
  | .removeTail => True
  | .removePosition p => p.toNat < xs.length
  | .removeData d => xs.any (Matches cmp d)
  | _ => False

/-! ### Runs

A run returns something for each call, so two runs are compared by what can be seen of them.
-/

/-- A run of calls on a sequence, with everything it returns. -/
def seqRun (cmp : Option α → Option α → CompRtns) : List α → List (ListOp α) →
    List α × List (ListRet α)
  | xs, [] => (xs, [])
  | xs, op :: ops =>
    let (ys, r) := seqExec cmp xs op
    let (zs, rs) := seqRun cmp ys ops
    (zs, r :: rs)

/-- A run of calls on a list, with everything it returns. -/
def listRun (s : ListMem α × ListT α) : List (ListOp α) →
    Option ((ListMem α × ListT α) × List (ListRet α))
  | [] => some (s, [])
  | op :: ops => do
    let (s, r) ← listExec s op
    let (s, rs) ← listRun s ops
    some (s, r :: rs)

/-- A run that never sorts, never reaches `2 ^ 32` elements, and never calls a
`custom_free` that is not there: a call that goes through the pointer asks for one, as the source
does not test it, and every other call is made of a list without one as well. -/
def Fits (cmp : Option α → Option α → CompRtns) (customFree : Bool) :
    List α → List (ListOp α) → Prop
  | _, [] => True
  | xs, op :: ops =>
    (op ≠ .sort ∧ (seqExec cmp xs op).1.length < 2 ^ 32 ∧
      (CallsFree cmp xs op → customFree = true)) ∧
    Fits cmp customFree (seqExec cmp xs op).1 ops

/-! ### What can be seen of a list

The two walks, along `next` and along `prev`, and the data on the way.
-/

/-- What following `next` reads at a node. -/
def nextOf (m : ListMem α) (a : Nat) : Option Ptr := (m.nodes.get a).map DCell.next

/-- What following `prev` reads at a node. -/
def prevOf (m : ListMem α) (a : Nat) : Option Ptr := (m.nodes.get a).map DCell.prev

def dataOf (m : ListMem α) (a : Nat) : Option (Option α) := (m.nodes.get a).map DCell.data

/-- The data met on the way along `next`. -/
def chainData (nodes : Store (ListNode α)) : Nat → Ptr → List (Option α)
  | 0, _ => []
  | fuel + 1, p =>
    match nodes.load p with
    | none => []
    | some node => node.data :: chainData nodes fuel node.next

def listData (s : ListMem α × ListT α) : List (Option α) :=
  chainData s.1.nodes (walkFuel s.1.nodes) s.2.head

end CmakeTemplate
