/-
The bounded stack of `stack.c`.

`arr` is the array of `capacity` slots, each a pointer to a `stack_node_t` or NULL.  An access
outside it has no result.  A push allocates a node and puts it into the slot at `currentsz`,
and a pop frees the node below that and makes its slot NULL again, so the slots above the top
are NULL at all times.

`customfree` is known only by what it is called with, which `stackClear` returns: the data of
the nodes that are still there, from the top down.  The capacity and the size are `uint32_t`s,
and a full stack refuses a push before the size could run over.
-/
import CmakeTemplate.Core
import CmakeTemplate.Lib.Store

namespace CmakeTemplate

open Lib

variable {α : Type}

/-- `stack_t`, less `customfree`; a node is its `data`. -/
structure StackT (α : Type) where
  /-- `capacity`. -/
  capacity : UInt32
  /-- `currentsz`. -/
  currentsz : UInt32
  /-- The slots. -/
  arr : List Ptr
  /-- The nodes by their addresses. -/
  nodes : Store (Option α)

/-- `stack_init`, once its allocations have succeeded. -/
def stackInit (capacity : UInt32) : StackT α :=
  { capacity, currentsz := 0, arr := List.replicate capacity.toNat none, nodes := .empty }

/-- `stack_is_full`. -/
def stackIsFull (stack : StackT α) : ExitCode :=
  if stack.currentsz = stack.capacity then .success else .failure

/-- `stack_is_empty`. -/
def stackIsEmpty (stack : StackT α) : ExitCode :=
  if stack.currentsz = 0 then .success else .failure

/-- `arr[idx] = p`. -/
def setSlot (arr : List Ptr) (idx : UInt32) (p : Ptr) : Option (List Ptr) :=
  if idx.toNat < arr.length then some (arr.set idx.toNat p) else none

/-- `stack_push`; `calloc` is the outcome of its allocation. -/
def stackPush (stack : StackT α) (data : Option α) (calloc : Bool) :
    Option (ExitCode × StackT α) :=
  if data.isNone then some (.nullPointer, stack)
  else if stackIsFull stack = .success then some (.failure, stack)
  else if calloc then do
    let nodes := (stack.nodes.alloc data).1
    let newElement := (stack.nodes.alloc data).2
    let arr ← setSlot stack.arr stack.currentsz (some newElement)
    some (.success, { stack with nodes, arr, currentsz := stack.currentsz + 1 })
  else some (.failure, stack)

/-- The topmost node is freed and its slot is NULL again. -/
def dropTop (stack : StackT α) : Option (Option α × StackT α) := do
  let p ← stack.arr[(stack.currentsz - 1).toNat]?
  let data ← stack.nodes.load p
  let nodes ← stack.nodes.free p
  let arr ← setSlot stack.arr (stack.currentsz - 1) none
  some (data, { stack with nodes, arr, currentsz := stack.currentsz - 1 })

/-- `stack_pop`. -/
def stackPop (stack : StackT α) : Option (Option α × StackT α) :=
  if stackIsEmpty stack = .success then some (none, stack) else dropTop stack

/-- `stack_peek`. -/
def stackPeek (stack : StackT α) : Option (Option α) :=
  if stackIsEmpty stack = .success then some none
  else do
    match ← stack.arr[(stack.currentsz - 1).toNat]? with
    | none => some none
    | some element => stack.nodes.get element

/-- The loop of `stack_clear`, with what `customfree` is called with. -/
def stackClearLoop : Nat → StackT α → Option (List (Option α) × StackT α)
  | 0, stack => if stackIsEmpty stack = .failure then none else some ([], stack)
  | fuel + 1, stack =>
    if stackIsEmpty stack = .failure then do
      let (data, stack) ← dropTop stack
      let (freed, stack) ← stackClearLoop fuel stack
      some (data :: freed, stack)
    else some ([], stack)

/-- `stack_clear`. -/
def stackClear (stack : StackT α) : Option (List (Option α) × StackT α) :=
  stackClearLoop stack.currentsz.toNat stack

/-! ### Runs

A run is made of pushes, pops, peeks and clears, each with memory for what it allocates.
-/

inductive StackOp (α : Type)
  | push (data : α)
  | pop
  | peek
  | clear

inductive StackRet (α : Type)
  | code (exitCode : ExitCode)
  | data (p : Option α)
  deriving DecidableEq

/-- A call with memory: its result, what `customfree` was called with, and the stack. -/
def stackExec (stack : StackT α) :
    StackOp α → Option (StackRet α × List (Option α) × StackT α)
  | .push data => (stackPush stack (some data) true).map fun (c, stack) => (.code c, [], stack)
  | .pop => (stackPop stack).map fun (data, stack) => (.data data, [], stack)
  | .peek => (stackPeek stack).map fun data => (.data data, [], stack)
  | .clear => (stackClear stack).map fun (freed, stack) => (.code .success, freed, stack)

/-- A run of calls, with all that they return and free. -/
def stackRun (stack : StackT α) :
    List (StackOp α) → Option (StackT α × List (StackRet α × List (Option α)))
  | [] => some (stack, [])
  | op :: ops => do
    let (ret, freed, stack) ← stackExec stack op
    let (stack, outs) ← stackRun stack ops
    some (stack, (ret, freed) :: outs)

/-! ### What a stack is for

A list with the latest pointer in front, and a bound on its length.
-/

/-- One call on a list of at most `capacity` pointers, the latest in front. -/
def lifoExec (capacity : UInt32) (xs : List α) :
    StackOp α → StackRet α × List (Option α) × List α
  | .push data =>
    if xs.length < capacity.toNat then (.code .success, [], data :: xs)
    else (.code .failure, [], xs)
  | .pop => (.data xs.head?, [], xs.tail)
  | .peek => (.data xs.head?, [], xs)
  | .clear => (.code .success, xs.map some, [])

def lifoRun (capacity : UInt32) (xs : List α) :
    List (StackOp α) → List α × List (StackRet α × List (Option α))
  | [] => (xs, [])
  | op :: ops =>
    let (ret, freed, ys) := lifoExec capacity xs op
    let (zs, outs) := lifoRun capacity ys ops
    (zs, (ret, freed) :: outs)

/-- The stack holds the pointers: the first slots are different live nodes, the latest of them
last, and the slots behind them are NULL. -/
structure Stacked (stack : StackT α) (xs : List α) : Prop where
  /-- The size is the number of pointers. -/
  size : stack.currentsz.toNat = xs.length
  /-- It is no larger than the capacity. -/
  room : stack.currentsz ≤ stack.capacity
  /-- The array has its slots. -/
  slots : stack.arr.length = stack.capacity.toNat
  /-- The first slots have nodes with the pointers. -/
  held : ∃ as : List Nat, as.Nodup ∧ stack.arr.take xs.length = as.map some ∧
    as.map stack.nodes.get = xs.reverse.map fun x => some (some x)
  /-- The others are NULL. -/
  free : ∀ p ∈ stack.arr.drop xs.length, p = none

end CmakeTemplate
