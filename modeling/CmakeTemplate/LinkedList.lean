/-
The doubly linked list of `linked_list.c`.

The nodes live in a store of their own and the `list_t` holds pointers into it, so
every function below patches the same pointers, in the same order, as the C code.
A function has no result exactly where the C code has none: a dereference of NULL or
of a freed node, a call through a NULL `custom_free`, or a loop that does not end.
Loops that follow pointers run on a fuel of one more than the number of addresses
handed out; a walk that meets each node at most once never needs more.

`calloc` is the outcome of the one allocation a function makes.  The data is a
`void *`: `none` is NULL.  `custom_free` is known only by what it is called with,
which `freed` records, and by whether it is there at all.
-/
import CmakeTemplate.Core
import CmakeTemplate.Lib.DChain
import CmakeTemplate.Lib.System

namespace CmakeTemplate

open Lib

/-- `list_node_t`: `data`, `prev` and `next`. -/
abbrev ListNode (α : Type) := DCell (Option α)

/-- The nodes of the lists, and the arguments `custom_free` has been called with. -/
structure ListMem (α : Type) where
  /-- The nodes by their addresses. -/
  nodes : Store (ListNode α)
  /-- The arguments of `custom_free`, in their order. -/
  freed : List (Option α)

/-- `list_t`. -/
structure ListT (α : Type) where
  /-- `size`. -/
  size : UInt32
  /-- `head`. -/
  head : Ptr
  /-- `tail`. -/
  tail : Ptr
  /-- `custom_free` is a function rather than NULL. -/
  customFree : Bool
  /-- `compare_func`. -/
  compareFunc : Option α → Option α → CompRtns

variable {α : Type}

/-- `p->next = v`. -/
def setNext (nodes : Store (ListNode α)) (p v : Ptr) : Option (Store (ListNode α)) :=
  nodes.assign p fun c => { c with next := v }

/-- `p->prev = v`. -/
def setPrev (nodes : Store (ListNode α)) (p v : Ptr) : Option (Store (ListNode α)) :=
  nodes.assign p fun c => { c with prev := v }

/-- `list->custom_free(data)`. -/
def callFree (m : ListMem α) (list : ListT α) (data : Option α) : Option (ListMem α) :=
  if list.customFree then some { m with freed := m.freed ++ [data] } else none

/-- Fuel for a walk over the nodes of a store. -/
def walkFuel (nodes : Store (ListNode α)) : Nat := nodes.next + 1

/-- `current = current->next`, `k` times. -/
def advance (nodes : Store (ListNode α)) : Nat → Ptr → Option Ptr
  | 0, current => some current
  | k + 1, current => do
    let node ← nodes.load current
    advance nodes k node.next

/-! ### Creating

A list owns no node to begin with.
-/

/-- `list_new`, once its `calloc` has succeeded. -/
def listNew (customFree : Bool) (compareFunc : Option α → Option α → CompRtns) : ListT α :=
  { size := 0, head := none, tail := none, customFree, compareFunc }

/-- `list_node_new`. -/
def listNodeNew (m : ListMem α) (data : Option α) (calloc : Bool) : ListMem α × Ptr :=
  match data with
  | none => (m, none)
  | some d =>
    if calloc then
      ({ m with nodes := (m.nodes.alloc ⟨some d, none, none⟩).1 },
        some (m.nodes.alloc ⟨some d, none, none⟩).2)
    else (m, none)

/-! ### Pushing

A push allocates a node and links it in: at an end, or in front of the node at a position.
-/

/-- `list_push_head`. -/
def listPushHead (m : ListMem α) (list : ListT α) (data : Option α) (calloc : Bool) :
    Option (ListMem α × ListT α × ExitCode) :=
  if data.isNone then some (m, list, .nullPointer)
  else
    let (m, newNode) := listNodeNew m data calloc
    if newNode = none then some (m, list, .failure)
    else if list.head = none then do
      -- the only node of an empty list is its head and its tail
      let nodes ← setNext m.nodes newNode none
      let nodes ← setPrev nodes newNode none
      some ({ m with nodes },
        { list with head := newNode, tail := newNode, size := list.size + 1 }, .success)
    else do
      let nodes ← setNext m.nodes newNode list.head
      let nodes ← setPrev nodes newNode none
      let nodes ← setPrev nodes list.head newNode
      some ({ m with nodes }, { list with head := newNode, size := list.size + 1 }, .success)

/-- `list_push_tail`. -/
def listPushTail (m : ListMem α) (list : ListT α) (data : Option α) (calloc : Bool) :
    Option (ListMem α × ListT α × ExitCode) :=
  if data.isNone then some (m, list, .nullPointer)
  else
    let (m, newNode) := listNodeNew m data calloc
    if newNode = none then some (m, list, .failure)
    else if list.head = none then do
      let nodes ← setNext m.nodes newNode none
      let nodes ← setPrev nodes newNode none
      some ({ m with nodes },
        { list with head := newNode, tail := newNode, size := list.size + 1 }, .success)
    else do
      let nodes ← setPrev m.nodes newNode list.tail
      let nodes ← setNext nodes newNode none
      let nodes ← setNext nodes list.tail newNode
      some ({ m with nodes }, { list with tail := newNode, size := list.size + 1 }, .success)

/-- `list_push_position`. -/
def listPushPosition (m : ListMem α) (list : ListT α) (data : Option α) (position : UInt32)
    (calloc : Bool) : Option (ListMem α × ListT α × ExitCode) :=
  if data.isNone then some (m, list, .nullPointer)
  else if position > list.size then some (m, list, .failure)
  else if position = 0 then listPushHead m list data calloc
  else if position = list.size then listPushTail m list data calloc
  else
    let (m, newNode) := listNodeNew m data calloc
    if newNode = none then some (m, list, .failure)
    else do
      let current ← advance m.nodes (position - 1).toNat list.head
      let node ← m.nodes.load current
      let nodes ← setNext m.nodes newNode node.next
      let nodes ← setPrev nodes newNode current
      let nodes ← if node.next = none then some nodes else setPrev nodes node.next newNode
      let nodes ← setNext nodes current newNode
      some ({ m with nodes }, { list with size := list.size + 1 }, .success)

/-! ### Popping and removing

A pop takes a node out and returns its data, and a removal hands it to `custom_free`.  Both
have three forms, for the two ends and for a position.
-/

/-- `list_is_empty`. -/
def listIsEmpty (list : ListT α) : ExitCode :=
  if list.size = 0 then .success else .failure

/-- `list_pop_head`. -/
def listPopHead (m : ListMem α) (list : ListT α) : Option (ListMem α × ListT α × Option α) :=
  if list.head = none then some (m, list, none)
  else do
    let head ← m.nodes.load list.head
    if list.head = list.tail then do
      let nodes ← m.nodes.free list.head
      some ({ m with nodes }, { list with head := none, tail := none, size := list.size - 1 },
        head.data)
    else do
      let nodes ← setPrev m.nodes head.next none
      let nodes ← nodes.free list.head
      some ({ m with nodes }, { list with head := head.next, size := list.size - 1 }, head.data)

/-- `list_pop_tail`. -/
def listPopTail (m : ListMem α) (list : ListT α) : Option (ListMem α × ListT α × Option α) :=
  if list.tail = none then some (m, list, none)
  else do
    let tail ← m.nodes.load list.tail
    if list.head = list.tail then do
      let nodes ← m.nodes.free list.tail
      some ({ m with nodes }, { list with head := none, tail := none, size := list.size - 1 },
        tail.data)
    else do
      let nodes ← setNext m.nodes tail.prev none
      let nodes ← nodes.free list.tail
      some ({ m with nodes }, { list with tail := tail.prev, size := list.size - 1 }, tail.data)

/-- `list_pop_position`: a node that is neither head nor tail has its data handed to
`custom_free` although it is also returned. -/
def listPopPosition (m : ListMem α) (list : ListT α) (position : UInt32) :
    Option (ListMem α × ListT α × Option α) :=
  if position ≥ list.size then some (m, list, none)
  else if position = 0 then listPopHead m list
  else if position = list.size - 1 then listPopTail m list
  else do
    let current ← advance m.nodes position.toNat list.head
    let node ← m.nodes.load current
    let nodes ← setNext m.nodes node.prev node.next
    let nodes ← if node.next = none then some nodes else setPrev nodes node.next node.prev
    let m ← callFree { m with nodes } list node.data
    let nodes ← m.nodes.free current
    some ({ m with nodes }, { list with size := list.size - 1 }, node.data)

/-- `list_remove_head`: the data of the popped node, NULL when there was none, is
handed to `custom_free`. -/
def listRemoveHead (m : ListMem α) (list : ListT α) : Option (ListMem α × ListT α × ExitCode) := do
  let (m, list, data) ← listPopHead m list
  let m ← callFree m list data
  some (m, list, .success)

/-- `list_remove_tail`. -/
def listRemoveTail (m : ListMem α) (list : ListT α) : Option (ListMem α × ListT α × ExitCode) := do
  let (m, list, data) ← listPopTail m list
  let m ← callFree m list data
  some (m, list, .success)

/-- `list_remove_position`. -/
def listRemovePosition (m : ListMem α) (list : ListT α) (position : UInt32) :
    Option (ListMem α × ListT α × ExitCode) :=
  if position ≥ list.size then some (m, list, .failure)
  else do
    let (m, list, data) ← listPopPosition m list position
    let m ← callFree m list data
    some (m, list, .success)

/-! ### Peeking and searching

These walk without a change, each in its own way: from the head by a count, or until NULL.
-/

/-- `list_peek_head`. -/
def listPeekHead (m : ListMem α) (list : ListT α) : Option (Option α) :=
  if list.head = none then some none
  else (m.nodes.load list.head).map DCell.data

/-- `list_peek_tail`. -/
def listPeekTail (m : ListMem α) (list : ListT α) : Option (Option α) :=
  if list.tail = none then some none
  else (m.nodes.load list.tail).map DCell.data

/-- `list_peek_position`. -/
def listPeekPosition (m : ListMem α) (list : ListT α) (position : UInt32) : Option (Option α) :=
  if list.size = 0 then some none
  else if position ≥ list.size then some none
  else do
    let current ← advance m.nodes position.toNat list.head
    (m.nodes.load current).map DCell.data

/-- The loop of `find_node`. -/
def findNodeLoop (nodes : Store (ListNode α)) (compareFunc : Option α → Option α → CompRtns)
    (data : Option α) : Nat → Ptr → Option Ptr
  | _, none => some none
  | 0, some _ => none
  | fuel + 1, some current => do
    let node ← nodes.get current
    if compareFunc data node.data = .equal then some (some current)
    else findNodeLoop nodes compareFunc data fuel node.next

/-- `find_node`. -/
def findNode (m : ListMem α) (list : ListT α) (data : Option α) : Option Ptr :=
  if data.isNone then some none
  else findNodeLoop m.nodes list.compareFunc data (walkFuel m.nodes) list.head

/-- `remove_node`. -/
def removeNode (m : ListMem α) (list : ListT α) (node : Ptr) :
    Option (ListMem α × ListT α × ExitCode) :=
  if node = none then some (m, list, .nullPointer)
  else do
    let n ← m.nodes.load node
    let nodes ← if n.prev = none then some m.nodes else setNext m.nodes n.prev n.next
    let list := if n.prev = none then { list with head := n.next } else list
    let nodes ← if n.next = none then some nodes else setPrev nodes n.next n.prev
    let list := if n.next = none then { list with tail := n.prev } else list
    let m ← callFree { m with nodes } list n.data
    let nodes ← m.nodes.free node
    some ({ m with nodes }, { list with size := list.size - 1 }, .success)

/-- `list_remove_data`. -/
def listRemoveData (m : ListMem α) (list : ListT α) (data : Option α) :
    Option (ListMem α × ListT α × ExitCode) :=
  if data.isNone then some (m, list, .nullPointer)
  else do
    let nodeToRemove ← findNode m list data
    if nodeToRemove = none then some (m, list, .failure)
    else removeNode m list nodeToRemove

/-! ### Sorting

The recursion splits a chain by a slow and a fast pointer and merges the halves by recursion
on both.  `prev` is set on the way, and `tail` is not.
-/

/-- The loop of `split`: `fast` moves two nodes for each one of `slow`. -/
def splitLoop (nodes : Store (ListNode α)) : Nat → Ptr → Ptr → Option Ptr
  | _, slow, none => some slow
  | 0, _, some _ => none
  | fuel + 1, slow, some fast => do
    let f ← nodes.get fast
    if f.next = none then some slow
    else do
      let s ← nodes.load slow
      let f' ← nodes.load f.next
      splitLoop nodes fuel s.next f'.next

/-- `split`: the two halves of the chain at `head`. -/
def split (nodes : Store (ListNode α)) (head : Ptr) : Option (Store (ListNode α) × Ptr × Ptr) := do
  let h ← nodes.load head
  let slow ← splitLoop nodes (walkFuel nodes) head h.next
  let s ← nodes.load slow
  let nodes ← setNext nodes slow none
  some (nodes, head, s.next)

/-- `merge`: `second` goes first unless `first` is strictly less. -/
def merge (compareFunc : Option α → Option α → CompRtns) :
    Nat → Store (ListNode α) → Ptr → Ptr → Option (Store (ListNode α) × Ptr)
  | _, nodes, none, second => some (nodes, second)
  | _, nodes, some first, none => some (nodes, some first)
  | 0, _, some _, some _ => none
  | fuel + 1, nodes, some first, some second => do
    let f ← nodes.get first
    let s ← nodes.get second
    if compareFunc f.data s.data = .lessThan then do
      let (nodes, rest) ← merge compareFunc fuel nodes f.next (some second)
      let nodes ← setNext nodes (some first) rest
      let nodes ← setPrev nodes rest (some first)
      let nodes ← setPrev nodes (some first) none
      some (nodes, some first)
    else do
      let (nodes, rest) ← merge compareFunc fuel nodes (some first) s.next
      let nodes ← setNext nodes (some second) rest
      let nodes ← setPrev nodes rest (some second)
      let nodes ← setPrev nodes (some second) none
      some (nodes, some second)

/-- `merge_sort`: the new value of `*head_ref`. -/
def mergeSort (compareFunc : Option α → Option α → CompRtns) :
    Nat → Store (ListNode α) → Ptr → Option (Store (ListNode α) × Ptr)
  | _, nodes, none => some (nodes, none)
  | 0, _, some _ => none
  | fuel + 1, nodes, some head => do
    let h ← nodes.get head
    if h.next = none then some (nodes, some head)
    else do
      let (nodes, first, second) ← split nodes (some head)
      let (nodes, first) ← mergeSort compareFunc fuel nodes first
      let (nodes, second) ← mergeSort compareFunc fuel nodes second
      merge compareFunc (walkFuel nodes) nodes first second

/-- `list_sort`: only `head` is written back. -/
def listSort (m : ListMem α) (list : ListT α) : Option (ListMem α × ListT α × ExitCode) := do
  let (nodes, head) ← mergeSort list.compareFunc (walkFuel m.nodes) m.nodes list.head
  some ({ m with nodes }, { list with head }, .success)

/-! ### Clearing

The nodes are taken one after the other from the head, and the struct is left empty.
-/

/-- The loop of `list_clear`. -/
def listClearLoop (list : ListT α) : Nat → ListMem α → Ptr → Option (ListMem α)
  | _, m, none => some m
  | 0, _, some _ => none
  | fuel + 1, m, some current => do
    let node ← m.nodes.get current
    let m ← if list.customFree then callFree m list node.data else some m
    let nodes ← m.nodes.free (some current)
    listClearLoop list fuel { m with nodes } node.next

/-- `list_clear`. -/
def listClear (m : ListMem α) (list : ListT α) : Option (ListMem α × ListT α × ExitCode) := do
  let m ← listClearLoop list (walkFuel m.nodes) m list.head
  some (m, { list with head := none, tail := none, size := 0 }, .success)

/-! ### Runs

A run is made of the calls that change a list, with data that is not NULL.
-/

/-- The mutating calls on a list, their data never NULL. -/
inductive ListOp (α : Type)
  | pushHead (data : α)
  | pushTail (data : α)
  | pushPosition (data : α) (position : UInt32)
  | popHead
  | popTail
  | popPosition (position : UInt32)
  | removeHead
  | removeTail
  | removePosition (position : UInt32)
  | removeData (data : α)
  | sort
  | clear

/-- What a call returns: an exit code or a data pointer. -/
inductive ListRet (α : Type)
  | code (c : ExitCode)
  | data (d : Option α)

/-- A call that returns an exit code. -/
def codeRet (r : Option (ListMem α × ListT α × ExitCode)) :
    Option ((ListMem α × ListT α) × ListRet α) :=
  r.map fun x => ((x.1, x.2.1), .code x.2.2)

/-- A call that returns data. -/
def dataRet (r : Option (ListMem α × ListT α × Option α)) :
    Option ((ListMem α × ListT α) × ListRet α) :=
  r.map fun x => ((x.1, x.2.1), .data x.2.2)

/-- One call, its allocation succeeding. -/
def listExec (s : ListMem α × ListT α) : ListOp α → Option ((ListMem α × ListT α) × ListRet α)
  | .pushHead d => codeRet (listPushHead s.1 s.2 (some d) true)
  | .pushTail d => codeRet (listPushTail s.1 s.2 (some d) true)
  | .pushPosition d p => codeRet (listPushPosition s.1 s.2 (some d) p true)
  | .popHead => dataRet (listPopHead s.1 s.2)
  | .popTail => dataRet (listPopTail s.1 s.2)
  | .popPosition p => dataRet (listPopPosition s.1 s.2 p)
  | .removeHead => codeRet (listRemoveHead s.1 s.2)
  | .removeTail => codeRet (listRemoveTail s.1 s.2)
  | .removePosition p => codeRet (listRemovePosition s.1 s.2 p)
  | .removeData d => codeRet (listRemoveData s.1 s.2 (some d))
  | .sort => codeRet (listSort s.1 s.2)
  | .clear => codeRet (listClear s.1 s.2)

/-- The runs of a list made by `list_new`. -/
def listSystem (customFree : Bool) (compareFunc : Option α → Option α → CompRtns) :
    System (ListMem α × ListT α) (ListOp α) where
  init s := s = (⟨.empty, []⟩, listNew customFree compareFunc)
  step s op := (listExec s op).map Prod.fst

end CmakeTemplate
