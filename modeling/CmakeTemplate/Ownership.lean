/-
Who frees the data of a list.

A datum that was pushed belongs to the list until it is popped, or until the list hands it to
`custom_free`; to hand over a datum twice is a double free for the callback.
`list_find_all_occurrences` makes a list of its own whose nodes hold the data of another, so
calls are made on any number of lists here.  Their nodes live in one store, and so do the
lists.  An allocation of a call may fail.

A call on a list that is there is a step if it returns.  Behind a `list_sort`, whose `tail`
may be stale, a call may follow a pointer to a freed node, and such a call has no result and
is no step; so what is said of all runs is said of the calls that return.

`pushed` and `popped` are kept for the statements only: the data of every push that succeeded,
and what the pops have returned but NULL.  Each is counted as often as it was pushed.
-/
import CmakeTemplate.LinkedList
import CmakeTemplate.Lib.Live

namespace CmakeTemplate

open Lib

variable {α : Type}

/-! ### A list of occurrences

The loop walks along the list that is searched and pushes what it finds to a new one.
-/

/-- The loop of `list_find_all_occurrences` with `rest` nodes to go; `calloc` is the outcome of
the allocation for each of them. -/
def findAllLoop (list : ListT α) (searchData : Option α) (calloc : Nat → Bool) :
    Nat → ListMem α → ListT α → Ptr → Option (ListMem α × Option (ListT α))
  | 0, m, newList, _ => some (m, some newList)
  | rest + 1, m, newList, current => do
    let node ← m.nodes.load current
    if list.compareFunc searchData node.data = .equal then do
      let (m, newList, check) ← listPushHead m newList node.data (calloc rest)
      if check = .success then do
        let node ← m.nodes.load current
        findAllLoop list searchData calloc rest m newList node.next
      else do
        -- `list_delete`
        let (m, _, _) ← listClear m newList
        some (m, none)
    else findAllLoop list searchData calloc rest m newList node.next

/-- `list_find_all_occurrences`; `new` is the outcome of `list_new`. -/
def listFindAllOccurrences (m : ListMem α) (list : ListT α) (searchData : Option α) (new : Bool)
    (calloc : Nat → Bool) : Option (ListMem α × Option (ListT α)) :=
  if list.size = 0 then some (m, none)
  else if new then
    findAllLoop list searchData calloc list.size.toNat m
      (listNew list.customFree list.compareFunc) list.head
  else some (m, none)

/-! ### Calls on several lists

A call names the list it is made on; the others are not looked at.
-/

inductive HeapOp (α : Type)
  | pushHead (data : Option α) (calloc : Bool)
  | pushTail (data : Option α) (calloc : Bool)
  | pushPosition (data : Option α) (position : UInt32) (calloc : Bool)
  | popHead
  | popTail
  | popPosition (position : UInt32)
  | removeHead
  | removeTail
  | removePosition (position : UInt32)
  | removeData (data : Option α)
  | sort
  | clear
  | findAll (searchData : Option α) (new : Bool) (calloc : Nat → Bool)
  | delete

structure ListHeap (α : Type) where
  /-- The nodes of all lists, and what has been freed. -/
  mem : ListMem α
  /-- The lists by their addresses. -/
  lists : Store (ListT α)
  /-- What has been pushed. -/
  pushed : Multiset α
  /-- What has been popped. -/
  popped : Multiset α

/-- The list at `a` behind a call that is no push and no pop. -/
def ListHeap.set (s : ListHeap α) (a : Nat) (m : ListMem α) (list : ListT α) : ListHeap α :=
  { s with mem := m, lists := s.lists.upd a fun _ => list }

/-- A push, with its data counted if it succeeds. -/
def pushCall (s : ListHeap α) (a : Nat) (data : Option α)
    (r : Option (ListMem α × ListT α × ExitCode)) : Option (ListHeap α) :=
  r.map fun x =>
    match data with
    | some d =>
      if x.2.2 = .success then { s.set a x.1 x.2.1 with pushed := d ::ₘ s.pushed }
      else s.set a x.1 x.2.1
    | none => s.set a x.1 x.2.1

/-- A pop, with what it returns. -/
def popCall (s : ListHeap α) (a : Nat) (r : Option (ListMem α × ListT α × Option α)) :
    Option (ListHeap α) :=
  r.map fun x =>
    match x.2.2 with
    | some d => { s.set a x.1 x.2.1 with popped := d ::ₘ s.popped }
    | none => s.set a x.1 x.2.1

def freeCall (s : ListHeap α) (a : Nat) (r : Option (ListMem α × ListT α × ExitCode)) :
    Option (ListHeap α) :=
  r.map fun x => s.set a x.1 x.2.1

/-- A call on the list at `a`. -/
def heapExec (s : ListHeap α) (a : Nat) (list : ListT α) : HeapOp α → Option (ListHeap α)
  | .pushHead data calloc => pushCall s a data (listPushHead s.mem list data calloc)
  | .pushTail data calloc => pushCall s a data (listPushTail s.mem list data calloc)
  | .pushPosition data position calloc =>
    pushCall s a data (listPushPosition s.mem list data position calloc)
  | .popHead => popCall s a (listPopHead s.mem list)
  | .popTail => popCall s a (listPopTail s.mem list)
  | .popPosition position => popCall s a (listPopPosition s.mem list position)
  | .removeHead => freeCall s a (listRemoveHead s.mem list)
  | .removeTail => freeCall s a (listRemoveTail s.mem list)
  | .removePosition position => freeCall s a (listRemovePosition s.mem list position)
  | .removeData data => freeCall s a (listRemoveData s.mem list data)
  | .sort => freeCall s a (listSort s.mem list)
  | .clear => freeCall s a (listClear s.mem list)
  | .findAll searchData new calloc =>
    (listFindAllOccurrences s.mem list searchData new calloc).map fun x =>
      match x.2 with
      | some newList => { s with mem := x.1, lists := (s.lists.alloc newList).1 }
      | none => { s with mem := x.1 }
  | .delete =>
    (listClear s.mem list).map fun x => { s with mem := x.1, lists := s.lists.drop a }

def heapStep (s : ListHeap α) (call : Nat × HeapOp α) : Option (ListHeap α) := do
  let list ← s.lists.get call.1
  heapExec s call.1 list call.2

/-- A list made by `list_new` with a `custom_free`, and no other. -/
def heapStart (compareFunc : Option α → Option α → CompRtns) : ListHeap α :=
  { mem := ⟨.empty, []⟩, lists := (Store.empty.alloc (listNew true compareFunc)).1, pushed := 0,
    popped := 0 }

/-- The runs on one list and on the lists of occurrences made from it. -/
def heapSystem (compareFunc : Option α → Option α → CompRtns) :
    System (ListHeap α) (Nat × HeapOp α) where
  init s := s = heapStart compareFunc
  step := heapStep

/-! ### What is owed for a push

A datum that was pushed twice may be freed twice, so what is owed is counted.
-/

/-- A datum is freed or popped as often as it was pushed, at most, and NULL is not freed. -/
structure DataOwned [DecidableEq α] (s : ListHeap α) : Prop where
  /-- Nothing is given away more often than it was pushed. -/
  once : ∀ d, (s.mem.freed : Multiset (Option α)).count (some d) + s.popped.count d ≤
    s.pushed.count d
  /-- NULL is not freed. -/
  null : none ∉ s.mem.freed

/-- The data in the nodes and the data that have been freed. -/
def ListMem.kept (m : ListMem α) : Multiset (Option α) :=
  m.nodes.live.map DCell.data + (m.freed : Multiset (Option α))

/-- What has been pushed is in a node, or has been freed, or popped. -/
def DataConserved (s : ListHeap α) : Prop :=
  s.mem.kept + s.popped.map some = s.pushed.map some

/-- Neither the head nor the tail, by its position. -/
def Inside (list : ListT α) (position : UInt32) : Prop :=
  ¬ position ≥ list.size ∧ position ≠ 0 ∧ position ≠ list.size - 1

/-- There is no such position, or it is that of a head or a tail that is there. -/
def RemovesEnd (list : ListT α) (position : UInt32) : Prop :=
  position ≥ list.size ∨ (position = 0 ∧ list.head ≠ none) ∨
    (position ≠ 0 ∧ position = list.size - 1 ∧ list.tail ≠ none)

/-- `list_find_all_occurrences` finds nothing in the `rest` nodes from `current`, or has no memory
for the first it finds. -/
def FindsNothing (list : ListT α) (searchData : Option α) (calloc : Nat → Bool)
    (nodes : Store (ListNode α)) : Nat → Ptr → Prop
  | 0, _ => True
  | rest + 1, current => ∀ node, nodes.load current = some node →
    if list.compareFunc searchData node.data = .equal then node.data = none ∨ calloc rest = false
    else FindsNothing list searchData calloc nodes rest node.next

/-- The call on `list` gives no datum away twice. -/
def GivesOnce (nodes : Store (ListNode α)) (list : ListT α) : HeapOp α → Prop
  | .popPosition position => ¬ Inside list position
  | .removeHead => list.head ≠ none
  | .removeTail => list.tail ≠ none
  | .removePosition position => RemovesEnd list position
  | .findAll searchData new calloc =>
    list.size = 0 ∨ new = false ∨
      FindsNothing list searchData calloc nodes list.size.toNat list.head
  | _ => True

def FreesOnce (s : ListHeap α) (call : Nat × HeapOp α) : Prop :=
  ∀ list, s.lists.get call.1 = some list → GivesOnce s.mem.nodes list call.2

end CmakeTemplate
