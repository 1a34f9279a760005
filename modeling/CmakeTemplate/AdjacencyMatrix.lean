/-
`matrix_init` and `graph_cleanup` of `adjacency_matrix.c`.

A matrix is four kinds of blocks: the struct, the array of rows, the rows, and the array of
nodes.  All of them are in one store, and what is at an address says which kind it is, so a
row that is freed as a node has no result.  A block that is freed is gone, and freeing it
again has no result, so what is gone at the end of a call was freed once.

`calloc` has the outcomes of the allocations of a call in their order: the struct, the array
of rows, the rows, and the array of nodes.  Each of them may fail on its own.  `graph_cleanup`
is called where one has failed, with the matrix in whatever state it has by then; it frees as
many rows as the struct counts, the two arrays and the struct, and sets the pointer of the
caller to NULL.  The count is written when all allocations have succeeded.
-/
import CmakeTemplate.Lib.Store

namespace CmakeTemplate

open Lib

/-- `node_t` of the matrix. -/
structure MatrixNode where
  /-- The data of the user. -/
  data : Ptr
  /-- The label of the node. -/
  label : Ptr
  deriving DecidableEq

/-- `matrix_t`; `κ` and `φ` are the callbacks. -/
structure Matrix (κ φ : Type) where
  /-- The array of rows. -/
  edges : Ptr
  /-- The array of nodes. -/
  nodes : Ptr
  /-- How many nodes there are, and so how many rows and slots in each. -/
  numNodes : Nat
  /-- Whether edges have a direction. -/
  isDirected : Bool
  /-- The callback that compares data, or NULL. -/
  customCompare : Option κ
  /-- The callback that frees data, or NULL. -/
  customFree : Option φ

/-- What `calloc` leaves in a `matrix_t`. -/
def Matrix.zero {κ φ : Type} : Matrix κ φ := ⟨none, none, 0, false, none, none⟩

/-- The blocks that a matrix is made of; a row has the weights of its edges. -/
inductive MatrixBlock (κ φ : Type)
  | graph (m : Matrix κ φ)
  | edges (rows : List Ptr)
  | row (weights : List Nat)
  | nodes (slots : List MatrixNode)

variable {κ φ : Type}

abbrev MatrixHeap (κ φ : Type) := Store (MatrixBlock κ φ)

/-- `calloc`, with its outcome. -/
def callocBlock (heap : MatrixHeap κ φ) (ok : Bool) (block : MatrixBlock κ φ) :
    MatrixHeap κ φ × Ptr :=
  if ok then ((heap.alloc block).1, some (heap.alloc block).2) else (heap, none)

/-- `*graph`. -/
def loadMatrix (heap : MatrixHeap κ φ) (graph : Nat) : Option (Matrix κ φ) :=
  match heap.get graph with
  | some (.graph m) => some m
  | _ => none

/-- `*graph = f (*graph)`. -/
def storeMatrix (heap : MatrixHeap κ φ) (graph : Nat) (f : Matrix κ φ → Matrix κ φ) :
    MatrixHeap κ φ :=
  heap.upd graph fun
    | .graph m => .graph (f m)
    | block => block

/-- `(*graph)->edges[idx]`. -/
def loadRow (heap : MatrixHeap κ φ) (graph idx : Nat) : Option Ptr := do
  let m ← loadMatrix heap graph
  match heap.load m.edges with
  | some (.edges rows) => rows[idx]?
  | _ => none

/-- `(*graph)->edges[idx] = row`. -/
def storeRow (heap : MatrixHeap κ φ) (graph idx : Nat) (row : Ptr) : Option (MatrixHeap κ φ) := do
  let m ← loadMatrix heap graph
  match heap.load m.edges with
  | some (.edges rows) =>
    if idx < rows.length then heap.assign m.edges fun _ => .edges (rows.set idx row) else none
  | _ => none

/-- The loop of `graph_cleanup`, for the rows from `idx` on. -/
def freeRows (heap : MatrixHeap κ φ) (graph idx : Nat) : Nat → Option (MatrixHeap κ φ)
  | 0 => some heap
  | count + 1 => do
    let row ← loadRow heap graph idx
    if row = none then freeRows heap graph (idx + 1) count
    else
      let heap ← heap.free row
      let heap ← storeRow heap graph idx none
      freeRows heap graph (idx + 1) count

/-- `graph_cleanup`; `*graph` is NULL behind it. -/
def graphCleanup (heap : MatrixHeap κ φ) (graph : Ptr) : Option (MatrixHeap κ φ × Ptr) :=
  match graph with
  | none => some (heap, none)
  | some graph => do
    let m ← loadMatrix heap graph
    let heap ← freeRows heap graph 0 m.numNodes
    let heap ← heap.free m.edges
    let heap := storeMatrix heap graph fun m => { m with edges := none }
    let heap ← heap.free m.nodes
    let heap := storeMatrix heap graph fun m => { m with nodes := none }
    let heap ← heap.free (some graph)
    some (heap, none)

/-- The loop of `matrix_init`, for the rows from `idx` on, and whether it came to its end. -/
def allocRows (calloc : Nat → Bool) (graph numNodes : Nat) (heap : MatrixHeap κ φ) (idx : Nat) :
    Nat → Option (MatrixHeap κ φ × Bool)
  | 0 => some (heap, true)
  | count + 1 => do
    let row := callocBlock heap (calloc (idx + 2)) (.row (List.replicate numNodes 0))
    let heap ← storeRow row.1 graph idx row.2
    if row.2 = none then some (heap, false)
    else allocRows calloc graph numNodes heap (idx + 1) count

/-- `matrix_init` from the allocated struct on. -/
def initMatrix (calloc : Nat → Bool) (heap : MatrixHeap κ φ) (graph numNodes : Nat)
    (isDirected : Bool) (customCompare : κ) (customFree : φ) : Option (MatrixHeap κ φ × Ptr) := do
  let edges := callocBlock heap (calloc 1) (.edges (List.replicate numNodes none))
  let heap := storeMatrix edges.1 graph fun m => { m with edges := edges.2 }
  if edges.2 = none then graphCleanup heap (some graph)
  else
    let rows ← allocRows calloc graph numNodes heap 0 numNodes
    if rows.2 = false then graphCleanup rows.1 (some graph)
    else
      let nodes := callocBlock rows.1 (calloc (numNodes + 2))
        (.nodes (List.replicate numNodes ⟨none, none⟩))
      let heap := storeMatrix nodes.1 graph fun m => { m with nodes := nodes.2 }
      if nodes.2 = none then graphCleanup heap (some graph)
      else
        let heap := storeMatrix heap graph fun m =>
          { m with
            numNodes, isDirected, customCompare := some customCompare
            customFree := some customFree }
        some (heap, some graph)

/-- `matrix_init`. -/
def matrixInit (calloc : Nat → Bool) (heap : MatrixHeap κ φ) (numNodes : Nat) (isDirected : Bool)
    (customCompare : Option κ) (customFree : Option φ) : Option (MatrixHeap κ φ × Ptr) :=
  match customCompare, customFree with
  | some customCompare, some customFree =>
    let graph := callocBlock heap (calloc 0) (.graph .zero)
    match graph.2 with
    | none => graphCleanup graph.1 none
    | some address => initMatrix calloc graph.1 address numNodes isDirected customCompare customFree
  | _, _ => some (heap, none)

/-! ### What a call should do

A call owes the matrix or NULL, and in the second case the blocks from before the call and no
others.
-/

/-- One of the allocations fails. -/
def SomeFails (calloc : Nat → Bool) (numNodes : Nat) : Prop :=
  ∃ k, k < numNodes + 3 ∧ calloc k = false

/-- NULL is returned, and the blocks that are there are those from before the call. -/
def FreesAll (heap : MatrixHeap κ φ) (outcome : Option (MatrixHeap κ φ × Ptr)) : Prop :=
  ∃ heap', outcome = some (heap', none) ∧ heap'.get = heap.get

/-- A matrix with zeroes in all its slots. -/
structure IsZeroed (heap : MatrixHeap κ φ) (m : Matrix κ φ) (numNodes : Nat) : Prop where
  /-- The struct has the number of nodes. -/
  size : m.numNodes = numNodes
  /-- There is a row of zeroes for each node. -/
  rows : ∃ rows, heap.load m.edges = some (.edges rows) ∧ rows.length = numNodes ∧
    ∀ row ∈ rows, heap.load row = some (.row (List.replicate numNodes 0))
  /-- The array of nodes is empty. -/
  nodes : heap.load m.nodes = some (.nodes (List.replicate numNodes ⟨none, none⟩))

/-- A call that fails leaves nothing behind, and one that does not makes a matrix of zeroes. -/
structure InitsCleanly (calloc : Nat → Bool) (heap : MatrixHeap κ φ) (numNodes : Nat)
    (outcome : Option (MatrixHeap κ φ × Ptr)) : Prop where
  /-- A call that fails leaves what was there. -/
  failed : SomeFails calloc numNodes → FreesAll heap outcome
  /-- A call that does not fail makes a matrix of zeroes. -/
  made : ¬ SomeFails calloc numNodes → ∃ heap' graph m, outcome = some (heap', some graph) ∧
    heap'.get graph = some (.graph m) ∧ IsZeroed heap' m numNodes

end CmakeTemplate
