/-
Breadth-first and depth-first search in `adjacency_list.c`.

The two searches are the same loops around a queue or around a stack, so the loops are written
once, over what they do with either (`Worklist`).  `calloc` is the outcome of each allocation
of a search, in their order, as a search allocates a node for each element that it puts
anywhere and may fail in the middle.  `action` is known by the data it is called with.

A node is put on the list of those visited when it is found, not when it is taken.  A search
that follows an edge goes to its second node, whichever end it comes from.

The queue and the stack are made with `free`, so what is left in them when a search gives up,
nodes of the graph, is freed with them.
-/
import CmakeTemplate.Adjacency
import CmakeTemplate.Lib.Exploration
import CmakeTemplate.Lib.LevelOrder
import CmakeTemplate.Queue
import CmakeTemplate.Stack

namespace CmakeTemplate

open Lib

variable {α σ : Type}

/-- What the nodes that are still to be visited are kept in. -/
structure Worklist (σ : Type) where
  /-- Whether a node waits. -/
  isEmpty : σ → Bool
  /-- Adding a node, with the outcome of the allocation. -/
  push : σ → Nat → Bool → Option (ExitCode × σ)
  /-- Taking one. -/
  pop : σ → Option (Option Nat × σ)
  /-- What is freed when it is destroyed. -/
  drain : σ → Option (List Nat)

/-! ### A queue and a stack of nodes

The queue of `queue.c`, used by one thread, and the stack of `stack.c`, each as what the loops
need of it.
-/

/-- `queue_enqueue` on an unbounded queue that one thread uses. -/
def queueEnqueue (queue : QueueT Nat) (node : Nat) (calloc : Bool) :
    Option (ExitCode × QueueT Nat) :=
  if calloc then do
    let (queue, newNode) := queueNodeNew queue node
    let queue ← queueAppend queue newNode
    some (.success, queue)
  else some (.failure, queue)

/-- `queue_dequeue` of a queue that is not empty. -/
def queueDequeue (queue : QueueT Nat) : Option (Nat × QueueT Nat) := do
  let (queue, data) ← queueTakeHead queue
  some (data, queue)

/-- The loop of `queue_clear`, with what `customfree` is called with. -/
def queueClearLoop : Nat → QueueT Nat → Option (List Nat)
  | 0, queue => if queue.currentSize > 0 then none else some []
  | fuel + 1, queue =>
    if queue.currentSize > 0 then do
      let (data, queue) ← queueDequeue queue
      (queueClearLoop fuel queue).map (data :: ·)
    else some []

def queueWorklist : Worklist (QueueT Nat) where
  isEmpty := queueIsEmpty
  push := queueEnqueue
  pop queue := do
    let (data, queue) ← queueDequeue queue
    some (some data, queue)
  drain queue := queueClearLoop queue.currentSize.toNat queue

def stackWorklist : Worklist (StackT Nat) where
  isEmpty stack := stackIsEmpty stack ≠ .failure
  push stack node calloc := stackPush stack (some node) calloc
  pop := stackPop
  drain stack := do
    let (freed, _) ← stackClear stack
    -- `free(NULL)` does nothing
    some (freed.filterMap id)

/-! ### The loops

A search takes a node, acts on it, and puts the nodes it leads to on the list, until none is
left.
-/

/-- Where a search is. -/
structure Traversal (σ : Type) where
  /-- The nodes that wait. -/
  work : σ
  /-- `visited_list`: the nodes that have been found, in this order. -/
  visited : List Nat
  /-- How many allocations there have been. -/
  allocs : Nat

/-- `bfs_visit_node` and `dfs_visit_node`. -/
def visitNode (W : Worklist σ) (calloc : Nat → Bool) (t : Traversal σ) (node : Nat) :
    Option (ExitCode × Traversal σ) := do
  let (exitCode, work) ← W.push t.work node (calloc t.allocs)
  if exitCode = .success then
    -- `list_push_tail`
    if calloc (t.allocs + 1) then
      some (.success, ⟨work, t.visited ++ [node], t.allocs + 2⟩)
    else some (.failure, { t with work })
  else some (exitCode, { t with work })

/-- The loop over the edges of a node. -/
def visitNeighbors (W : Worklist σ) (calloc : Nat → Bool) (edges : Store Edge) :
    Traversal σ → List Nat → Option (ExitCode × Traversal σ)
  | t, [] => some (.success, t)
  | t, edge :: rest => do
    let e ← edges.get edge
    if t.visited.contains e.node2 then visitNeighbors W calloc edges t rest
    else do
      let (exitCode, t) ← visitNode W calloc t e.node2
      if exitCode = .success then visitNeighbors W calloc edges t rest
      else some (.failure, t)

/-- `traverse_bfs` and `traverse_dfs`; `acted` is what `action` has been called with. -/
def traverse (W : Worklist σ) (calloc : Nat → Bool) (g : Graph α) :
    Nat → Traversal σ → List α → Option (ExitCode × Traversal σ × List α)
  | 0, t, acted => if W.isEmpty t.work then some (.success, t, acted) else none
  | fuel + 1, t, acted =>
    if W.isEmpty t.work then some (.success, t, acted)
    else do
      match ← W.pop t.work with
      | (none, work) => some (.failure, { t with work }, acted)
      | (some current, work) => do
        let node ← g.nodes.get current
        let (exitCode, t) ← visitNeighbors W calloc g.edges { t with work } node.edgeList
        if exitCode = .success then traverse W calloc g fuel t (acted ++ [node.data])
        else some (.failure, t, acted ++ [node.data])

/-- Freeing the nodes that a search leaves. -/
def freeNodes (nodes : Store (Node α)) : List Nat → Option (Store (Node α))
  | [] => some nodes
  | node :: rest => do
    let nodes ← nodes.free (some node)
    freeNodes nodes rest

/-- A search from `start`, and the end of it. -/
def search (W : Worklist σ) (calloc : Nat → Bool) (g : Graph α) (work : σ) (allocs start : Nat) :
    Option (ExitCode × List α × Graph α) := do
  let (exitCode, t) ← visitNode W calloc ⟨work, [], allocs⟩ start
  let (exitCode, t, acted) ←
    if exitCode = .success then
      -- no node is visited twice
      traverse W calloc g (g.nodes.next + 1) t []
    else some (exitCode, t, [])
  let left ← W.drain t.work
  let nodes ← freeNodes g.nodes left
  some (exitCode, acted, { g with nodes })

/-! ### The searches

The two begin with different allocations, and the stack has a bound.
-/

/-- `graph_bfs`; the first two allocations are its list and its queue. -/
def graphBfs (customCompare : α → Node α → CompRtns) (g : Graph α) (startData : Option α)
    (calloc : Nat → Bool) : Option (ExitCode × List α × Graph α) :=
  match startData with
  | none => some (.failure, [], g)
  | some data =>
    if calloc 0 then do
      match ← graphFindNode customCompare g data with
      | none => some (.failure, [], g)
      | some start =>
        if calloc 1 then search queueWorklist calloc g (queueInit queueUnbounded) 2 start
        else some (.failure, [], g)
    else some (.failure, [], g)

/-- `MAX_STACK_SIZE`. -/
def maxStackSize : UInt32 := 2000

/-- `graph_dfs`; the first three allocations are its list, its stack and the array in it. -/
def graphDfs (customCompare : α → Node α → CompRtns) (g : Graph α) (startData : Option α)
    (calloc : Nat → Bool) : Option (ExitCode × List α × Graph α) :=
  match startData with
  | none => some (.failure, [], g)
  | some data => do
    match ← graphFindNode customCompare g data with
    | none => some (.failure, [], g)
    | some start =>
      if calloc 0 && calloc 1 && calloc 2 then
        search stackWorklist calloc g (stackInit maxStackSize) 3 start
      else some (.failure, [], g)

/-! ### What a search is for

The nodes that can be reached from the start, each once.
-/

def Graph.dataAt (g : Graph α) (n : Nat) : Option α := (g.nodes.get n).map Node.data

/-- The nodes that the edges on the list of a node lead to, in the order of the list. -/
def nexts (g : Graph α) (n : Nat) : List Nat :=
  (edgesAt g.nodes n).filterMap fun e => (g.edges.get e).map Edge.node2

/-- A search from `start` succeeds and leaves the graph as it is.  It calls `action` for the nodes
that the lists lead to from there, each once and the start first. -/
structure Visits (g : Graph α) (start : Nat) (result : Option (ExitCode × List α × Graph α))
    (order : List Nat) : Prop where
  /-- The search succeeds, and acts on the data of the nodes in this order. -/
  success : ∃ acted, result = some (.success, acted, g) ∧ acted.map some = order.map g.dataAt
  /-- The start comes first. -/
  first : order.head? = some start
  /-- No node comes twice. -/
  once : order.Nodup
  /-- The nodes are those that can be reached. -/
  reached : ∀ n, n ∈ order ↔ Reaches (fun m n => n ∈ nexts g m) start n

/-- `action` is called with the data of the node. -/
def ActsOn (g : Graph α) (result : Option (ExitCode × List α × Graph α)) (n : Nat) : Prop :=
  ∃ exitCode acted g' data, result = some (exitCode, acted, g') ∧ g.dataAt n = some data ∧
    data ∈ acted

/-! ### What is left of the graph

A search should only read.
-/

/-- The search returns, and every node, every edge and every list is as before. -/
def LeavesGraph (g : Graph α) (result : Option (ExitCode × List α × Graph α)) : Prop :=
  ∃ exitCode acted g', result = some (exitCode, acted, g') ∧ SameGraph g g'

/-- Never do more nodes wait in a search from `start` than the stack has slots. -/
def StackHolds (g : Graph α) (start : Nat) : Prop :=
  ∀ S, Search.Leads (nexts g) onTop (.start start) S → S.waiting.length ≤ maxStackSize.toNat

/-! ### Bidirectional edges

On a graph of bidirectional edges, being reached goes both ways.
-/

/-- Nodes are added, and bidirectional edges, with any outcome of the allocations. -/
def OnlyBidirectional (_ : Graph α) : GraphOp α → Prop
  | .addNode _ _ _ => True
  | .addEdge _ _ _ isBidirectional _ _ _ => isBidirectional = true
  | .removeEdge _ _ _ => False

/-- There is an edge from `m` to `n`. -/
def Graph.Adjacent (g : Graph α) (m n : Nat) : Prop :=
  ∃ e edge, g.edges.get e = some edge ∧ edge.node1 = m ∧ edge.node2 = n

/-- The nodes are in one component of the undirected graph. -/
def Graph.Connected (g : Graph α) : Nat → Nat → Prop := Relation.EqvGen g.Adjacent

/-- A search acts on one node from another if it does so the other way round, and on just the nodes
that are connected with the start. -/
structure CrossesBothWays (g : Graph α)
    (search : Option α → Option (ExitCode × List α × Graph α)) : Prop where
  /-- A node is reached from another if it reaches it. -/
  symmetric : ∀ u ∈ g.nodeList, ∀ v ∈ g.nodeList,
    ActsOn g (search (g.dataAt u)) v ↔ ActsOn g (search (g.dataAt v)) u
  /-- The nodes that are reached are those of the component. -/
  component : ∀ u ∈ g.nodeList, ∀ v, ActsOn g (search (g.dataAt u)) v ↔ g.Connected u v

/-! ### Levels

On a graph of directed edges, a breadth-first search goes by distance.
-/

/-- Nodes are added, and directed edges, with any outcome of the allocations. -/
def OnlyDirected (_ : Graph α) : GraphOp α → Prop
  | .addNode _ _ _ => True
  | .addEdge _ _ _ isBidirectional _ _ _ => isBidirectional = false
  | .removeEdge _ _ _ => False

/-- The nodes that can be reached from `start`, each once, the start first and the nearer ones
in front of those further away. -/
structure ByLevels (g : Graph α) (start : Nat) (order : List Nat) : Prop where
  /-- The start comes first. -/
  first : order.head? = some start
  /-- No node comes twice. -/
  once : order.Nodup
  /-- The nodes are those that can be reached. -/
  reached : ∀ n, n ∈ order ↔ Reaches g.Adjacent start n
  /-- The nearer ones come first. -/
  levels : order.Pairwise fun m n => distance g.Adjacent start m ≤ distance g.Adjacent start n

end CmakeTemplate
