/-
The graph of `adjacency_list.c`: nodes with lists of edges.

A graph has a store of nodes and a store of edges, and an edge holds the addresses of
its two nodes.  The lists are the sequences that `list_refines_sequence` shows
`linked_list.c` to keep; their elements are addresses too, so an edge can be on two lists
and be freed while it is on one.  Comparing it there has no result.

Adding an element takes an allocation, and its outcome is an argument.  `edge_count` and
`node_count` count what is in memory, which a `size_t` has room for; the `size` of
`node_list`, a `uint32_t`, does not, and `list_find_first_occurrence` counts up to it.
-/
import CmakeTemplate.Core
import CmakeTemplate.Lib.Store
import CmakeTemplate.Lib.System
import CmakeTemplate.Lib.Word

namespace CmakeTemplate

open Lib

/-- `edge_t`. -/
structure Edge where
  /-- The address of its first node. -/
  node1 : Nat
  /-- The address of its second node. -/
  node2 : Nat
  /-- The weight, which nothing below looks at. -/
  weight : UInt64
  /-- Whether it leads from the first node to the second only. -/
  isDirected : Bool
  deriving DecidableEq

/-- `node_t`. -/
structure Node (α : Type) where
  /-- The data of the user. -/
  data : α
  /-- `edge_count`. -/
  edgeCount : Nat
  /-- The addresses of its edges, from the head of `edge_list` on. -/
  edgeList : List Nat

/-- `graph_t`, with the nodes and the edges it has allocated. -/
structure Graph (α : Type) where
  /-- The nodes by their addresses. -/
  nodes : Store (Node α)
  /-- The edges by theirs. -/
  edges : Store Edge
  /-- `node_count`. -/
  nodeCount : Nat
  /-- The addresses of the nodes, from the head of `node_list` on. -/
  nodeList : List Nat

variable {α : Type}

/-- `graph_create`, once its allocations have succeeded. -/
def graphCreate : Graph α := { nodes := .empty, edges := .empty, nodeCount := 0, nodeList := [] }

/-- `edge_compare`. -/
def edgeCompare (edgeA edgeB : Edge) : CompRtns :=
  if (edgeA.node1 = edgeB.node1 ∧ edgeA.node2 = edgeB.node2) ∨
      (edgeA.node1 = edgeB.node2 ∧ edgeA.node2 = edgeB.node1 ∧ edgeA.isDirected = false) then
    .equal
  else .notEqual

/-! ### Searching

A search looks at nodes or edges in the order of their list, with the callback of the graph or
with `edge_compare`.
-/

/-- `list_find_first_occurrence` on nodes; `compare_func` is `customCompare`. -/
def findFirstOccurrence (customCompare : α → Node α → CompRtns) (nodes : Store (Node α))
    (data : α) : List Nat → Option Ptr
  | [] => some none
  | current :: rest => do
    let node ← nodes.get current
    if customCompare data node = .equal then some (some current)
    else findFirstOccurrence customCompare nodes data rest

/-- `graph_find_node`. -/
def graphFindNode (customCompare : α → Node α → CompRtns) (g : Graph α) (data : α) : Option Ptr :=
  findFirstOccurrence customCompare g.nodes data (g.nodeList.take (g.nodeList.length % 2 ^ 32))

/-- The edge connects `node1` to `node2`. -/
def Edge.Connects (edge : Edge) (node1 node2 : Nat) : Prop :=
  (edge.node1 = node1 ∧ edge.node2 = node2) ∨
    (edge.node1 = node2 ∧ edge.node2 = node1 ∧ edge.isDirected = false)

instance (edge : Edge) (node1 node2 : Nat) : Decidable (edge.Connects node1 node2) :=
  inferInstanceAs (Decidable (_ ∨ _))

/-- The loop of `graph_find_edge`: `edge` is still the last one when none connects. -/
def findEdgeLoop (edges : Store Edge) (node1 node2 : Nat) : Ptr → List Nat → Option Ptr
  | edge, [] => some edge
  | _, current :: rest => do
    let edge ← edges.get current
    if edge.Connects node1 node2 then some (some current)
    else findEdgeLoop edges node1 node2 (some current) rest

/-- `graph_find_edge`. -/
def graphFindEdge (g : Graph α) (node1 node2 : Nat) : Option Ptr := do
  let node ← g.nodes.get node1
  findEdgeLoop g.edges node1 node2 none node.edgeList

/-! ### The list of a node

`list_push_head` and `list_remove_data`, on the list of edges of a node.  What is removed is
the first edge that is EQUAL, which need not be the one that is meant.
-/

/-- `list_push_head(node->edge_list, edge)`. -/
def pushEdge (nodes : Store (Node α)) (node edge : Nat) (calloc : Bool) :
    Option (ExitCode × Store (Node α)) :=
  if calloc then do
    let nodes ← nodes.assign (some node) fun n => { n with edgeList := edge :: n.edgeList }
    some (.success, nodes)
  else some (.failure, nodes)

/-- What `find_node` and `remove_node` make of a list of edges, if there is one EQUAL to
`edge`. -/
def removeEqual (edges : Store Edge) (edge : Nat) : List Nat → Option (Option (List Nat))
  | [] => some none
  | current :: rest => do
    let edgeA ← edges.get edge
    let edgeB ← edges.get current
    if edgeCompare edgeA edgeB = .equal then some (some rest)
    else (removeEqual edges edge rest).map (Option.map (current :: ·))

/-- `list_remove_data(node->edge_list, edge)`. -/
def removeData (nodes : Store (Node α)) (edges : Store Edge) (node edge : Nat) :
    Option (ExitCode × Store (Node α)) := do
  let n ← nodes.get node
  match ← removeEqual edges edge n.edgeList with
  | none => some (.failure, nodes)
  | some edgeList => do
    let nodes ← nodes.assign (some node) fun n => { n with edgeList }
    some (.success, nodes)

/-- `node->edge_count += 1`. -/
def countUp (nodes : Store (Node α)) (node : Nat) : Option (Store (Node α)) :=
  nodes.assign (some node) fun n => { n with edgeCount := n.edgeCount + 1 }

/-- `node->edge_count -= 1`. -/
def countDown (nodes : Store (Node α)) (node : Nat) : Option (Store (Node α)) :=
  nodes.assign (some node) fun n => { n with edgeCount := n.edgeCount - 1 }

/-! ### Adding

Both functions search before they allocate, so a call that finds nothing to do has no effect.
-/

/-- `graph_add_node`; `createNode` and `push` are the outcomes of `graph_create_node` and
of `list_push_head`. -/
def graphAddNode (g : Graph α) (data : Option α) (createNode push : Bool) :
    Option (ExitCode × Graph α) :=
  match data with
  | none => some (.failure, g)
  | some data =>
    if createNode then
      let nodes := (g.nodes.alloc ⟨data, 0, []⟩).1
      let node := (g.nodes.alloc ⟨data, 0, []⟩).2
      if push then
        some (.success, { g with
          nodes, nodeList := node :: g.nodeList, nodeCount := g.nodeCount + 1 })
      else do
        let nodes ← nodes.free (some node)
        some (.failure, { g with nodes })
    else some (.failure, g)

/-- What `graph_add_edge` and `graph_remove_edge` begin with: the nodes, if both are there. -/
def findNodes (customCompare : α → Node α → CompRtns) (g : Graph α) (data1 data2 : Option α) :
    Option (Option (Nat × Nat)) :=
  match data1, data2 with
  | some data1, some data2 => do
    match ← graphFindNode customCompare g data1 with
    | none => some none
    | some node1 =>
      match ← graphFindNode customCompare g data2 with
      | none => some none
      | some node2 => some (some (node1, node2))
  | _, _ => some none

/-- `graph_add_edge` behind its searches. -/
def addEdge (g : Graph α) (node1 node2 : Nat) (weight : UInt64)
    (isBidirectional calloc push1 push2 : Bool) : Option (ExitCode × Graph α) :=
  if calloc then do
    let edges := (g.edges.alloc ⟨node1, node2, weight, !isBidirectional⟩).1
    let edge := (g.edges.alloc ⟨node1, node2, weight, !isBidirectional⟩).2
    let (exitCode, nodes) ← pushEdge g.nodes node1 edge push1
    if exitCode = .success then do
      let nodes ← countUp nodes node1
      if isBidirectional then do
        let (exitCode, nodes) ← pushEdge nodes node2 edge push2
        if exitCode = .success then do
          let nodes ← countUp nodes node2
          some (.success, { g with nodes, edges })
        else do
          -- rollback
          let (_, nodes) ← removeData nodes edges node1 edge
          let nodes ← countDown nodes node1
          let edges ← edges.free (some edge)
          some (exitCode, { g with nodes, edges })
      else some (.success, { g with nodes, edges })
    else do
      let edges ← edges.free (some edge)
      some (exitCode, { g with nodes, edges })
  else some (.failure, g)

/-- `graph_add_edge`. -/
def graphAddEdge (customCompare : α → Node α → CompRtns) (g : Graph α) (data1 data2 : Option α)
    (weight : UInt64) (isBidirectional calloc push1 push2 : Bool) : Option (ExitCode × Graph α) := do
  match ← findNodes customCompare g data1 data2 with
  | none => some (.failure, g)
  | some (node1, node2) => addEdge g node1 node2 weight isBidirectional calloc push1 push2

/-! ### Removing

The edge is taken off the list of its first node, then off that of its second one, and put
back on the first list if the second does not have it.
-/

/-- `graph_remove_edge` behind `graph_find_edge`; `push` is the outcome of the
`list_push_head` in its rollback. -/
def removeEdge (g : Graph α) (node1 node2 edge : Nat) (push : Bool) :
    Option (ExitCode × Graph α) := do
  let (exitCode, nodes) ← removeData g.nodes g.edges node1 edge
  if exitCode = .success then do
    let nodes ← countDown nodes node1
    let e ← g.edges.get edge
    if e.isDirected then do
      let edges ← g.edges.free (some edge)
      some (.success, { g with nodes, edges })
    else do
      let (exitCode, nodes) ← removeData nodes g.edges node2 edge
      if exitCode = .success then do
        let nodes ← countDown nodes node2
        let edges ← g.edges.free (some edge)
        some (.success, { g with nodes, edges })
      else do
        let (_, nodes) ← pushEdge nodes node1 edge push
        let nodes ← countUp nodes node1
        some (exitCode, { g with nodes })
  else some (exitCode, { g with nodes })

/-- `graph_remove_edge`. -/
def graphRemoveEdge (customCompare : α → Node α → CompRtns) (g : Graph α)
    (data1 data2 : Option α) (push : Bool) : Option (ExitCode × Graph α) := do
  match ← findNodes customCompare g data1 data2 with
  | none => some (.failure, g)
  | some (node1, node2) =>
    match ← graphFindEdge g node1 node2 with
    | none => some (.failure, g)
    | some edge => removeEdge g node1 node2 edge push

/-! ### Runs

A run is made of the calls that add and remove, in any order, with the outcomes of their
allocations.
-/

inductive GraphOp (α : Type)
  | addNode (data : Option α) (createNode push : Bool)
  | addEdge (data1 data2 : Option α) (weight : UInt64) (isBidirectional calloc push1 push2 : Bool)
  | removeEdge (data1 data2 : Option α) (push : Bool)

def graphExec (customCompare : α → Node α → CompRtns) (g : Graph α) :
    GraphOp α → Option (ExitCode × Graph α)
  | .addNode data createNode push => graphAddNode g data createNode push
  | .addEdge data1 data2 weight isBidirectional calloc push1 push2 =>
    graphAddEdge customCompare g data1 data2 weight isBidirectional calloc push1 push2
  | .removeEdge data1 data2 push => graphRemoveEdge customCompare g data1 data2 push

/-- The runs of a graph made by `graph_create`. -/
def graphSystem (customCompare : α → Node α → CompRtns) : System (Graph α) (GraphOp α) where
  init g := g = graphCreate
  step g op := (graphExec customCompare g op).map Prod.snd

end CmakeTemplate
