/-
A graph with what `graph_clear` and `custom_free` make of it.

`node_list` is made with the `custom_free` of the user, so `list_remove_data` and
`list_delete` call it on a `node_t`, where `cleanup_node` calls it on the data of the user.
A `custom_free` that deallocates frees the `node_t`; freeing it again has no result.  Other
than that `custom_free` is known only by what it is called with, which `freed` records.

`graph_clear` leaves `node_list` NULL.  A search in it finds nothing then, as in an empty
list, and the functions that search are those of a graph with an empty list.
-/
import CmakeTemplate.Traversal

namespace CmakeTemplate

open Lib

variable {α : Type}

/-- What `custom_free` is called with. -/
inductive FreeArg (α : Type)
  | data (d : α)
  | node (n : Nat)
  deriving DecidableEq

/-- `graph_t`, with the nodes and the edges it has allocated. -/
structure GraphT (α : Type) where
  /-- The nodes by their addresses. -/
  nodes : Store (Node α)
  /-- The edges by theirs. -/
  edges : Store Edge
  /-- `node_count`. -/
  nodeCount : Nat
  /-- `none` is NULL. -/
  nodeList : Option (List Nat)
  /-- `custom_free` deallocates what it is called with, as `free` does. -/
  deallocates : Bool
  /-- What `custom_free` has been called with. -/
  freed : List (FreeArg α)

/-- `graph_create`, once its allocations have succeeded. -/
def GraphT.new (deallocates : Bool) : GraphT α :=
  { nodes := .empty, edges := .empty, nodeCount := 0, nodeList := some [], deallocates,
    freed := [] }

/-- What a search sees. -/
def GraphT.graph (t : GraphT α) : Graph α :=
  { nodes := t.nodes, edges := t.edges, nodeCount := t.nodeCount, nodeList := t.nodeList.getD [] }

/-- `t` with what has been done to its graph. -/
def GraphT.withGraph (t : GraphT α) (g : Graph α) : GraphT α :=
  { t with
    nodes := g.nodes, edges := g.edges, nodeCount := g.nodeCount,
    nodeList := t.nodeList.map fun _ => g.nodeList }

/-- `graph->custom_free(arg)`. -/
def callCustomFree (t : GraphT α) : FreeArg α → Option (GraphT α)
  | .data d => some { t with freed := t.freed ++ [.data d] }
  | .node n =>
    if t.deallocates then do
      let nodes ← t.nodes.free (some n)
      some { t with nodes, freed := t.freed ++ [.node n] }
    else some { t with freed := t.freed ++ [.node n] }

/-! ### Removing a node

The edges of the node are collected in an array first, since removing them changes the lists
that they are on.  Then each of them is removed by the data of its ends, and then the node
itself.
-/

/-- `collect_edges`; `calloc` is the outcome of its allocation. -/
def collectEdges (nodes : Store (Node α)) (node : Nat) (calloc : Bool) :
    Option (Option (List Nat)) := do
  let n ← nodes.get node
  if calloc then some (some (n.edgeList.take (n.edgeList.length % 2 ^ 32))) else some none

/-- `remove_edges`; `push` is the outcome of the `list_push_head` in each `graph_remove_edge`. -/
def removeEdges (customCompare : α → Node α → CompRtns) (push : Nat → Bool) :
    Graph α → List Nat → Option (ExitCode × Graph α)
  | g, [] => some (.success, g)
  | g, edge :: rest => do
    let e ← g.edges.get edge
    let node1 ← g.nodes.get e.node1
    let node2 ← g.nodes.get e.node2
    let (exitCode, g) ←
      graphRemoveEdge customCompare g (some node1.data) (some node2.data) (push rest.length)
    if exitCode = .success then removeEdges customCompare push g rest else some (exitCode, g)

/-- `cleanup_node`; the `edge_list_free` of the list of edges does nothing. -/
def cleanupNode (t : GraphT α) (node : Nat) : Option (GraphT α) := do
  let n ← t.nodes.get node
  let t ← callCustomFree t (.data n.data)
  let nodes ← t.nodes.free (some node)
  some { t with nodes }

/-- `graph_remove_node` behind `remove_edges`. -/
def removeNodeAt (customCompare : α → Node α → CompRtns) (t : GraphT α) (node : Nat) :
    Option (ExitCode × GraphT α) := do
  let n ← t.nodes.get node
  -- `list_remove_data`
  match ← findFirstOccurrence customCompare t.nodes n.data t.graph.nodeList with
  | none => some (.failure, t)
  | some other => do
    let t ← callCustomFree { t with nodeList := t.nodeList.map (·.erase other) } (.node other)
    let t ← cleanupNode { t with nodeCount := t.nodeCount - 1 } node
    some (.success, t)

/-- `graph_remove_node`. -/
def graphRemoveNode (customCompare : α → Node α → CompRtns) (t : GraphT α) (data : Option α)
    (calloc : Bool) (push : Nat → Bool) : Option (ExitCode × GraphT α) :=
  match data with
  | none => some (.failure, t)
  | some data => do
    match ← graphFindNode customCompare t.graph data with
    | none => some (.failure, t)
    | some node =>
      match ← collectEdges t.nodes node calloc with
      | none => some (.failure, t)
      | some edgesToRemove => do
        let (exitCode, g) ← removeEdges customCompare push t.graph edgesToRemove
        if exitCode = .success then removeNodeAt customCompare (t.withGraph g) node
        else some (exitCode, t.withGraph g)

/-! ### Clearing

Each node is cleaned up on its own and is then on `node_list` still, whose deletion calls
`custom_free` on it.
-/

/-- The loop of `graph_clear`. -/
def cleanupNodes : GraphT α → List Nat → Option (GraphT α)
  | t, [] => some t
  | t, node :: rest => do
    let t ← cleanupNode t node
    cleanupNodes t rest

/-- What the `list_delete` of `node_list` calls. -/
def freeList : GraphT α → List Nat → Option (GraphT α)
  | t, [] => some t
  | t, node :: rest => do
    let t ← callCustomFree t (.node node)
    freeList t rest

/-- `graph_clear`. -/
def graphClear (t : GraphT α) : Option (ExitCode × GraphT α) := do
  let nodeList ← t.nodeList
  let t ← cleanupNodes t nodeList
  let t ← freeList t nodeList
  some (.success, { t with nodeList := none, nodeCount := 0 })

/-! ### Runs

Besides the calls of a graph there are those that remove a node, clear the graph and search
it.
-/

inductive GraphCall (α : Type)
  | addNode (data : Option α) (createNode push : Bool)
  | addEdge (data1 data2 : Option α) (weight : UInt64) (isBidirectional calloc push1 push2 : Bool)
  | removeEdge (data1 data2 : Option α) (push : Bool)
  | removeNode (data : Option α) (calloc : Bool) (push : Nat → Bool)
  | getSize
  | bfs (startData : Option α) (calloc : Nat → Bool)
  | dfs (startData : Option α) (calloc : Nat → Bool)

/-- What a call returns, and what a search calls `action` with. -/
inductive GraphRet (α : Type)
  | code (c : ExitCode)
  | size (n : Nat)
  | search (c : ExitCode) (acted : List α)
  deriving DecidableEq

/-- `graph_add_node`; `list_push_head` has an exit code of its own for a list that is NULL. -/
def addNodeTo (t : GraphT α) (data : Option α) (createNode push : Bool) :
    Option (ExitCode × GraphT α) :=
  match t.nodeList with
  | some _ => do
    let (exitCode, g) ← graphAddNode t.graph data createNode push
    some (exitCode, t.withGraph g)
  | none => do
    let (_, g) ← graphAddNode t.graph data createNode false
    some (if data.isSome && createNode then .nullPointer else .failure, t.withGraph g)

def graphCall (customCompare : α → Node α → CompRtns) (t : GraphT α) :
    GraphCall α → Option (GraphRet α × GraphT α)
  | .addNode data createNode push => do
    let (exitCode, t) ← addNodeTo t data createNode push
    some (.code exitCode, t)
  | .addEdge data1 data2 weight isBidirectional calloc push1 push2 => do
    let (exitCode, g) ←
      graphAddEdge customCompare t.graph data1 data2 weight isBidirectional calloc push1 push2
    some (.code exitCode, t.withGraph g)
  | .removeEdge data1 data2 push => do
    let (exitCode, g) ← graphRemoveEdge customCompare t.graph data1 data2 push
    some (.code exitCode, t.withGraph g)
  | .removeNode data calloc push => do
    let (exitCode, t) ← graphRemoveNode customCompare t data calloc push
    some (.code exitCode, t)
  | .getSize => some (.size t.nodeCount, t)
  | .bfs startData calloc => do
    let (exitCode, acted, g) ← graphBfs customCompare t.graph startData calloc
    some (.search exitCode acted, t.withGraph g)
  | .dfs startData calloc => do
    let (exitCode, acted, g) ← graphDfs customCompare t.graph startData calloc
    some (.search exitCode acted, t.withGraph g)

/-- Calls one after the other, with what they return. -/
def graphCalls (customCompare : α → Node α → CompRtns) :
    GraphT α → List (GraphCall α) → Option (List (GraphRet α) × GraphT α)
  | t, [] => some ([], t)
  | t, call :: calls => do
    let (ret, t) ← graphCall customCompare t call
    let (rets, t) ← graphCalls customCompare t calls
    some (ret :: rets, t)

/-- A run from `graph_create` to `graph_destroy`, whose `free` of the `graph_t` is left out. -/
def graphLife (customCompare : α → Node α → CompRtns) (deallocates : Bool)
    (calls : List (GraphCall α)) : Option (GraphT α) := do
  let (_, t) ← graphCalls customCompare (.new deallocates) calls
  let (_, t) ← graphClear t
  some t

/-! ### What is released

What a graph was given are the data of the nodes that it made, and what it owns are its nodes
and its edges.
-/

/-- The data that `graph_add_node` is given. -/
def GraphCall.given : GraphCall α → Option α
  | .addNode data _ _ => data
  | _ => none

/-- The data that `graph_add_node` takes in: there is memory for its node. -/
def GraphCall.taken : GraphCall α → Option α
  | .addNode data true true => data
  | _ => none

/-- `custom_free` has been called once with each of `ds` and with nothing else, and nothing is left
of the nodes and the edges.  (A second `free` of either has no result.) -/
structure GraphReleased [DecidableEq α] (ds : List α) (t : GraphT α) : Prop where
  /-- Every datum has been freed once. -/
  once : ∀ d ∈ ds, t.freed.count (.data d) = 1
  /-- Nothing else has been. -/
  only : ∀ arg ∈ t.freed, ∃ d ∈ ds, arg = .data d
  /-- No node is left. -/
  nodes : ∀ n, t.nodes.get n = none
  /-- No edge is left. -/
  edges : ∀ e, t.edges.get e = none

/-! ### A removed node

What removing a node should leave, and under which condition on the lists the source does so.
-/

/-- The callback matches the node that has the data, and no two nodes have the same. -/
structure MatchesData (customCompare : α → Node α → CompRtns) (g : Graph α) : Prop where
  /-- EQUAL is the equality of data. -/
  same : ∀ data node, customCompare data node = .equal ↔ node.data = data
  /-- Different nodes have different data. -/
  distinct : ∀ m n data, g.dataAt m = some data → g.dataAt n = some data → m = n

def Edge.HasEnd (edge : Edge) (n : Nat) : Prop := edge.node1 = n ∨ edge.node2 = n

instance (edge : Edge) (n : Nat) : Decidable (edge.HasEnd n) :=
  inferInstanceAs (Decidable (_ ∨ _))

def HasEndAt (edges : Store Edge) (n e : Nat) : Bool := (edges.get e).any fun edge => edge.HasEnd n

/-- The node is gone, with the edges from it and to it, and the rest is as it was. -/
structure NodeRemoved (g g' : Graph α) (n : Nat) : Prop where
  /-- The node has been freed. -/
  gone : g'.nodes.get n = none
  /-- The other nodes have their data. -/
  nodes : ∀ m, m ≠ n → g'.dataAt m = g.dataAt m
  /-- The others are on `node_list`, in their order. -/
  nodeList : g'.nodeList = g.nodeList.erase n
  /-- One less is counted. -/
  nodeCount : g'.nodeCount = g.nodeCount - 1
  /-- The other lists have lost the edges from the node and to it. -/
  lists : ∀ m, m ≠ n →
    edgesAt g'.nodes m = (edgesAt g.nodes m).filter fun e => !HasEndAt g.edges n e
  /-- Those edges have been freed. -/
  freed : ∀ m e, e ∈ edgesAt g.nodes m → HasEndAt g.edges n e = true → g'.edges.get e = none
  /-- The other edges are what they were. -/
  edges : ∀ e edge, g.edges.get e = some edge → ¬ edge.HasEnd n → g'.edges.get e = some edge

/-- The searches look at `n` and at the nodes that its edges connect it with, its edges are all
collected and none of them twice, and the edges that another list has from there to `n` are on
that of `n` too, in the same order. -/
structure Detachable (g : Graph α) (n : Nat) : Prop where
  /-- A search for the node looks at it. -/
  found : n ∈ g.lookedAt
  /-- A search for the other end of an edge looks at that. -/
  ends : ∀ e ∈ edgesAt g.nodes n, ∀ edge, g.edges.get e = some edge →
    edge.node1 ∈ g.lookedAt ∧ edge.node2 ∈ g.lookedAt
  /-- Its edges are all collected. -/
  few : (edgesAt g.nodes n).length < 2 ^ 32
  /-- No edge is on its list twice. -/
  once : (edgesAt g.nodes n).Nodup
  /-- The edges it shares with another node are on both lists in one order. -/
  alike : ∀ m, m ≠ n → (edgesAt g.nodes m).filter (HasEndAt g.edges n) =
    (edgesAt g.nodes n).filter (· ∈ edgesAt g.nodes m)

/-! ### A cleared graph

A graph that has been cleared should be as good as a new one, so its calls are compared with
those of a new graph.
-/

/-- The call gets memory for a node. -/
def GraphCall.MakesNode : GraphCall α → Prop
  | .addNode data createNode _ => data ≠ none ∧ createNode = true
  | _ => False

/-- `graph_clear` has a list, and what it frees is there to be freed: it calls `custom_free` on
each node that it has freed itself. -/
def Clearable (t : GraphT α) : Prop :=
  ∃ nodeList, t.nodeList = some nodeList ∧ nodeList.Nodup ∧
    (∀ n ∈ nodeList, (t.nodes.get n).isSome) ∧ (t.deallocates = true → nodeList = [])

/-- Clearing the graph and making the calls returns what a new graph returns. -/
def BehavesNew (customCompare : α → Node α → CompRtns) (t : GraphT α) (calls : List (GraphCall α)) :
    Prop :=
  ∃ t', graphClear t = some (.success, t') ∧
    (graphCalls customCompare t' calls).map Prod.fst =
      (graphCalls customCompare (.new t.deallocates) calls).map Prod.fst

end CmakeTemplate
