/-
What the edge lists of a graph are for.

An edge belongs on the list of its first node, and if it is bidirectional on that of its
second node too, on which it is a second time if that is the same node.  `EdgeLists` says
that the lists hold the edges that belong there and no others.

A call that adds or removes an edge leaves the nodes and what is not about the edge alone;
`Rewires` says what the edges and their lists are then.

`graph_remove_edge` settles on an edge by its ends, and `list_remove_data` looks for it by
comparing.  `RemovesItself` says that it comes upon the same edge in the lists.
-/
import CmakeTemplate.Graph
import CmakeTemplate.Lib.Incidence

namespace CmakeTemplate

open Lib

variable {α : Type}

/-- The edges on the list of a node; there are none where there is no node. -/
def edgesAt (nodes : Store (Node α)) (n : Nat) : List Nat :=
  ((nodes.get n).map Node.edgeList).getD []

def edgeCountAt (nodes : Store (Node α)) (n : Nat) : Nat :=
  ((nodes.get n).map Node.edgeCount).getD 0

/-- How often an edge belongs on the list of a node. -/
def Edge.occurrences (edge : Edge) (n : Nat) : Nat :=
  (if n = edge.node1 then 1 else 0) + if edge.isDirected = false ∧ n = edge.node2 then 1 else 0

/-- The nodes that are looked at in a search for one: `list_find_first_occurrence` counts up to the
`size` of the list. -/
def Graph.lookedAt (g : Graph α) : List Nat := g.nodeList.take (g.nodeList.length % 2 ^ 32)

/-- `n` is the one node that `data` matches. -/
def MatchesOnly (customCompare : α → Node α → CompRtns) (g : Graph α) (data : α) (n : Nat) : Prop :=
  ∀ m node, g.nodes.get m = some node → (customCompare data node = .equal ↔ m = n)

structure EdgeLists (g : Graph α) : Prop where
  /-- The nodes are those in `node_list`. -/
  live : ∀ n, (g.nodes.get n).isSome ↔ n ∈ g.nodeList
  /-- An edge on a list has not been freed, and is on every list as often as it belongs. -/
  stored : Incident (edgesAt g.nodes) g.edges.get Edge.occurrences
  /-- The nodes of an edge are nodes of the graph. -/
  ends : ∀ n e edge, e ∈ edgesAt g.nodes n → g.edges.get e = some edge →
    edge.node1 ∈ g.nodeList ∧ edge.node2 ∈ g.nodeList
  /-- The count of a node is the length of its list. -/
  counts : ∀ n, edgeCountAt g.nodes n = (edgesAt g.nodes n).length

/-! ### Changing the edges

What a call leaves of a graph is given by three things that can be named: the edges, the
lists, and the counts that follow from the lists.
-/

/-- The same nodes are live, with the same data. -/
def SameNodes (nodes nodes' : Store (Node α)) : Prop :=
  ∀ n, (nodes'.get n).map Node.data = (nodes.get n).map Node.data

/-- The graph has the same nodes; its edges are `edges`, and its lists `adj`. -/
structure Rewires (g g' : Graph α) (edges : Nat → Option Edge) (adj : Nat → List Nat) : Prop where
  /-- The nodes are in their order. -/
  nodeList : g'.nodeList = g.nodeList
  /-- As many are counted. -/
  nodeCount : g'.nodeCount = g.nodeCount
  /-- Each has its data. -/
  data : SameNodes g.nodes g'.nodes
  /-- What there is at the address of an edge. -/
  edges : g'.edges.get = edges
  /-- What is on the list of a node. -/
  lists : edgesAt g'.nodes = adj
  /-- The count of a node is the length of its list. -/
  counts : ∀ n, edgeCountAt g'.nodes n = (adj n).length

/-- One more edge, in front on the lists it belongs on. -/
def Gains (g g' : Graph α) (edge : Edge) : Prop :=
  Rewires g g' (Function.update g.edges.get g.edges.next (some edge))
    (if edge.isDirected then put (edgesAt g.nodes) edge.node1 g.edges.next
      else put (put (edgesAt g.nodes) edge.node1 g.edges.next) edge.node2 g.edges.next)

/-- Every node, every edge and every list is as before. -/
structure SameGraph (g g' : Graph α) : Prop where
  /-- The nodes, with their lists. -/
  nodes : g'.nodes.get = g.nodes.get
  /-- The edges. -/
  edges : g'.edges.get = g.edges.get
  /-- The order of the nodes. -/
  nodeList : g'.nodeList = g.nodeList
  /-- How many are counted. -/
  nodeCount : g'.nodeCount = g.nodeCount

/-! ### Removing an edge

`settled` is what the source does, and `RemovesNamed` what its name promises; the two differ
where no edge connects the nodes.
-/

/-- `edge_compare` finds the edge at `e` EQUAL to `edge`. -/
def EqualTo (edges : Store Edge) (edge : Edge) (e : Nat) : Bool :=
  (edges.get e).any fun other => edgeCompare edge other = .equal

def ConnectsAt (edges : Store Edge) (node1 node2 e : Nat) : Bool :=
  (edges.get e).any fun edge => edge.Connects node1 node2

/-- The edge that is removed: the first that connects the nodes, or else the last one. -/
def settled (g : Graph α) (node1 node2 : Nat) : Option Nat :=
  ((edgesAt g.nodes node1).find? (ConnectsAt g.edges node1 node2)).or
    (edgesAt g.nodes node1).getLast?

/-- An edge from `node1` to `node2` is gone, with its places on the lists. -/
def Loses (g g' : Graph α) (node1 node2 e : Nat) (edge : Edge) : Prop :=
  Rewires g g' (Function.update g.edges.get e none)
    (if edge.isDirected then takeOff (edgesAt g.nodes) node1 e
      else takeOff (takeOff (edgesAt g.nodes) node1 e) node2 e)

/-- The edge that connects the nodes is removed, or one of several; and nothing if there is none. -/
structure RemovesNamed (g : Graph α) (node1 node2 : Nat) (c : ExitCode) (g' : Graph α) : Prop where
  /-- An edge that connects the nodes is gone, and with it its places on the lists. -/
  removed : (∃ e ∈ edgesAt g.nodes node1, ConnectsAt g.edges node1 node2 e = true) →
    c = .success ∧ ∃ e edge, e ∈ edgesAt g.nodes node1 ∧ g.edges.get e = some edge ∧
      edge.Connects node1 node2 ∧ Loses g g' node1 node2 e edge
  /-- Without one, the call fails and every list is as before. -/
  missing : (∀ e ∈ edgesAt g.nodes node1, ConnectsAt g.edges node1 node2 e = false) →
    c ≠ .success ∧ edgesAt g'.nodes = edgesAt g.nodes ∧
      edgeCountAt g'.nodes = edgeCountAt g.nodes

/-- The nodes are found, and the first edge that connects them is the first EQUAL one on the
second list too; or none connects them, and the last edge of the first list can be taken off it
and put back. -/
def RemovesOnlyNamed (g : Graph α) (node1 node2 : Nat) (push : Bool) : Prop :=
  match (edgesAt g.nodes node1).find? (ConnectsAt g.edges node1 node2) with
  | some e => (node1 ∈ g.lookedAt ∧ node2 ∈ g.lookedAt) ∧
    ∀ edge, g.edges.get e = some edge → edge.isDirected = false →
      (takeOff (edgesAt g.nodes) node1 e node2).find? (EqualTo g.edges edge) = some e
  | none => node1 ∈ g.lookedAt ∧ node2 ∈ g.lookedAt →
    edgesAt g.nodes node1 = [] ∨ (push = true ∧ ∃ e edge,
      (edgesAt g.nodes node1).head? = some e ∧ (edgesAt g.nodes node1).getLast? = some e ∧
        g.edges.get e = some edge ∧ edge.isDirected = false)

/-- The edge that is removed is the first EQUAL one on the lists it is looked for on; if there
is none on the second list, there is memory to put it back. -/
def RemovesItself (g : Graph α) (node1 node2 : Nat) (push : Bool) : Prop :=
  ∀ e edge, settled g node1 node2 = some e → g.edges.get e = some edge →
    (edgesAt g.nodes node1).find? (EqualTo g.edges edge) = some e ∧
    (edge.isDirected = false →
      match (takeOff (edgesAt g.nodes) node1 e node2).find? (EqualTo g.edges edge) with
      | some f => f = e
      | none => push = true)

/-- Every removal removes the edge it settles on. -/
def KeepsEdgeLists (customCompare : α → Node α → CompRtns) (g : Graph α) : GraphOp α → Prop
  | .removeEdge data1 data2 push => ∀ node1 node2,
    findNodes customCompare g data1 data2 = some (some (node1, node2)) →
      RemovesItself g node1 node2 push
  | _ => True

end CmakeTemplate
