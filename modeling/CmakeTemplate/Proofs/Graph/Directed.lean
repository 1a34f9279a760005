/-
Graphs that are only added to, and graphs with directed edges only.

As long as nothing is removed, an edge that has been added stays on the list of its first
node, and whatever is known of the edges that were added holds of all of them.  `GrownGraph P`
is that invariant, for a property `P` of edges, and it is kept by every call that adds, with
any outcome of its allocations.

For directed edges it says where the lists lead: an edge is on the list of its first node and
on no other, so the list of a node leads to the nodes that there is an edge to, and nowhere
else.  That makes the adjacency of the graph, which speaks of edges, the same relation as the
one that a search follows, which speaks of lists.
-/
import CmakeTemplate.Traversal
import CmakeTemplate.Proofs.Graph.Search

namespace CmakeTemplate

open Lib

variable {α : Type} {g g' : Graph α} {customCompare : α → Node α → CompRtns} {m n e : Nat}

structure DirectedGraph (g : Graph α) : Prop where
  /-- The lists are right. -/
  edgeLists : EdgeLists g
  /-- Every edge is directed and on the list of its first node. -/
  directed : ∀ e edge, g.edges.get e = some edge →
    edge.isDirected = true ∧ e ∈ edgesAt g.nodes edge.node1

/-- A graph that has been added to: its nodes are different, every edge is listed, and what is
known of the edges that were added holds of all. -/
structure GrownGraph (P : Edge → Prop) (g : Graph α) : Prop where
  /-- The lists are right. -/
  edgeLists : EdgeLists g
  /-- No node is on `node_list` twice. -/
  nodup : g.nodeList.Nodup
  /-- Every edge is on the list of its first node. -/
  listed : ∀ e edge, g.edges.get e = some edge → e ∈ edgesAt g.nodes edge.node1
  /-- Every edge has the property. -/
  edges : ∀ e edge, g.edges.get e = some edge → P edge

variable {P : Edge → Prop}

theorem graphCreate_grown : GrownGraph P (graphCreate : Graph α) where
  edgeLists := graphCreate_edgeLists
  nodup := List.nodup_nil
  listed _ _ h := by simp [graphCreate, Store.empty] at h
  edges _ _ h := by simp [graphCreate, Store.empty] at h

/-! ### Adding

A call adds a node, adds an edge, or leaves everything as it was.
-/

namespace GrownGraph

theorem same (h : GrownGraph P g) (hs : SameGraph g g') : GrownGraph P g' where
  edgeLists := hs.edgeLists h.edgeLists
  nodup := hs.nodeList ▸ h.nodup
  listed := by
    rw [hs.edges, hs.edgesAt]
    exact h.listed
  edges := by
    rw [hs.edges]
    exact h.edges

theorem addsNode (h : GrownGraph P g) {data : Option α} {createNode push : Bool} {c : ExitCode}
    (hadd : graphAddNode g data createNode push = some (c, g')) : GrownGraph P g' := by
  obtain ⟨c₁, g₁, hspec, hlists⟩ := graphAddNode_spec h.edgeLists data createNode push
  obtain ⟨-, rfl⟩ := Prod.mk.inj (Option.some.inj (hspec.symm.trans hadd))
  cases data with
  | none =>
      cases hadd
      exact h
  | some data =>
      cases createNode with
      | false =>
          cases hadd
          exact h
      | true =>
          cases push with
          | false =>
              have hfree := Store.free_live (Store.get_alloc_self g.nodes ⟨data, 0, []⟩)
              simp only [graphAddNode, if_true, Bool.false_eq_true, if_false, Store.alloc_addr,
                hfree, Option.bind_eq_bind, Option.bind_some] at hadd
              cases hadd
              exact h.same ⟨Store.get_drop_alloc _ _, rfl, rfl, rfl⟩
          | true =>
              cases hadd
              refine ⟨hlists, List.nodup_cons.mpr ⟨?_, h.nodup⟩, ?_, h.edges⟩
              · intro hmem
                have hlive : (g.nodes.get g.nodes.next).isSome := h.edgeLists.alive_nodes _ hmem
                rw [g.nodes.fresh _ (Nat.le_refl _)] at hlive
                cases hlive
              · rw [edgesAt_alloc]
                exact h.listed

/-- A new edge is on the list of its first node. -/
theorem grown_of_gains (h : GrownGraph P g) {edge : Edge} (hg : Gains g g' edge)
    (h1 : edge.node1 ∈ g.nodeList) (h2 : edge.node2 ∈ g.nodeList) (hP : P edge) :
    GrownGraph P g' := by
  have hlists : ∀ e n, e ∈ edgesAt g.nodes n ∨ (e = g.edges.next ∧ n = edge.node1) →
      e ∈ edgesAt g'.nodes n := by
    intro e n he
    rw [hg.lists]
    have hput : e ∈ put (edgesAt g.nodes) edge.node1 g.edges.next n := by
      rw [← List.count_pos_iff, count_put]
      rcases he with he | ⟨rfl, rfl⟩
      · exact Nat.add_pos_left (List.count_pos_iff.mpr he) _
      · rw [if_pos ⟨rfl, rfl⟩]
        exact Nat.succ_pos _
    split
    · exact hput
    · rw [← List.count_pos_iff, count_put]
      exact Nat.add_pos_left (List.count_pos_iff.mpr hput) _
  have hcases : ∀ e other, g'.edges.get e = some other →
      (e = g.edges.next ∧ other = edge) ∨ g.edges.get e = some other := by
    intro e other he
    rw [hg.edges] at he
    by_cases hne : e = g.edges.next
    · rw [hne, Function.update_self] at he
      exact .inl ⟨hne, (Option.some.inj he).symm⟩
    · rw [Function.update_of_ne hne] at he
      exact .inr he
  refine ⟨hg.edgeLists h.edgeLists h1 h2, hg.nodeList ▸ h.nodup, ?_, ?_⟩
  · intro e other he
    rcases hcases e other he with ⟨rfl, rfl⟩ | hold
    · exact hlists _ _ (.inr ⟨rfl, rfl⟩)
    · exact hlists _ _ (.inl (h.listed e other hold))
  · intro e other he
    rcases hcases e other he with ⟨-, rfl⟩ | hold
    · exact hP
    · exact h.edges e other hold

theorem addsEdge (h : GrownGraph P g) {data1 data2 : Option α} {weight : UInt64}
    {isBidirectional calloc push1 push2 : Bool} {c : ExitCode}
    (hP : ∀ node1 node2, P ⟨node1, node2, weight, !isBidirectional⟩)
    (hadd : graphAddEdge customCompare g data1 data2 weight isBidirectional calloc push1 push2 =
      some (c, g')) : GrownGraph P g' := by
  rcases findNodes_spec customCompare h.edgeLists data1 data2 with
    hnone | ⟨node1, node2, hsome, h1, h2⟩
  · simp only [graphAddEdge, hnone, Option.bind_eq_bind, Option.bind_some] at hadd
    obtain ⟨-, rfl⟩ := Prod.mk.inj (Option.some.inj hadd)
    exact h
  · simp only [graphAddEdge, hsome, Option.bind_eq_bind, Option.bind_some] at hadd
    obtain ⟨c₁, g₁, hspec, hres⟩ :=
      addEdge_spec h.edgeLists h1 h2 weight isBidirectional calloc push1 push2
    obtain ⟨-, rfl⟩ := Prod.mk.inj (Option.some.inj (hspec.symm.trans hadd))
    rcases hres with ⟨-, hgains⟩ | ⟨-, hsame⟩
    · exact h.grown_of_gains hgains h1 h2 (hP node1 node2)
    · exact h.same hsame

end GrownGraph

/-- What the calls of a run add. -/
def AddsOnly (P : Edge → Prop) : GraphOp α → Prop
  | .addNode _ _ _ => True
  | .addEdge _ _ weight isBidirectional _ _ _ =>
    ∀ node1 node2, P ⟨node1, node2, weight, !isBidirectional⟩
  | .removeEdge _ _ _ => False

theorem graphSystem_grown {C : Graph α → GraphOp α → Prop} (hC : ∀ g op, C g op → AddsOnly P op)
    (h : (graphSystem customCompare).ReachIf C g) : GrownGraph P g := by
  apply h.invariant (I := GrownGraph P)
  · intro g hg
    rw [hg]
    exact graphCreate_grown
  · intro g op g' hinv hc hs
    obtain ⟨⟨c, g₁⟩, hexec, rfl⟩ := Option.map_eq_some_iff.mp hs
    have honly := hC g op hc
    cases op with
    | addNode data createNode push => exact hinv.addsNode hexec
    | addEdge data1 data2 weight isBidirectional calloc push1 push2 =>
        exact hinv.addsEdge honly hexec
    | removeEdge data1 data2 push => exact honly.elim

/-- A graph that nodes and directed edges have been added to. -/
theorem graphSystem_directed (h : (graphSystem customCompare).ReachIf OnlyDirected g) :
    DirectedGraph g := by
  have hgrown : GrownGraph (fun edge => edge.isDirected = true) g := by
    refine graphSystem_grown (fun g op honly => ?_) h
    cases op with
    | addNode data createNode push => trivial
    | addEdge data1 data2 weight isBidirectional calloc push1 push2 =>
        intro node1 node2
        have hdir : isBidirectional = false := honly
        rw [hdir]
        rfl
    | removeEdge data1 data2 push => exact honly.elim
  exact ⟨hgrown.edgeLists, fun e edge he => ⟨hgrown.edges e edge he, hgrown.listed e edge he⟩⟩

/-! ### Neighbours

Where the list of a node leads.
-/

namespace DirectedGraph

theorem mem_edgesAt_iff (h : DirectedGraph g) :
    e ∈ edgesAt g.nodes m ↔ ∃ edge, g.edges.get e = some edge ∧ edge.node1 = m := by
  constructor
  · intro he
    obtain ⟨edge, hedge, hcount⟩ := h.edgeLists.stored m e he
    refine ⟨edge, hedge, ?_⟩
    have hpos := List.count_pos_iff.mpr he
    rw [hcount m, Edge.occurrences, (h.directed e edge hedge).1] at hpos
    by_contra hne
    simp [Ne.symm hne] at hpos
  · intro hfirst
    obtain ⟨edge, hedge, rfl⟩ := hfirst
    exact (h.directed e edge hedge).2

/-- A node's list leads to the nodes it has an edge to. -/
theorem adjacent_iff (h : DirectedGraph g) :
    g.Adjacent m n ↔
      ∃ e ∈ edgesAt g.nodes m, ∃ edge, g.edges.get e = some edge ∧ edge.node2 = n := by
  constructor
  · intro hadj
    obtain ⟨e, edge, hedge, h1, h2⟩ := hadj
    exact ⟨e, h.mem_edgesAt_iff.mpr ⟨edge, hedge, h1⟩, edge, hedge, h2⟩
  · intro hlist
    obtain ⟨e, he, edge, hedge, h2⟩ := hlist
    obtain ⟨edge', hedge', h1⟩ := h.mem_edgesAt_iff.mp he
    obtain rfl := Option.some.inj (hedge'.symm.trans hedge)
    exact ⟨e, edge', hedge, h1, h2⟩

theorem adjacent_eq (h : DirectedGraph g) : g.Adjacent = fun m n => n ∈ nexts g m := by
  funext m n
  rw [eq_iff_iff, h.adjacent_iff, mem_nexts]

end DirectedGraph

end CmakeTemplate
