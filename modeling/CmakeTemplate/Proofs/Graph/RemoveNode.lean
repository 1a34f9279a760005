/-
When `graph_remove_node` removes a node with all its edges, and nothing else.

The edges are collected from the list of the node alone, as many as a `uint32_t` counts, and a
directed edge to it from another node is not on that list.  Each is then removed by its ends,
which takes off its lists whatever is EQUAL there.  So the edges of the node have to be all
there are, and to stand on the other lists in the order in which they are collected.

`Detachable` says that of the graph before the call, and it is exact: if the call removes the
node with its edges and nothing else, the lists had to be so.  One direction goes from the
lists to what each removal takes off, and the other from what is left in the end back to what
each removal must have taken.
-/
import CmakeTemplate.Proofs.Graph.Components
import CmakeTemplate.Proofs.Graph.InOrder

namespace CmakeTemplate

open Lib

variable {α : Type} {g g' : Graph α} {n m : Nat} {push : Nat → Bool}

/-! ### The call

The removals are made on the collected edges, and then the node is dropped.
-/

/-- The edges that are collected. -/
def collected (g : Graph α) (n : Nat) : List Nat :=
  (edgesAt g.nodes n).take ((edgesAt g.nodes n).length % 2 ^ 32)

/-- The graph without the node, once its edges are removed. -/
def dropNode (g : Graph α) (n : Nat) : Graph α :=
  { nodes := g.nodes.drop n, edges := g.edges, nodeCount := g.nodeCount - 1,
    nodeList := g.nodeList.erase n }

section Call

variable {customCompare : α → Node α → CompRtns} {t : GraphT α} {data : α}

theorem edgesAt_drop (nodes : Store (Node α)) (hm : m ≠ n) :
    edgesAt (nodes.drop n) m = edgesAt nodes m := by
  rw [edgesAt, edgesAt, Store.get_drop_ne nodes hm]

theorem removeNodeAt_spec (hlive : ∀ m ∈ t.graph.nodeList, (t.nodes.get m).isSome)
    (hmatch : MatchesData customCompare t.graph) (hfree : t.deallocates = false)
    (hn : n ∈ t.graph.nodeList) :
    ∃ t', removeNodeAt customCompare t n = some (.success, t') ∧
      t'.graph = dropNode t.graph n := by
  obtain ⟨node, hnode, hdata⟩ := exists_data hlive hn
  have hnode' : t.nodes.get n = some node := hnode
  have hfind : findFirstOccurrence customCompare t.nodes node.data t.graph.nodeList =
      some (some n) := by
    have hfirst := (hmatch.matchesOnly hdata).findFirst hlive
    rw [if_pos hn] at hfirst
    exact hfirst
  have hgraph : ∀ freed, GraphT.graph { t with
      nodes := t.nodes.drop n, nodeCount := t.nodeCount - 1,
      nodeList := t.nodeList.map (·.erase n), freed } = dropNode t.graph n := by
    intro freed
    cases hns : t.nodeList with
    | none =>
        rw [GraphT.graph, hns] at hn
        cases hn
    | some ns => simp [GraphT.graph, dropNode, hns]
  refine ⟨_, ?_, hgraph (t.freed ++ [.node n] ++ [.data node.data])⟩
  simp [removeNodeAt, cleanupNode, callCustomFree, hnode', hfind, hfree, Store.free_live hnode']

theorem graph_withGraph_of_mem (hmem : n ∈ t.graph.nodeList) (g : Graph α) :
    (t.withGraph g).graph = g := by
  cases hns : t.nodeList with
  | none =>
      rw [GraphT.graph, hns] at hmem
      cases hmem
  | some ns => simp [GraphT.graph, GraphT.withGraph, hns]

/-- Once its edges are removed, the node is dropped. -/
theorem RemovesEach.removeNodeAt_drops {es : List Nat} (hrun : RemovesEach push t.graph es g)
    (h : EdgeLists t.graph) (hfree : t.deallocates = false)
    (hmatch : MatchesData customCompare t.graph) (hmem : n ∈ t.graph.nodeList) :
    ∃ t', removeNodeAt customCompare (t.withGraph g) n = some (.success, t') ∧
      t'.graph = dropNode g n := by
  have hsame := graph_withGraph_of_mem hmem g
  have hlive' : ∀ m ∈ (t.withGraph g).graph.nodeList, (g.nodes.get m).isSome := by
    rw [hsame]
    exact hrun.alive_nodes h.alive_nodes
  have hmatch' : MatchesData customCompare (t.withGraph g).graph := by
    rw [hsame]
    exact hrun.matchesData hmatch
  have hmem' : n ∈ (t.withGraph g).graph.nodeList := by
    rw [hsame, hrun.nodeList]
    exact hmem
  obtain ⟨t', hat, hgraph⟩ := removeNodeAt_spec hlive' hmatch' hfree hmem'
  exact ⟨t', hat, hgraph.trans (by rw [hsame])⟩

/-- The node is found, its edges are removed, and then it is dropped. -/
theorem graphRemoveNode_success (h : EdgeLists t.graph) (hfree : t.deallocates = false)
    (hmatch : MatchesData customCompare t.graph) (hn : t.graph.dataAt n = some data)
    (push : Nat → Bool) (P : Graph α → Prop) :
    (∃ t', graphRemoveNode customCompare t (some data) true push = some (.success, t') ∧
        P t'.graph) ↔
      n ∈ t.graph.lookedAt ∧
        ∃ g, RemovesEach push t.graph (collected t.graph n) g ∧ P (dropNode g n) := by
  have hmem : n ∈ t.graph.nodeList := h.mem_of_dataAt hn
  obtain ⟨node, hnode, hes, -⟩ := h.listed.node hmem
  have hnode' : t.nodes.get n = some node := hnode
  have hcollect : collectEdges t.nodes n true = some (some (collected t.graph n)) := by
    simp [collectEdges, hnode', hes, collected]
  have hfound := (hmatch.matchesOnly hn).findNode h.alive_nodes
  have hremoves : ∀ g, removeEdges customCompare push t.graph (collected t.graph n) =
      some (.success, g) ↔ RemovesEach push t.graph (collected t.graph n) g :=
    fun g => removeEdges_iff h.alive_nodes hmatch
  by_cases hlooked : n ∈ t.graph.lookedAt
  · rw [if_pos hlooked] at hfound
    rw [and_iff_right hlooked]
    constructor
    · intro hcall
      obtain ⟨t', hcall, hp⟩ := hcall
      simp only [graphRemoveNode, hfound, hcollect, Option.bind_eq_bind, Option.bind_some] at hcall
      obtain ⟨⟨c, g⟩, hedges, hcall⟩ := Option.bind_eq_some_iff.mp hcall
      dsimp only at hcall
      split at hcall
      case isFalse hc =>
        obtain ⟨rfl, -⟩ := Prod.mk.inj (Option.some.inj hcall)
        exact absurd rfl hc
      case isTrue hc =>
        subst hc
        have hrun := (hremoves g).mp hedges
        obtain ⟨t'', hat, hgraph⟩ := hrun.removeNodeAt_drops h hfree hmatch hmem
        obtain rfl : t' = t'' := by simpa using hcall.symm.trans hat
        exact ⟨g, hrun, hgraph ▸ hp⟩
    · intro hrun
      obtain ⟨g, hrun, hp⟩ := hrun
      obtain ⟨t', hat, hgraph⟩ := hrun.removeNodeAt_drops h hfree hmatch hmem
      refine ⟨t', ?_, hgraph ▸ hp⟩
      simp [graphRemoveNode, hfound, hcollect, (hremoves g).mpr hrun, hat]
  · rw [if_neg hlooked] at hfound
    simp [graphRemoveNode, hfound, hlooked]

/-! ### What is left

The lists of the other nodes, without the edges that had the node as an end.
-/

/-- A short list is collected whole. -/
theorem collected_eq (hfew : (edgesAt g.nodes n).length < 2 ^ 32) :
    collected g n = edgesAt g.nodes n := by
  rw [collected, Nat.mod_eq_of_lt hfew, List.take_length]

/-- With the edges in order, those that another list has to `n` are the ones on the list of `n`. -/
theorem SameOrder.mem_iff (horder : SameOrder g n) (h : EdgeLists g) (hm : m ≠ n)
    (he : e ∈ edgesAt g.nodes m) :
    e ∈ edgesAt g.nodes n ↔ HasEndAt g.edges n e = true := by
  constructor
  · exact h.hasEndAt
  · intro hend
    have hmem : e ∈ (edgesAt g.nodes m).filter (HasEndAt g.edges n) :=
      List.mem_filter.mpr ⟨he, hend⟩
    rw [horder m hm] at hmem
    exact List.mem_of_mem_filter hmem

theorem Detachable.nodeRemoved (hd : Detachable g n) (h : EdgeLists g) (push : Nat → Bool) :
    ∃ g', RemovesEach push g (collected g n) g' ∧ NodeRemoved g (dropNode g' n) n := by
  have horder : SameOrder g n := hd.alike
  obtain ⟨g', hrun, hlists, hedges⟩ := h.removesEach rfl hd.once hd.ends horder push
  refine ⟨g', (collected_eq hd.few).symm ▸ hrun, ?_⟩
  have hfreed : ∀ m e, e ∈ edgesAt g.nodes m → HasEndAt g.edges n e = true →
      e ∈ edgesAt g.nodes n := by
    intro m e he hend
    by_cases hm : m = n
    · exact hm ▸ he
    · exact (horder.mem_iff h hm he).mpr hend
  refine ⟨Store.get_drop_self _ n, fun m hm => ?_, congrArg (List.erase · n) hrun.nodeList,
    congrArg (· - 1) hrun.nodeCount, fun m hm => ?_, fun m e he hend => ?_,
    fun e edge hedge hno => ?_⟩
  · rw [Graph.dataAt, dropNode, Store.get_drop_ne _ hm]
    exact hrun.data m
  · rw [dropNode, edgesAt_drop _ hm, hlists]
    refine List.filter_congr fun e he => ?_
    rw [Bool.eq_iff_iff, decide_eq_true_iff, horder.mem_iff h hm he]
    simp
  · rw [dropNode, hedges, if_pos (hfreed m e he hend)]
  · have hnot : e ∉ edgesAt g.nodes n := by
      intro hmem
      obtain ⟨edge', hedge', hend⟩ := hasEndAt_iff.mp (h.hasEndAt hmem)
      obtain rfl := Option.some.inj (hedge.symm.trans hedge')
      exact hno hend
    rw [dropNode, hedges, if_neg hnot, hedge]

theorem NodeRemoved.detachable (hr : NodeRemoved g (dropNode g' n) n) (h : EdgeLists g)
    (hfound : n ∈ g.lookedAt) (hrun : RemovesEach push g (collected g n) g') : Detachable g n := by
  have hdead : ∀ e ∈ edgesAt g.nodes n, g'.edges.get e = none :=
    fun e he => hr.freed n e he (h.hasEndAt he)
  have hend : ∀ m, m ≠ n → ∀ e ∈ edgesAt g'.nodes m,
      ∃ edge, g'.edges.get e = some edge ∧ ¬ edge.HasEnd n := by
    intro m hm e he
    have hlist := hr.lists m hm
    rw [dropNode, edgesAt_drop _ hm] at hlist
    rw [hlist, List.mem_filter] at he
    obtain ⟨edge, hedge, -⟩ := h.stored m e he.1
    have hno : ¬ edge.HasEnd n := by
      intro hc
      rw [hasEndAt_iff.mpr ⟨edge, hedge, hc⟩] at he
      simp at he
    exact ⟨edge, hr.edges e edge hedge hno, hno⟩
  have hlive : ∀ m, m ≠ n → ∀ e ∈ edgesAt g'.nodes m, (g'.edges.get e).isSome := by
    intro m hm e he
    obtain ⟨edge, hedge, -⟩ := hend m hm e he
    rw [hedge]
    rfl
  have hfew := RemovesEach.few h hrun hdead
  rw [collected_eq hfew] at hrun
  have honce := hrun.nodup h hlive
  exact ⟨hfound, hrun.mem_lookedAt, hfew, honce, hrun.sameOrder h rfl honce hdead hend⟩

/-- The node is removed with its edges, and nothing else is changed, exactly if it can be
detached. -/
theorem graphRemoveNode_iff (h : EdgeLists t.graph) (hfree : t.deallocates = false)
    (hmatch : MatchesData customCompare t.graph) (hn : t.graph.dataAt n = some data)
    (push : Nat → Bool) :
    (∃ t', graphRemoveNode customCompare t (some data) true push = some (.success, t') ∧
      NodeRemoved t.graph t'.graph n) ↔ Detachable t.graph n := by
  rw [graphRemoveNode_success h hfree hmatch hn push fun g => NodeRemoved t.graph g n]
  constructor
  · intro hcall
    obtain ⟨hfound, g, hrun, hr⟩ := hcall
    exact hr.detachable h hfound hrun
  · intro hd
    exact ⟨hd.found, hd.nodeRemoved h push⟩

end Call

theorem dataCompare_matchesData {g : Graph Nat} (h : EdgeLists g)
    (hnodup : (g.nodeList.map g.dataAt).Nodup) : MatchesData dataCompare g where
  same data node := by simp [dataCompare]
  distinct m n data hm hn :=
    List.inj_on_of_nodup_map hnodup (h.mem_of_dataAt hm) (h.mem_of_dataAt hn) (hm.trans hn.symm)

/-- Two edges to one other node, one out to another, and one from the node to itself. -/
theorem graphRemoveNode_run :
    ∃ g, (graphSystem dataCompare).run graphCreate [.addNode (some 10) true true,
        .addNode (some 20) true true, .addNode (some 30) true true,
        .addEdge (some 10) (some 20) 5 true true true true,
        .addEdge (some 10) (some 10) 6 false true true true,
        .addEdge (some 10) (some 30) 7 false true true true,
        .addEdge (some 20) (some 10) 8 true true true true,
        .addEdge (some 20) (some 30) 9 false true true true] = some g ∧
      ∃ t', graphRemoveNode dataCompare ((GraphT.new false).withGraph g) (some 10) true
          (fun _ => true) = some (.success, t') ∧ NodeRemoved g t'.graph 0 := by
  obtain ⟨g, hrun, hnodes, hdata, h0, h1, h2, he0, he1, he2, he3, he4⟩ :
      ∃ g, (graphSystem dataCompare).run graphCreate [.addNode (some 10) true true,
        .addNode (some 20) true true, .addNode (some 30) true true,
        .addEdge (some 10) (some 20) 5 true true true true,
        .addEdge (some 10) (some 10) 6 false true true true,
        .addEdge (some 10) (some 30) 7 false true true true,
        .addEdge (some 20) (some 10) 8 true true true true,
        .addEdge (some 20) (some 30) 9 false true true true] = some g ∧ g.nodeList = [2, 1, 0] ∧
      g.nodeList.map g.dataAt = [some 30, some 20, some 10] ∧
      edgesAt g.nodes 0 = [3, 2, 1, 0] ∧ edgesAt g.nodes 1 = [4, 3, 0] ∧ edgesAt g.nodes 2 = [] ∧
      g.edges.get 0 = some ⟨0, 1, 5, false⟩ ∧ g.edges.get 1 = some ⟨0, 0, 6, true⟩ ∧
      g.edges.get 2 = some ⟨0, 2, 7, true⟩ ∧ g.edges.get 3 = some ⟨1, 0, 8, false⟩ ∧
      g.edges.get 4 = some ⟨1, 2, 9, true⟩ :=
    ⟨_, rfl, rfl, rfl, rfl, rfl, rfl, rfl, rfl, rfl, rfl, rfl⟩
  have hreach := System.ReachIf.run (C := KeepsEdgeLists dataCompare) (.init rfl)
    (by simp [KeepsEdgeLists]) hrun
  have h := (graphSystem_edgeLists dataCompare hreach).1
  have hfound : g.dataAt 0 = some 10 := by
    rw [hnodes] at hdata
    simp only [List.map_cons, List.map_nil, List.cons.injEq] at hdata
    exact hdata.2.2.1
  have hmatch := dataCompare_matchesData h (by rw [hdata]; decide)
  have hlooked : g.lookedAt = [2, 1, 0] := by
    rw [Graph.lookedAt, hnodes]
    rfl
  refine ⟨g, hrun, (graphRemoveNode_iff (t := (GraphT.new false).withGraph g) h rfl hmatch hfound
    fun _ => true).mpr ⟨?_, ?_, ?_, ?_, ?_⟩⟩
  · show 0 ∈ g.lookedAt
    rw [hlooked]
    decide
  · show ∀ e ∈ edgesAt g.nodes 0, ∀ edge, g.edges.get e = some edge →
      edge.node1 ∈ g.lookedAt ∧ edge.node2 ∈ g.lookedAt
    rw [h0, hlooked]
    simp [he0, he1, he2, he3]
  · show (edgesAt g.nodes 0).length < 2 ^ 32
    rw [h0]
    decide
  · show (edgesAt g.nodes 0).Nodup
    rw [h0]
    decide
  · intro m hm
    show (edgesAt g.nodes m).filter (HasEndAt g.edges 0) =
      (edgesAt g.nodes 0).filter (· ∈ edgesAt g.nodes m)
    by_cases hmem : m ∈ g.nodeList
    · rw [hnodes] at hmem
      simp only [List.mem_cons, List.not_mem_nil, or_false] at hmem
      rcases hmem with rfl | rfl | rfl
      · simp [h0, h2]
      · simp [h0, h1, HasEndAt, he0, he3, he4, Edge.HasEnd]
      · exact absurd rfl hm
    · have hnone : g.nodes.get m = none := by
        rw [← Option.not_isSome_iff_eq_none, h.live]
        exact hmem
      simp [edgesAt, hnone]

/-- An edge to the node from another one stays on the list there. -/
theorem incoming_edge_stays :
    ¬ ∀ (customCompare : Nat → Node Nat → CompRtns) (t : GraphT Nat) (n data : Nat),
      EdgeLists t.graph → t.deallocates = false → MatchesData customCompare t.graph →
      t.graph.dataAt n = some data →
      ∃ t', graphRemoveNode customCompare t (some data) true (fun _ => true) =
        some (.success, t') ∧ NodeRemoved t.graph t'.graph n := by
  intro hall
  obtain ⟨g, hrun, hdata, h1, h0, hedge, hremove⟩ :
      ∃ g, (graphSystem dataCompare).run graphCreate [.addNode (some 10) true true,
        .addNode (some 20) true true,
        .addEdge (some 10) (some 20) 1 false true true true] = some g ∧
      g.nodeList.map g.dataAt = [some 20, some 10] ∧ g.dataAt 1 = some 20 ∧
      edgesAt g.nodes 0 = [0] ∧ g.edges.get 0 = some ⟨0, 1, 1, true⟩ ∧
      (graphRemoveNode dataCompare ((GraphT.new false).withGraph g) (some 20) true
        fun _ => true).map (fun r => (r.1, edgesAt r.2.nodes 0)) = some (.success, [0]) :=
    ⟨_, rfl, rfl, rfl, rfl, rfl, rfl⟩
  have hreach := System.ReachIf.run (C := KeepsEdgeLists dataCompare) (.init rfl)
    (by simp [KeepsEdgeLists]) hrun
  have h := (graphSystem_edgeLists dataCompare hreach).1
  have hmatch := dataCompare_matchesData h (by rw [hdata]; decide)
  obtain ⟨t', hcall, hr⟩ := hall dataCompare ((GraphT.new false).withGraph g) 1 20 h rfl hmatch h1
  have hlist : edgesAt t'.graph.nodes 0 = [0] := by
    rw [hcall, Option.map_some, Option.some.injEq, Prod.mk.injEq] at hremove
    exact hremove.2
  have hleft := hr.lists 0 (by decide)
  rw [hlist] at hleft
  have hempty : (edgesAt g.nodes 0).filter (fun e => !HasEndAt g.edges 1 e) = [] := by
    simp [h0, HasEndAt, hedge, Edge.HasEnd]
  exact absurd (hleft.trans hempty) (by simp)

end CmakeTemplate
