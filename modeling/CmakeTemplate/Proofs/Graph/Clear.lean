/-
What `graph_clear` does, and what the other calls do to `node_list`.

`graph_clear` frees every node in `cleanup_node`, and then deletes `node_list`, which hands
each of the nodes to `custom_free`.  A `custom_free` that deallocates would free them again,
so `graph_clear` gets through only if there are none; with any other it does, and the edges
are still there, since `cleanup_node` frees the list of a node but no edge on it.

Behind `graph_clear` the pointer to `node_list` is NULL, and the searches of the source return
as they would on an empty list.  Only the addition of a node looks at the pointer itself:
`list_push_head` refuses a list that is NULL, with an exit code of its own, and the node is
freed again.
-/
import CmakeTemplate.GraphT
import CmakeTemplate.Proofs.Graph.Lists

namespace CmakeTemplate

open Lib

variable {α : Type} {t t' : GraphT α} {node : Nat}

/-! ### Calling `custom_free`

A call is recorded, and frees its argument if `custom_free` deallocates.
-/

theorem callCustomFree_again {n : Nat} (hfree : t.deallocates = true) (hn : t.nodes.get n = none) :
    callCustomFree t (.node n) = none := by
  simp [callCustomFree, hfree, Store.free, hn]

theorem callCustomFree_keeps {n : Nat} (hfree : t.deallocates = false) :
    callCustomFree t (.node n) = some { t with freed := t.freed ++ [.node n] } := by
  simp [callCustomFree, hfree]

theorem callCustomFree_deallocates {n : Nat} (hfree : t.deallocates = true)
    (h : callCustomFree t (.node n) = some t') :
    t' = { t with nodes := t.nodes.drop n, freed := t.freed ++ [.node n] } := by
  simp only [callCustomFree, hfree, if_true] at h
  obtain ⟨nodes, hnodes, h⟩ := Option.bind_eq_some_iff.mp h
  obtain ⟨v, -, rfl⟩ := Option.map_eq_some_iff.mp hnodes
  rw [← hfree] at h
  exact (Option.some.inj h).symm

/-! ### Cleaning up

A node that has been freed has no second clean-up.
-/

theorem cleanupNode_live {n : Node α} (hn : t.nodes.get node = some n) :
    cleanupNode t node = some
      { t with nodes := t.nodes.drop node, freed := t.freed ++ [.data n.data] } := by
  simp [cleanupNode, hn, callCustomFree, Store.free_live hn]

theorem cleanupNode_dead (hn : t.nodes.get node = none) : cleanupNode t node = none := by
  simp [cleanupNode, hn]

/-- The data in the nodes `ns`. -/
def dataIn (nodes : Store (Node α)) (ns : List Nat) : List α :=
  ns.filterMap fun n => (nodes.get n).map Node.data

/-- The nodes `ns` have been freed, and their data handed to `custom_free`. -/
structure CleanedUp (t : GraphT α) (ns : List Nat) (t' : GraphT α) : Prop where
  /-- The nodes are gone, and the others as they were. -/
  gone : ∀ n, t'.nodes.get n = if n ∈ ns then none else t.nodes.get n
  /-- It is the same `custom_free`. -/
  deallocates : t'.deallocates = t.deallocates
  /-- No edge has been freed. -/
  edges : t'.edges = t.edges
  /-- The data have been handed over, in this order. -/
  freed : t'.freed = t.freed ++ (dataIn t.nodes ns).map .data

theorem CleanedUp.cons {n : Node α} {ns : List Nat} (hn : t.nodes.get node = some n)
    (hnode : node ∉ ns)
    (h : CleanedUp { t with nodes := t.nodes.drop node, freed := t.freed ++ [.data n.data] }
      ns t') :
    CleanedUp t (node :: ns) t' := by
  constructor
  · intro m
    rw [h.gone]
    by_cases hm : m = node
    · subst hm
      rw [if_neg hnode, if_pos List.mem_cons_self]
      exact Store.get_drop_self _ _
    · simp only [List.mem_cons, hm, false_or]
      rw [Store.get_drop_ne _ hm]
  · exact h.deallocates
  · exact h.edges
  · have hsame : dataIn (t.nodes.drop node) ns = dataIn t.nodes ns := by
      apply List.filterMap_congr
      intro m hm
      have hne : m ≠ node := by
        rintro rfl
        exact hnode hm
      rw [Store.get_drop_ne _ hne]
    rw [h.freed, hsame]
    simp [dataIn, hn]

/-- The nodes are cleaned up just in case they are all different and none has been freed. -/
theorem cleanupNodes_spec (t : GraphT α) (ns : List Nat) :
    (ns.Nodup ∧ (∀ n ∈ ns, (t.nodes.get n).isSome) ∧
      ∃ t', cleanupNodes t ns = some t' ∧ CleanedUp t ns t') ∨
    (¬ (ns.Nodup ∧ ∀ n ∈ ns, (t.nodes.get n).isSome)) ∧ cleanupNodes t ns = none := by
  induction ns generalizing t with
  | nil =>
      refine .inl ⟨List.nodup_nil, nofun, t, rfl, ?_⟩
      exact ⟨fun n => by simp, rfl, rfl, by simp [dataIn]⟩
  | cons node ns ih =>
      unfold cleanupNodes
      rcases hn : t.nodes.get node with _ | n
      · refine .inr ⟨?_, by rw [cleanupNode_dead hn]; rfl⟩
        intro hc
        have hlive := hc.2 node List.mem_cons_self
        rw [hn] at hlive
        exact absurd hlive (by simp)
      · have hlive : ∀ m, m ≠ node →
            ((t.nodes.drop node).get m).isSome = (t.nodes.get m).isSome := by
          intro m hm
          rw [Store.get_drop_ne _ hm]
        rw [cleanupNode_live hn]
        rcases ih { t with nodes := t.nodes.drop node, freed := t.freed ++ [.data n.data] }
          with ⟨hnodup, hall, t', ht', hclean⟩ | ⟨hnot, hnone⟩
        · have hnode : node ∉ ns := by
            intro hmem
            have hsome := hall node hmem
            rw [Store.get_drop_self] at hsome
            exact absurd hsome (by simp)
          refine .inl ⟨List.nodup_cons.mpr ⟨hnode, hnodup⟩, ?_, t', ht', hclean.cons hn hnode⟩
          intro m hm
          rcases List.mem_cons.mp hm with rfl | hm
          · simp [hn]
          · rw [← hlive m fun hc => hnode (hc ▸ hm)]
            exact hall m hm
        · refine .inr ⟨?_, hnone⟩
          intro hc
          obtain ⟨hnode, hnodup⟩ := List.nodup_cons.mp hc.1
          apply hnot
          refine ⟨hnodup, ?_⟩
          intro m hm
          show ((t.nodes.drop node).get m).isSome
          rw [hlive m fun hc => hnode (hc ▸ hm)]
          exact hc.2 m (List.mem_cons_of_mem _ hm)

theorem freeList_keeps (ns : List Nat) (hfree : t.deallocates = false) :
    freeList t ns = some { t with freed := t.freed ++ ns.map .node } := by
  induction ns generalizing t with
  | nil => simp [freeList]
  | cons node ns ih =>
      unfold freeList
      rw [callCustomFree_keeps hfree]
      simp only [Option.bind_eq_bind, Option.bind_some]
      rw [ih (t := { t with freed := t.freed ++ [.node node] }) hfree]
      simp

/-! ### Clearing

The nodes are cleaned up one after the other and then all handed over.
-/

/-- With a `custom_free` that deallocates nothing, `graph_clear` calls it on the data of every node
and then on every node, and frees no edge. -/
theorem graphClear_calls {ns : List Nat} (hns : t.nodeList = some ns) (hnodup : ns.Nodup)
    (hlive : ∀ n ∈ ns, (t.nodes.get n).isSome) (hfree : t.deallocates = false) :
    ∃ t', graphClear t = some (.success, t') ∧ t'.edges = t.edges ∧
      t'.freed = t.freed ++ (dataIn t.nodes ns).map .data ++ ns.map .node ∧
      ∀ n, t'.nodes.get n = if n ∈ ns then none else t.nodes.get n := by
  rcases cleanupNodes_spec t ns with ⟨-, -, t₁, ht₁, hclean⟩ | ⟨hnot, -⟩
  · have hlist := freeList_keeps ns (hclean.deallocates.trans hfree)
    refine ⟨{ t₁ with
      nodeList := none, nodeCount := 0, freed := t₁.freed ++ ns.map .node }, ?_, hclean.edges, ?_,
      hclean.gone⟩
    · simp [graphClear, hns, ht₁, hlist]
    · show t₁.freed ++ ns.map .node = _
      rw [hclean.freed]
  · exact absurd ⟨hnodup, hlive⟩ hnot

theorem graphClear_result {c : ExitCode} (h : graphClear t = some (c, t')) :
    c = .success ∧ t'.nodeList = none ∧ t'.nodeCount = 0 := by
  unfold graphClear at h
  obtain ⟨ns, -, h⟩ := Option.bind_eq_some_iff.mp h
  obtain ⟨t₁, -, h⟩ := Option.bind_eq_some_iff.mp h
  obtain ⟨t₂, -, h⟩ := Option.bind_eq_some_iff.mp h
  cases h
  exact ⟨rfl, rfl, rfl⟩

theorem graphClear_nil (hns : t.nodeList = some []) :
    graphClear t = some (.success, { t with nodeList := none, nodeCount := 0 }) := by
  simp [graphClear, hns, cleanupNodes, freeList]

/-- `graph_clear` gets through just in case there is something for it to free, and nothing twice. -/
theorem graphClear_iff : (∃ t', graphClear t = some (.success, t')) ↔ Clearable t := by
  constructor
  · rintro ⟨t', h⟩
    unfold graphClear at h
    obtain ⟨ns, hns, h⟩ := Option.bind_eq_some_iff.mp h
    refine ⟨ns, hns, ?_⟩
    rcases cleanupNodes_spec t ns with ⟨hnodup, hlive, t₁, ht₁, hclean⟩ | ⟨-, hnone⟩
    · refine ⟨hnodup, hlive, ?_⟩
      intro hfree
      cases ns with
      | nil => rfl
      | cons node rest =>
          -- `cleanup_node` has freed the first node on the list
          have hgone := hclean.gone node
          rw [if_pos List.mem_cons_self] at hgone
          have hagain := callCustomFree_again (hclean.deallocates.trans hfree) hgone
          simp [ht₁, freeList, hagain] at h
    · simp [hnone] at h
  · rintro ⟨ns, hns, hnodup, hlive, hempty⟩
    cases hfree : t.deallocates with
    | false =>
        obtain ⟨t', ht', -⟩ := graphClear_calls hns hnodup hlive hfree
        exact ⟨t', ht'⟩
    | true =>
        have hnil := hempty hfree
        subst hnil
        exact ⟨_, graphClear_nil hns⟩

/-! ### Calls where there is no node

A call that finds nothing returns the same on any graph without nodes.
-/

theorem withGraph_graph (t : GraphT α) : t.withGraph t.graph = t := by
  unfold GraphT.withGraph GraphT.graph
  cases t with
  | mk nodes edges nodeCount nodeList deallocates freed => cases nodeList <;> rfl

theorem graphFindNode_nil {customCompare : α → Node α → CompRtns} {g : Graph α}
    (hnil : g.nodeList = []) (data : α) : graphFindNode customCompare g data = some none := by
  simp [graphFindNode, hnil, findFirstOccurrence]

theorem findNodes_nil {customCompare : α → Node α → CompRtns} {g : Graph α}
    (hnil : g.nodeList = []) (data1 data2 : Option α) :
    findNodes customCompare g data1 data2 = some none := by
  cases data1 with
  | none => rfl
  | some data1 =>
      cases data2 with
      | none => rfl
      | some data2 => simp [findNodes, graphFindNode_nil hnil]

/-- What a call returns that finds no node and makes none. -/
def emptyRet : GraphCall α → GraphRet α
  | .getSize => .size 0
  | .bfs _ _ => .search .failure []
  | .dfs _ _ => .search .failure []
  | _ => .code .failure

theorem addNodeTo_none {data : Option α} {createNode push : Bool}
    (hnot : ¬ (data ≠ none ∧ createNode = true)) :
    addNodeTo t data createNode push = some (.failure, t) := by
  have hadd : ∀ push, graphAddNode t.graph data createNode push = some (.failure, t.graph) := by
    intro push
    cases data with
    | none => rfl
    | some data =>
        cases createNode with
        | false => rfl
        | true => exact absurd ⟨nofun, rfl⟩ hnot
  have hcode : (data.isSome && createNode) = false := by
    cases data with
    | none => rfl
    | some data =>
        cases createNode with
        | false => rfl
        | true => exact absurd ⟨nofun, rfl⟩ hnot
  unfold addNodeTo
  split
  · simp [hadd, withGraph_graph]
  · simp [hadd, hcode, withGraph_graph]

theorem graphCall_empty {customCompare : α → Node α → CompRtns} {call : GraphCall α}
    (hnil : t.graph.nodeList = []) (hcount : t.nodeCount = 0) (hcall : ¬ call.MakesNode) :
    graphCall customCompare t call = some (emptyRet call, t) := by
  cases call with
  | addNode data createNode push => simp [graphCall, addNodeTo_none hcall, emptyRet]
  | addEdge data1 data2 weight isBidirectional calloc push1 push2 =>
      simp [graphCall, graphAddEdge, findNodes_nil hnil, withGraph_graph, emptyRet]
  | removeEdge data1 data2 push =>
      simp [graphCall, graphRemoveEdge, findNodes_nil hnil, withGraph_graph, emptyRet]
  | removeNode data calloc push =>
      cases data with
      | none => simp [graphCall, graphRemoveNode, emptyRet]
      | some data => simp [graphCall, graphRemoveNode, graphFindNode_nil hnil, emptyRet]
  | getSize => simp [graphCall, hcount, emptyRet]
  | bfs startData calloc =>
      cases startData with
      | none => simp [graphCall, graphBfs, withGraph_graph, emptyRet]
      | some data =>
          cases hcalloc : calloc 0 <;>
            simp [graphCall, graphBfs, graphFindNode_nil hnil, withGraph_graph, emptyRet, hcalloc]
  | dfs startData calloc =>
      cases startData with
      | none => simp [graphCall, graphDfs, withGraph_graph, emptyRet]
      | some data => simp [graphCall, graphDfs, graphFindNode_nil hnil, withGraph_graph, emptyRet]

/-! ### Adding a node

Three outcomes: the node is there, or one of its allocations has failed, or there is no list.
-/

theorem addNodeTo_success {ns : List Nat} (hns : t.nodeList = some ns) (d : α) :
    ∃ t', addNodeTo t (some d) true true = some (.success, t') ∧
      t'.nodeList = some (t.nodes.next :: ns) ∧ t'.deallocates = t.deallocates := by
  unfold addNodeTo
  rw [hns]
  exact ⟨_, rfl, by simp [GraphT.withGraph, GraphT.graph, hns], rfl⟩

/-- The list has no memory for the node, which is freed again. -/
theorem addNodeTo_noMemory {ns : List Nat} (hns : t.nodeList = some ns) (d : α) :
    addNodeTo t (some d) true false = some (.failure,
      { t with nodes := (t.nodes.alloc ⟨d, 0, []⟩).1.drop t.nodes.next }) := by
  have hfree := Store.free_live (t.nodes.get_alloc_self ⟨d, 0, []⟩)
  unfold addNodeTo
  rw [hns]
  simp [graphAddNode, GraphT.graph, GraphT.withGraph, hfree, hns]

/-- The list is NULL, and the node is freed again. -/
theorem addNodeTo_null (hnull : t.nodeList = none) (d : α) (push : Bool) :
    addNodeTo t (some d) true push = some (.nullPointer,
      { t with nodes := (t.nodes.alloc ⟨d, 0, []⟩).1.drop t.nodes.next }) := by
  have hfree := Store.free_live (t.nodes.get_alloc_self ⟨d, 0, []⟩)
  unfold addNodeTo
  rw [hnull]
  simp [graphAddNode, GraphT.graph, GraphT.withGraph, hfree, hnull]

end CmakeTemplate
