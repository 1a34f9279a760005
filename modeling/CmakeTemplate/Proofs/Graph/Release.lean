/-
What is released when a graph is destroyed.

A graph should free each datum once, and all of its nodes and edges.  With a `custom_free`
that deallocates nothing is, once `graph_add_node` has taken in a node: no call gets the last
node out of `node_list`, as each removal frees the `node_t` twice or leaves another in its
place, and `graph_clear` does not get through with one in it.  Without a node no edge can be
added either, and there is nothing to release.

So a run to the end either has no result or has had no node.  The invariant has two parts, for
before the first node and after it, and each call of the library keeps one of them or has no
result.
-/
import CmakeTemplate.Proofs.Graph.Clear

namespace CmakeTemplate

open Lib

variable {α : Type} {g g' : Graph α} {t t' : GraphT α} {customCompare : α → Node α → CompRtns}

/-! ### The list of nodes

The calls that work on edges, and the searches, leave `node_list` alone.
-/

theorem graphFindNode_mem {data : α} {n : Nat}
    (h : graphFindNode customCompare g data = some (some n)) : n ∈ g.nodeList := by
  have hfound : ∀ ns,
      findFirstOccurrence customCompare g.nodes data ns = some (some n) → n ∈ ns := by
    intro ns hns
    induction ns with
    | nil => simp [findFirstOccurrence] at hns
    | cons current rest ih =>
        unfold findFirstOccurrence at hns
        obtain ⟨node, -, hns⟩ := Option.bind_eq_some_iff.mp hns
        split at hns
        · cases hns
          exact List.mem_cons_self
        · exact List.mem_cons_of_mem _ (ih hns)
  exact List.mem_of_mem_take (hfound _ h)

theorem addEdge_nodeList {node1 node2 : Nat} {weight : UInt64}
    {isBidirectional calloc push1 push2 : Bool} {c : ExitCode}
    (h : addEdge g node1 node2 weight isBidirectional calloc push1 push2 = some (c, g')) :
    g'.nodeList = g.nodeList := by
  unfold addEdge at h
  split at h
  · obtain ⟨⟨c₁, nodes₁⟩, -, h⟩ := Option.bind_eq_some_iff.mp h
    dsimp only at h
    split at h
    · obtain ⟨nodes₂, -, h⟩ := Option.bind_eq_some_iff.mp h
      split at h
      · obtain ⟨⟨c₃, nodes₃⟩, -, h⟩ := Option.bind_eq_some_iff.mp h
        dsimp only at h
        split at h
        · obtain ⟨nodes₄, -, h⟩ := Option.bind_eq_some_iff.mp h
          cases h
          rfl
        · obtain ⟨⟨c₄, nodes₄⟩, -, h⟩ := Option.bind_eq_some_iff.mp h
          obtain ⟨nodes₅, -, h⟩ := Option.bind_eq_some_iff.mp h
          obtain ⟨edges, -, h⟩ := Option.bind_eq_some_iff.mp h
          cases h
          rfl
      · cases h
        rfl
    · obtain ⟨edges, -, h⟩ := Option.bind_eq_some_iff.mp h
      cases h
      rfl
  · cases h
    rfl

theorem graphAddEdge_nodeList {data1 data2 : Option α} {weight : UInt64}
    {isBidirectional calloc push1 push2 : Bool} {c : ExitCode}
    (h : graphAddEdge customCompare g data1 data2 weight isBidirectional calloc push1 push2 =
      some (c, g')) : g'.nodeList = g.nodeList := by
  unfold graphAddEdge at h
  obtain ⟨found, -, h⟩ := Option.bind_eq_some_iff.mp h
  cases found with
  | none =>
      cases h
      rfl
  | some nodes => exact addEdge_nodeList h

theorem removeEdge_nodeList {node1 node2 edge : Nat} {push : Bool} {c : ExitCode}
    (h : removeEdge g node1 node2 edge push = some (c, g')) : g'.nodeList = g.nodeList := by
  unfold removeEdge at h
  obtain ⟨⟨c₁, nodes₁⟩, -, h⟩ := Option.bind_eq_some_iff.mp h
  dsimp only at h
  split at h
  · obtain ⟨nodes₂, -, h⟩ := Option.bind_eq_some_iff.mp h
    obtain ⟨e, -, h⟩ := Option.bind_eq_some_iff.mp h
    split at h
    · obtain ⟨edges, -, h⟩ := Option.bind_eq_some_iff.mp h
      cases h
      rfl
    · obtain ⟨⟨c₃, nodes₃⟩, -, h⟩ := Option.bind_eq_some_iff.mp h
      dsimp only at h
      split at h
      · obtain ⟨nodes₄, -, h⟩ := Option.bind_eq_some_iff.mp h
        obtain ⟨edges, -, h⟩ := Option.bind_eq_some_iff.mp h
        cases h
        rfl
      · obtain ⟨⟨c₄, nodes₄⟩, -, h⟩ := Option.bind_eq_some_iff.mp h
        obtain ⟨nodes₅, -, h⟩ := Option.bind_eq_some_iff.mp h
        cases h
        rfl
  · cases h
    rfl

theorem graphRemoveEdge_nodeList {data1 data2 : Option α} {push : Bool} {c : ExitCode}
    (h : graphRemoveEdge customCompare g data1 data2 push = some (c, g')) :
    g'.nodeList = g.nodeList := by
  unfold graphRemoveEdge at h
  obtain ⟨found, -, h⟩ := Option.bind_eq_some_iff.mp h
  cases found with
  | none =>
      cases h
      rfl
  | some nodes =>
      obtain ⟨edge, -, h⟩ := Option.bind_eq_some_iff.mp h
      cases edge with
      | none =>
          cases h
          rfl
      | some edge => exact removeEdge_nodeList h

theorem removeEdges_nodeList {push : Nat → Bool} {edges : List Nat} {c : ExitCode}
    (h : removeEdges customCompare push g edges = some (c, g')) : g'.nodeList = g.nodeList := by
  induction edges generalizing g with
  | nil =>
      cases h
      rfl
  | cons edge rest ih =>
      unfold removeEdges at h
      obtain ⟨e, -, h⟩ := Option.bind_eq_some_iff.mp h
      obtain ⟨node1, -, h⟩ := Option.bind_eq_some_iff.mp h
      obtain ⟨node2, -, h⟩ := Option.bind_eq_some_iff.mp h
      obtain ⟨⟨c₁, g₁⟩, hremove, h⟩ := Option.bind_eq_some_iff.mp h
      dsimp only at h
      split at h
      · rw [ih h]
        exact graphRemoveEdge_nodeList hremove
      · cases h
        exact graphRemoveEdge_nodeList hremove

theorem search_nodeList {σ : Type} {W : Worklist σ} {calloc : Nat → Bool} {work : σ}
    {allocs start : Nat} {c : ExitCode} {acted : List α}
    (h : search W calloc g work allocs start = some (c, acted, g')) :
    g'.nodeList = g.nodeList := by
  unfold search at h
  obtain ⟨⟨c₁, t₁⟩, -, h⟩ := Option.bind_eq_some_iff.mp h
  dsimp only at h
  split at h
  all_goals
    obtain ⟨⟨c₂, t₂, acted₂⟩, -, h⟩ := Option.bind_eq_some_iff.mp h
    obtain ⟨left, -, h⟩ := Option.bind_eq_some_iff.mp h
    obtain ⟨nodes, -, h⟩ := Option.bind_eq_some_iff.mp h
    cases h
    rfl

theorem graphBfs_nodeList {startData : Option α} {calloc : Nat → Bool} {c : ExitCode}
    {acted : List α} (h : graphBfs customCompare g startData calloc = some (c, acted, g')) :
    g'.nodeList = g.nodeList := by
  unfold graphBfs at h
  split at h
  · cases h
    rfl
  · split at h
    · obtain ⟨start, -, h⟩ := Option.bind_eq_some_iff.mp h
      cases start with
      | none =>
          cases h
          rfl
      | some start =>
          dsimp only at h
          split at h
          · exact search_nodeList h
          · cases h
            rfl
    · cases h
      rfl

theorem graphDfs_nodeList {startData : Option α} {calloc : Nat → Bool} {c : ExitCode}
    {acted : List α} (h : graphDfs customCompare g startData calloc = some (c, acted, g')) :
    g'.nodeList = g.nodeList := by
  unfold graphDfs at h
  split at h
  · cases h
    rfl
  · obtain ⟨start, -, h⟩ := Option.bind_eq_some_iff.mp h
    cases start with
    | none =>
        cases h
        rfl
    | some start =>
        dsimp only at h
        split at h
        · exact search_nodeList h
        · cases h
          rfl

/-! ### Once there is a node

There will always be one.
-/

/-- `custom_free` deallocates, and there is a node in the list. -/
def HasNode (t : GraphT α) : Prop := t.deallocates = true ∧ ∃ ns, t.nodeList = some ns ∧ ns ≠ []

theorem HasNode.withGraph (h : HasNode t) (hlist : g.nodeList = t.graph.nodeList) :
    HasNode (t.withGraph g) := by
  obtain ⟨hfree, ns, hns, hne⟩ := h
  refine ⟨hfree, ns, ?_, hne⟩
  simp [GraphT.withGraph, hlist, GraphT.graph, hns]

/-- A node is removed, and the one that was looked for is still in the list if it is another. -/
theorem removeNodeAt_hasNode {node : Nat} {c : ExitCode} (h : HasNode t)
    (hmem : node ∈ t.graph.nodeList) (hremove : removeNodeAt customCompare t node = some (c, t')) :
    HasNode t' := by
  unfold removeNodeAt at hremove
  obtain ⟨n, -, hremove⟩ := Option.bind_eq_some_iff.mp hremove
  obtain ⟨found, -, hremove⟩ := Option.bind_eq_some_iff.mp hremove
  cases found with
  | none =>
      cases hremove
      exact h
  | some other =>
      obtain ⟨t₁, hcall, hremove⟩ := Option.bind_eq_some_iff.mp hremove
      obtain ⟨t₂, hclean, hremove⟩ := Option.bind_eq_some_iff.mp hremove
      cases hremove
      obtain ⟨hfree, ns, hns, hne⟩ := h
      have ht₁ := callCustomFree_deallocates (t := { t with
        nodeList := t.nodeList.map (·.erase other) }) hfree hcall
      subst ht₁
      have hother : node ≠ other := by
        rintro rfl
        rw [cleanupNode_dead (Store.get_drop_self _ _)] at hclean
        exact absurd hclean nofun
      have hstill : node ∈ ns.erase other := by
        rw [List.mem_erase_of_ne hother]
        simpa [GraphT.graph, hns] using hmem
      unfold cleanupNode at hclean
      obtain ⟨n', -, hclean⟩ := Option.bind_eq_some_iff.mp hclean
      obtain ⟨t₃, hdata, hclean⟩ := Option.bind_eq_some_iff.mp hclean
      obtain ⟨nodes, -, hclean⟩ := Option.bind_eq_some_iff.mp hclean
      cases hdata
      cases hclean
      refine ⟨hfree, ns.erase other, ?_, List.ne_nil_of_mem hstill⟩
      show t.nodeList.map (·.erase other) = some (ns.erase other)
      rw [hns]
      rfl

theorem graphRemoveNode_hasNode {data : Option α} {calloc : Bool} {push : Nat → Bool}
    {c : ExitCode} (h : HasNode t)
    (hremove : graphRemoveNode customCompare t data calloc push = some (c, t')) : HasNode t' := by
  unfold graphRemoveNode at hremove
  split at hremove
  · cases hremove
    exact h
  · obtain ⟨found, hfind, hremove⟩ := Option.bind_eq_some_iff.mp hremove
    cases found with
    | none =>
        cases hremove
        exact h
    | some node =>
        obtain ⟨edges, -, hremove⟩ := Option.bind_eq_some_iff.mp hremove
        cases edges with
        | none =>
            cases hremove
            exact h
        | some edges =>
            obtain ⟨⟨c₁, g⟩, hedges, hremove⟩ := Option.bind_eq_some_iff.mp hremove
            have hlist := removeEdges_nodeList hedges
            dsimp only at hremove
            split at hremove
            · apply removeNodeAt_hasNode (h.withGraph hlist) _ hremove
              have hmem := graphFindNode_mem hfind
              obtain ⟨-, ns, hns, -⟩ := h
              simpa [GraphT.graph, GraphT.withGraph, hns, hlist] using hmem
            · cases hremove
              exact h.withGraph hlist

theorem addNodeTo_hasNode {data : Option α} {createNode push : Bool} {c : ExitCode}
    (h : HasNode t) (hadd : addNodeTo t data createNode push = some (c, t')) : HasNode t' := by
  obtain ⟨hfree, ns, hns, hne⟩ := h
  by_cases hmakes : data ≠ none ∧ createNode = true
  · obtain ⟨d, rfl⟩ := Option.ne_none_iff_exists'.mp hmakes.1
    rw [hmakes.2] at hadd
    cases push with
    | true =>
        obtain ⟨t₁, ht₁, hlist, hfree₁⟩ := addNodeTo_success hns d
        cases hadd.symm.trans ht₁
        exact ⟨hfree₁.trans hfree, _, hlist, nofun⟩
    | false =>
        cases hadd.symm.trans (addNodeTo_noMemory hns d)
        exact ⟨hfree, ns, hns, hne⟩
  · cases hadd.symm.trans (addNodeTo_none hmakes)
    exact ⟨hfree, ns, hns, hne⟩

theorem graphCall_hasNode {call : GraphCall α} {ret : GraphRet α} (h : HasNode t)
    (hcall : graphCall customCompare t call = some (ret, t')) : HasNode t' := by
  cases call with
  | addNode data createNode push =>
      obtain ⟨⟨c, t₁⟩, hadd, hcall⟩ := Option.bind_eq_some_iff.mp hcall
      cases hcall
      exact addNodeTo_hasNode h hadd
  | addEdge data1 data2 weight isBidirectional calloc push1 push2 =>
      obtain ⟨⟨c, g⟩, hadd, hcall⟩ := Option.bind_eq_some_iff.mp hcall
      cases hcall
      exact h.withGraph (graphAddEdge_nodeList hadd)
  | removeEdge data1 data2 push =>
      obtain ⟨⟨c, g⟩, hremove, hcall⟩ := Option.bind_eq_some_iff.mp hcall
      cases hcall
      exact h.withGraph (graphRemoveEdge_nodeList hremove)
  | removeNode data calloc push =>
      obtain ⟨⟨c, t₁⟩, hremove, hcall⟩ := Option.bind_eq_some_iff.mp hcall
      cases hcall
      exact graphRemoveNode_hasNode h hremove
  | getSize =>
      cases hcall
      exact h
  | bfs startData calloc =>
      obtain ⟨⟨c, acted, g⟩, hbfs, hcall⟩ := Option.bind_eq_some_iff.mp hcall
      cases hcall
      exact h.withGraph (graphBfs_nodeList hbfs)
  | dfs startData calloc =>
      obtain ⟨⟨c, acted, g⟩, hdfs, hcall⟩ := Option.bind_eq_some_iff.mp hcall
      cases hcall
      exact h.withGraph (graphDfs_nodeList hdfs)

theorem graphCalls_hasNode {calls : List (GraphCall α)} {rets : List (GraphRet α)} (h : HasNode t)
    (hcalls : graphCalls customCompare t calls = some (rets, t')) : HasNode t' := by
  induction calls generalizing t rets with
  | nil =>
      cases hcalls
      exact h
  | cons call calls ih =>
      obtain ⟨⟨ret, t₁⟩, hcall, hcalls⟩ := Option.bind_eq_some_iff.mp hcalls
      obtain ⟨⟨rets₁, t₂⟩, hrest, hcalls⟩ := Option.bind_eq_some_iff.mp hcalls
      cases hcalls
      exact ih (graphCall_hasNode h hcall) hrest

/-- `graph_clear` frees the node twice. -/
theorem graphClear_hasNode (h : HasNode t) : graphClear t = none := by
  obtain ⟨hfree, ns, hns, hne⟩ := h
  rw [Option.eq_none_iff_forall_ne_some]
  rintro ⟨c, t'⟩ hclear
  obtain ⟨rfl, -⟩ := graphClear_result hclear
  obtain ⟨ns', hns', -, -, hempty⟩ := graphClear_iff.mp ⟨t', hclear⟩
  cases hns.symm.trans hns'
  exact hne (hempty hfree)

/-! ### As long as there is none

Nothing can be added but a node, and nothing is freed.
-/

/-- A graph without nodes, for which nothing has been released yet. -/
structure Bare (t : GraphT α) : Prop where
  /-- `custom_free` deallocates. -/
  deallocates : t.deallocates = true
  /-- The list is empty. -/
  nodeList : t.nodeList = some []
  /-- No node is counted. -/
  nodeCount : t.nodeCount = 0
  /-- Nothing has been handed over. -/
  freed : t.freed = []
  /-- There is no node. -/
  nodes : ∀ n, t.nodes.get n = none
  /-- There is no edge. -/
  edges : ∀ e, t.edges.get e = none

theorem new_bare : Bare (GraphT.new true : GraphT α) :=
  ⟨rfl, rfl, rfl, rfl, fun _ => rfl, fun _ => rfl⟩

theorem graphCall_bare (customCompare : α → Node α → CompRtns) {call : GraphCall α}
    (h : Bare t) (hcall : call.taken = none) :
    ∃ ret t', graphCall customCompare t call = some (ret, t') ∧ Bare t' := by
  by_cases hmakes : call.MakesNode
  · cases call with
    | addNode data createNode push =>
        obtain ⟨d, rfl⟩ := Option.ne_none_iff_exists'.mp hmakes.1
        obtain rfl : createNode = true := hmakes.2
        cases push with
        | true => exact absurd hcall nofun
        | false =>
            refine ⟨.code .failure,
              { t with nodes := (t.nodes.alloc ⟨d, 0, []⟩).1.drop t.nodes.next }, ?_,
              h.deallocates, h.nodeList, h.nodeCount, h.freed, ?_, h.edges⟩
            · simp [graphCall, addNodeTo_noMemory h.nodeList d]
            · intro n
              rw [Store.get_drop_alloc]
              exact h.nodes n
    | _ => exact absurd hmakes id
  · have hnil : t.graph.nodeList = [] := by simp [GraphT.graph, h.nodeList]
    exact ⟨_, t, graphCall_empty hnil h.nodeCount hmakes, h⟩

theorem graphCalls_bare (customCompare : α → Node α → CompRtns) {calls : List (GraphCall α)}
    (h : Bare t) (hcalls : ∀ call ∈ calls, call.taken = none) :
    ∃ rets t', graphCalls customCompare t calls = some (rets, t') ∧ Bare t' := by
  induction calls generalizing t with
  | nil => exact ⟨[], t, rfl, h⟩
  | cons call calls ih =>
      obtain ⟨hfirst, hothers⟩ := List.forall_mem_cons.mp hcalls
      obtain ⟨ret, t₁, ht₁, hbare⟩ := graphCall_bare customCompare h hfirst
      obtain ⟨rets, t₂, ht₂, hbare₂⟩ := ih hbare hothers
      exact ⟨ret :: rets, t₂, by simp [graphCalls, ht₁, ht₂], hbare₂⟩

/-- The first node that is taken in stays, or another does. -/
theorem graphCalls_taken {calls : List (GraphCall α)} {rets : List (GraphRet α)} (h : Bare t)
    (hcalls : graphCalls customCompare t calls = some (rets, t'))
    (htaken : ∃ call ∈ calls, call.taken ≠ none) : HasNode t' := by
  induction calls generalizing t rets with
  | nil => exact absurd htaken (by simp)
  | cons call calls ih =>
      obtain ⟨⟨ret, t₁⟩, hcall, hcalls⟩ := Option.bind_eq_some_iff.mp hcalls
      obtain ⟨⟨rets₁, t₂⟩, hrest, hcalls⟩ := Option.bind_eq_some_iff.mp hcalls
      cases hcalls
      by_cases hfirst : call.taken = none
      · obtain ⟨ret', t₁', hcall', hbare⟩ := graphCall_bare customCompare h hfirst
        cases hcall.symm.trans hcall'
        apply ih hbare hrest
        obtain ⟨call', hmem, hsome⟩ := htaken
        rcases List.mem_cons.mp hmem with rfl | hmem
        · exact absurd hfirst hsome
        · exact ⟨call', hmem, hsome⟩
      · apply graphCalls_hasNode _ hrest
        unfold GraphCall.taken at hfirst
        split at hfirst
        · rename_i data
          obtain ⟨d, rfl⟩ := Option.ne_none_iff_exists'.mp hfirst
          obtain ⟨⟨c, t₃⟩, hadd, hcall⟩ := Option.bind_eq_some_iff.mp hcall
          cases hcall
          obtain ⟨t₄, ht₄, hlist, hfree⟩ := addNodeTo_success h.nodeList d
          cases hadd.symm.trans ht₄
          exact ⟨hfree.trans h.deallocates, _, hlist, nofun⟩
        · exact absurd rfl hfirst

/-! ### From `graph_create` to `graph_destroy`

The run ends in `graph_clear`, which decides.
-/

theorem graphLife_taken {calls : List (GraphCall α)} (htaken : ∃ call ∈ calls, call.taken ≠ none) :
    graphLife customCompare true calls = none := by
  unfold graphLife
  rcases hcalls : graphCalls customCompare (.new true) calls with _ | ⟨rets, t⟩
  · rfl
  · have hclear := graphClear_hasNode (graphCalls_taken new_bare hcalls htaken)
    simp [hclear]

theorem graphLife_bare (customCompare : α → Node α → CompRtns) {calls : List (GraphCall α)}
    (hcalls : ∀ call ∈ calls, call.taken = none) :
    ∃ t, graphLife customCompare true calls = some t ∧ t.freed = [] ∧
      (∀ n, t.nodes.get n = none) ∧ ∀ e, t.edges.get e = none := by
  obtain ⟨rets, t, ht, hbare⟩ := graphCalls_bare customCompare new_bare hcalls
  refine ⟨{ t with nodeList := none, nodeCount := 0 }, ?_, hbare.freed, hbare.nodes, hbare.edges⟩
  simp [graphLife, ht, graphClear_nil hbare.nodeList]

/-- Everything is released as it should be just in case no node has been taken in; if data that
were not taken in are to be freed too, just in case none have been given. -/
theorem graphLife_released_iff [DecidableEq α] (customCompare : α → Node α → CompRtns)
    (calls : List (GraphCall α)) :
    ((∃ t, graphLife customCompare true calls = some t ∧
        GraphReleased (calls.filterMap GraphCall.taken) t) ↔ ∀ call ∈ calls, call.taken = none) ∧
    ((∃ t, graphLife customCompare true calls = some t ∧
        GraphReleased (calls.filterMap GraphCall.given) t) ↔ ∀ call ∈ calls, call.given = none) := by
  by_cases hcalls : ∀ call ∈ calls, call.taken = none
  · obtain ⟨t, ht, hfreed, hnodes, hedges⟩ := graphLife_bare customCompare hcalls
    have hreleased : ∀ ds, GraphReleased ds t ↔ ds = [] := by
      intro ds
      constructor
      · intro h
        rw [List.eq_nil_iff_forall_not_mem]
        intro d hd
        have honce := h.once d hd
        rw [hfreed] at honce
        exact absurd honce (by simp)
      · rintro rfl
        exact ⟨nofun, by simp [hfreed], hnodes, hedges⟩
    simp [ht, hreleased, List.filterMap_eq_nil_iff]
  · have htaken : ∃ call ∈ calls, call.taken ≠ none := by
      simpa using hcalls
    have hgiven : ¬ ∀ call ∈ calls, call.given = none := by
      intro hall
      obtain ⟨call, hmem, hsome⟩ := htaken
      apply hsome
      have hnone := hall call hmem
      unfold GraphCall.taken
      split
      · exact hnone
      · rfl
    simp [graphLife_taken htaken, hcalls, hgiven]

/-- One node, added and never removed. -/
theorem node_freed_twice :
    ¬ ∀ (customCompare : Nat → Node Nat → CompRtns) (calls : List (GraphCall Nat)),
      (calls.filterMap GraphCall.given).Nodup →
      ∃ t, graphLife customCompare true calls = some t ∧
        GraphReleased (calls.filterMap GraphCall.taken) t := by
  intro hall
  obtain ⟨t, ht, -⟩ := hall (fun _ _ => .notEqual) [.addNode (some 10) true true] (by decide)
  exact absurd ht nofun

end CmakeTemplate
