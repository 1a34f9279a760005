/-
Depth-first search.

The stack holds the nodes that wait, the next one on top, and has room for `MAX_STACK_SIZE` of
them.  A graph with no more nodes than that never fills it: a node waits once, and the start
has been taken before any other node waits.  On such a graph the loops of the source make the
rounds of a search with a stack, and the search acts on the nodes that a breadth-first search
acts on, in another order.

Both searches visit what can be reached by following the lists from the start, so that they
agree needs no look at either order.  It does need that both come to their end, and that the
number of nodes is within the bounds of both.
-/
import CmakeTemplate.Proofs.Graph.Bfs
import CmakeTemplate.Proofs.Stack.Lifo

namespace CmakeTemplate

open Lib

variable {α : Type} {g : Graph α} {start : Nat} {customCompare : α → Node α → CompRtns}

/-! ### The stack

Its top is the node that was put there last.
-/

/-- The stack holds the nodes, the next one in front. -/
def OnStack (stack : StackT Nat) (nodes : List Nat) : Prop :=
  stack.capacity = maxStackSize ∧ ∃ cells, StackRep stack cells ∧ held cells = nodes

variable {stack : StackT Nat} {nodes : List Nat}

theorem stackInit_onStack : OnStack (stackInit maxStackSize) [] :=
  ⟨rfl, [], stackInit_rep _, rfl⟩

theorem OnStack.isEmpty_iff (h : OnStack stack nodes) :
    stackWorklist.isEmpty stack = true ↔ nodes = [] := by
  obtain ⟨-, cells, hrep, rfl⟩ := h
  have hnil : held cells = [] ↔ cells = [] := by simp [held]
  have hempty : stackWorklist.isEmpty stack = decide (stackIsEmpty stack ≠ .failure) := rfl
  rw [hempty, hrep.isEmpty, hnil]
  by_cases hc : cells = []
  · simp [hc]
  · simp [hc]

theorem OnStack.push (h : OnStack stack nodes) (node : Nat)
    (hroom : nodes.length < maxStackSize.toNat) :
    ∃ stack', stackPush stack (some node) true = some (.success, stack') ∧
      OnStack stack' (node :: nodes) := by
  obtain ⟨hcap, cells, hrep, rfl⟩ := h
  rw [length_held, ← hcap] at hroom
  obtain ⟨stack', hpush, hcap', hrep'⟩ := stackPush_spec hrep hroom node
  exact ⟨stack', hpush, hcap'.trans hcap, _, hrep', held_concat _ _⟩

theorem OnStack.full (h : OnStack stack nodes) (node : Nat)
    (hfull : ¬ nodes.length < maxStackSize.toNat) :
    stackPush stack (some node) true = some (.failure, stack) := by
  obtain ⟨hcap, cells, hrep, rfl⟩ := h
  rw [length_held, ← hcap] at hfull
  exact stackPush_full hrep hfull node

theorem OnStack.pop {node : Nat} (h : OnStack stack (node :: nodes)) :
    ∃ stack', stackPop stack = some (some node, stack') ∧ OnStack stack' nodes := by
  obtain ⟨hcap, cells, hrep, hheld⟩ := h
  rcases List.eq_nil_or_concat cells with rfl | ⟨cells, top, rfl⟩
  · cases hheld
  · rw [List.concat_eq_append] at hrep hheld
    rw [held_concat] at hheld
    obtain ⟨rfl, rfl⟩ := List.cons.inj hheld
    obtain ⟨stack', hpop, hcap', hrep'⟩ := stackPop_spec hrep
    exact ⟨stack', hpop, hcap'.trans hcap, cells, hrep', rfl⟩

/-- What is on the stack is freed with it. -/
theorem OnStack.drain (h : OnStack stack nodes) : stackWorklist.drain stack = some nodes := by
  obtain ⟨-, cells, hrep, rfl⟩ := h
  obtain ⟨stack', hclear, -⟩ := stackClear_spec hrep
  simp [stackWorklist, hclear, held, List.filterMap_map]

theorem stackWorklist_keeps : Keeps stackWorklist OnStack onTop maxStackSize.toNat where
  perm := onTop_perm
  isEmpty h := h.isEmpty_iff
  push n h hroom := h.push n hroom
  pop h := h.pop
  drain h := h.drain

/-! ### The search

The number of nodes bounds how many can wait, and no more than the stack has slots.
-/

/-- A graph of no more than `MAX_STACK_SIZE` nodes is not too wide for the stack. -/
theorem EdgeLists.stackRoom (h : EdgeLists g) (hsmall : g.nodeList.length ≤ maxStackSize.toNat)
    (hstart : start ∈ g.nodeList) {S : Search Nat}
    (hS : Search.Leads (nexts g) onTop (.start start) S) :
    S.waiting.length ≤ maxStackSize.toNat := by
  have hle := h.length_found hstart ((Explored.start _ _).leads onTop_perm hS)
  rw [Search.found, List.length_append] at hle
  omega

theorem lt_of_le_maxStackSize {k : Nat} (h : k ≤ maxStackSize.toNat) : k < 2 ^ 32 :=
  Nat.lt_of_le_of_lt h maxStackSize.toNat_lt

theorem graphDfs_search {data : α} (h : EdgeLists g)
    (hsmall : g.nodeList.length ≤ maxStackSize.toNat) (hstart : start ∈ g.nodeList)
    (hmatch : MatchesOnly customCompare g data start) :
    ∃ S acted,
      graphDfs customCompare g (some data) (fun _ => true) = some (.success, acted, g) ∧
      acted.map some = S.done.map g.dataAt ∧
      Search.Leads (nexts g) onTop (.start start) S ∧ S.waiting = [] := by
  have hfind := hmatch.findNode h.alive_nodes
  rw [lookedAt_of_small (lt_of_le_maxStackSize hsmall), if_pos hstart] at hfind
  obtain ⟨S, acted, hsearch, hacted, hleads, hnil⟩ :=
    stackWorklist_keeps.search h hstart stackInit_onStack 3 fun S hS =>
      h.stackRoom hsmall hstart hS
  exact ⟨S, acted, by simp [graphDfs, hfind, hsearch], hacted, hleads, hnil⟩

/-! ### The same nodes

A search that has come to its end has visited all that can be reached.
-/

/-- What a search that has come to its end acted on. -/
theorem visits_of_explored {S : Search Nat} {acted : List α}
    {result : Option (ExitCode × List α × Graph α)} (hS : Explored (nexts g) start S)
    (hnil : S.waiting = []) (hresult : result = some (.success, acted, g))
    (hacted : acted.map some = S.done.map g.dataAt) : Visits g start result S.done := by
  have hfound : S.found = S.done := by rw [Search.found, hnil, List.append_nil]
  exact ⟨⟨acted, hresult, hacted⟩, hfound ▸ hS.first, hfound ▸ hS.nodup,
    fun n => hS.mem_done_iff hnil⟩

theorem graphBfs_visits {data : α} (h : EdgeLists g) (hsmall : g.nodeList.length < 2 ^ 32)
    (hstart : start ∈ g.nodeList) (hmatch : MatchesOnly customCompare g data start) :
    ∃ order, Visits g start (graphBfs customCompare g (some data) fun _ => true) order := by
  obtain ⟨S, acted, hsearch, hacted, hleads, hnil⟩ := graphBfs_search h hsmall hstart hmatch
  have hS := (Explored.start _ _).leads behind_perm hleads
  exact ⟨S.done, visits_of_explored hS hnil hsearch hacted⟩

theorem graphDfs_visits {data : α} (h : EdgeLists g)
    (hsmall : g.nodeList.length ≤ maxStackSize.toNat) (hstart : start ∈ g.nodeList)
    (hmatch : MatchesOnly customCompare g data start) :
    ∃ order, Visits g start (graphDfs customCompare g (some data) fun _ => true) order := by
  obtain ⟨S, acted, hsearch, hacted, hleads, hnil⟩ := graphDfs_search h hsmall hstart hmatch
  have hS := (Explored.start _ _).leads onTop_perm hleads
  exact ⟨S.done, visits_of_explored hS hnil hsearch hacted⟩

/-- In a graph of no more than `MAX_STACK_SIZE` nodes the two searches act on the same nodes. -/
theorem searches_agree {data : α} (h : EdgeLists g)
    (hsmall : g.nodeList.length ≤ maxStackSize.toNat) (hstart : start ∈ g.nodeList)
    (hmatch : MatchesOnly customCompare g data start) :
    ∃ depthOrder breadthOrder,
      Visits g start (graphDfs customCompare g (some data) fun _ => true) depthOrder ∧
      Visits g start (graphBfs customCompare g (some data) fun _ => true) breadthOrder ∧
      ∀ n, n ∈ depthOrder ↔ n ∈ breadthOrder := by
  obtain ⟨depthOrder, hdepth⟩ := graphDfs_visits h hsmall hstart hmatch
  obtain ⟨breadthOrder, hbreadth⟩ :=
    graphBfs_visits h (lt_of_le_maxStackSize hsmall) hstart hmatch
  refine ⟨depthOrder, breadthOrder, hdepth, hbreadth, ?_⟩
  intro n
  rw [hdepth.reached, hbreadth.reached]

/-- Two edges between the same nodes, one of them bidirectional, a cycle, and an edge from a node to
itself. -/
theorem searches_agree_run :
    ∃ g, (graphSystem dataCompare).run graphCreate [.addNode (some 10) true true,
        .addNode (some 20) true true, .addNode (some 30) true true,
        .addEdge (some 10) (some 20) 1 true true true true,
        .addEdge (some 10) (some 20) 2 false true true true,
        .addEdge (some 20) (some 30) 1 false true true true,
        .addEdge (some 30) (some 10) 1 false true true true,
        .addEdge (some 30) (some 30) 1 false true true true] = some g ∧
      ∃ depthOrder breadthOrder,
        Visits g 0 (graphDfs dataCompare g (some 10) fun _ => true) depthOrder ∧
        Visits g 0 (graphBfs dataCompare g (some 10) fun _ => true) breadthOrder ∧
        ∀ n, n ∈ depthOrder ↔ n ∈ breadthOrder := by
  obtain ⟨g, hrun, hlist, h0, h1, h2⟩ : ∃ g, (graphSystem dataCompare).run graphCreate
      [.addNode (some 10) true true, .addNode (some 20) true true, .addNode (some 30) true true,
        .addEdge (some 10) (some 20) 1 true true true true,
        .addEdge (some 10) (some 20) 2 false true true true,
        .addEdge (some 20) (some 30) 1 false true true true,
        .addEdge (some 30) (some 10) 1 false true true true,
        .addEdge (some 30) (some 30) 1 false true true true] = some g ∧ g.nodeList = [2, 1, 0] ∧
      (g.nodes.get 0).map Node.data = some 10 ∧ (g.nodes.get 1).map Node.data = some 20 ∧
      (g.nodes.get 2).map Node.data = some 30 :=
    ⟨_, rfl, rfl, rfl, rfl, rfl⟩
  have hreach := System.ReachIf.run (C := KeepsEdgeLists dataCompare) (.init rfl)
    (by simp [KeepsEdgeLists]) hrun
  have h := (graphSystem_edgeLists dataCompare hreach).1
  have hmatch : MatchesOnly dataCompare g 10 0 := h.matchesOnly (by
    simp only [hlist, List.forall_mem_cons, h0, h1, h2]
    simp)
  exact ⟨g, hrun, searches_agree h (by simp [hlist, maxStackSize]) (by simp [hlist]) hmatch⟩

end CmakeTemplate
