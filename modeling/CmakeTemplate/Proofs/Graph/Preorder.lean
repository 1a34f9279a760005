/-
The order of a depth-first search.

In a depth-first order, the next node is a neighbour of the last one that has a neighbour
left.  The source does not always visit in such an order.  A node is in `visited_list` from
when it is put on the stack, so a later node that leads to it does not bring it to the top: it
waits where it is, and other nodes are taken first although it is the next in depth.

Whether that happens is a condition on the states of the search: when a node is taken that
leads to one on the stack, the nodes that wait above can be reached from it without a node
that has been found.  The condition is exact, by what is known of searches with a stack; here
it is carried over to the loops of the source, for graphs of no more than `MAX_STACK_SIZE`
nodes.
-/
import CmakeTemplate.Lib.DepthFirst
import CmakeTemplate.Proofs.Graph.Components

namespace CmakeTemplate

open Lib

variable {α : Type} {g : Graph α} {start : Nat} {customCompare : α → Node α → CompRtns}

/-- A depth-first search in a graph of no more than `MAX_STACK_SIZE` nodes, all its edges directed,
goes in depth-first order just when no node on the stack is overtaken. -/
theorem graphDfs_depthFirst_iff {data : α}
    (h : (graphSystem customCompare).ReachIf OnlyDirected g)
    (hsmall : g.nodeList.length ≤ maxStackSize.toNat)
    (hmatch : ∀ n data, g.dataAt n = some data → MatchesOnly customCompare g data n)
    (hdata : g.dataAt start = some data) :
    (∃ order, Visits g start (graphDfs customCompare g (some data) fun _ => true) order ∧
      DepthFirst g.Adjacent order) ↔ NoneOvertaken (nexts g) start := by
  have hdirected := graphSystem_directed h
  obtain ⟨S, acted, hsearch, hacted, hleads, hnil⟩ := graphDfs_search hdirected.edgeLists hsmall
    (hdirected.edgeLists.mem_of_dataAt hdata) (hmatch start data hdata)
  have hvisits := visits_of_explored ((Explored.start _ _).leads onTop_perm hleads) hnil hsearch
    hacted
  rw [← depthFirst_iff hleads hnil, hdirected.adjacent_eq]
  constructor
  · intro hexists
    obtain ⟨order, horder, hdepth⟩ := hexists
    rwa [hvisits.unique horder hmatch]
  · intro hdepth
    exact ⟨S.done, hvisits, hdepth⟩

/-- One of two nodes next to the start leads to the other, which is then on top. -/
theorem graphDfs_depthFirst_run :
    ∃ g, (graphSystem dataCompare).run graphCreate [.addNode (some 10) true true,
        .addNode (some 20) true true, .addNode (some 30) true true,
        .addEdge (some 10) (some 30) 1 false true true true,
        .addEdge (some 10) (some 20) 1 false true true true,
        .addEdge (some 30) (some 20) 1 false true true true] = some g ∧
      ∃ order, Visits g 0 (graphDfs dataCompare g (some 10) fun _ => true) order ∧
        DepthFirst g.Adjacent order := by
  obtain ⟨g, hrun, hlength, hdata, h0, hnext, hr0, hr1, hr2⟩ : ∃ g,
      (graphSystem dataCompare).run graphCreate [.addNode (some 10) true true,
        .addNode (some 20) true true, .addNode (some 30) true true,
        .addEdge (some 10) (some 30) 1 false true true true,
        .addEdge (some 10) (some 20) 1 false true true true,
        .addEdge (some 30) (some 20) 1 false true true true] = some g ∧
      g.nodeList.length = 3 ∧ g.nodeList.map g.dataAt = [some 30, some 20, some 10] ∧
      g.dataAt 0 = some 10 ∧ nexts g 2 = [1] ∧
      (Search.start 0).round (nexts g) onTop = some ⟨[0], [2, 1]⟩ ∧
      Search.round (nexts g) onTop ⟨[0], [2, 1]⟩ = some ⟨[0, 2], [1]⟩ ∧
      Search.round (nexts g) onTop ⟨[0, 2], [1]⟩ = some ⟨[0, 2, 1], []⟩ :=
    ⟨_, rfl, rfl, rfl, rfl, rfl, rfl, rfl, rfl⟩
  have hreach := System.ReachIf.run (C := OnlyDirected) (.init rfl) (by simp [OnlyDirected]) hrun
  have hmatch := (graphSystem_directed hreach).edgeLists.matchesOnly_of_nodup (by simp [hdata])
  refine ⟨g, hrun, (graphDfs_depthFirst_iff hreach (by simp [hlength, maxStackSize]) hmatch
    h0).mpr ?_⟩
  intro S hS v above y below hwaiting hx
  rcases hS.cases_head with rfl | ⟨S₁, hround, hS⟩
  · simp [Search.start] at hwaiting
  obtain rfl := Option.some.inj (hr0.symm.trans hround)
  rcases hS.cases_head with rfl | ⟨S₁, hround, hS⟩
  · obtain ⟨rfl, hrest⟩ := List.cons.inj hwaiting
    cases above with
    | nil =>
        obtain ⟨rfl, rfl⟩ := List.cons.inj hrest
        exact .single ⟨by simp [hnext], by simp⟩
    | cons a above => simp at hrest
  obtain rfl := Option.some.inj (hr1.symm.trans hround)
  rcases hS.cases_head with rfl | ⟨S₁, hround, hS⟩
  · simp at hwaiting
  obtain rfl := Option.some.inj (hr2.symm.trans hround)
  rw [← Search.Leads.eq_of_empty hS rfl] at hwaiting
  cases hwaiting

/-- A start with three nodes next to it, one of which leads to another. -/
theorem waiting_node_overtaken :
    ¬ ∀ (customCompare : Nat → Node Nat → CompRtns) (g : Graph Nat) (start data : Nat),
      (graphSystem customCompare).ReachIf OnlyDirected g →
      g.nodeList.length ≤ maxStackSize.toNat →
      (∀ n data, g.dataAt n = some data → MatchesOnly customCompare g data n) →
      g.dataAt start = some data →
      ∃ order, Visits g start (graphDfs customCompare g (some data) fun _ => true) order ∧
        DepthFirst g.Adjacent order := by
  intro hall
  obtain ⟨g, hrun, hlist, h0, h1, h2, h3, hnext, hr0, hr1, hr2, hr3⟩ : ∃ g,
      (graphSystem dataCompare).run graphCreate [.addNode (some 10) true true,
        .addNode (some 20) true true, .addNode (some 30) true true, .addNode (some 40) true true,
        .addEdge (some 10) (some 40) 1 false true true true,
        .addEdge (some 10) (some 30) 1 false true true true,
        .addEdge (some 10) (some 20) 1 false true true true,
        .addEdge (some 40) (some 20) 1 false true true true] = some g ∧
      g.nodeList = [3, 2, 1, 0] ∧ g.dataAt 0 = some 10 ∧ g.dataAt 1 = some 20 ∧
      g.dataAt 2 = some 30 ∧ g.dataAt 3 = some 40 ∧ nexts g 3 = [1] ∧
      (Search.start 0).round (nexts g) onTop = some ⟨[0], [3, 2, 1]⟩ ∧
      Search.round (nexts g) onTop ⟨[0], [3, 2, 1]⟩ = some ⟨[0, 3], [2, 1]⟩ ∧
      Search.round (nexts g) onTop ⟨[0, 3], [2, 1]⟩ = some ⟨[0, 3, 2], [1]⟩ ∧
      Search.round (nexts g) onTop ⟨[0, 3, 2], [1]⟩ = some ⟨[0, 3, 2, 1], []⟩ :=
    ⟨_, rfl, rfl, rfl, rfl, rfl, rfl, rfl, rfl, rfl, rfl, rfl⟩
  have hreach := System.ReachIf.run (C := OnlyDirected) (.init rfl) (by simp [OnlyDirected]) hrun
  have hdirected := graphSystem_directed hreach
  have hmatch := hdirected.edgeLists.matchesOnly_of_nodup (by simp [hlist, h0, h1, h2, h3])
  have hsmall : g.nodeList.length ≤ maxStackSize.toNat := by simp [hlist, maxStackSize]
  obtain ⟨order, hvisits, hdepth⟩ := hall dataCompare g 0 10 hreach hsmall hmatch h0
  obtain ⟨S, acted, hsearch, hacted, hleads, hnil⟩ := graphDfs_search hdirected.edgeLists hsmall
    (hdirected.edgeLists.mem_of_dataAt h0) (hmatch 0 10 h0)
  have hrounds : Search.Leads (nexts g) onTop (.start 0) ⟨[0, 3, 2, 1], []⟩ :=
    .head hr0 (.head hr1 (.head hr2 (.single hr3)))
  have hS := Search.Leads.eq_end hrounds hleads rfl hnil
  have horder := hvisits.unique (visits_of_explored ((Explored.start _ _).leads onTop_perm hleads)
    hnil hsearch hacted) hmatch
  rw [← hS] at horder
  rw [hdirected.adjacent_eq, horder] at hdepth
  -- the third node is not next to the second, which is next to the fourth
  obtain ⟨before, u, after, hsplit, -, hafter, hu⟩ := hdepth [0, 3] 2 [1] rfl (by simp)
  have hopen : Open (fun m n => n ∈ nexts g m) [0, 3] 3 := ⟨1, by simp [hnext], by simp⟩
  rcases before with _ | ⟨b, _ | ⟨c, before⟩⟩
  · simp only [List.nil_append, List.cons.injEq] at hsplit
    exact hafter 3 (by simp [← hsplit.2]) hopen
  · simp only [List.cons_append, List.nil_append, List.cons.injEq] at hsplit
    rw [← hsplit.2.1, hnext] at hu
    simp at hu
  · simp at hsplit

end CmakeTemplate
