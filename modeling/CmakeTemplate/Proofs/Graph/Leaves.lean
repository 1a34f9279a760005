/-
What a search leaves of the graph.

What is still on the worklist when a search ends is freed with it, and that is nodes of the
graph.  So the graph is left as it is just in case no node waits at the end.  In a
breadth-first search none does: the queue is never full, for `current_size` goes from its
largest value to 0, and then the queue is empty.  Nodes may be lost that way, and are not
visited; but they are not freed either.

The stack of a depth-first search has a bound, and a push that finds it full ends the search
with the nodes that wait.  So the searches leave the graph as it is just when the stack always
has room.  A start with more neighbours than the stack has slots is enough for it to have
none.
-/
import CmakeTemplate.Proofs.Graph.Overflow

namespace CmakeTemplate

open Lib

variable {α σ : Type} {g : Graph α} {W : Worklist σ} {holds : σ → List Nat → Prop}
  {start n : Nat} {waiting : List Nat} {customCompare : α → Node α → CompRtns}

/-! ### The queue

A wrap of the counter is the only way the queue and its counter come to differ.
-/

/-- The queue holds the nodes, as far as `current_size` tells. -/
def Counted (q : QueueT Nat) (nodes : List Nat) : Prop :=
  Queued q nodes ∨ q.currentSize = 0 ∧ nodes = []

variable {q : QueueT Nat} {nodes : List Nat}

theorem Counted.isEmpty_iff (h : Counted q nodes) : queueIsEmpty q = true ↔ nodes = [] := by
  rcases h with hq | ⟨hzero, hnil⟩
  · exact hq.isEmpty_iff
  · exact iff_of_true (by simp [queueIsEmpty, hzero]) hnil

/-- In an empty queue the new node is the only one. -/
theorem enqueue_zero (hzero : q.currentSize = 0) (node : Nat) :
    ∃ q', queueEnqueue q node true = some (.success, q') ∧ Queued q' [node] := by
  refine ⟨{ q with
    nodes := (q.nodes.alloc ⟨node, none⟩).1
    head := some q.nodes.next
    tail := some q.nodes.next
    currentSize := q.currentSize + 1 }, ?_, [(q.nodes.next, node)], ⟨?_, rfl, ?_⟩, rfl⟩
  · simp [queueEnqueue, queueNodeNew, queueAppend, hzero]
  · exact ⟨rfl, none, Store.get_alloc_self _ _, rfl⟩
  · show (q.currentSize + 1).toNat = 1
    rw [hzero]
    rfl

/-- The last node that `current_size` has no number for makes the queue empty. -/
theorem Counted.enqueue (h : Counted q nodes) (node : Nat) :
    ∃ q' nodes', queueEnqueue q node true = some (.success, q') ∧ Counted q' nodes' ∧
      nodes'.Sublist (nodes ++ [node]) := by
  rcases h with hq | ⟨hzero, hnil⟩
  · by_cases hroom : nodes.length + 1 < 2 ^ 32
    · obtain ⟨q', henqueue, hq'⟩ := hq.enqueue node hroom
      exact ⟨q', _, henqueue, .inl hq', .refl _⟩
    · have hlength := hq.length_eq
      obtain ⟨ns, hrep, rfl⟩ := hq
      obtain ⟨hrep₁, hnew, hout⟩ := queueNodeNew_spec hrep node
      obtain ⟨q', happend, -, -, -, hsize, -⟩ := queueAppend_chain hrep₁ hnew hout
      refine ⟨q', [], by simp [queueEnqueue, happend], .inr ⟨?_, rfl⟩, List.nil_sublist _⟩
      have hsame : (queueNodeNew q node).1.currentSize = q.currentSize := rfl
      have hlt := q.currentSize.toNat_lt
      rw [hsize, hsame, ← UInt32.toNat_inj, UInt32.toNat_add]
      simp only [UInt32.reduceToNat]
      omega
  · rw [hnil]
    obtain ⟨q', henqueue, hq'⟩ := enqueue_zero hzero node
    exact ⟨q', [node], henqueue, .inl hq', .refl _⟩

theorem Counted.dequeue (h : Counted q (n :: nodes)) :
    ∃ q', queueDequeue q = some (n, q') ∧ Counted q' nodes := by
  rcases h with hq | ⟨-, hnil⟩
  · obtain ⟨q', hdequeue, hq'⟩ := hq.dequeue
    exact ⟨q', hdequeue, .inl hq'⟩
  · cases hnil

theorem Counted.drain (h : Counted q []) : queueWorklist.drain q = some [] := by
  rcases h with hq | ⟨hzero, -⟩
  · exact hq.drain
  · show queueClearLoop q.currentSize.toNat q = some []
    rw [hzero]
    simp [queueClearLoop, hzero]

/-! ### A search of any graph

A bound on the number of turns needs no more than that no node is taken twice.
-/

/-- A push succeeds, though nodes may be lost; what comes out has been put in. -/
structure NeverFull (W : Worklist σ) (holds : σ → List Nat → Prop) : Prop where
  /-- The worklist knows when it is empty. -/
  isEmpty : ∀ {w waiting}, holds w waiting → (W.isEmpty w = true ↔ waiting = [])
  /-- A push succeeds, and adds the node at most. -/
  push : ∀ {w waiting} (n), holds w waiting → ∃ w' waiting',
    W.push w n true = some (.success, w') ∧ holds w' waiting' ∧ waiting'.Sublist (waiting ++ [n])
  /-- What comes out is the first of them. -/
  pop : ∀ {w n waiting}, holds w (n :: waiting) →
    ∃ w', W.pop w = some (some n, w') ∧ holds w' waiting
  /-- An empty one has nothing to free. -/
  drain : ∀ {w}, holds w [] → W.drain w = some []

/-- No node is taken twice, and all are nodes of the graph. -/
structure Tended (g : Graph α) (holds : σ → List Nat → Prop) (done waiting : List Nat)
    (t : Traversal σ) : Prop where
  /-- The worklist has the nodes that wait. -/
  work : holds t.work waiting
  /-- No node is taken twice. -/
  nodup : (done ++ waiting).Nodup
  /-- They have been visited. -/
  visited : ∀ n ∈ done ++ waiting, n ∈ t.visited
  /-- They are nodes of the graph. -/
  nodes : ∀ n ∈ t.visited, n ∈ g.nodeList

variable {done : List Nat} {t : Traversal σ}

theorem Tended.length_le (h : EdgeLists g) (ht : Tended g holds done waiting t) :
    (done ++ waiting).length ≤ g.nodes.next := by
  have hsub : done ++ waiting ⊆ List.range g.nodes.next := by
    intro n hn
    obtain ⟨node, hnode, -⟩ := h.listed.node (ht.nodes n (ht.visited n hn))
    exact List.mem_range.mpr (Store.lt_next hnode)
  have hle := (List.subperm_of_subset ht.nodup hsub).length_le
  rwa [List.length_range] at hle

namespace NeverFull

theorem visitNode (hW : NeverFull W holds) (ht : Tended g holds done waiting t)
    (hnew : n ∉ t.visited) (hn : n ∈ g.nodeList) :
    ∃ t' waiting', CmakeTemplate.visitNode W (fun _ => true) t n = some (.success, t') ∧
      Tended g holds done waiting' t' := by
  obtain ⟨w', waiting', hpush, hw', hsub⟩ := hW.push n ht.work
  have hsub' : (done ++ waiting').Sublist (done ++ waiting ++ [n]) := by
    rw [List.append_assoc]
    exact hsub.append_left done
  refine ⟨⟨w', t.visited ++ [n], t.allocs + 2⟩, waiting',
    by simp [CmakeTemplate.visitNode, hpush], hw', ?_, ?_, ?_⟩
  · refine hsub'.nodup (List.nodup_append.mpr ⟨ht.nodup, List.pairwise_singleton _ _, ?_⟩)
    intro a ha b hb hab
    rw [List.mem_singleton.mp hb] at hab
    exact hnew (hab ▸ ht.visited a ha)
  · intro m hm
    rcases List.mem_append.mp (hsub'.subset hm) with hold | hlast
    · exact List.mem_append_left _ (ht.visited m hold)
    · exact List.mem_append_right _ hlast
  · intro m hm
    rcases List.mem_append.mp hm with hold | hlast
    · exact ht.nodes m hold
    · rw [List.mem_singleton.mp hlast]
      exact hn

theorem visitNeighbors (hW : NeverFull W holds) :
    ∀ (es : List Nat) (t : Traversal σ) (waiting : List Nat), Tended g holds done waiting t →
      (∀ e ∈ es, ∃ edge, g.edges.get e = some edge ∧ edge.node2 ∈ g.nodeList) →
      ∃ t' waiting', CmakeTemplate.visitNeighbors W (fun _ => true) g.edges t es =
          some (.success, t') ∧ Tended g holds done waiting' t' := by
  intro es
  induction es with
  | nil =>
      intro t waiting ht _
      exact ⟨t, waiting, rfl, ht⟩
  | cons e es ih =>
      intro t waiting ht hlive
      obtain ⟨he, hes⟩ := List.forall_mem_cons.mp hlive
      obtain ⟨edge, hedge, hnode⟩ := he
      by_cases hold : edge.node2 ∈ t.visited
      · obtain ⟨t', waiting', hloop, ht'⟩ := ih t waiting ht hes
        exact ⟨t', waiting', by simp [CmakeTemplate.visitNeighbors, hedge, hold, hloop], ht'⟩
      · obtain ⟨t₁, waiting₁, hvisit, ht₁⟩ := hW.visitNode ht hold hnode
        obtain ⟨t', waiting', hloop, ht'⟩ := ih t₁ waiting₁ ht₁ hes
        exact ⟨t', waiting', by simp [CmakeTemplate.visitNeighbors, hedge, hold, hvisit, hloop],
          ht'⟩

theorem traverse (hW : NeverFull W holds) (h : EdgeLists g) :
    ∀ (fuel : Nat) (t : Traversal σ) (done waiting : List Nat) (acted : List α),
      Tended g holds done waiting t → g.nodes.next < fuel + done.length →
      ∃ t' acted', CmakeTemplate.traverse W (fun _ => true) g fuel t acted =
          some (.success, t', acted') ∧ holds t'.work [] := by
  intro fuel
  induction fuel with
  | zero =>
      intro t done waiting acted ht hfuel
      have hle := ht.length_le h
      rw [List.length_append] at hle
      omega
  | succ fuel ih =>
      intro t done waiting acted ht hfuel
      cases waiting with
      | nil =>
          have hempty : W.isEmpty t.work = true := (hW.isEmpty ht.work).mpr rfl
          exact ⟨t, acted, by rw [CmakeTemplate.traverse, if_pos hempty], ht.work⟩
      | cons n waiting =>
          have hmore : ¬ W.isEmpty t.work = true := by
            rw [hW.isEmpty ht.work]
            exact List.cons_ne_nil _ _
          obtain ⟨w', hpop, hw'⟩ := hW.pop ht.work
          obtain ⟨node, hnode, hedges, -⟩ :=
            h.listed.node (ht.nodes n (ht.visited n (by simp)))
          have hlive : ∀ e ∈ node.edgeList, ∃ edge, g.edges.get e = some edge ∧
              edge.node2 ∈ g.nodeList := by
            intro e he
            rw [hedges] at he
            obtain ⟨edge, hedge⟩ := Option.isSome_iff_exists.mp (h.alive n e he)
            exact ⟨edge, hedge, (h.ends n e edge he hedge).2⟩
          have hassoc : done ++ [n] ++ waiting = done ++ n :: waiting := by simp
          have htaken : Tended g holds (done ++ [n]) waiting { t with work := w' } :=
            ⟨hw', hassoc ▸ ht.nodup, hassoc ▸ ht.visited, ht.nodes⟩
          obtain ⟨t₁, waiting₁, hloop, ht₁⟩ :=
            hW.visitNeighbors node.edgeList { t with work := w' } waiting htaken hlive
          obtain ⟨t', acted', hrun, hend⟩ := ih t₁ (done ++ [n]) waiting₁ (acted ++ [node.data]) ht₁
            (by
              rw [List.length_append, List.length_singleton]
              omega)
          refine ⟨t', acted', ?_, hend⟩
          rw [CmakeTemplate.traverse, if_neg hmore]
          simp [hpop, hnode, hloop, hrun]

/-- Nothing is left to be freed. -/
theorem search_leaves (hW : NeverFull W holds) (h : EdgeLists g) (hstart : start ∈ g.nodeList)
    {w : σ} (hw : holds w []) (allocs : Nat) :
    LeavesGraph g (search W (fun _ => true) g w allocs start) := by
  have hnone : Tended g holds [] [] (⟨w, [], allocs⟩ : Traversal σ) :=
    ⟨hw, List.nodup_nil, by simp, by simp⟩
  obtain ⟨t, waiting, hvisit, ht⟩ := hW.visitNode hnone (by simp) hstart
  obtain ⟨t', acted, hrun, hend⟩ :=
    hW.traverse h (g.nodes.next + 1) t [] waiting [] ht (Nat.lt_succ_self _)
  refine ⟨.success, acted, g, ?_, .refl g⟩
  simp [search, hvisit, hrun, hW.drain hend, freeNodes]

end NeverFull

theorem queueWorklist_neverFull : NeverFull queueWorklist Counted where
  isEmpty h := h.isEmpty_iff
  push n h := h.enqueue n
  pop h := by
    obtain ⟨q', hdequeue, hq'⟩ := h.dequeue
    exact ⟨q', by simp [queueWorklist, hdequeue], hq'⟩
  drain h := h.drain

/-- A breadth-first search leaves the graph as it is. -/
theorem graphBfs_leaves (h : EdgeLists g) (startData : Option α) :
    LeavesGraph g (graphBfs customCompare g startData fun _ => true) := by
  cases startData with
  | none => exact ⟨_, _, g, rfl, .refl g⟩
  | some data =>
      obtain ⟨p, hfind, hmem⟩ := h.exists_findNode customCompare data
      cases p with
      | none => exact ⟨.failure, [], g, by simp [graphBfs, hfind], .refl g⟩
      | some start =>
          have hbfs : graphBfs customCompare g (some data) (fun _ => true) =
              search queueWorklist (fun _ => true) g (queueInit queueUnbounded) 2 start := by
            simp [graphBfs, hfind]
          rw [hbfs]
          exact queueWorklist_neverFull.search_leaves h (hmem start rfl) (.inl queueInit_queued) 2

/-- The searches leave the graph as it is just when the stack always has room for the nodes that
wait. -/
theorem searches_leave_iff (h : EdgeLists g) (startData : Option α) :
    (LeavesGraph g (graphBfs customCompare g startData fun _ => true) ∧
      LeavesGraph g (graphDfs customCompare g startData fun _ => true)) ↔
      ∀ data start, startData = some data →
        graphFindNode customCompare g data = some (some start) → StackHolds g start := by
  rw [← graphDfs_leaves_iff h]
  exact and_iff_right (graphBfs_leaves h startData)

/-- A depth-first search of three nodes. -/
theorem searches_leave_run :
    ∃ g, (graphSystem dataCompare).run graphCreate [.addNode (some 10) true true,
        .addNode (some 20) true true, .addNode (some 30) true true,
        .addEdge (some 10) (some 20) 1 true true true true,
        .addEdge (some 10) (some 30) 1 false true true true] = some g ∧
      LeavesGraph g (graphBfs dataCompare g (some 10) fun _ => true) ∧
      LeavesGraph g (graphDfs dataCompare g (some 10) fun _ => true) := by
  obtain ⟨g, hrun, hlength⟩ : ∃ g, (graphSystem dataCompare).run graphCreate
      [.addNode (some 10) true true, .addNode (some 20) true true, .addNode (some 30) true true,
        .addEdge (some 10) (some 20) 1 true true true true,
        .addEdge (some 10) (some 30) 1 false true true true] = some g ∧ g.nodeList.length = 3 :=
    ⟨_, rfl, rfl⟩
  have hreach := System.ReachIf.run (C := KeepsEdgeLists dataCompare) (.init rfl)
    (by simp [KeepsEdgeLists]) hrun
  have h := (graphSystem_edgeLists dataCompare hreach).1
  refine ⟨g, hrun, (searches_leave_iff h (some 10)).mpr fun data start _ hfind S hS => ?_⟩
  obtain ⟨p, hp, hmem⟩ := h.exists_findNode dataCompare data
  obtain rfl := Option.some.inj (hp.symm.trans hfind)
  exact h.stackRoom (by simp [hlength, maxStackSize]) (hmem start rfl) hS

/-! ### A start with more neighbours than the stack has slots

The graph is built by the calls of the library, node after node and edge after edge.
-/

theorem Gains.nexts_directed {g' : Graph α} {edge : Edge} (hg : Gains g g' edge) (h : EdgeLists g)
    (hdir : edge.isDirected = true) :
    nexts g' edge.node1 = edge.node2 :: nexts g edge.node1 := by
  rw [Gains, if_pos hdir] at hg
  have hold : ∀ e ∈ edgesAt g.nodes edge.node1,
      (g'.edges.get e).map Edge.node2 = (g.edges.get e).map Edge.node2 := by
    intro e he
    have hne : e ≠ g.edges.next := by
      intro heq
      have hpos := List.count_pos_iff.mpr (heq ▸ he)
      rw [h.count_next] at hpos
      exact Nat.lt_irrefl 0 hpos
    rw [hg.edges, Function.update_of_ne hne]
  rw [nexts, hg.lists, put, Function.update_self,
    List.filterMap_cons_some (by rw [hg.edges, Function.update_self]; rfl), nexts,
    List.filterMap_congr hold]

/-- `k + 1` nodes, with edges from the first to the next `j`. -/
theorem exists_fan {k : Nat} (hk : k + 1 < 2 ^ 32) :
    ∀ j ≤ k, ∃ g, (graphSystem dataCompare).ReachIf OnlyDirected g ∧ g.nodeList.length = k + 1 ∧
      (∀ n node, g.nodes.get n = some node → node.data = n) ∧ (∀ n < k + 1, n ∈ g.nodeList) ∧
      nexts g 0 = (List.range' 1 j).reverse := by
  intro j
  induction j with
  | zero =>
      intro _
      obtain ⟨g, hreach, -, hlength, hedges, hdata, hmem⟩ := exists_filled (k + 1)
      refine ⟨g, hreach, hlength, hdata, hmem, ?_⟩
      simp [nexts, hedges]
  | succ j ih =>
      intro hj
      obtain ⟨g, hreach, hlength, hdata, hmem, hnexts⟩ := ih (by omega)
      have h := (graphSystem_directed hreach).edgeLists
      have hmatch : ∀ n, MatchesOnly dataCompare g n n := by
        intro n m node hnode
        rw [dataCompare, hdata m node hnode]
        by_cases hmn : m = n <;> simp [hmn]
      have h0 := hmem 0 (by omega)
      have h1 := hmem (j + 1) (by omega)
      have hfind := (hmatch 0).findNodes (hmatch (j + 1)) h.alive_nodes
      rw [lookedAt_of_small (hlength ▸ hk), if_pos ⟨h0, h1⟩] at hfind
      obtain ⟨g', hadd, hgains⟩ := addEdge_directed h h0 (j + 1) 1 true
      have hcall : (graphSystem dataCompare).step g
          (.addEdge (some 0) (some (j + 1)) 1 false true true true) = some g' := by
        simp [graphSystem, graphExec, graphAddEdge, hfind, hadd]
      have hnext := hgains.nexts_directed h rfl
      have honly : OnlyDirected g
          (.addEdge (some 0) (some (j + 1)) 1 false true true true) := rfl
      refine ⟨g', hreach.step honly hcall, ?_, ?_, ?_, ?_⟩
      · rw [hgains.nodeList, hlength]
      · intro n node hnode
        have hsame := hgains.data n
        rw [hnode] at hsame
        obtain ⟨old, hold, heq⟩ := Option.map_eq_some_iff.mp hsame.symm
        rw [← heq, hdata n old hold]
      · rw [hgains.nodeList]
        exact hmem
      · rw [hnext, hnexts, List.range'_concat, List.reverse_append]
        simp [Nat.add_comm]

/-- 2001 nodes next to the start: the last push fails, and the 2000 that wait are freed. -/
theorem wide_graph_freed :
    ¬ ∀ (customCompare : Nat → Node Nat → CompRtns) (g : Graph Nat) (startData : Option Nat),
      EdgeLists g →
      LeavesGraph g (graphBfs customCompare g startData fun _ => true) ∧
        LeavesGraph g (graphDfs customCompare g startData fun _ => true) := by
  intro hall
  obtain ⟨g, hreach, hlength, hdata, hmem, hnexts⟩ :=
    exists_fan (k := 2001) (by decide) 2001 (Nat.le_refl _)
  have h := (graphSystem_directed hreach).edgeLists
  have hmatch : MatchesOnly dataCompare g 0 0 := by
    intro n node hnode
    rw [dataCompare, hdata n node hnode]
    by_cases h0 : n = 0 <;> simp [h0]
  have hfind := hmatch.findNode h.alive_nodes
  rw [lookedAt_of_small (by rw [hlength]; decide), if_pos (hmem 0 (by decide))] at hfind
  have hholds := (graphDfs_leaves_iff h (some 0)).mp (hall dataCompare g (some 0) h).2 0 0 rfl hfind
  have hround : (Search.start 0).round (nexts g) onTop =
      some ⟨[0], (nexts g 0).foldl onTop []⟩ := by
    rw [Search.start, Search.round_cons, fresh_eq_self]
    · rfl
    · rw [hnexts]
      exact List.nodup_reverse.mpr List.nodup_range'
    · rw [hnexts]
      intro v hv
      simp only [List.mem_reverse, List.mem_range'_1] at hv
      simp only [List.nil_append, List.mem_singleton]
      omega
  have hle := hholds _ (.single hround)
  rw [foldl_onTop, List.append_nil, List.length_reverse, hnexts, List.length_reverse,
    List.length_range'] at hle
  exact absurd hle (by decide)

end CmakeTemplate
