/-
Breadth-first search.

The queue holds the nodes that wait, and has room for all of a graph that a `uint32_t` can
count.  So on a graph of fewer than `2 ^ 32` nodes the loops of the source make the rounds of
a search with a queue, and what was proved of those holds: each node that can be reached is
visited once, the start first and the nearer ones in front of those further away.

Where all edges are directed they lead to the neighbours of a node, and the distance is that
of the graph.  The run at the end has two edges between the same nodes, an edge from a node to
itself and a cycle, none of which brings a node a second time.  With `2 ^ 32` nodes the `size`
of `node_list` is 0, and the search does not find its start.
-/
import CmakeTemplate.Proofs.Graph.Directed
import CmakeTemplate.Proofs.Graph.EdgeLists
import CmakeTemplate.Proofs.Graph.Search
import CmakeTemplate.Proofs.Queue.Fifo

namespace CmakeTemplate

open Lib

variable {α : Type} {g : Graph α} {start : Nat} {customCompare : α → Node α → CompRtns}

/-! ### The queue

Its first node is the one that has waited longest.
-/

/-- The queue holds the nodes, the next one in front. -/
def Queued (q : QueueT Nat) (nodes : List Nat) : Prop :=
  ∃ ns, QueueRep q ns ∧ ns.map Prod.snd = nodes

variable {q : QueueT Nat} {nodes : List Nat}

theorem queueInit_queued : Queued (queueInit queueUnbounded) [] := ⟨[], queueInit_rep _, rfl⟩

theorem Queued.isEmpty_iff (h : Queued q nodes) : queueIsEmpty q = true ↔ nodes = [] := by
  obtain ⟨ns, hrep, rfl⟩ := h
  rw [queueIsEmpty_iff hrep, List.map_eq_nil_iff]

theorem Queued.enqueue (h : Queued q nodes) (node : Nat) (hroom : nodes.length + 1 < 2 ^ 32) :
    ∃ q', queueEnqueue q node true = some (.success, q') ∧ Queued q' (nodes ++ [node]) := by
  obtain ⟨ns, hrep, rfl⟩ := h
  obtain ⟨hrep₁, hnew, hout⟩ := queueNodeNew_spec hrep node
  have hsize : (queueNodeNew q node).1.currentSize.toNat + 1 < 2 ^ 32 := by
    rw [hrep₁.size]
    rwa [List.length_map] at hroom
  obtain ⟨q', happend, hrep', -⟩ := queueAppend_spec hrep₁ hnew hout hsize
  refine ⟨q', ?_, _, hrep', by simp⟩
  simp [queueEnqueue, happend]

theorem Queued.dequeue {node : Nat} (h : Queued q (node :: nodes)) :
    ∃ q', queueDequeue q = some (node, q') ∧ Queued q' nodes := by
  obtain ⟨ns, hrep, hns⟩ := h
  obtain ⟨n, ns, rfl, rfl, rfl⟩ := List.map_eq_cons_iff.mp hns
  obtain ⟨q', htake, hrep', -⟩ := queueTakeHead_spec hrep
  exact ⟨q', by simp [queueDequeue, htake], ns, hrep', rfl⟩

theorem Queued.length_eq (h : Queued q nodes) : q.currentSize.toNat = nodes.length := by
  obtain ⟨ns, hrep, rfl⟩ := h
  rw [hrep.size, List.length_map]

/-- What is in the queue is freed with it. -/
theorem Queued.drain (h : Queued q nodes) : queueWorklist.drain q = some nodes := by
  show queueClearLoop q.currentSize.toNat q = some nodes
  rw [h.length_eq]
  induction nodes generalizing q with
  | nil =>
      have hzero : q.currentSize = 0 := UInt32.toNat_inj.mp h.length_eq
      rw [List.length_nil, queueClearLoop, hzero, if_neg (by decide)]
  | cons node nodes ih =>
      have hpos : q.currentSize > 0 := by
        rw [gt_iff_lt, UInt32.lt_iff_toNat_lt, h.length_eq]
        exact Nat.succ_pos _
      obtain ⟨q', hdequeue, hq'⟩ := h.dequeue
      simp [queueClearLoop, hpos, hdequeue, ih hq']

theorem queueWorklist_keeps : Keeps queueWorklist Queued behind (2 ^ 32 - 1) where
  perm := behind_perm
  isEmpty h := h.isEmpty_iff
  push n h hroom := h.enqueue n (by omega)
  pop h := by
    obtain ⟨q', hdequeue, hq'⟩ := h.dequeue
    exact ⟨q', by simp [queueWorklist, hdequeue], hq'⟩
  drain h := h.drain

/-! ### The search

The number of nodes bounds how many can wait.
-/

theorem lookedAt_of_small (h : g.nodeList.length < 2 ^ 32) : g.lookedAt = g.nodeList := by
  rw [Graph.lookedAt, Nat.mod_eq_of_lt h, List.take_length]

/-- With fewer than `2 ^ 32` nodes the queue has room for all of them. -/
theorem graphBfs_search {data : α} (h : EdgeLists g) (hsmall : g.nodeList.length < 2 ^ 32)
    (hstart : start ∈ g.nodeList) (hmatch : MatchesOnly customCompare g data start) :
    ∃ S acted,
      graphBfs customCompare g (some data) (fun _ => true) = some (.success, acted, g) ∧
      acted.map some = S.done.map g.dataAt ∧
      Search.Leads (nexts g) behind (.start start) S ∧ S.waiting = [] := by
  have hfind := hmatch.findNode h.alive_nodes
  rw [lookedAt_of_small hsmall, if_pos hstart] at hfind
  obtain ⟨S, acted, hsearch, hacted, hleads, hnil⟩ :=
    queueWorklist_keeps.search h hstart queueInit_queued 2 (by
      intro S hS
      have hle := h.length_found hstart ((Explored.start _ _).leads behind_perm hS)
      rw [Search.found, List.length_append] at hle
      omega)
  exact ⟨S, acted, by simp [graphBfs, hfind, hsearch], hacted, hleads, hnil⟩

/-- A breadth-first search in a graph with fewer than `2 ^ 32` nodes, all its edges directed,
calls `action` once for each node that can be reached from the start, the start first and the
nearer ones in front of those further away. -/
theorem graphBfs_byLevels {data : α} (h : (graphSystem customCompare).ReachIf OnlyDirected g)
    (hsmall : g.nodeList.length < 2 ^ 32) (hstart : start ∈ g.nodeList)
    (hmatch : ∀ n node, g.nodes.get n = some node →
      (customCompare data node = .equal ↔ n = start)) :
    ∃ order acted,
      graphBfs customCompare g (some data) (fun _ => true) = some (.success, acted, g) ∧
      acted.map some = order.map g.dataAt ∧ ByLevels g start order := by
  have hdirected := graphSystem_directed h
  obtain ⟨S, acted, hsearch, hacted, hleads, hnil⟩ :=
    graphBfs_search hdirected.edgeLists hsmall hstart hmatch
  have hfrontier := (Frontier.start (fun m n => n ∈ nexts g m) start).leads hleads
  rw [hnil, ← hdirected.adjacent_eq] at hfrontier
  have hall : S.done ++ [] = S.done := List.append_nil S.done
  refine ⟨S.done, acted, hsearch, hacted, ?_, ?_, ?_, ?_⟩
  · exact hall ▸ hfrontier.first
  · exact hall ▸ hfrontier.nodup
  · exact fun n => hfrontier.mem_iff
  · exact hall ▸ hfrontier.sorted

/-- An edge from a node to itself, two edges between the same nodes, and a cycle. -/
theorem graphBfs_byLevels_run :
    ∃ g order acted, (graphSystem dataCompare).run graphCreate [.addNode (some 10) true true,
        .addNode (some 20) true true, .addNode (some 30) true true,
        .addEdge (some 10) (some 10) 1 false true true true,
        .addEdge (some 10) (some 20) 1 false true true true,
        .addEdge (some 10) (some 20) 2 false true true true,
        .addEdge (some 20) (some 30) 1 false true true true,
        .addEdge (some 30) (some 10) 1 false true true true] = some g ∧
      graphBfs dataCompare g (some 10) (fun _ => true) = some (.success, acted, g) ∧
      acted.map some = order.map g.dataAt ∧ ByLevels g 0 order := by
  obtain ⟨g, hrun, hlist, h0, h1, h2⟩ : ∃ g, (graphSystem dataCompare).run graphCreate
      [.addNode (some 10) true true, .addNode (some 20) true true, .addNode (some 30) true true,
        .addEdge (some 10) (some 10) 1 false true true true,
        .addEdge (some 10) (some 20) 1 false true true true,
        .addEdge (some 10) (some 20) 2 false true true true,
        .addEdge (some 20) (some 30) 1 false true true true,
        .addEdge (some 30) (some 10) 1 false true true true] = some g ∧ g.nodeList = [2, 1, 0] ∧
      g.dataAt 0 = some 10 ∧ g.dataAt 1 = some 20 ∧ g.dataAt 2 = some 30 :=
    ⟨_, rfl, rfl, rfl, rfl, rfl⟩
  have hreach := System.ReachIf.run (C := OnlyDirected) (.init rfl) (by simp [OnlyDirected]) hrun
  have hmatch : ∀ n node, g.nodes.get n = some node →
      (dataCompare 10 node = .equal ↔ n = 0) := by
    intro n node hn
    have hmem := ((graphSystem_directed hreach).edgeLists.listed.live n).mp (by simp [hn])
    have hdata : g.dataAt n = some node.data := by simp [Graph.dataAt, hn]
    simp only [hlist, List.mem_cons, List.not_mem_nil, or_false] at hmem
    rcases hmem with rfl | rfl | rfl
    · simp [dataCompare, ← Option.some.inj (h2.symm.trans hdata)]
    · simp [dataCompare, ← Option.some.inj (h1.symm.trans hdata)]
    · simp [dataCompare, ← Option.some.inj (h0.symm.trans hdata)]
  obtain ⟨order, acted, hbfs⟩ :=
    graphBfs_byLevels hreach (by simp [hlist]) (by simp [hlist]) hmatch
  exact ⟨g, order, acted, hrun, hbfs⟩

/-- A graph of `k` nodes and no edges. -/
theorem exists_filled (k : Nat) :
    ∃ g, (graphSystem dataCompare).ReachIf OnlyDirected g ∧ g.nodes.next = k ∧
      g.nodeList.length = k ∧ (∀ e, g.edges.get e = none) ∧
      (∀ n node, g.nodes.get n = some node → node.data = n) ∧ ∀ n < k, n ∈ g.nodeList := by
  induction k with
  | zero =>
      refine ⟨graphCreate, .init rfl, rfl, rfl, fun _ => rfl, ?_, ?_⟩
      · intro n node hn
        simp [graphCreate, Store.empty] at hn
      · intro n hn
        exact absurd hn (Nat.not_lt_zero n)
  | succ k ih =>
      obtain ⟨g, hreach, hnext, hlength, hedges, hdata, hmem⟩ := ih
      refine ⟨_, hreach.step (l := GraphOp.addNode (some k) true true) trivial rfl, ?_, ?_, hedges,
        ?_, ?_⟩
      · exact congrArg Nat.succ hnext
      · exact congrArg Nat.succ hlength
      · intro n node hn
        rw [Store.get_alloc, hnext] at hn
        by_cases hk : n = k
        · rw [if_pos hk] at hn
          rw [← Option.some.inj hn, hk]
        · rw [if_neg hk] at hn
          exact hdata n node hn
      · intro n hn
        rcases Nat.lt_succ_iff_lt_or_eq.mp hn with hlt | heq
        · exact List.mem_cons_of_mem _ (hmem n hlt)
        · rw [heq, ← hnext]
          exact List.mem_cons_self

/-- With `2 ^ 32` nodes `size` of `node_list` is 0, and no start is found. -/
theorem start_not_found :
    ¬ ∀ (customCompare : Nat → Node Nat → CompRtns) (g : Graph Nat) (start data : Nat),
      (graphSystem customCompare).ReachIf OnlyDirected g → start ∈ g.nodeList →
      (∀ n node, g.nodes.get n = some node → (customCompare data node = .equal ↔ n = start)) →
      ∃ order acted,
        graphBfs customCompare g (some data) (fun _ => true) = some (.success, acted, g) ∧
        acted.map some = order.map g.dataAt ∧ ByLevels g start order := by
  intro hall
  obtain ⟨g, hreach, -, hlength, -, hdata, hmem⟩ := exists_filled (2 ^ 32)
  obtain ⟨order, acted, hbfs, -⟩ := hall dataCompare g 0 0 hreach (hmem 0 (by simp)) (by
    intro n node hn
    rw [dataCompare, hdata n node hn]
    by_cases h0 : n = 0 <;> simp [h0])
  have hnone : graphFindNode dataCompare g 0 = some none := by
    rw [graphFindNode, hlength, Nat.mod_self]
    rfl
  simp [graphBfs, hnone] at hbfs

end CmakeTemplate
