/-
Adding to a graph keeps its edge lists, whichever allocation fails.

A node that is added has an empty list, and no edge has it for an end.  An edge that is added
goes in front on the list of its first node, and if it is bidirectional on that of its second
node too.  Each push allocates, so it may fail with the first list done and the second not;
the rollback then removes the edge from the first list by comparing, and frees it.  As the new
edge is the first one on that list, the rollback takes off the edge it is about to free and no
other, even if there are others with the same ends.

So a call adds the edge as a whole, or leaves every node, every edge and every list as before,
and the new edge is on no list.
-/
import CmakeTemplate.Proofs.Graph.Lists

namespace CmakeTemplate

open Lib

variable {α : Type} {g : Graph α} {n e : Nat} {edge : Edge} {adj : Nat → List Nat}

theorem Edge.occurrences_pos :
    0 < edge.occurrences n ↔ n = edge.node1 ∨ (edge.isDirected = false ∧ n = edge.node2) := by
  rw [Edge.occurrences]
  by_cases h1 : n = edge.node1
  · rw [if_pos h1]
    exact iff_of_true (Nat.add_pos_left Nat.one_pos _) (.inl h1)
  · by_cases h2 : edge.isDirected = false ∧ n = edge.node2
    · simp [h2]
    · simp [h1, h2]

namespace EdgeLists

theorem listed (h : EdgeLists g) : Listed g.nodes g.nodeList (edgesAt g.nodes) :=
  ⟨h.live, rfl, h.counts⟩

theorem alive_nodes (h : EdgeLists g) : ∀ n ∈ g.nodeList, (g.nodes.get n).isSome :=
  fun n hn => (h.live n).mpr hn

theorem alive (h : EdgeLists g) (n : Nat) : ∀ e ∈ edgesAt g.nodes n, (g.edges.get e).isSome := by
  intro e he
  obtain ⟨edge, hedge, -⟩ := h.stored n e he
  rw [hedge]
  rfl

/-- Where an edge is listed, it has an end. -/
theorem end_of_mem (h : EdgeLists g) (he : e ∈ edgesAt g.nodes n)
    (hedge : g.edges.get e = some edge) :
    n = edge.node1 ∨ (edge.isDirected = false ∧ n = edge.node2) := by
  rw [← Edge.occurrences_pos, ← h.stored.count_eq he hedge]
  exact List.count_pos_iff.mpr he

/-- Lists for the same nodes. -/
theorem of_listed {nodes : Store (Node α)} {edges : Store Edge}
    (hl : Listed nodes g.nodeList adj) (hstored : Incident adj edges.get Edge.occurrences)
    (hends : ∀ n e edge, e ∈ adj n → edges.get e = some edge →
      edge.node1 ∈ g.nodeList ∧ edge.node2 ∈ g.nodeList) :
    EdgeLists { g with nodes, edges } := by
  refine ⟨hl.live, ?_, ?_, ?_⟩
  · show Incident (edgesAt nodes) _ _
    rw [hl.edges]
    exact hstored
  · intro n e edge he
    have he' : e ∈ edgesAt nodes n := he
    rw [hl.edges] at he'
    exact hends n e edge he'
  · intro n
    show _ = (edgesAt nodes n).length
    rw [hl.edges]
    exact hl.counts n

/-- Stores that hold the same. -/
theorem of_get_eq (h : EdgeLists g) {nodes : Store (Node α)} {edges : Store Edge}
    (hnodes : nodes.get = g.nodes.get) (hedges : edges.get = g.edges.get) :
    EdgeLists { g with nodes, edges } := by
  have hl : Listed nodes g.nodeList (edgesAt g.nodes) :=
    ⟨fun n => by rw [hnodes]; exact h.live n, by funext n; simp only [edgesAt, hnodes],
      fun n => by simp only [edgeCountAt, hnodes]; exact h.counts n⟩
  exact of_listed hl (hedges ▸ h.stored) (hedges ▸ h.ends)

end EdgeLists

theorem graphCreate_edgeLists : EdgeLists (graphCreate : Graph α) where
  live n := by simp [graphCreate, Store.empty]
  stored n e he := absurd he List.not_mem_nil
  ends n e edge he := absurd he List.not_mem_nil
  counts n := rfl

/-! ### Nodes

The new node is at an address that no edge names.
-/

/-- A new node has no edges. -/
theorem edgesAt_alloc (nodes : Store (Node α)) (data : α) :
    edgesAt (nodes.alloc ⟨data, 0, []⟩).1 = edgesAt nodes := by
  funext n
  by_cases hn : n = nodes.next
  · subst hn
    simp [edgesAt, nodes.fresh]
  · simp [edgesAt, Store.get_alloc_ne nodes _ hn]

theorem edgeCountAt_alloc (nodes : Store (Node α)) (data : α) :
    edgeCountAt (nodes.alloc ⟨data, 0, []⟩).1 = edgeCountAt nodes := by
  funext n
  by_cases hn : n = nodes.next
  · subst hn
    simp [edgeCountAt, nodes.fresh]
  · simp [edgeCountAt, Store.get_alloc_ne nodes _ hn]

theorem graphAddNode_spec (h : EdgeLists g) (data : Option α) (createNode push : Bool) :
    ∃ c g', graphAddNode g data createNode push = some (c, g') ∧ EdgeLists g' := by
  cases data with
  | none => exact ⟨_, _, rfl, h⟩
  | some data =>
      cases createNode with
      | false => exact ⟨_, _, rfl, h⟩
      | true =>
          cases push with
          | false =>
              have hfree := Store.free_live (Store.get_alloc_self g.nodes ⟨data, 0, []⟩)
              exact ⟨.failure, { g with nodes := (g.nodes.alloc ⟨data, 0, []⟩).1.drop g.nodes.next },
                by simp [graphAddNode, hfree], h.of_get_eq (Store.get_drop_alloc _ _) rfl⟩
          | true =>
              refine ⟨.success, _, rfl, ?_⟩
              refine ⟨fun n => ?_, ?_, ?_, ?_⟩
              · show ((g.nodes.alloc ⟨data, 0, []⟩).1.get n).isSome ↔ n ∈ g.nodes.next :: g.nodeList
                rw [Store.get_alloc, List.mem_cons, ← h.live n]
                by_cases hn : n = g.nodes.next
                · simp [hn]
                · simp [hn]
              · show Incident (edgesAt (g.nodes.alloc ⟨data, 0, []⟩).1) _ _
                rw [edgesAt_alloc]
                exact h.stored
              · intro n e edge he hedge
                have he' : e ∈ edgesAt (g.nodes.alloc ⟨data, 0, []⟩).1 n := he
                rw [edgesAt_alloc] at he'
                obtain ⟨h1, h2⟩ := h.ends n e edge he' hedge
                exact ⟨List.mem_cons_of_mem _ h1, List.mem_cons_of_mem _ h2⟩
              · intro n
                show edgeCountAt (g.nodes.alloc ⟨data, 0, []⟩).1 n =
                  (edgesAt (g.nodes.alloc ⟨data, 0, []⟩).1 n).length
                rw [edgesAt_alloc, edgeCountAt_alloc]
                exact h.counts n

/-! ### Edges

The nodes are found first, and nothing has changed if one is not.
-/

section Found

variable {customCompare : α → Node α → CompRtns} {data data1 data2 : α} {node1 node2 : Nat}

/-- A node is found by what matches it alone. -/
theorem MatchesOnly.findFirst (hm : MatchesOnly customCompare g data n) {ns : List Nat}
    (hlive : ∀ n ∈ ns, (g.nodes.get n).isSome) :
    findFirstOccurrence customCompare g.nodes data ns =
      some (if n ∈ ns then some n else none) := by
  rw [findFirstOccurrence_spec customCompare data hlive]
  have hpred : ∀ m ∈ ns,
      ((g.nodes.get m).any fun node => customCompare data node = .equal) = true ↔ m = n := by
    intro m hmem
    obtain ⟨node, hnode⟩ := Option.isSome_iff_exists.mp (hlive m hmem)
    rw [hnode, ← hm m node hnode]
    simp
  cases hfind : ns.find? fun m =>
      (g.nodes.get m).any fun node => customCompare data node = .equal with
  | none =>
      rw [if_neg]
      intro hn
      exact List.find?_eq_none.mp hfind n hn ((hpred n hn).mpr rfl)
  | some m =>
      have hm' := List.mem_of_find?_eq_some hfind
      have hmatch := List.find?_some hfind
      obtain rfl := (hpred m hm').mp hmatch
      rw [if_pos hm']

theorem MatchesOnly.findNode (hm : MatchesOnly customCompare g data n)
    (hlive : ∀ n ∈ g.nodeList, (g.nodes.get n).isSome) :
    graphFindNode customCompare g data = some (if n ∈ g.lookedAt then some n else none) :=
  hm.findFirst fun n hn => hlive n (List.mem_of_mem_take hn)

theorem MatchesOnly.findNodes (h1 : MatchesOnly customCompare g data1 node1)
    (h2 : MatchesOnly customCompare g data2 node2)
    (hlive : ∀ n ∈ g.nodeList, (g.nodes.get n).isSome) :
    findNodes customCompare g (some data1) (some data2) =
      some (if node1 ∈ g.lookedAt ∧ node2 ∈ g.lookedAt then some (node1, node2) else none) := by
  by_cases hn1 : node1 ∈ g.lookedAt
  · by_cases hn2 : node2 ∈ g.lookedAt
    · simp [CmakeTemplate.findNodes, h1.findNode hlive, h2.findNode hlive, hn1, hn2]
    · simp [CmakeTemplate.findNodes, h1.findNode hlive, h2.findNode hlive, hn1, hn2]
  · simp [CmakeTemplate.findNodes, h1.findNode hlive, hn1]

end Found

/-- What is found is a node of the graph. -/
theorem EdgeLists.exists_findNode (h : EdgeLists g) (customCompare : α → Node α → CompRtns)
    (data : α) :
    ∃ p, graphFindNode customCompare g data = some p ∧ ∀ n, p = some n → n ∈ g.nodeList := by
  refine ⟨_, graphFindNode_spec customCompare h.alive_nodes data, fun n hn => ?_⟩
  exact List.mem_of_mem_take (List.mem_of_find?_eq_some hn)

theorem findNodes_spec (customCompare : α → Node α → CompRtns) (h : EdgeLists g)
    (data1 data2 : Option α) :
    findNodes customCompare g data1 data2 = some none ∨ ∃ node1 node2,
      findNodes customCompare g data1 data2 = some (some (node1, node2)) ∧
        node1 ∈ g.nodeList ∧ node2 ∈ g.nodeList := by
  cases data1 with
  | none => exact .inl rfl
  | some data1 =>
      cases data2 with
      | none => exact .inl rfl
      | some data2 =>
          obtain ⟨p1, hp1, hmem1⟩ := h.exists_findNode customCompare data1
          obtain ⟨p2, hp2, hmem2⟩ := h.exists_findNode customCompare data2
          cases p1 with
          | none => exact .inl (by simp [findNodes, hp1])
          | some node1 =>
              cases p2 with
              | none => exact .inl (by simp [findNodes, hp1, hp2])
              | some node2 =>
                  exact .inr ⟨node1, node2, by simp [findNodes, hp1, hp2], hmem1 _ rfl, hmem2 _ rfl⟩

/-- No list has an edge yet that is about to be allocated. -/
theorem EdgeLists.count_next (h : EdgeLists g) (n : Nat) :
    (edgesAt g.nodes n).count g.edges.next = 0 :=
  h.stored.count_eq_zero (g.edges.fresh _ (Nat.le_refl _)) n

/-- Lists for the same nodes, with the same data. -/
theorem Listed.rewires_of_sameNodes {nodes : Store (Node α)} {edges : Store Edge}
    (hl : Listed nodes g.nodeList adj) (hdata : SameNodes g.nodes nodes) :
    Rewires g { g with nodes, edges } edges.get adj :=
  ⟨rfl, rfl, hdata, rfl, hl.edges, hl.counts⟩

/-- Lists and data as before. -/
theorem EdgeLists.same (h : EdgeLists g) {nodes : Store (Node α)} {edges : Store Edge}
    (hl : Listed nodes g.nodeList (edgesAt g.nodes)) (hdata : SameNodes g.nodes nodes)
    (hedges : edges.get = g.edges.get) : SameGraph g { g with nodes, edges } := by
  refine ⟨hdata.get_eq hl.edges (funext fun n => ?_), hedges, rfl, rfl⟩
  rw [hl.counts n, h.counts n]

theorem SameGraph.edgeLists {g' : Graph α} (hs : SameGraph g g') (h : EdgeLists g) :
    EdgeLists g' := by
  obtain ⟨nodes, edges, nodeCount, nodeList⟩ := g'
  obtain ⟨hnodes, hedges, rfl, rfl⟩ := hs
  exact h.of_get_eq hnodes hedges

theorem Rewires.edgeLists {g' : Graph α} {edges : Nat → Option Edge}
    (hr : Rewires g g' edges adj) (h : EdgeLists g)
    (hstored : Incident adj edges Edge.occurrences)
    (hends : ∀ n e edge, e ∈ adj n → edges e = some edge →
      edge.node1 ∈ g.nodeList ∧ edge.node2 ∈ g.nodeList) : EdgeLists g' where
  live n := by rw [hr.nodeList, hr.data.isSome, h.live]
  stored := by rw [hr.lists, hr.edges]; exact hstored
  ends := by rw [hr.lists, hr.edges, hr.nodeList]; exact hends
  counts n := by rw [hr.lists, hr.counts]

theorem Gains.edgeLists {g' : Graph α} (hg : Gains g g' edge) (h : EdgeLists g)
    (h1 : edge.node1 ∈ g.nodeList) (h2 : edge.node2 ∈ g.nodeList) : EdgeLists g' := by
  have hnew : Function.update g.edges.get g.edges.next (some edge) g.edges.next = some edge :=
    Function.update_self _ _ _
  have htouch : Touches g.edges.next (edgesAt g.nodes) (edgesAt g.nodes) g.edges.get
      (Function.update g.edges.get g.edges.next (some edge)) :=
    ⟨fun _ _ _ => rfl, fun _ hj => Function.update_of_ne hj _ _⟩
  have hends : ∀ n e other, e = g.edges.next ∨ e ∈ edgesAt g.nodes n →
      Function.update g.edges.get g.edges.next (some edge) e = some other →
      other.node1 ∈ g.nodeList ∧ other.node2 ∈ g.nodeList := by
    intro n e other he hget
    by_cases hne : e = g.edges.next
    · rw [hne, hnew] at hget
      obtain rfl := Option.some.inj hget
      exact ⟨h1, h2⟩
    · rw [Function.update_of_ne hne] at hget
      exact h.ends n e other (he.resolve_left hne) hget
  cases hdir : edge.isDirected with
  | true =>
      rw [Gains, if_pos hdir] at hg
      refine hg.edgeLists h (h.stored.added (htouch.put edge.node1) hnew fun w => ?_)
        fun n e other he => hends n e other (mem_put he)
      simp [count_put, h.count_next, Edge.occurrences, hdir]
  | false =>
      rw [Gains, if_neg (by simp [hdir])] at hg
      refine hg.edgeLists h
        (h.stored.added ((htouch.put edge.node1).put edge.node2) hnew fun w => ?_)
        fun n e other he => hends n e other ((mem_put he).elim .inl mem_put)
      simp [count_put, h.count_next, Edge.occurrences, hdir]

/-- With memory a directed edge is added. -/
theorem addEdge_directed (h : EdgeLists g) {node1 : Nat} (h1 : node1 ∈ g.nodeList) (node2 : Nat)
    (weight : UInt64) (push2 : Bool) :
    ∃ g', addEdge g node1 node2 weight false true true push2 = some (.success, g') ∧
      Gains g g' ⟨node1, node2, weight, true⟩ := by
  obtain ⟨nodes₁, nodes₂, hpush1, hup1, hl1⟩ := h.listed.pushEdge_countUp h1 g.edges.next
  have hdata1 := (SameNodes.pushEdge hpush1).trans (.countUp hup1)
  refine ⟨{ g with nodes := nodes₂, edges := (g.edges.alloc ⟨node1, node2, weight, true⟩).1 },
    by simp [addEdge, hpush1, hup1], ?_⟩
  rw [Gains, ← Store.get_alloc_eq]
  exact hl1.rewires_of_sameNodes hdata1

/-- An edge is added, or nothing has changed. -/
theorem addEdge_spec (h : EdgeLists g) {node1 node2 : Nat} (h1 : node1 ∈ g.nodeList)
    (h2 : node2 ∈ g.nodeList) (weight : UInt64) (isBidirectional calloc push1 push2 : Bool) :
    ∃ c g', addEdge g node1 node2 weight isBidirectional calloc push1 push2 = some (c, g') ∧
      ((c = .success ∧ Gains g g' ⟨node1, node2, weight, !isBidirectional⟩) ∨
        (c ≠ .success ∧ SameGraph g g')) := by
  cases calloc with
  | false => exact ⟨_, _, rfl, .inr ⟨by simp, rfl, rfl, rfl, rfl⟩⟩
  | true =>
      let edge : Edge := ⟨node1, node2, weight, !isBidirectional⟩
      have hnew : (g.edges.alloc edge).1.get g.edges.next = some edge := Store.get_alloc_self _ _
      have hfree := Store.free_live hnew
      cases push1 with
      | false =>
          exact ⟨.failure, { g with edges := (g.edges.alloc edge).1.drop g.edges.next },
            by simp [addEdge, pushEdge, edge, hfree],
            .inr ⟨by simp, rfl, Store.get_drop_alloc _ _, rfl, rfl⟩⟩
      | true =>
          obtain ⟨nodes₁, nodes₂, hpush1, hup1, hl1⟩ := h.listed.pushEdge_countUp h1 g.edges.next
          have hdata1 := (SameNodes.pushEdge hpush1).trans (.countUp hup1)
          cases isBidirectional with
          | false =>
              obtain ⟨g', hadd, hgains⟩ := addEdge_directed h h1 node2 weight push2
              exact ⟨_, g', hadd, .inl ⟨rfl, hgains⟩⟩
          | true =>
              cases push2 with
              | true =>
                  obtain ⟨nodes₃, nodes₄, hpush2, hup2, hl2⟩ := hl1.pushEdge_countUp h2 g.edges.next
                  have hdata2 := (SameNodes.pushEdge hpush2).trans (.countUp hup2)
                  refine ⟨.success, { g with nodes := nodes₄, edges := (g.edges.alloc edge).1 },
                    by simp [addEdge, hpush1, hup1, hpush2, hup2, edge], .inl ⟨rfl, ?_⟩⟩
                  rw [Gains, ← Store.get_alloc_eq]
                  exact hl2.rewires_of_sameNodes (hdata1.trans hdata2)
              | false =>
                  -- the new edge is the first on the list of `node1`
                  have hfirst : (put (edgesAt g.nodes) node1 g.edges.next node1).find?
                      (EqualTo (g.edges.alloc edge).1 edge) = some g.edges.next := by
                    rw [put, Function.update_self]
                    exact List.find?_cons_of_pos (equalTo_self hnew)
                  have halive : ∀ e ∈ put (edgesAt g.nodes) node1 g.edges.next node1,
                      ((g.edges.alloc edge).1.get e).isSome := by
                    intro e he
                    rw [Store.get_alloc]
                    split
                    · rfl
                    · exact h.alive node1 e ((mem_put he).resolve_left (by assumption))
                  obtain ⟨nodes₃, nodes₄, hremove, hdown, hl2⟩ :=
                    hl1.removeData_countDown h1 hnew halive hfirst
                  rw [takeOff_put] at hl2
                  have hdata2 := (SameNodes.removeData hremove).trans (.countDown hdown)
                  refine ⟨.failure, { g with
                    nodes := nodes₄, edges := (g.edges.alloc edge).1.drop g.edges.next }, ?_,
                    .inr ⟨by simp, h.same hl2 (hdata1.trans hdata2) (Store.get_drop_alloc _ _)⟩⟩
                  have hpush2 : pushEdge nodes₂ node2 g.edges.next false =
                      some (.failure, nodes₂) := rfl
                  have hedge : (⟨node1, node2, weight, false⟩ : Edge) = edge := rfl
                  simp [addEdge, hpush1, hup1, hpush2, hremove, hdown, hfree, hedge]

theorem graphAddEdge_spec (customCompare : α → Node α → CompRtns) (h : EdgeLists g)
    (data1 data2 : Option α) (weight : UInt64) (isBidirectional calloc push1 push2 : Bool) :
    ∃ c g', graphAddEdge customCompare g data1 data2 weight isBidirectional calloc push1 push2 =
      some (c, g') ∧ EdgeLists g' := by
  rcases findNodes_spec customCompare h data1 data2 with hnone | ⟨node1, node2, hsome, h1, h2⟩
  · exact ⟨.failure, g, by simp [graphAddEdge, hnone], h⟩
  · obtain ⟨c, g', hadd, hres⟩ := addEdge_spec h h1 h2 weight isBidirectional calloc push1 push2
    refine ⟨c, g', by simp [graphAddEdge, hsome, hadd], ?_⟩
    rcases hres with ⟨-, hgains⟩ | ⟨-, hsame⟩
    · exact hgains.edgeLists h h1 h2
    · exact hsame.edgeLists h

theorem SameGraph.edgesAt {g' : Graph α} (hs : SameGraph g g') :
    edgesAt g'.nodes = edgesAt g.nodes := by
  funext n
  rw [CmakeTemplate.edgesAt, CmakeTemplate.edgesAt, hs.nodes]

/-- Whatever is not found and whichever allocation fails, either the edge is added, in front on
its lists, or everything is as before and the new edge is on no list. -/
theorem graphAddEdge_atomic (customCompare : α → Node α → CompRtns) (h : EdgeLists g)
    (data1 data2 : Option α) (weight : UInt64) (isBidirectional calloc push1 push2 : Bool) :
    ∃ c g', graphAddEdge customCompare g data1 data2 weight isBidirectional calloc push1 push2 =
        some (c, g') ∧
      ((c = .success ∧ ∃ node1 node2,
          findNodes customCompare g data1 data2 = some (some (node1, node2)) ∧
          Gains g g' ⟨node1, node2, weight, !isBidirectional⟩) ∨
        (c ≠ .success ∧ SameGraph g g' ∧ ∀ n, g.edges.next ∉ edgesAt g'.nodes n)) := by
  have hnew : ∀ {g'}, SameGraph g g' → ∀ n, g.edges.next ∉ edgesAt g'.nodes n := by
    intro g' hsame n
    rw [hsame.edgesAt]
    exact List.count_eq_zero.mp (h.count_next n)
  rcases findNodes_spec customCompare h data1 data2 with hnone | ⟨node1, node2, hsome, h1, h2⟩
  · have hsame : SameGraph g g := ⟨rfl, rfl, rfl, rfl⟩
    exact ⟨.failure, g, by simp [graphAddEdge, hnone], .inr ⟨by simp, hsame, hnew hsame⟩⟩
  · obtain ⟨c, g', hadd, hres⟩ := addEdge_spec h h1 h2 weight isBidirectional calloc push1 push2
    refine ⟨c, g', by simp [graphAddEdge, hsome, hadd], ?_⟩
    rcases hres with ⟨hc, hgains⟩ | ⟨hc, hsame⟩
    · exact .inl ⟨hc, node1, node2, hsome, hgains⟩
    · exact .inr ⟨hc, hsame, hnew hsame⟩

/-- An edge from a node to itself, and no memory for its second place on the list. -/
theorem graphAddEdge_atomic_loop :
    ∃ g g' : Graph Nat, graphAddNode graphCreate (some 10) true true = some (.success, g) ∧
      graphAddEdge (fun _ _ => .equal) g (some 10) (some 10) 5 true true true false =
        some (.failure, g') ∧
      SameGraph g g' := by
  obtain ⟨c, g, hg, h⟩ := graphAddNode_spec graphCreate_edgeLists (some 10) true true
  obtain ⟨rfl, rfl⟩ := Prod.mk.inj (Option.some.inj hg)
  obtain ⟨c, g', hadd, hres⟩ := graphAddEdge_atomic (fun _ _ => .equal) h (some 10) (some 10) 5
    true true true false
  have hc : c = .failure := congrArg Prod.fst (Option.some.inj (hadd.symm.trans rfl))
  subst hc
  rcases hres with ⟨hc, -⟩ | ⟨-, hsame, -⟩
  · exact absurd hc (by simp)
  · exact ⟨_, g', rfl, hadd, hsame⟩

end CmakeTemplate
