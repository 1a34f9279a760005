/-
Which edge `graph_remove_edge` removes.

The call is given the data of two nodes, and should remove an edge between them, or fail and
change nothing.  The first edge that connects the nodes is the first EQUAL one on the list it
was found on, but need not be on the other list, where an edge with the same two ends may
stand in front of it.  When none connects them the search settles on the last edge of the
list, and that edge is removed instead, unless it is on no second list and goes back in front.

`RemovesOnlyNamed` is what the lists have to be for the call to do what it should, and it is
exact.  It is about the lists before the call; which edge is freed and which is taken off
follows from it.
-/
import CmakeTemplate.Proofs.Graph.EdgeLists

namespace CmakeTemplate

open Lib

variable {α : Type} {g g' : Graph α} {customCompare : α → Node α → CompRtns} {e f : Nat}
  {edge other : Edge} {node1 node2 : Nat} {push : Bool} {c : ExitCode}

/-! ### Edges with the same ends

EQUAL compares the two ends in either order, so it is a matter of which ends two edges have.
-/

/-- An edge that is EQUAL to one that connects the nodes connects them, if it starts there. -/
theorem Edge.Connects.of_equal (hc : edge.Connects node1 node2)
    (heq : edgeCompare edge other = .equal)
    (hend : node1 = other.node1 ∨ (other.isDirected = false ∧ node1 = other.node2)) :
    other.Connects node1 node2 := by
  have hends : (edge.node1 = other.node1 ∧ edge.node2 = other.node2) ∨
      (edge.node1 = other.node2 ∧ edge.node2 = other.node1 ∧ edge.isDirected = false) := by
    by_contra hno
    rw [edgeCompare, if_neg hno] at heq
    cases heq
  unfold Edge.Connects at hc ⊢
  grind

/-- A bidirectional edge that is EQUAL to one on each of two lists connects their nodes. -/
theorem Edge.connects_of_ends (hbi : edge.isDirected = false)
    (heq : edgeCompare edge other = .equal)
    (h1 : node1 = edge.node1 ∨ (edge.isDirected = false ∧ node1 = edge.node2))
    (h2 : node2 = other.node1 ∨ (other.isDirected = false ∧ node2 = other.node2))
    (hne : node1 ≠ node2) : edge.Connects node1 node2 := by
  have hends : (edge.node1 = other.node1 ∧ edge.node2 = other.node2) ∨
      (edge.node1 = other.node2 ∧ edge.node2 = other.node1 ∧ edge.isDirected = false) := by
    by_contra hno
    rw [edgeCompare, if_neg hno] at heq
    cases heq
  unfold Edge.Connects
  grind

theorem equalTo_iff : EqualTo g.edges edge f = true ↔
    ∃ other, g.edges.get f = some other ∧ edgeCompare edge other = .equal := by
  simp [EqualTo, Option.any_eq_true]

theorem connectsAt_iff : ConnectsAt g.edges node1 node2 e = true ↔
    ∃ edge, g.edges.get e = some edge ∧ edge.Connects node1 node2 := by
  simp [ConnectsAt, Option.any_eq_true]

namespace EdgeLists

/-- The first edge that connects the nodes is the first EQUAL one on the list. -/
theorem find?_connects (h : EdgeLists g)
    (hfind : (edgesAt g.nodes node1).find? (ConnectsAt g.edges node1 node2) = some e)
    (hedge : g.edges.get e = some edge) :
    (edgesAt g.nodes node1).find? (EqualTo g.edges edge) = some e := by
  obtain ⟨hc, xs, ys, hlist, hxs⟩ := List.find?_eq_some_iff_append.mp hfind
  refine List.find?_eq_some_iff_append.mpr ⟨equalTo_self hedge, xs, ys, hlist, ?_⟩
  intro x hx
  have hno : ¬ EqualTo g.edges edge x = true := by
    intro heq
    obtain ⟨edge', hedge', hconnects⟩ := connectsAt_iff.mp hc
    obtain rfl := Option.some.inj (hedge.symm.trans hedge')
    obtain ⟨other, hother, heq⟩ := equalTo_iff.mp heq
    have hmem : x ∈ edgesAt g.nodes node1 := by
      rw [hlist]
      exact List.mem_append_left _ hx
    have hthere := connectsAt_iff.mpr
      ⟨other, hother, hconnects.of_equal heq (h.end_of_mem hmem hother)⟩
    simpa [hthere] using hxs x hx
  simpa using hno

/-- A bidirectional edge that connects the nodes is still on the second list. -/
theorem mem_takeOff_connects (h : EdgeLists g) (he : e ∈ edgesAt g.nodes node1)
    (hedge : g.edges.get e = some edge) (hbi : edge.isDirected = false)
    (hc : edge.Connects node1 node2) : e ∈ takeOff (edgesAt g.nodes) node1 e node2 := by
  have htake := count_takeOff he node2 e
  rw [h.stored.count_eq he hedge] at htake
  rw [← List.count_pos_iff]
  unfold Edge.Connects at hc
  simp only [Edge.occurrences, hbi, true_and, and_true] at htake
  split_ifs at htake <;> grind

end EdgeLists

/-! ### Removing it, or another one

What the call leaves is compared with the loss of one edge, list by list.
-/

/-- The edge that is freed is the one that is gone from the lists. -/
theorem Loses.takeOff_eq {nodes : Store (Node α)} {f₂ e' : Nat} {edge' : Edge}
    (hl : Listed nodes g.nodeList (takeOff (takeOff (edgesAt g.nodes) node1 e) node2 f₂))
    (he : e ∈ takeOff (edgesAt g.nodes) node1 e node2) (hedge : g.edges.get e = some edge)
    (hbi : edge.isDirected = false) (hf₂ : f₂ ∈ takeOff (edgesAt g.nodes) node1 e node2)
    (hedge' : g.edges.get e' = some edge')
    (hloses : Loses g { g with nodes, edges := g.edges.drop e } node1 node2 e' edge') :
    f₂ = e := by
  have hsame : e' = e := by
    by_contra hne
    have hget := congrFun hloses.edges e
    rw [Function.update_of_ne (Ne.symm hne), hedge] at hget
    simp at hget
  subst hsame
  obtain rfl := Option.some.inj (hedge.symm.trans hedge')
  have hlists := hloses.lists
  rw [if_neg (by simp [hbi])] at hlists
  by_contra hne
  have hone := count_takeOff hf₂ node2 e'
  have htwo := count_takeOff he node2 e'
  have hthree := congrFun (hl.edges.symm.trans hlists) node2
  rw [hthree] at hone
  simp only [and_self, if_true, true_and] at hone htwo
  rw [if_neg fun hc => hne hc.symm] at hone
  omega

theorem RemovesNamed.of_connects {e : Nat} {edge : Edge} (hmem : e ∈ edgesAt g.nodes node1)
    (hedge : g.edges.get e = some edge) (hc : edge.Connects node1 node2)
    (hloses : Loses g g' node1 node2 e edge) : RemovesNamed g node1 node2 .success g' := by
  refine ⟨fun _ => ⟨rfl, e, edge, hmem, hedge, hc, hloses⟩, fun hnone => ?_⟩
  have hthere := connectsAt_iff.mpr ⟨edge, hedge, hc⟩
  rw [hnone e hmem] at hthere
  cases hthere

/-- A connecting edge has been found. -/
theorem Removal.named_iff_of_connects (h : EdgeLists g)
    (hfind : (edgesAt g.nodes node1).find? (ConnectsAt g.edges node1 node2) = some e)
    (hedge : g.edges.get e = some edge) (hdata : SameNodes g.nodes g'.nodes)
    (hrem : Removal g node1 node2 e e edge push c g') :
    RemovesNamed g node1 node2 c g' ↔ (edge.isDirected = false →
      (takeOff (edgesAt g.nodes) node1 e node2).find? (EqualTo g.edges edge) = some e) := by
  have hmem := List.mem_of_find?_eq_some hfind
  obtain ⟨edge', hedge', hconnects⟩ := connectsAt_iff.mp (List.find?_some hfind)
  obtain rfl := Option.some.inj (hedge.symm.trans hedge')
  cases hrem with
  | directed hdir hl =>
      refine iff_of_true (.of_connects hmem hedge hconnects ?_) (by simp [hdir])
      rw [Loses, if_pos hdir, ← Store.get_drop_eq]
      exact hl.rewires_of_sameNodes hdata
  | @bidirectional nodes f₂ hbi hf₂ hl =>
      have hthere := h.mem_takeOff_connects hmem hedge hbi hconnects
      have hf₂mem := List.mem_of_find?_eq_some hf₂
      rw [hf₂, Option.some.injEq]
      constructor
      · intro hnamed _
        obtain ⟨-, e', edge', hmem', hedge', -, hloses⟩ :=
          hnamed.removed ⟨e, hmem, List.find?_some hfind⟩
        exact Loses.takeOff_eq hl hthere hedge hbi hf₂mem hedge' hloses
      · intro heq
        obtain rfl := heq hbi
        refine .of_connects hmem hedge hconnects ?_
        rw [Loses, if_neg (by simp [hbi]), ← Store.get_drop_eq]
        exact hl.rewires_of_sameNodes hdata
  | putBack hbi hnone hpush hl =>
      have hthere := h.mem_takeOff_connects hmem hedge hbi hconnects
      exact absurd (equalTo_self hedge) (List.find?_eq_none.mp hnone e hthere)
  | lost hbi hnone hpush hcount =>
      have hthere := h.mem_takeOff_connects hmem hedge hbi hconnects
      exact absurd (equalTo_self hedge) (List.find?_eq_none.mp hnone e hthere)

/-- The only edge of a list, if it does not connect the nodes, is EQUAL to none on the second. -/
theorem EdgeLists.second_missing (h : EdgeLists g)
    (hhead : (edgesAt g.nodes node1).head? = some e)
    (hlast : (edgesAt g.nodes node1).getLast? = some e) (hedge : g.edges.get e = some edge)
    (hbi : edge.isDirected = false) (hnot : ¬ edge.Connects node1 node2) :
    (takeOff (edgesAt g.nodes) node1 e node2).find? (EqualTo g.edges edge) = none := by
  have hmem := List.mem_of_getLast? hlast
  rw [List.find?_eq_none]
  intro f hmem₂ hf
  obtain ⟨other, hother, heq⟩ := equalTo_iff.mp hf
  by_cases hne : node1 = node2
  · -- the edge has been taken off the one list
    subst hne
    have hcount : (edgesAt g.nodes node1).count e = 1 := by
      have hend := h.end_of_mem hmem hedge
      rw [h.stored.count_eq hmem hedge]
      unfold Edge.Connects at hnot
      simp only [Edge.occurrences, hbi, true_and] at hend ⊢
      split_ifs <;> grind
    obtain ⟨rest, hlist⟩ := List.head?_eq_some_iff.mp hhead
    rw [hlist, List.count_cons_self, Nat.add_eq_right, List.count_eq_zero] at hcount
    have hrest : rest = [] := by
      by_contra hcons
      rw [hlist, List.getLast?_cons_of_ne_nil hcons] at hlast
      exact hcount (List.mem_of_getLast? hlast)
    rw [takeOff, Function.update_self, hlist, hrest, List.erase_cons_head] at hmem₂
    cases hmem₂
  · have hend := h.end_of_mem (mem_of_mem_takeOff hmem₂) hother
    exact hnot (Edge.connects_of_ends hbi heq (h.end_of_mem hmem hedge) hend hne)

/-- None has been found, and the last edge of the list is removed. -/
theorem Removal.named_iff_of_missing (h : EdgeLists g)
    (hfind : (edgesAt g.nodes node1).find? (ConnectsAt g.edges node1 node2) = none)
    (hlast : (edgesAt g.nodes node1).getLast? = some e) (hedge : g.edges.get e = some edge)
    (hf : (edgesAt g.nodes node1).find? (EqualTo g.edges edge) = some f)
    (hrem : Removal g node1 node2 e f edge push c g') :
    RemovesNamed g node1 node2 c g' ↔
      push = true ∧ (edgesAt g.nodes node1).head? = some e ∧ edge.isDirected = false := by
  have hmem := List.mem_of_getLast? hlast
  have hmissing : ∀ e ∈ edgesAt g.nodes node1, ConnectsAt g.edges node1 node2 e = false := by
    simpa using List.find?_eq_none.mp hfind
  have hnot : ¬ edge.Connects node1 node2 := by
    intro hc
    have hthere := connectsAt_iff.mpr ⟨edge, hedge, hc⟩
    rw [hmissing e hmem] at hthere
    cases hthere
  have hnamed : RemovesNamed g node1 node2 c g' ↔ c ≠ .success ∧
      edgesAt g'.nodes = edgesAt g.nodes ∧ edgeCountAt g'.nodes = edgeCountAt g.nodes := by
    refine ⟨fun hr => hr.missing hmissing, fun hr => ⟨fun hc => ?_, fun _ => hr⟩⟩
    obtain ⟨e', he', hc⟩ := hc
    rw [hmissing e' he'] at hc
    cases hc
  -- with `e` in front as well, `f` is `e`, and the edge is not taken off a second list
  have hfront : (edgesAt g.nodes node1).head? = some e → f = e := by
    intro hhead
    obtain ⟨rest, hlist⟩ := List.head?_eq_some_iff.mp hhead
    rw [hlist, List.find?_cons_of_pos (equalTo_self hedge)] at hf
    exact (Option.some.inj hf).symm
  rw [hnamed]
  cases hrem with
  | directed hdir hl => simp [hdir]
  | @bidirectional nodes f₂ hbi hf₂ hl =>
      refine iff_of_false (by simp) ?_
      intro hcond
      obtain ⟨-, hhead, -⟩ := hcond
      obtain rfl := hfront hhead
      rw [h.second_missing hhead hlast hedge hbi hnot] at hf₂
      cases hf₂
  | @putBack nodes hbi hnone hpush hl =>
      have hcounts : edgeCountAt nodes = edgeCountAt g.nodes ↔ ∀ n,
          (put (takeOff (edgesAt g.nodes) node1 f) node1 e n).length =
            (edgesAt g.nodes n).length := by
        rw [funext_iff]
        refine forall_congr' fun n => ?_
        rw [hl.counts, h.counts]
      constructor
      · intro hr
        obtain ⟨-, hlists, -⟩ := hr
        rw [hl.edges] at hlists
        have hhere := congrFun hlists node1
        rw [put, Function.update_self] at hhere
        exact ⟨hpush, by rw [← hhere]; rfl, hbi⟩
      · intro hcond
        obtain ⟨-, hhead, -⟩ := hcond
        obtain rfl := hfront hhead
        have hback := put_takeOff hhead
        refine ⟨by simp, by rw [hl.edges, hback], hcounts.mpr ?_⟩
        rw [hback]
        exact fun _ => rfl
  | @lost nodes hbi hnone hpush hcount =>
      refine iff_of_false ?_ (by simp [hpush])
      intro hr
      obtain ⟨-, hlists, hcounts⟩ := hr
      refine hcount ?_
      rw [hlists, hcounts, h.counts]

/-! ### The call

With both nodes found, the condition is about the edges on their lists.
-/

/-- The named edge is removed, or nothing is changed, exactly under the condition. -/
theorem graphRemoveEdge_named_iff {data1 data2 : α} (h : EdgeLists g) (h1 : node1 ∈ g.nodeList)
    (h2 : node2 ∈ g.nodeList) (hm1 : MatchesOnly customCompare g data1 node1)
    (hm2 : MatchesOnly customCompare g data2 node2) (push : Bool) :
    ∃ c g', graphRemoveEdge customCompare g (some data1) (some data2) push = some (c, g') ∧
      (RemovesNamed g node1 node2 c g' ↔ RemovesOnlyNamed g node1 node2 push) := by
  have hfound := hm1.findNodes hm2 h.alive_nodes
  by_cases hlooked : node1 ∈ g.lookedAt ∧ node2 ∈ g.lookedAt
  · rw [if_pos hlooked] at hfound
    have hsettled := graphFindEdge_spec h h1 node2
    cases hset : settled g node1 node2 with
    | none =>
        obtain ⟨hfind, hlast⟩ := Option.or_eq_none_iff.mp hset
        have hnil := List.getLast?_eq_none_iff.mp hlast
        refine ⟨.failure, g, by simp [graphRemoveEdge, hfound, hsettled, hset], ?_⟩
        rw [RemovesOnlyNamed, hfind]
        refine iff_of_true ⟨fun hc => ?_, fun _ => ⟨by simp, rfl, rfl⟩⟩ fun _ => .inl hnil
        obtain ⟨e, he, -⟩ := hc
        rw [hnil] at he
        cases he
    | some e =>
        have hmem := settled_mem hset
        obtain ⟨edge, hedge, -⟩ := h.stored node1 e hmem
        obtain ⟨f, c, g', hf, hremove, hdata, hrem⟩ := removeEdge_spec h h1 h2 push hmem hedge
        refine ⟨c, g', by simp [graphRemoveEdge, hfound, hsettled, hset, hremove], ?_⟩
        cases hfind : (edgesAt g.nodes node1).find? (ConnectsAt g.edges node1 node2) with
        | some e' =>
            rw [settled, hfind, Option.some_or, Option.some.injEq] at hset
            subst hset
            rw [h.find?_connects hfind hedge, Option.some.injEq] at hf
            subst hf
            rw [hrem.named_iff_of_connects h hfind hedge hdata, RemovesOnlyNamed, hfind]
            refine ⟨fun hitself => ⟨hlooked, fun edge' hedge' => ?_⟩, fun hc => hc.2 edge hedge⟩
            obtain rfl := Option.some.inj (hedge.symm.trans hedge')
            exact hitself
        | none =>
            rw [settled, hfind, Option.none_or] at hset
            rw [hrem.named_iff_of_missing h hfind hset hedge hf, RemovesOnlyNamed, hfind]
            constructor
            · intro hcond
              exact fun _ => .inr ⟨hcond.1, e, edge, hcond.2.1, hset, hedge, hcond.2.2⟩
            · intro hcond
              rcases hcond hlooked with hnil | ⟨hpush, e', edge', hhead, hlast, hedge', hbi⟩
              · rw [hnil] at hmem
                cases hmem
              · obtain rfl := Option.some.inj (hset.symm.trans hlast)
                obtain rfl := Option.some.inj (hedge.symm.trans hedge')
                exact ⟨hpush, hhead, hbi⟩
  · rw [if_neg hlooked] at hfound
    refine ⟨.failure, g, by simp [graphRemoveEdge, hfound], ?_⟩
    cases hfind : (edgesAt g.nodes node1).find? (ConnectsAt g.edges node1 node2) with
    | some e =>
        rw [RemovesOnlyNamed, hfind]
        refine iff_of_false (fun hr => ?_) fun hc => hlooked hc.1
        obtain ⟨hc, -⟩ := hr.removed ⟨e, List.mem_of_find?_eq_some hfind, List.find?_some hfind⟩
        cases hc
    | none =>
        rw [RemovesOnlyNamed, hfind]
        refine iff_of_true ⟨fun hc => ?_, fun _ => ⟨by simp, rfl, rfl⟩⟩ fun hl => absurd hl hlooked
        obtain ⟨e, he, hconnects⟩ := hc
        exact absurd hconnects (List.find?_eq_none.mp hfind e he)

/-- Two edges between two nodes. -/
theorem graphRemoveEdge_named_run :
    ∃ g, (graphSystem dataCompare).run graphCreate [.addNode (some 10) true true,
        .addNode (some 20) true true, .addEdge (some 10) (some 20) 5 true true true true,
        .addEdge (some 10) (some 20) 7 false true true true] = some g ∧
      ∃ c g', graphRemoveEdge dataCompare g (some 10) (some 20) true = some (c, g') ∧
        RemovesNamed g 0 1 c g' := by
  obtain ⟨g, hrun, hnodes, h0, h1, hlist, hedge⟩ : ∃ g, (graphSystem dataCompare).run graphCreate
      [.addNode (some 10) true true, .addNode (some 20) true true,
        .addEdge (some 10) (some 20) 5 true true true true,
        .addEdge (some 10) (some 20) 7 false true true true] = some g ∧ g.nodeList = [1, 0] ∧
      (g.nodes.get 0).map Node.data = some 10 ∧ (g.nodes.get 1).map Node.data = some 20 ∧
      edgesAt g.nodes 0 = [1, 0] ∧ g.edges.get 1 = some ⟨0, 1, 7, true⟩ :=
    ⟨_, rfl, rfl, rfl, rfl, rfl, rfl⟩
  have hreach := System.ReachIf.run (C := KeepsEdgeLists dataCompare) (.init rfl)
    (by simp [KeepsEdgeLists]) hrun
  have h := (graphSystem_edgeLists dataCompare hreach).1
  have hm0 : MatchesOnly dataCompare g 10 0 := h.matchesOnly (by
    simp only [hnodes, List.forall_mem_cons, h0, h1]
    simp)
  have hm1 : MatchesOnly dataCompare g 20 1 := h.matchesOnly (by
    simp only [hnodes, List.forall_mem_cons, h0, h1]
    simp)
  obtain ⟨c, g', hremove, hiff⟩ := graphRemoveEdge_named_iff h (by simp [hnodes])
    (by simp [hnodes]) hm0 hm1 true
  refine ⟨g, hrun, c, g', hremove, hiff.mpr ?_⟩
  have hconnects : ConnectsAt g.edges 0 1 1 = true :=
    connectsAt_iff.mpr ⟨_, hedge, .inl ⟨rfl, rfl⟩⟩
  rw [RemovesOnlyNamed, hlist, List.find?_cons_of_pos hconnects]
  refine ⟨by simp [Graph.lookedAt, hnodes], fun edge hget hbi => ?_⟩
  rw [hedge] at hget
  obtain rfl := Option.some.inj hget
  cases hbi

/-- One edge, and another one to be removed. -/
theorem other_edge_removed :
    ¬ ∀ (customCompare : Nat → Node Nat → CompRtns) (g : Graph Nat) (node1 node2 data1 data2 : Nat),
      EdgeLists g → node1 ∈ g.nodeList → node2 ∈ g.nodeList →
      MatchesOnly customCompare g data1 node1 → MatchesOnly customCompare g data2 node2 →
      ∃ c g', graphRemoveEdge customCompare g (some data1) (some data2) true = some (c, g') ∧
        RemovesNamed g node1 node2 c g' := by
  intro hall
  obtain ⟨g, hrun, hnodes, h0, h1, h2, hlist, hedge, hcode⟩ :
      ∃ g, (graphSystem dataCompare).run graphCreate
      [.addNode (some 10) true true, .addNode (some 20) true true, .addNode (some 30) true true,
        .addEdge (some 10) (some 20) 5 false true true true] = some g ∧ g.nodeList = [2, 1, 0] ∧
      (g.nodes.get 0).map Node.data = some 10 ∧ (g.nodes.get 1).map Node.data = some 20 ∧
      (g.nodes.get 2).map Node.data = some 30 ∧
      edgesAt g.nodes 0 = [0] ∧ g.edges.get 0 = some ⟨0, 1, 5, true⟩ ∧
      (graphRemoveEdge dataCompare g (some 10) (some 30) true).map Prod.fst = some .success :=
    ⟨_, rfl, rfl, rfl, rfl, rfl, rfl, rfl, rfl⟩
  have hreach := System.ReachIf.run (C := KeepsEdgeLists dataCompare) (.init rfl)
    (by simp [KeepsEdgeLists]) hrun
  have h := (graphSystem_edgeLists dataCompare hreach).1
  have hm0 : MatchesOnly dataCompare g 10 0 := h.matchesOnly (by
    simp only [hnodes, List.forall_mem_cons, h0, h1, h2]
    simp)
  have hm2 : MatchesOnly dataCompare g 30 2 := h.matchesOnly (by
    simp only [hnodes, List.forall_mem_cons, h0, h1, h2]
    simp)
  obtain ⟨c, g', hremove, hnamed⟩ := hall dataCompare g 0 2 10 30 h (by simp [hnodes])
    (by simp [hnodes]) hm0 hm2
  have hmissing : ∀ e ∈ edgesAt g.nodes 0, ConnectsAt g.edges 0 2 e = false := by
    intro e he
    rw [hlist, List.mem_singleton] at he
    rw [he, ConnectsAt, hedge]
    rfl
  obtain ⟨hc, -⟩ := hnamed.missing hmissing
  rw [hremove] at hcode
  exact hc (Option.some.inj hcode)

end CmakeTemplate
