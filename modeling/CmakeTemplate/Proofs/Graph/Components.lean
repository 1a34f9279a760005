/-
Searches of a graph with bidirectional edges.

An edge is on the lists of both its ends, but a search goes to its second node from either: on
the list of that node it leads nowhere.  So a search goes along the edges the way they were
given when they were added, and it crosses them both ways just where there is a way round.

A search that reaches what it should is a statement about two nodes at a time: it acts on the
one from the other if it does so the other way round, and on just the nodes of the component.
Both follow from a way back along each edge, and the first alone gives one.  The nodes are
told apart by their data, and a search finds its start by them, so the callback has to match
one node for each datum.
-/
import CmakeTemplate.Proofs.Graph.Dfs
import CmakeTemplate.Proofs.Graph.Directed

namespace CmakeTemplate

open Lib

variable {α : Type} {g : Graph α} {customCompare : α → Node α → CompRtns} {P : Edge → Prop}
  {m n u v : Nat}

/-! ### Where the lists lead

The edges that have been added are known by their ends.
-/

theorem GrownGraph.adjacent_nexts (h : GrownGraph P g) (hadj : g.Adjacent m n) :
    n ∈ nexts g m := by
  obtain ⟨e, edge, hedge, rfl, rfl⟩ := hadj
  exact mem_nexts.mpr ⟨e, h.listed e edge hedge, edge, hedge, rfl⟩

theorem GrownGraph.adjacent_mem (h : GrownGraph P g) (hadj : g.Adjacent m n) :
    m ∈ g.nodeList ∧ n ∈ g.nodeList := by
  obtain ⟨e, edge, hedge, rfl, rfl⟩ := hadj
  exact h.edgeLists.ends _ e edge (h.listed e edge hedge) hedge

/-- An edge on a list leads along itself, or to where it is. -/
theorem EdgeLists.nexts_adjacent (h : EdgeLists g) (hn : n ∈ nexts g m) :
    g.Adjacent m n ∨ n = m := by
  obtain ⟨e, he, edge, hedge, rfl⟩ := mem_nexts.mp hn
  rcases h.end_of_mem he hedge with h1 | h2
  · exact .inl ⟨e, edge, hedge, h1.symm, rfl⟩
  · exact .inr h2.2.symm

theorem GrownGraph.reaches_nexts (h : GrownGraph P g) :
    Reaches (fun m n => n ∈ nexts g m) u v ↔ Reaches g.Adjacent u v := by
  constructor
  · intro huv
    induction huv with
    | refl => exact .refl
    | tail _ hstep ih =>
        rcases h.edgeLists.nexts_adjacent hstep with hadj | rfl
        · exact ih.tail hadj
        · exact ih
  · exact Relation.ReflTransGen.mono (fun _ _ => h.adjacent_nexts) u v

/-! ### What a search acts on

Acting on a node is having visited it.
-/

variable {search : Option α → Option (ExitCode × List α × Graph α)}

theorem EdgeLists.mem_of_dataAt (h : EdgeLists g) {data : α} (hdata : g.dataAt n = some data) :
    n ∈ g.nodeList := by
  obtain ⟨node, hnode, -⟩ := Option.map_eq_some_iff.mp hdata
  exact (h.live n).mp (by rw [hnode]; rfl)

theorem EdgeLists.exists_dataAt (h : EdgeLists g) (hn : n ∈ g.nodeList) :
    ∃ data, g.dataAt n = some data := by
  obtain ⟨node, hnode, -⟩ := h.listed.node hn
  exact ⟨node.data, by rw [Graph.dataAt, hnode]; rfl⟩

/-- Two nodes with the same data would both match it. -/
theorem dataAt_inj (hmatch : ∀ n data, g.dataAt n = some data → MatchesOnly customCompare g data n)
    {data : α} (hm : g.dataAt m = some data) (hn : g.dataAt n = some data) : m = n := by
  obtain ⟨node, hnode, -⟩ := Option.map_eq_some_iff.mp hm
  exact (hmatch n data hn m node hnode).mp ((hmatch m data hm m node hnode).mpr rfl)

theorem Visits.actsOn_iff {result : Option (ExitCode × List α × Graph α)} {order : List Nat}
    (hv : Visits g u result order)
    (hmatch : ∀ n data, g.dataAt n = some data → MatchesOnly customCompare g data n) :
    ActsOn g result n ↔ n ∈ order := by
  obtain ⟨acted, hresult, hacted⟩ := hv.success
  constructor
  · intro hacts
    obtain ⟨c, acted', g', data, hresult', hdata, hmem⟩ := hacts
    rw [hresult, Option.some.injEq, Prod.mk.injEq, Prod.mk.injEq] at hresult'
    obtain ⟨-, rfl, -⟩ := hresult'
    have hin : some data ∈ order.map g.dataAt := hacted ▸ List.mem_map_of_mem hmem
    obtain ⟨m, hm, hmdata⟩ := List.mem_map.mp hin
    exact dataAt_inj hmatch hmdata hdata ▸ hm
  · intro hn
    have hin : g.dataAt n ∈ acted.map some := hacted.symm ▸ List.mem_map_of_mem hn
    obtain ⟨data, hmem, hdata⟩ := List.mem_map.mp hin
    exact ⟨_, acted, g, data, hresult, hdata.symm, hmem⟩

/-- `action` tells the nodes apart. -/
theorem order_inj (hmatch : ∀ n data, g.dataAt n = some data → MatchesOnly customCompare g data n)
    {acted : List α} {order order' : List Nat} (h : acted.map some = order.map g.dataAt)
    (h' : acted.map some = order'.map g.dataAt) : order = order' := by
  induction acted generalizing order order' with
  | nil => rw [List.map_eq_nil_iff.mp h.symm, List.map_eq_nil_iff.mp h'.symm]
  | cons data acted ih =>
      obtain ⟨n, order, rfl, hn, h⟩ := List.map_eq_cons_iff.mp h.symm
      obtain ⟨n', order', rfl, hn', h'⟩ := List.map_eq_cons_iff.mp h'.symm
      rw [dataAt_inj hmatch hn hn', ih h.symm h'.symm]

theorem Visits.unique {result : Option (ExitCode × List α × Graph α)} {order order' : List Nat}
    (hv : Visits g u result order) (hv' : Visits g v result order')
    (hmatch : ∀ n data, g.dataAt n = some data → MatchesOnly customCompare g data n) :
    order = order' := by
  obtain ⟨acted, hresult, hacted⟩ := hv.success
  obtain ⟨acted', hresult', hacted'⟩ := hv'.success
  rw [hresult, Option.some.injEq, Prod.mk.injEq, Prod.mk.injEq] at hresult'
  obtain ⟨-, rfl, -⟩ := hresult'
  exact order_inj hmatch hacted hacted'

/-- With a way back along each edge a search acts on what is connected with the start. -/
theorem GrownGraph.crossesBothWays (h : GrownGraph P g)
    (hmatch : ∀ n data, g.dataAt n = some data → MatchesOnly customCompare g data n)
    (hback : ∀ u v, g.Adjacent u v → Reaches g.Adjacent v u)
    (hsearch : ∀ u ∈ g.nodeList, ∀ data, g.dataAt u = some data →
      ∃ order, Visits g u (search (some data)) order) :
    CrossesBothWays g search := by
  have hcomponent : ∀ u ∈ g.nodeList, ∀ v,
      ActsOn g (search (g.dataAt u)) v ↔ g.Connected u v := by
    intro u hu v
    obtain ⟨data, hdata⟩ := h.edgeLists.exists_dataAt hu
    obtain ⟨order, hv⟩ := hsearch u hu data hdata
    rw [hdata, hv.actsOn_iff hmatch, hv.reached, h.reaches_nexts]
    exact (connected_iff_reaches hback).symm
  refine ⟨?_, hcomponent⟩
  intro u hu v hv
  rw [hcomponent u hu, hcomponent v hv]
  exact ⟨.symm u v, .symm v u⟩

/-! ### Graphs with bidirectional edges

What a run of additions leaves, and when a search of it crosses both ways.
-/

theorem graphSystem_bidirectional (h : (graphSystem customCompare).ReachIf OnlyBidirectional g) :
    GrownGraph (fun edge => edge.isDirected = false) g := by
  refine graphSystem_grown (fun g op honly => ?_) h
  cases op with
  | addNode data createNode push => trivial
  | addEdge data1 data2 weight isBidirectional calloc push1 push2 =>
      intro node1 node2
      have hbi : isBidirectional = true := honly
      rw [hbi]
      rfl
  | removeEdge data1 data2 push => exact honly.elim

/-- From a node that is not looked at, no search begins. -/
theorem exists_not_lookedAt (h : GrownGraph P g) (hlarge : ¬ g.nodeList.length < 2 ^ 32) :
    ∃ n ∈ g.nodeList, n ∉ g.lookedAt := by
  by_contra hall
  have hsub : g.nodeList ⊆ g.lookedAt := by
    intro n hn
    by_contra hnot
    exact hall ⟨n, hn, hnot⟩
  have hle := (List.subperm_of_subset h.nodup hsub).length_le
  have hlt := Nat.mod_lt g.nodeList.length (Nat.two_pow_pos 32)
  rw [Graph.lookedAt, List.length_take] at hle
  omega

/-- In a graph with bidirectional edges only, the searches cross them both ways just when there is a
way back along each edge as it was given. -/
theorem searches_crossBothWays_iff (h : (graphSystem customCompare).ReachIf OnlyBidirectional g)
    (hmatch : ∀ n data, g.dataAt n = some data → MatchesOnly customCompare g data n) :
    (CrossesBothWays g (fun data => graphBfs customCompare g data fun _ => true) ∧
      (g.nodeList.length ≤ maxStackSize.toNat →
        CrossesBothWays g (fun data => graphDfs customCompare g data fun _ => true))) ↔
    g.nodeList.length < 2 ^ 32 ∧ ∀ u v, g.Adjacent u v → Reaches g.Adjacent v u := by
  have hgrown := graphSystem_bidirectional h
  constructor
  · intro hcross
    have hcomponent := hcross.1.component
    have hsmall : g.nodeList.length < 2 ^ 32 := by
      by_contra hlarge
      obtain ⟨n, hn, hnot⟩ := exists_not_lookedAt hgrown hlarge
      obtain ⟨data, hdata⟩ := hgrown.edgeLists.exists_dataAt hn
      obtain ⟨c, acted, g', d, hresult, -, hmem⟩ := (hcomponent n hn n).mpr (.refl n)
      have hfind := (hmatch n data hdata).findNode hgrown.edgeLists.alive_nodes
      rw [if_neg hnot] at hfind
      simp only [hdata, graphBfs, hfind, if_true, Option.bind_eq_bind, Option.bind_some,
        Option.some.injEq, Prod.mk.injEq] at hresult
      obtain ⟨-, rfl, -⟩ := hresult
      cases hmem
    refine ⟨hsmall, ?_⟩
    intro u v hadj
    have hv := (hgrown.adjacent_mem hadj).2
    obtain ⟨data, hdata⟩ := hgrown.edgeLists.exists_dataAt hv
    obtain ⟨order, horder⟩ :=
      graphBfs_visits hgrown.edgeLists hsmall hv (hmatch v data hdata)
    have hacts := (hcomponent v hv u).mpr (.symm u v (.rel u v hadj))
    rw [hdata, horder.actsOn_iff hmatch, horder.reached, hgrown.reaches_nexts] at hacts
    exact hacts
  · intro hcond
    obtain ⟨hsmall, hback⟩ := hcond
    refine ⟨?_, fun hfew => ?_⟩
    · refine hgrown.crossesBothWays hmatch hback fun u hu data hdata => ?_
      exact graphBfs_visits hgrown.edgeLists hsmall hu (hmatch u data hdata)
    · refine hgrown.crossesBothWays hmatch hback fun u hu data hdata => ?_
      exact graphDfs_visits hgrown.edgeLists hfew hu (hmatch u data hdata)

/-- With `dataCompare` different data are found apart. -/
theorem EdgeLists.matchesOnly_of_nodup {g : Graph Nat} (h : EdgeLists g)
    (hnodup : (g.nodeList.map g.dataAt).Nodup) :
    ∀ n data, g.dataAt n = some data → MatchesOnly dataCompare g data n := by
  intro n data hdata
  have hn := h.mem_of_dataAt hdata
  refine h.matchesOnly fun m hm => ?_
  constructor
  · intro heq
    exact List.inj_on_of_nodup_map hnodup hm hn (heq.trans hdata.symm)
  · intro hmn
    rw [hmn]
    exact hdata

/-- Three nodes and the way round: an edge given from each to the next. -/
theorem searches_crossBothWays_ring :
    ∃ g, (graphSystem dataCompare).run graphCreate [.addNode (some 10) true true,
        .addNode (some 20) true true, .addNode (some 30) true true,
        .addEdge (some 10) (some 20) 1 true true true true,
        .addEdge (some 20) (some 30) 1 true true true true,
        .addEdge (some 30) (some 10) 1 true true true true] = some g ∧
      CrossesBothWays g (fun data => graphBfs dataCompare g data fun _ => true) ∧
      CrossesBothWays g (fun data => graphDfs dataCompare g data fun _ => true) := by
  obtain ⟨g, hrun, hlength, hdata, he0, he1, he2, hnext⟩ : ∃ g,
      (graphSystem dataCompare).run graphCreate [.addNode (some 10) true true,
        .addNode (some 20) true true, .addNode (some 30) true true,
        .addEdge (some 10) (some 20) 1 true true true true,
        .addEdge (some 20) (some 30) 1 true true true true,
        .addEdge (some 30) (some 10) 1 true true true true] = some g ∧ g.nodeList.length = 3 ∧
      g.nodeList.map g.dataAt = [some 30, some 20, some 10] ∧
      g.edges.get 0 = some ⟨0, 1, 1, false⟩ ∧ g.edges.get 1 = some ⟨1, 2, 1, false⟩ ∧
      g.edges.get 2 = some ⟨2, 0, 1, false⟩ ∧ g.edges.next = 3 :=
    ⟨_, rfl, rfl, rfl, rfl, rfl, rfl, rfl⟩
  have hreach := System.ReachIf.run (C := OnlyBidirectional) (.init rfl)
    (by simp [OnlyBidirectional]) hrun
  have hmatch := (graphSystem_bidirectional hreach).edgeLists.matchesOnly_of_nodup (by simp [hdata])
  have h01 : g.Adjacent 0 1 := ⟨0, _, he0, rfl, rfl⟩
  have h12 : g.Adjacent 1 2 := ⟨1, _, he1, rfl, rfl⟩
  have h20 : g.Adjacent 2 0 := ⟨2, _, he2, rfl, rfl⟩
  have hback : ∀ u v, g.Adjacent u v → Reaches g.Adjacent v u := by
    intro u v hadj
    obtain ⟨e, edge, hedge, rfl, rfl⟩ := hadj
    have he : e < 3 := hnext ▸ Store.lt_next hedge
    obtain rfl | rfl | rfl : e = 0 ∨ e = 1 ∨ e = 2 := by omega
    · rw [← Option.some.inj (he0.symm.trans hedge)]
      exact .tail (.single h12) h20
    · rw [← Option.some.inj (he1.symm.trans hedge)]
      exact .tail (.single h20) h01
    · rw [← Option.some.inj (he2.symm.trans hedge)]
      exact .tail (.single h01) h12
  have hcross := (searches_crossBothWays_iff hreach hmatch).mpr ⟨by simp [hlength], hback⟩
  exact ⟨g, hrun, hcross.1, hcross.2 (by simp [hlength, maxStackSize])⟩

/-- The edge is crossed from its first node to its second, and not back. -/
theorem second_node_stays :
    ¬ ∀ (customCompare : Nat → Node Nat → CompRtns) (g : Graph Nat),
      (graphSystem customCompare).ReachIf OnlyBidirectional g →
      (∀ n data, g.dataAt n = some data → MatchesOnly customCompare g data n) →
      CrossesBothWays g (fun data => graphBfs customCompare g data fun _ => true) ∧
        (g.nodeList.length ≤ maxStackSize.toNat →
          CrossesBothWays g (fun data => graphDfs customCompare g data fun _ => true)) := by
  intro hall
  obtain ⟨g, hrun, hlist, h0, h1, hforth, hback⟩ : ∃ g, (graphSystem dataCompare).run graphCreate
      [.addNode (some 10) true true, .addNode (some 20) true true,
        .addEdge (some 10) (some 20) 1 true true true true] = some g ∧ g.nodeList = [1, 0] ∧
      g.dataAt 0 = some 10 ∧ g.dataAt 1 = some 20 ∧
      graphBfs dataCompare g (some 10) (fun _ => true) = some (.success, [10, 20], g) ∧
      graphBfs dataCompare g (some 20) (fun _ => true) = some (.success, [20], g) :=
    ⟨_, rfl, rfl, rfl, rfl, rfl, rfl⟩
  have hreach := System.ReachIf.run (C := OnlyBidirectional) (.init rfl)
    (by simp [OnlyBidirectional]) hrun
  have hmatch := (graphSystem_bidirectional hreach).edgeLists.matchesOnly_of_nodup
    (by simp [hlist, h0, h1])
  obtain ⟨hbfs, -⟩ := hall dataCompare g hreach hmatch
  have hacts : ActsOn g (graphBfs dataCompare g (g.dataAt 0) fun _ => true) 1 :=
    ⟨_, _, _, _, by rw [h0]; exact hforth, h1, by simp⟩
  obtain ⟨c, acted, g', data, hresult, hdata, hmem⟩ :=
    (hbfs.symmetric 0 (by simp [hlist]) 1 (by simp [hlist])).mp hacts
  simp only [h1, hback, Option.some.injEq, Prod.mk.injEq] at hresult
  obtain ⟨-, rfl, -⟩ := hresult
  rw [h0] at hdata
  obtain rfl := Option.some.inj hdata
  simp at hmem

end CmakeTemplate
