/-
What `remove_edges` frees, whatever is on the lists.

A removal that succeeds frees the edge its search settles on and no other, and cannot take off a
list what has been freed before, as it would compare it.  So an edge that is freed while it is on a
list stays there, and a search of that list either stops in front of it or has no result.

`RemovesEach` is `remove_edges` without the data: what is found by data is the node it is of.
-/
import CmakeTemplate.GraphT
import CmakeTemplate.Proofs.Graph.Add

namespace CmakeTemplate

open Lib

variable {α : Type} {g g₁ g' : Graph α} {customCompare : α → Node α → CompRtns}
  {nodes nodes' : Store (Node α)} {edges : Store Edge} {edge : Edge} {es : List Nat}
  {n e s x node1 node2 : Nat}

/-! ### Freed edges on a list

A comparison with a freed edge has no result, so what is behind such an edge is never reached.
-/

/-- Some edges are gone from a list, and none of them had been freed. -/
structure Shortens (edges : Store Edge) (es es' : List Nat) : Prop where
  /-- Nothing has been added or moved. -/
  sublist : es'.Sublist es
  /-- What had been freed is still there. -/
  stays : ∀ x ∈ es, edges.get x = none → x ∈ es'

theorem Shortens.refl (edges : Store Edge) (es : List Nat) : Shortens edges es es :=
  ⟨.refl es, fun _ hx _ => hx⟩

theorem Shortens.trans {es' es'' : List Nat} (h : Shortens edges es es')
    (h' : Shortens edges es' es'') : Shortens edges es es'' :=
  ⟨h'.sublist.trans h.sublist, fun x hx hdead => h'.stays x (h.stays x hx hdead) hdead⟩

/-- A freed edge in front of the one that goes would have been compared. -/
theorem removeEqual_shortens {es' : List Nat}
    (hremove : removeEqual edges e es = some (some es')) : Shortens edges es es' := by
  induction es generalizing es' with
  | nil => cases hremove
  | cons c es ih =>
      unfold removeEqual at hremove
      obtain ⟨edgeA, -, hremove⟩ := Option.bind_eq_some_iff.mp hremove
      obtain ⟨edgeB, hc, hremove⟩ := Option.bind_eq_some_iff.mp hremove
      have hbehind : ∀ x ∈ c :: es, edges.get x = none → x ∈ es := by
        intro x hx hdead
        refine (List.mem_cons.mp hx).resolve_left fun hxc => ?_
        rw [← hxc, hdead] at hc
        cases hc
      split at hremove
      · cases hremove
        exact ⟨List.sublist_cons_self c es, hbehind⟩
      · obtain ⟨found, hfound, hmap⟩ := Option.map_eq_some_iff.mp hremove
        obtain ⟨es₁, rfl, rfl⟩ := Option.map_eq_some_iff.mp hmap
        have hes := ih hfound
        exact ⟨hes.sublist.cons_cons c, fun x hx hdead =>
          List.mem_cons_of_mem c (hes.stays x (hbehind x hx hdead) hdead)⟩

theorem removeData_shortens {c : ExitCode}
    (hremove : removeData nodes edges n e = some (c, nodes')) (m : Nat) :
    Shortens edges (edgesAt nodes m) (edgesAt nodes' m) := by
  unfold removeData at hremove
  obtain ⟨node, hnode, hremove⟩ := Option.bind_eq_some_iff.mp hremove
  obtain ⟨found, hfound, hremove⟩ := Option.bind_eq_some_iff.mp hremove
  cases found with
  | none =>
      cases hremove
      exact .refl edges _
  | some es' =>
      obtain ⟨nodes₁, hassign, hpair⟩ := Option.bind_eq_some_iff.mp hremove
      obtain ⟨-, rfl⟩ := Prod.mk.inj (Option.some.inj hpair)
      rw [Store.assign_live _ hnode] at hassign
      obtain rfl := Option.some.inj hassign
      rw [edgesAt_upd hnode]
      by_cases hm : m = n
      · subst hm
        have hlist : edgesAt nodes m = node.edgeList := by simp [edgesAt, hnode]
        rw [Function.update_self, hlist]
        exact removeEqual_shortens hfound
      · rw [Function.update_of_ne hm]
        exact .refl edges _

theorem edgesAt_countDown (h : countDown nodes n = some nodes') :
    edgesAt nodes' = edgesAt nodes := by
  obtain ⟨node, hnode, rfl⟩ := Option.map_eq_some_iff.mp h
  rw [edgesAt_upd hnode]
  refine Function.update_eq_self_iff.mpr ?_
  simp [edgesAt, hnode]

/-- With a freed edge on the list, what is found connects the nodes. -/
theorem findEdgeLoop_freed {p r : Ptr} (hfind : findEdgeLoop edges node1 node2 p es = some r)
    (hx : x ∈ es) (hdead : edges.get x = none) :
    ∃ s edge, r = some s ∧ s ∈ es ∧ edges.get s = some edge ∧ edge.Connects node1 node2 := by
  induction es generalizing p with
  | nil => cases hx
  | cons c es ih =>
      unfold findEdgeLoop at hfind
      obtain ⟨edge, hc, hfind⟩ := Option.bind_eq_some_iff.mp hfind
      split at hfind
      case isTrue hconnects =>
        cases hfind
        exact ⟨c, edge, rfl, List.mem_cons_self, hc, hconnects⟩
      case isFalse =>
        have hmem : x ∈ es := by
          refine (List.mem_cons.mp hx).resolve_left fun hxc => ?_
          rw [← hxc, hdead] at hc
          cases hc
        obtain ⟨s, edge, hr, hs, hget⟩ := ih hfind hmem
        exact ⟨s, edge, hr, List.mem_cons_of_mem c hs, hget⟩

theorem graphFindEdge_freed {r : Ptr} (hfind : graphFindEdge g node1 node2 = some r)
    (hx : x ∈ edgesAt g.nodes node1) (hdead : g.edges.get x = none) :
    ∃ s edge, r = some s ∧ s ∈ edgesAt g.nodes node1 ∧ g.edges.get s = some edge ∧
      edge.Connects node1 node2 := by
  obtain ⟨node, hnode, hfind⟩ := Option.bind_eq_some_iff.mp hfind
  have hlist : edgesAt g.nodes node1 = node.edgeList := by simp [edgesAt, hnode]
  rw [hlist] at hx ⊢
  exact findEdgeLoop_freed hfind hx hdead

/-! ### One removal

A removal that succeeds frees one edge, and takes no freed one off a list.
-/

/-- The edge `s` has been freed, and nothing freed before has been taken off a list. -/
structure Frees (g g' : Graph α) (s : Nat) : Prop where
  /-- The edge is gone, and the others are as they were. -/
  edges : g'.edges.get = Function.update g.edges.get s none
  /-- The nodes are in their order. -/
  nodeList : g'.nodeList = g.nodeList
  /-- As many are counted. -/
  nodeCount : g'.nodeCount = g.nodeCount
  /-- Each has its data. -/
  data : SameNodes g.nodes g'.nodes
  /-- No list has lost what had been freed. -/
  lists : ∀ n, Shortens g.edges (edgesAt g.nodes n) (edgesAt g'.nodes n)

theorem removeEdge_frees {push : Bool}
    (hremove : removeEdge g node1 node2 s push = some (.success, g')) : Frees g g' s := by
  unfold removeEdge at hremove
  obtain ⟨⟨c, nodes₁⟩, hrem1, hremove⟩ := Option.bind_eq_some_iff.mp hremove
  dsimp only at hremove
  split at hremove
  case isFalse hc =>
    cases hremove
    exact absurd rfl hc
  obtain ⟨nodes₂, hdown1, hremove⟩ := Option.bind_eq_some_iff.mp hremove
  obtain ⟨edge, hedge, hremove⟩ := Option.bind_eq_some_iff.mp hremove
  have hdata1 := (SameNodes.removeData hrem1).trans (.countDown hdown1)
  have hlists1 : ∀ n, Shortens g.edges (edgesAt g.nodes n) (edgesAt nodes₂ n) := by
    intro n
    rw [edgesAt_countDown hdown1]
    exact removeData_shortens hrem1 n
  split at hremove
  · rw [Store.free_live hedge] at hremove
    cases hremove
    exact ⟨Store.get_drop_eq _ _, rfl, rfl, hdata1, hlists1⟩
  · obtain ⟨⟨c₂, nodes₃⟩, hrem2, hremove⟩ := Option.bind_eq_some_iff.mp hremove
    dsimp only at hremove
    split at hremove
    · obtain ⟨nodes₄, hdown2, hremove⟩ := Option.bind_eq_some_iff.mp hremove
      rw [Store.free_live hedge] at hremove
      cases hremove
      refine ⟨Store.get_drop_eq _ _, rfl, rfl,
        hdata1.trans ((SameNodes.removeData hrem2).trans (.countDown hdown2)), fun n => ?_⟩
      show Shortens g.edges _ (edgesAt nodes₄ n)
      rw [edgesAt_countDown hdown2]
      exact (hlists1 n).trans (removeData_shortens hrem2 n)
    case isFalse hc =>
      obtain ⟨⟨c₃, nodes₄⟩, -, hremove⟩ := Option.bind_eq_some_iff.mp hremove
      obtain ⟨nodes₅, -, hremove⟩ := Option.bind_eq_some_iff.mp hremove
      cases hremove
      exact absurd rfl hc

namespace Frees

theorem get_ne (h : Frees g g' s) (he : e ≠ s) : g'.edges.get e = g.edges.get e := by
  rw [h.edges, Function.update_of_ne he]

theorem get_self (h : Frees g g' s) : g'.edges.get s = none := by
  rw [h.edges, Function.update_self]

theorem ne_of_live (h : Frees g g' s) (he : (g'.edges.get e).isSome) : e ≠ s := by
  rintro rfl
  rw [h.get_self] at he
  cases he

/-- An edge that is there is as it was. -/
theorem get_of_some (h : Frees g g' s) (he : g'.edges.get e = some edge) :
    g.edges.get e = some edge := by
  rw [← h.get_ne (h.ne_of_live (by rw [he]; rfl)), he]

theorem get_of_none (h : Frees g g' s) (he : g.edges.get e = none) : g'.edges.get e = none := by
  by_cases hes : e = s
  · rw [hes, h.get_self]
  · rw [h.get_ne hes, he]

theorem lookedAt (h : Frees g g' s) : g'.lookedAt = g.lookedAt := by
  rw [Graph.lookedAt, Graph.lookedAt, h.nodeList]

theorem dataAt (h : Frees g g' s) (n : Nat) : g'.dataAt n = g.dataAt n := h.data n

end Frees

/-! ### One after the other

What holds of one removal is carried along a run of them.
-/

/-- For each of the edges, the one that a search for an edge with the same ends settles on is
removed. -/
inductive RemovesEach (push : Nat → Bool) : Graph α → List Nat → Graph α → Prop
  | nil (g : Graph α) : RemovesEach push g [] g
  | cons {g g₁ g' : Graph α} {e s : Nat} {edge : Edge} {rest : List Nat}
      (hedge : g.edges.get e = some edge)
      (hlooked : edge.node1 ∈ g.lookedAt ∧ edge.node2 ∈ g.lookedAt)
      (hfind : graphFindEdge g edge.node1 edge.node2 = some (some s))
      (hremove : removeEdge g edge.node1 edge.node2 s (push rest.length) = some (.success, g₁))
      (hrest : RemovesEach push g₁ rest g') : RemovesEach push g (e :: rest) g'

namespace RemovesEach

variable {push : Nat → Bool}

/-- Each edge is read when its turn comes. -/
theorem live (h : RemovesEach push g es g') : ∀ e ∈ es, (g.edges.get e).isSome := by
  induction h with
  | nil g => simp
  | cons hedge _ _ hremove _ ih =>
      refine List.forall_mem_cons.mpr ⟨by rw [hedge]; rfl, fun e he => ?_⟩
      obtain ⟨edge, hlive⟩ := Option.isSome_iff_exists.mp (ih e he)
      rw [(removeEdge_frees hremove).get_of_some hlive]
      rfl

/-- The nodes of each edge are looked at. -/
theorem mem_lookedAt (h : RemovesEach push g es g') : ∀ e ∈ es, ∀ edge, g.edges.get e = some edge →
    edge.node1 ∈ g.lookedAt ∧ edge.node2 ∈ g.lookedAt := by
  induction h with
  | nil g => simp
  | cons hedge hlooked _ hremove hrest ih =>
      have hfrees := removeEdge_frees hremove
      refine List.forall_mem_cons.mpr ⟨fun edge' hedge' => ?_, fun e he edge' hedge' => ?_⟩
      · obtain rfl := Option.some.inj (hedge.symm.trans hedge')
        exact hlooked
      · rw [← hfrees.lookedAt]
        exact ih e he edge' (by rw [hfrees.get_ne (hfrees.ne_of_live (hrest.live e he)), hedge'])

theorem nodeList (h : RemovesEach push g es g') : g'.nodeList = g.nodeList := by
  induction h with
  | nil g => rfl
  | cons _ _ _ hremove _ ih => rw [ih, (removeEdge_frees hremove).nodeList]

theorem nodeCount (h : RemovesEach push g es g') : g'.nodeCount = g.nodeCount := by
  induction h with
  | nil g => rfl
  | cons _ _ _ hremove _ ih => rw [ih, (removeEdge_frees hremove).nodeCount]

theorem data (h : RemovesEach push g es g') : SameNodes g.nodes g'.nodes := by
  induction h with
  | nil g => exact .refl g.nodes
  | cons _ _ _ hremove _ ih => exact (removeEdge_frees hremove).data.trans ih

theorem get_of_none (h : RemovesEach push g es g') (he : g.edges.get e = none) :
    g'.edges.get e = none := by
  induction h with
  | nil g => exact he
  | cons _ _ _ hremove _ ih => exact ih ((removeEdge_frees hremove).get_of_none he)

/-- A freed edge on a list is never taken off it. -/
theorem stays (h : RemovesEach push g es g') (he : e ∈ edgesAt g.nodes n)
    (hdead : g.edges.get e = none) : e ∈ edgesAt g'.nodes n := by
  induction h with
  | nil g => exact he
  | cons _ _ _ hremove _ ih =>
      have hfrees := removeEdge_frees hremove
      exact ih ((hfrees.lists n).stays e he hdead) (hfrees.get_of_none hdead)

/-- No more edges are freed than there are removals. -/
theorem length_le (h : RemovesEach push g es g') {freed : List Nat} (hnd : freed.Nodup)
    (hlive : ∀ x ∈ freed, (g.edges.get x).isSome) (hdead : ∀ x ∈ freed, g'.edges.get x = none) :
    freed.length ≤ es.length := by
  induction h generalizing freed with
  | nil g =>
      cases freed with
      | nil => exact Nat.le_refl _
      | cons x freed =>
          have hx := hlive x List.mem_cons_self
          rw [hdead x List.mem_cons_self] at hx
          cases hx
  | @cons g g₁ g' e s edge rest _ _ _ hremove _ ih =>
      have hfrees := removeEdge_frees hremove
      have hothers : (freed.erase s).length ≤ rest.length := by
        refine ih (hnd.erase s) (fun x hx => ?_) fun x hx => hdead x (List.mem_of_mem_erase hx)
        obtain ⟨hne, hmem⟩ := hnd.mem_erase_iff.mp hx
        rw [hfrees.get_ne hne]
        exact hlive x hmem
      have herase : freed.length ≤ (freed.erase s).length + 1 := by
        rw [List.length_erase]
        split <;> omega
      rw [List.length_cons]
      omega

end RemovesEach

/-! ### By data

The source looks for an edge by the data of its ends; with a callback that tells the nodes
apart, that is a search by the nodes.
-/

theorem MatchesData.matchesOnly {data : α} (h : MatchesData customCompare g)
    (hn : g.dataAt n = some data) : MatchesOnly customCompare g data n := by
  intro m node hnode
  have hm : g.dataAt m = some node.data := by rw [Graph.dataAt, hnode]; rfl
  rw [h.same]
  constructor
  · intro heq
    exact h.distinct m n data (heq ▸ hm) hn
  · rintro rfl
    exact Option.some.inj (hm.symm.trans hn)

theorem Frees.matchesData (hfrees : Frees g g' s) (h : MatchesData customCompare g) :
    MatchesData customCompare g' where
  same := h.same
  distinct m n data hm hn :=
    h.distinct m n data (hfrees.dataAt m ▸ hm) (hfrees.dataAt n ▸ hn)

theorem Frees.alive_nodes (hfrees : Frees g g' s)
    (h : ∀ n ∈ g.nodeList, (g.nodes.get n).isSome) :
    ∀ n ∈ g'.nodeList, (g'.nodes.get n).isSome := by
  intro n hn
  rw [hfrees.data.isSome]
  exact h n (hfrees.nodeList ▸ hn)

namespace RemovesEach

variable {push : Nat → Bool}

theorem alive_nodes (h : RemovesEach push g es g')
    (hlive : ∀ n ∈ g.nodeList, (g.nodes.get n).isSome) :
    ∀ n ∈ g'.nodeList, (g'.nodes.get n).isSome := by
  induction h with
  | nil g => exact hlive
  | cons _ _ _ hremove _ ih => exact ih ((removeEdge_frees hremove).alive_nodes hlive)

theorem matchesData (h : RemovesEach push g es g') (hmatch : MatchesData customCompare g) :
    MatchesData customCompare g' := by
  induction h with
  | nil g => exact hmatch
  | cons _ _ _ hremove _ ih => exact ih ((removeEdge_frees hremove).matchesData hmatch)

end RemovesEach

theorem exists_data (hlive : ∀ n ∈ g.nodeList, (g.nodes.get n).isSome) (hn : n ∈ g.nodeList) :
    ∃ node, g.nodes.get n = some node ∧ g.dataAt n = some node.data := by
  obtain ⟨node, hnode⟩ := Option.isSome_iff_exists.mp (hlive n hn)
  exact ⟨node, hnode, by rw [Graph.dataAt, hnode]; rfl⟩

/-- The nodes are found, and the edge that the search settles on is removed. -/
theorem graphRemoveEdge_iff {data1 data2 : α} {push : Bool}
    (hlive : ∀ n ∈ g.nodeList, (g.nodes.get n).isSome)
    (h1 : MatchesOnly customCompare g data1 node1) (h2 : MatchesOnly customCompare g data2 node2) :
    graphRemoveEdge customCompare g (some data1) (some data2) push = some (.success, g') ↔
      (node1 ∈ g.lookedAt ∧ node2 ∈ g.lookedAt) ∧
        ∃ s, graphFindEdge g node1 node2 = some (some s) ∧
          removeEdge g node1 node2 s push = some (.success, g') := by
  have hfound := h1.findNodes h2 hlive
  by_cases hlooked : node1 ∈ g.lookedAt ∧ node2 ∈ g.lookedAt
  · rw [if_pos hlooked] at hfound
    rw [and_iff_right hlooked]
    cases hfind : graphFindEdge g node1 node2 with
    | none => simp [graphRemoveEdge, hfound, hfind]
    | some p =>
        cases p with
        | none => simp [graphRemoveEdge, hfound, hfind]
        | some s => simp [graphRemoveEdge, hfound, hfind]
  · rw [if_neg hlooked] at hfound
    simp [graphRemoveEdge, hfound, hlooked]

theorem removeEdges_iff {push : Nat → Bool} (hlive : ∀ n ∈ g.nodeList, (g.nodes.get n).isSome)
    (hmatch : MatchesData customCompare g) :
    removeEdges customCompare push g es = some (.success, g') ↔ RemovesEach push g es g' := by
  induction es generalizing g with
  | nil =>
      constructor
      · intro h
        cases h
        exact .nil _
      · intro h
        cases h
        rfl
  | cons e rest ih =>
      constructor
      · intro h
        unfold removeEdges at h
        obtain ⟨edge, hedge, h⟩ := Option.bind_eq_some_iff.mp h
        obtain ⟨n1, hn1, h⟩ := Option.bind_eq_some_iff.mp h
        obtain ⟨n2, hn2, h⟩ := Option.bind_eq_some_iff.mp h
        obtain ⟨⟨c, g₁⟩, hremove, h⟩ := Option.bind_eq_some_iff.mp h
        dsimp only at h
        split at h
        case isFalse hc =>
          cases h
          exact absurd rfl hc
        case isTrue hc =>
          subst hc
          have h1 : g.dataAt edge.node1 = some n1.data := by rw [Graph.dataAt, hn1]; rfl
          have h2 : g.dataAt edge.node2 = some n2.data := by rw [Graph.dataAt, hn2]; rfl
          obtain ⟨hlooked, s, hfind, hremove⟩ :=
            (graphRemoveEdge_iff hlive (hmatch.matchesOnly h1) (hmatch.matchesOnly h2)).mp hremove
          have hfrees := removeEdge_frees hremove
          exact .cons hedge hlooked hfind hremove
            ((ih (hfrees.alive_nodes hlive) (hfrees.matchesData hmatch)).mp h)
      · intro h
        cases h with
        | cons hedge hlooked hfind hremove hrest =>
            obtain ⟨n1, hn1, h1⟩ := exists_data hlive (List.mem_of_mem_take hlooked.1)
            obtain ⟨n2, hn2, h2⟩ := exists_data hlive (List.mem_of_mem_take hlooked.2)
            have hcall := (graphRemoveEdge_iff hlive (hmatch.matchesOnly h1)
              (hmatch.matchesOnly h2)).mpr ⟨hlooked, _, hfind, hremove⟩
            have hfrees := removeEdge_frees hremove
            have hcalls := (ih (hfrees.alive_nodes hlive) (hfrees.matchesData hmatch)).mpr hrest
            simp [removeEdges, hedge, hn1, hn2, hcall, hcalls]

end CmakeTemplate
