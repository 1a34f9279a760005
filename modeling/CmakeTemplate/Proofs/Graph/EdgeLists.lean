/-
The edge lists of a graph stay right as long as every removal removes the edge it settles on.

`removeEdge_iff` says that the condition is exact.  If `list_remove_data` comes upon another
edge, the one that is freed stays on a list (a bidirectional edge is on two, and at most one
of the two removals can have been of it); and if the rollback has no memory, a count is
left without its edge.
-/
import CmakeTemplate.Proofs.Graph.Add

namespace CmakeTemplate

open Lib

variable {α : Type} {g : Graph α} {n e f : Nat} {edge : Edge} {adj : Nat → List Nat}

/-! ### Where an edge belongs

How often an edge is on a list is decided by its ends and its direction, so there are few
cases.
-/

theorem ite_and_le (p q : Prop) [Decidable p] [Decidable q] :
    (if p ∧ q then 1 else 0) ≤ if p then 1 else 0 := by
  by_cases hp : p
  · rw [if_pos hp]
    split
    · exact Nat.le_refl _
    · exact Nat.zero_le _
  · rw [if_neg hp, if_neg fun hc => hp hc.1]

/-- A bidirectional edge does not belong on one list once. -/
theorem Edge.not_one_end (hbi : edge.isDirected = false) (n : Nat)
    (hle : ∀ w, edge.occurrences w ≤ if w = n then 1 else 0) : False := by
  have h1 := hle edge.node1
  have h2 := hle edge.node2
  simp only [Edge.occurrences, hbi, true_and, if_true] at h1 h2
  split_ifs at h1 h2 <;> omega

/-- A directed edge that belongs on a list belongs on no other. -/
theorem Edge.occurrences_directed (hdir : edge.isDirected = true) (hn : 0 < edge.occurrences n)
    (w : Nat) : edge.occurrences w = if w = n then 1 else 0 := by
  simp only [Edge.occurrences, hdir, Bool.true_eq_false, false_and, if_false, Nat.add_zero] at hn ⊢
  split_ifs at hn ⊢ <;> omega

/-- A bidirectional edge that belongs on two lists, or twice on one, belongs on no other. -/
theorem Edge.occurrences_bidirectional {m : Nat} (hbi : edge.isDirected = false)
    (hn : 0 < edge.occurrences n) (hm : (if m = n then 1 else 0) < edge.occurrences m) (w : Nat) :
    edge.occurrences w = (if w = n then 1 else 0) + if w = m then 1 else 0 := by
  have hocc : ∀ v, edge.occurrences v =
      (if v = edge.node1 then 1 else 0) + if v = edge.node2 then 1 else 0 := by
    intro v
    simp only [Edge.occurrences, hbi, true_and]
  rw [hocc] at hn hm ⊢
  by_cases hfirst : n = edge.node1
  · subst hfirst
    have hsecond : m = edge.node2 := by
      by_contra hc
      rw [if_neg hc, Nat.add_zero] at hm
      exact absurd hm (Nat.lt_irrefl _)
    rw [hsecond]
  · have hsecond : n = edge.node2 := by
      by_contra hc
      rw [if_neg hfirst, if_neg hc] at hn
      exact absurd hn (Nat.lt_irrefl _)
    subst hsecond
    have hother : m = edge.node1 := by
      by_contra hc
      rw [if_neg hc, Nat.zero_add] at hm
      exact absurd hm (Nat.lt_irrefl _)
    rw [hother, Nat.add_comm]

namespace EdgeLists

theorem not_of_freed (h' : EdgeLists g) (he : g.edges.get e = none) (n : Nat) :
    (edgesAt g.nodes n).count e = 0 :=
  h'.stored.count_eq_zero he n

/-- An edge that has been taken off all its lists is freed. -/
theorem edgeLists_drop (h : EdgeLists g) {nodes : Store (Node α)} (hl : Listed nodes g.nodeList adj)
    (ht : Touches e (edgesAt g.nodes) adj g.edges.get (g.edges.drop e).get)
    (hgone : ∀ w, (adj w).count e = 0) : EdgeLists { g with nodes, edges := g.edges.drop e } := by
  refine of_listed hl (h.stored.gone ht hgone) fun n j other hj hget => ?_
  have hje : j ≠ e := by
    rintro rfl
    exact absurd hj (List.count_eq_zero.mp (hgone n))
  rw [Store.get_drop_ne _ hje] at hget
  exact h.ends n j other ((ht.mem hje).mp hj) hget

theorem touches_drop (g : Graph α) (e : Nat) :
    Touches e (edgesAt g.nodes) (edgesAt g.nodes) g.edges.get (g.edges.drop e).get :=
  ⟨fun _ _ _ => rfl, fun _ hj => Store.get_drop_ne _ hj⟩

end EdgeLists

/-! ### Removing an edge

`list_remove_data` takes off the first EQUAL edge, which is another one than was found or the
same.  The cases are followed through both lists and the rollback.
-/

/-- The removal of the edge `e`, which settles the search. -/
theorem removesItself_iff {node1 node2 : Nat} {push : Bool}
    (hset : settled g node1 node2 = some e) (he : g.edges.get e = some edge) :
    RemovesItself g node1 node2 push ↔
      (edgesAt g.nodes node1).find? (EqualTo g.edges edge) = some e ∧
      (edge.isDirected = false →
        match (takeOff (edgesAt g.nodes) node1 e node2).find? (EqualTo g.edges edge) with
        | some f => f = e
        | none => push = true) := by
  refine ⟨fun h => h e edge hset he, fun h e' edge' hset' he' => ?_⟩
  obtain rfl := Option.some.inj (hset.symm.trans hset')
  obtain rfl := Option.some.inj (he.symm.trans he')
  exact h

theorem settled_mem {node1 node2 : Nat} (hset : settled g node1 node2 = some e) :
    e ∈ edgesAt g.nodes node1 := by
  rcases Option.or_eq_some_iff.mp hset with hfind | ⟨-, hlast⟩
  · exact List.mem_of_find?_eq_some hfind
  · exact List.mem_of_getLast? hlast

namespace EdgeLists

variable {nodes : Store (Node α)} {node1 node2 f₂ : Nat}

/-- A directed edge has been freed, and `f` taken off the list. -/
theorem directed_iff (h : EdgeLists g) (he : g.edges.get e = some edge)
    (hdir : edge.isDirected = true) (hmem : e ∈ edgesAt g.nodes node1)
    (hf : f ∈ edgesAt g.nodes node1)
    (hl : Listed nodes g.nodeList (takeOff (edgesAt g.nodes) node1 f)) :
    EdgeLists { g with nodes, edges := g.edges.drop e } ↔ f = e := by
  have hcount : ∀ w, (edgesAt g.nodes w).count e = edge.occurrences w := h.stored.count_eq hmem he
  constructor
  · intro h'
    by_contra hne
    have hgone := h'.not_of_freed (Store.get_drop_self _ _) node1
    have htake := count_takeOff hf node1 e
    rw [← hl.edges, hgone, if_neg fun hc => hne hc.2.symm] at htake
    exact absurd (List.count_pos_iff.mpr hmem) (by omega)
  · rintro rfl
    refine h.edgeLists_drop hl ((touches_drop g f).takeOff hf) fun w => ?_
    have htake := count_takeOff hf w f
    have hocc := Edge.occurrences_directed hdir
      (hcount node1 ▸ List.count_pos_iff.mpr hmem) w
    rw [hcount, hocc] at htake
    simp only [and_true] at htake
    omega

/-- A bidirectional edge has been freed, and `f` and `f₂` taken off its lists. -/
theorem bidirectional_iff (h : EdgeLists g) (he : g.edges.get e = some edge)
    (hbi : edge.isDirected = false) (hmem : e ∈ edgesAt g.nodes node1)
    (hf : f ∈ edgesAt g.nodes node1) (hf₂ : f₂ ∈ takeOff (edgesAt g.nodes) node1 f node2)
    (hl : Listed nodes g.nodeList (takeOff (takeOff (edgesAt g.nodes) node1 f) node2 f₂)) :
    EdgeLists { g with nodes, edges := g.edges.drop e } ↔ f = e ∧ f₂ = e := by
  have hcount : ∀ w, (edgesAt g.nodes w).count e = edge.occurrences w := h.stored.count_eq hmem he
  have hsum : ∀ w, (takeOff (takeOff (edgesAt g.nodes) node1 f) node2 f₂ w).count e +
      (if w = node2 ∧ e = f₂ then 1 else 0) + (if w = node1 ∧ e = f then 1 else 0) =
        edge.occurrences w := by
    intro w
    rw [count_takeOff hf₂, count_takeOff hf, hcount]
  constructor
  · intro h'
    -- one removal does not take `e` off all the lists it belongs on
    have hle : ∀ w, edge.occurrences w =
        (if w = node2 ∧ e = f₂ then 1 else 0) + if w = node1 ∧ e = f then 1 else 0 := by
      intro w
      have hgone := h'.not_of_freed (Store.get_drop_self _ _) w
      rw [← hsum w, ← hl.edges, hgone, Nat.zero_add]
    refine ⟨Eq.symm (by_contra fun hne => edge.not_one_end hbi node2 fun w => ?_),
      Eq.symm (by_contra fun hne => edge.not_one_end hbi node1 fun w => ?_)⟩
    · rw [hle w, if_neg (fun hc : w = node1 ∧ e = f => hne hc.2), Nat.add_zero]
      exact ite_and_le _ _
    · rw [hle w, if_neg (fun hc : w = node2 ∧ e = f₂ => hne hc.2), Nat.zero_add]
      exact ite_and_le _ _
  · rintro ⟨rfl, rfl⟩
    have htouch := (touches_drop g f₂).takeOff hf
    refine h.edgeLists_drop hl (htouch.takeOff hf₂) fun w => ?_
    have hat1 : 0 < edge.occurrences node1 := hcount node1 ▸ List.count_pos_iff.mpr hmem
    have hat2 : (if node2 = node1 then 1 else 0) < edge.occurrences node2 := by
      have htake := count_takeOff hf node2 f₂
      simp only [and_true, hcount] at htake
      have := List.count_pos_iff.mpr hf₂
      omega
    have := hsum w
    rw [Edge.occurrences_bidirectional hbi hat1 hat2 w] at this
    simp only [and_true] at this
    omega

/-- `f` has been taken off the list, and `e` put back. -/
theorem rollback_iff (h : EdgeLists g) (he : g.edges.get e = some edge)
    (hmem : e ∈ edgesAt g.nodes node1) (hf : f ∈ edgesAt g.nodes node1)
    (hl : Listed nodes g.nodeList (put (takeOff (edgesAt g.nodes) node1 f) node1 e)) :
    EdgeLists { g with nodes } ↔ f = e := by
  have hcount : ∀ w, (edgesAt g.nodes w).count e = edge.occurrences w := h.stored.count_eq hmem he
  have hback : ∀ w, (put (takeOff (edgesAt g.nodes) node1 f) node1 e w).count e +
      (if w = node1 ∧ e = f then 1 else 0) = edge.occurrences w + if w = node1 then 1 else 0 := by
    intro w
    have htake := count_takeOff hf w e
    rw [count_put, ← hcount]
    simp only [and_true]
    omega
  constructor
  · intro h'
    by_contra hne
    have hhere : e ∈ edgesAt nodes node1 := by
      rw [hl.edges, put, Function.update_self]
      exact List.mem_cons_self
    have hsame : (edgesAt nodes node1).count e = edge.occurrences node1 :=
      h'.stored.count_eq hhere he node1
    have hmore := hback node1
    rw [if_neg fun hc => hne hc.2.symm, if_pos rfl, ← hl.edges] at hmore
    omega
  · rintro rfl
    have htouch : Touches f (edgesAt g.nodes) (edgesAt g.nodes) g.edges.get g.edges.get :=
      ⟨fun _ _ _ => rfl, fun _ _ => rfl⟩
    show EdgeLists { g with nodes := nodes, edges := g.edges }
    refine of_listed hl
      (h.stored.added ((htouch.takeOff hf).put node1) he fun w => ?_) fun n j other hj hget => ?_
    · have hmore := hback w
      simp only [and_true] at hmore
      omega
    · rcases mem_put hj with rfl | hj
      · exact h.ends node1 j other hmem hget
      · exact h.ends n j other (mem_of_mem_takeOff hj) hget

end EdgeLists

/-- The ways a removal of the edge `e` can go, when `f` is the first EQUAL edge on the list of
`node1`. -/
inductive Removal (g : Graph α) (node1 node2 e f : Nat) (edge : Edge) (push : Bool) :
    ExitCode → Graph α → Prop
  | directed {nodes : Store (Node α)} (hdir : edge.isDirected = true)
      (hl : Listed nodes g.nodeList (takeOff (edgesAt g.nodes) node1 f)) :
      Removal g node1 node2 e f edge push .success { g with nodes, edges := g.edges.drop e }
  | bidirectional {nodes : Store (Node α)} {f₂ : Nat} (hbi : edge.isDirected = false)
      (hf₂ : (takeOff (edgesAt g.nodes) node1 f node2).find? (EqualTo g.edges edge) = some f₂)
      (hl : Listed nodes g.nodeList
        (takeOff (takeOff (edgesAt g.nodes) node1 f) node2 f₂)) :
      Removal g node1 node2 e f edge push .success { g with nodes, edges := g.edges.drop e }
  | putBack {nodes : Store (Node α)} (hbi : edge.isDirected = false)
      (hnone : (takeOff (edgesAt g.nodes) node1 f node2).find? (EqualTo g.edges edge) = none)
      (hpush : push = true)
      (hl : Listed nodes g.nodeList (put (takeOff (edgesAt g.nodes) node1 f) node1 e)) :
      Removal g node1 node2 e f edge push .failure { g with nodes }
  | lost {nodes : Store (Node α)} (hbi : edge.isDirected = false)
      (hnone : (takeOff (edgesAt g.nodes) node1 f node2).find? (EqualTo g.edges edge) = none)
      (hpush : push = false)
      (hcount : edgeCountAt nodes node1 ≠ (edgesAt nodes node1).length) :
      Removal g node1 node2 e f edge push .failure { g with nodes }

theorem removeEdge_spec (h : EdgeLists g) {node1 node2 : Nat} (h1 : node1 ∈ g.nodeList)
    (h2 : node2 ∈ g.nodeList) (push : Bool) (hmem : e ∈ edgesAt g.nodes node1)
    (hedge : g.edges.get e = some edge) :
    ∃ f c g', (edgesAt g.nodes node1).find? (EqualTo g.edges edge) = some f ∧
      removeEdge g node1 node2 e push = some (c, g') ∧ SameNodes g.nodes g'.nodes ∧
      Removal g node1 node2 e f edge push c g' := by
  have hfree := Store.free_live hedge
  -- `e` itself is EQUAL, so the first removal finds some `f`
  obtain ⟨f, hf⟩ : ∃ f, (edgesAt g.nodes node1).find? (EqualTo g.edges edge) = some f :=
    Option.isSome_iff_exists.mp (List.find?_isSome.mpr ⟨e, hmem, equalTo_self hedge⟩)
  obtain ⟨nodes₁, nodes₂, hrem1, hdown1, hl1⟩ :=
    h.listed.removeData_countDown h1 hedge (h.alive node1) hf
  have hdata1 := (SameNodes.removeData hrem1).trans (.countDown hdown1)
  cases hdir : edge.isDirected with
  | true =>
      exact ⟨f, .success, { g with nodes := nodes₂, edges := g.edges.drop e }, hf,
        by simp [removeEdge, hrem1, hdown1, hedge, hdir, hfree], hdata1, .directed hdir hl1⟩
  | false =>
      have halive : ∀ e ∈ takeOff (edgesAt g.nodes) node1 f node2, (g.edges.get e).isSome :=
        fun e he => h.alive node2 e (mem_of_mem_takeOff he)
      cases hf₂ : (takeOff (edgesAt g.nodes) node1 f node2).find? (EqualTo g.edges edge) with
      | some f₂ =>
          obtain ⟨nodes₃, nodes₄, hrem2, hdown2, hl2⟩ := hl1.removeData_countDown h2 hedge halive hf₂
          have hdata2 := (SameNodes.removeData hrem2).trans (.countDown hdown2)
          exact ⟨f, .success, { g with nodes := nodes₄, edges := g.edges.drop e }, hf,
            by simp [removeEdge, hrem1, hdown1, hedge, hdir, hrem2, hdown2, hfree],
            hdata1.trans hdata2, .bidirectional hdir hf₂ hl2⟩
      | none =>
          have hrem2 := hl1.removeData_failure h2 hedge halive hf₂
          cases push with
          | true =>
              obtain ⟨nodes₃, nodes₄, hpush, hup, hl2⟩ := hl1.pushEdge_countUp h1 e
              have hdata2 := (SameNodes.pushEdge hpush).trans (.countUp hup)
              exact ⟨f, .failure, { g with nodes := nodes₄ }, hf,
                by simp [removeEdge, hrem1, hdown1, hedge, hdir, hrem2, hpush, hup],
                hdata1.trans hdata2, .putBack hdir hf₂ rfl hl2⟩
          | false =>
              obtain ⟨nodes₃, hup, hne⟩ := hl1.countUp_ne h1
              have hpush : pushEdge nodes₂ node1 e false = some (.failure, nodes₂) := rfl
              exact ⟨f, .failure, { g with nodes := nodes₃ }, hf,
                by simp [removeEdge, hrem1, hdown1, hedge, hdir, hrem2, hpush, hup],
                hdata1.trans (.countUp hup), .lost hdir hf₂ rfl hne⟩

theorem removeEdge_iff (h : EdgeLists g) {node1 node2 : Nat} (h1 : node1 ∈ g.nodeList)
    (h2 : node2 ∈ g.nodeList) (push : Bool) (hset : settled g node1 node2 = some e) :
    ∃ c g', removeEdge g node1 node2 e push = some (c, g') ∧
      (EdgeLists g' ↔ RemovesItself g node1 node2 push) := by
  have hmem := settled_mem hset
  obtain ⟨edge, hedge, -⟩ := h.stored node1 e hmem
  obtain ⟨f, c, g', hf, hremove, -, hrem⟩ := removeEdge_spec h h1 h2 push hmem hedge
  have hfmem := List.mem_of_find?_eq_some hf
  refine ⟨c, g', hremove, ?_⟩
  rw [removesItself_iff hset hedge, hf, Option.some.injEq]
  cases hrem with
  | directed hdir hl =>
      rw [h.directed_iff hedge hdir hmem hfmem hl]
      simp [hdir]
  | bidirectional hbi hf₂ hl =>
      rw [h.bidirectional_iff hedge hbi hmem hfmem (List.mem_of_find?_eq_some hf₂) hl]
      refine and_congr_right fun hfe => ?_
      rw [← hfe, hf₂]
      simp [hbi]
  | putBack hbi hnone hpush hl =>
      rw [h.rollback_iff hedge hmem hfmem hl]
      refine ⟨fun hfe => ⟨hfe, fun _ => ?_⟩, And.left⟩
      rw [← hfe, hnone]
      exact hpush
  | lost hbi hnone hpush hcount =>
      refine ⟨fun h' => absurd (h'.counts node1) hcount, fun ⟨hfe, hitself⟩ => ?_⟩
      have hlost := hitself hbi
      rw [← hfe, hnone] at hlost
      exact absurd (hpush.symm.trans hlost) Bool.false_ne_true

/-! ### Runs

The invariant is kept by every step that meets the condition, and the condition is exact for
each of them.
-/

theorem graphFindEdge_spec (h : EdgeLists g) {node1 : Nat} (h1 : node1 ∈ g.nodeList)
    (node2 : Nat) : graphFindEdge g node1 node2 = some (settled g node1 node2) := by
  obtain ⟨node, hnode, hes, -⟩ := h.listed.node h1
  simp only [graphFindEdge, hnode, hes, Option.bind_eq_bind, Option.bind_some,
    findEdgeLoop_spec node1 node2 none (h.alive node1), Option.or_none, settled]

/-- Every call returns, and keeps the edge lists right exactly under the condition. -/
theorem graphExec_iff (customCompare : α → Node α → CompRtns) (h : EdgeLists g) (op : GraphOp α) :
    ∃ c g', graphExec customCompare g op = some (c, g') ∧
      (EdgeLists g' ↔ KeepsEdgeLists customCompare g op) := by
  cases op with
  | addNode data createNode push =>
      obtain ⟨c, g', hg', h'⟩ := graphAddNode_spec h data createNode push
      exact ⟨c, g', hg', iff_of_true h' trivial⟩
  | addEdge data1 data2 weight isBidirectional calloc push1 push2 =>
      obtain ⟨c, g', hg', h'⟩ := graphAddEdge_spec customCompare h data1 data2 weight
        isBidirectional calloc push1 push2
      exact ⟨c, g', hg', iff_of_true h' trivial⟩
  | removeEdge data1 data2 push =>
      rcases findNodes_spec customCompare h data1 data2 with hnone | ⟨node1, node2, hsome, h1, h2⟩
      · refine ⟨.failure, g, by simp [graphExec, graphRemoveEdge, hnone], iff_of_true h ?_⟩
        intro node1 node2 hsome
        exact absurd (hnone.symm.trans hsome) (by simp)
      · have hkeeps : KeepsEdgeLists customCompare g (.removeEdge data1 data2 push) ↔
            RemovesItself g node1 node2 push := by
          refine ⟨fun hk => hk node1 node2 hsome, fun hr n1 n2 hn => ?_⟩
          rw [hsome] at hn
          obtain ⟨rfl, rfl⟩ := Prod.mk.inj (Option.some.inj (Option.some.inj hn))
          exact hr
        rw [hkeeps]
        have hfind := graphFindEdge_spec h h1 node2
        cases hset : settled g node1 node2 with
        | none =>
            refine ⟨.failure, g, by simp [graphExec, graphRemoveEdge, hsome, hfind, hset], ?_⟩
            refine iff_of_true h fun e edge he => ?_
            rw [hset] at he
            exact absurd he (by simp)
        | some e =>
            obtain ⟨c, g', hg', hiff⟩ := removeEdge_iff h h1 h2 push hset
            exact ⟨c, g', by simp [graphExec, graphRemoveEdge, hsome, hfind, hset, hg'], hiff⟩

/-- On every run whose removals all remove the edge they settle on, the edge lists are right;
there the next call returns, and keeps them so exactly when it is one more of these calls. -/
theorem graphSystem_edgeLists (customCompare : α → Node α → CompRtns)
    (h : (graphSystem customCompare).ReachIf (KeepsEdgeLists customCompare) g) :
    EdgeLists g ∧ ∀ op, ∃ g', (graphSystem customCompare).step g op = some g' ∧
      (EdgeLists g' ↔ KeepsEdgeLists customCompare g op) := by
  have hinv : EdgeLists g := by
    refine h.invariant (I := EdgeLists) ?_ fun g op g' hinv hk hs => ?_
    · rintro g rfl
      exact graphCreate_edgeLists
    · obtain ⟨⟨c, g₁⟩, hg₁, rfl⟩ := Option.map_eq_some_iff.mp hs
      obtain ⟨c', g₂, hg₂, hiff⟩ := graphExec_iff customCompare hinv op
      obtain ⟨-, rfl⟩ := Prod.mk.inj (Option.some.inj (hg₁.symm.trans hg₂))
      exact hiff.mpr hk
  refine ⟨hinv, fun op => ?_⟩
  obtain ⟨c, g', hg', hiff⟩ := graphExec_iff customCompare hinv op
  exact ⟨g', by simp [graphSystem, hg'], hiff⟩

/-- A callback that finds the node with the data. -/
def dataCompare (data : Nat) (node : Node Nat) : CompRtns :=
  if node.data = data then .equal else .notEqual

theorem EdgeLists.matchesOnly {g : Graph Nat} {data n : Nat} (h : EdgeLists g)
    (hdata : ∀ m ∈ g.nodeList, (g.nodes.get m).map Node.data = some data ↔ m = n) :
    MatchesOnly dataCompare g data n := by
  intro m node hnode
  have hmem : m ∈ g.nodeList := (h.live m).mp (by rw [hnode]; rfl)
  rw [← hdata m hmem, hnode, dataCompare]
  by_cases heq : node.data = data
  · simp [heq]
  · simp [heq]

/-- Two edges between two nodes, removed from either end. -/
theorem graphSystem_edgeLists_run :
    ∃ g, (graphSystem dataCompare).run graphCreate [.addNode (some 10) true true,
        .addNode (some 20) true true, .addEdge (some 10) (some 20) 5 true true true true,
        .addEdge (some 10) (some 20) 7 false true true true, .removeEdge (some 10) (some 20) true,
        .removeEdge (some 20) (some 10) true] = some g ∧ EdgeLists g := by
  have h0 : (graphSystem dataCompare).ReachIf (KeepsEdgeLists dataCompare) graphCreate := .init rfl
  have h1 := h0.step (l := GraphOp.addNode (some 10) true true) trivial rfl
  have h2 := h1.step (l := GraphOp.addNode (some 20) true true) trivial rfl
  have h3 := h2.step (l := GraphOp.addEdge (some 10) (some 20) 5 true true true true) trivial rfl
  have h4 := h3.step (l := GraphOp.addEdge (some 10) (some 20) 7 false true true true) trivial rfl
  have h5 := h4.step (l := GraphOp.removeEdge (some 10) (some 20) true) (by
    intro node1 node2 hn
    obtain ⟨rfl, rfl⟩ := Prod.mk.inj (Option.some.inj (Option.some.inj hn))
    exact (removesItself_iff (e := 1) rfl rfl).mpr ⟨rfl, nofun⟩) rfl
  have h6 := h5.step (l := GraphOp.removeEdge (some 20) (some 10) true) (by
    intro node1 node2 hn
    obtain ⟨rfl, rfl⟩ := Prod.mk.inj (Option.some.inj (Option.some.inj hn))
    exact (removesItself_iff (e := 0) rfl rfl).mpr ⟨rfl, fun _ => rfl⟩) rfl
  exact ⟨_, rfl, (graphSystem_edgeLists dataCompare h6).1⟩

/-- A bidirectional edge and a directed one the other way: removing the first takes the
second off the list of node 20, and frees the first while it is still there. -/
theorem freed_edge_listed : ¬ ∀ g, (graphSystem dataCompare).Reach g → EdgeLists g := by
  intro hall
  obtain ⟨g, hrun, hfreed, hlisted⟩ : ∃ g, (graphSystem dataCompare).run graphCreate
      [.addNode (some 10) true true, .addNode (some 20) true true,
        .addEdge (some 10) (some 20) 5 true true true true,
        .addEdge (some 20) (some 10) 7 false true true true,
        .removeEdge (some 10) (some 20) true] = some g ∧
      g.edges.get 0 = none ∧ edgesAt g.nodes 1 = [0] := ⟨_, rfl, rfl, rfl⟩
  have hgone := (hall g ((System.Reach.init rfl).run hrun)).not_of_freed hfreed 1
  rw [hlisted] at hgone
  exact absurd hgone (by decide)

end CmakeTemplate
