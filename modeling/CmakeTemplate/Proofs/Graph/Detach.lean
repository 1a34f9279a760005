/-
Taking a node's edges off the lists, one after the other.

`graph_remove_node` calls `graph_remove_edge` for each edge of the node, with the data of its
ends.  While the lists are right, the search by the ends of an edge finds one with the same
ends, and it is freed.  It is also taken off both its lists, unless there is another such edge
in front of it on the second one; then it stays there, freed.

An edge that is freed and still listed stays listed for good, as taking it off would compare
it.  So where all removals succeed and the lists are right in the end, they were right all the
time, and each removal took the edge it freed.  For edges from the node to itself a count is
enough: no more of them are removed than there are.
-/
import CmakeTemplate.Proofs.Graph.Freed
import CmakeTemplate.Proofs.Graph.Named

namespace CmakeTemplate

open Lib

variable {α : Type} {g g₁ g' : Graph α} {edge other : Edge} {es rest : List Nat}
  {n m e s x node1 node2 : Nat}

/-! ### One edge

The edge that is freed, and the one that is taken off the second list.
-/

namespace EdgeLists

/-- An edge is on the list of its first node. -/
theorem mem_node1 (h : EdgeLists g) (he : e ∈ edgesAt g.nodes n)
    (hedge : g.edges.get e = some edge) : e ∈ edgesAt g.nodes edge.node1 := by
  rw [← List.count_pos_iff, h.stored.count_eq he hedge]
  exact Edge.occurrences_pos.mpr (.inl rfl)

theorem mem_node2 (h : EdgeLists g) (he : e ∈ edgesAt g.nodes n)
    (hedge : g.edges.get e = some edge) (hbi : edge.isDirected = false) :
    e ∈ edgesAt g.nodes edge.node2 := by
  rw [← List.count_pos_iff, h.stored.count_eq he hedge]
  exact Edge.occurrences_pos.mpr (.inr ⟨hbi, rfl⟩)

end EdgeLists

/-- The lists are right, and are those of before without `s`. -/
structure TakesOut (g g' : Graph α) (s : Nat) : Prop where
  /-- The lists are right. -/
  edgeLists : EdgeLists g'
  /-- They have lost the edge and no other. -/
  lists : ∀ n, edgesAt g'.nodes n = (edgesAt g.nodes n).filter (· ≠ s)

/-- The edge `s` is taken off its second list exactly if it is the first EQUAL one there. -/
theorem EdgeLists.removeEdge_takesOff (h : EdgeLists g) (h1 : node1 ∈ g.nodeList)
    (h2 : node2 ∈ g.nodeList)
    (hfind : (edgesAt g.nodes node1).find? (ConnectsAt g.edges node1 node2) = some s)
    (hedge : g.edges.get s = some edge) (push : Bool) :
    ∃ g', removeEdge g node1 node2 s push = some (.success, g') ∧
      ((TakesOut g g' s ∧ (edge.isDirected = false →
          (takeOff (edgesAt g.nodes) node1 s node2).find? (EqualTo g.edges edge) = some s)) ∨
        (s ∈ edgesAt g'.nodes node2 ∧ edge.isDirected = false ∧
          (takeOff (edgesAt g.nodes) node1 s node2).find? (EqualTo g.edges edge) ≠ some s)) := by
  have hmem := List.mem_of_find?_eq_some hfind
  obtain ⟨edge', hedge', hconnects⟩ := connectsAt_iff.mp (List.find?_some hfind)
  obtain rfl := Option.some.inj (hedge.symm.trans hedge')
  obtain ⟨f, c, g', hf, hremove, -, hrem⟩ := removeEdge_spec h h1 h2 push hmem hedge
  rw [h.find?_connects hfind hedge, Option.some.injEq] at hf
  subst hf
  have hfrees : c = .success → Frees g g' s := by
    rintro rfl
    exact removeEdge_frees hremove
  -- once it is on no list, the lists are what is left of them
  have hclean : ∀ {adj : Nat → List Nat}, EdgeLists g' → Frees g g' s → edgesAt g'.nodes = adj →
      (∀ n, (adj n).filter (· ≠ s) = (edgesAt g.nodes n).filter (· ≠ s)) → TakesOut g g' s := by
    intro adj h' hfrees hadj hfilter
    refine ⟨h', fun n => ?_⟩
    rw [← hfilter n, ← hadj, eq_comm, List.filter_eq_self]
    intro x hx
    have hne : x ≠ s := hfrees.ne_of_live (h'.alive n x hx)
    simpa using hne
  refine ⟨g', ?_⟩
  cases hrem with
  | @directed nodes hdir hl =>
      have h' := (h.directed_iff hedge hdir hmem hmem hl).mpr rfl
      exact ⟨hremove, .inl ⟨hclean h' (hfrees rfl) hl.edges fun n => filter_takeOff _ _ _ n,
        by simp [hdir]⟩⟩
  | @bidirectional nodes f₂ hbi hf₂ hl =>
      have hmem₂ := List.mem_of_find?_eq_some hf₂
      have hiff := h.bidirectional_iff hedge hbi hmem hmem hmem₂ hl
      refine ⟨hremove, ?_⟩
      rw [hf₂]
      by_cases heq : f₂ = s
      · subst heq
        refine .inl ⟨hclean (hiff.mpr ⟨rfl, rfl⟩) (hfrees rfl) hl.edges fun n => ?_, fun _ => rfl⟩
        rw [filter_takeOff, filter_takeOff]
      · refine .inr ⟨?_, hbi, by simpa using heq⟩
        have hthere := h.mem_takeOff_connects hmem hedge hbi hconnects
        show s ∈ edgesAt nodes node2
        rw [hl.edges, takeOff, Function.update_self, List.mem_erase_of_ne (Ne.symm heq)]
        exact hthere
  | putBack hbi hnone hpush hl =>
      have hthere := h.mem_takeOff_connects hmem hedge hbi hconnects
      exact absurd (equalTo_self hedge) (List.find?_eq_none.mp hnone s hthere)
  | lost hbi hnone hpush hcount =>
      have hthere := h.mem_takeOff_connects hmem hedge hbi hconnects
      exact absurd (equalTo_self hedge) (List.find?_eq_none.mp hnone s hthere)

/-- The search by the ends of an edge that is listed finds one. -/
theorem EdgeLists.graphFindEdge_of_listed (h : EdgeLists g) (he : e ∈ edgesAt g.nodes n)
    (hedge : g.edges.get e = some edge) :
    ∃ s other, (edgesAt g.nodes edge.node1).find? (ConnectsAt g.edges edge.node1 edge.node2) =
        some s ∧ g.edges.get s = some other ∧ other.Connects edge.node1 edge.node2 ∧
      graphFindEdge g edge.node1 edge.node2 = some (some s) := by
  have hconnects : ConnectsAt g.edges edge.node1 edge.node2 e = true :=
    connectsAt_iff.mpr ⟨edge, hedge, .inl ⟨rfl, rfl⟩⟩
  obtain ⟨s, hfind⟩ := Option.isSome_iff_exists.mp
    (List.find?_isSome.mpr ⟨e, h.mem_node1 he hedge, hconnects⟩)
  obtain ⟨other, hother, hc⟩ := connectsAt_iff.mp (List.find?_some hfind)
  refine ⟨s, other, hfind, hother, hc, ?_⟩
  rw [graphFindEdge_spec h (h.ends n e edge he hedge).1, settled, hfind, Option.some_or]

/-! ### Edges from the node to itself

Such an edge is on one list twice, and both places go with it.
-/

/-- The lists are right and that of `n` has the edges, or it has one that has been freed. -/
def ListsOrFreed (g : Graph α) (n : Nat) (es : List Nat) : Prop :=
  (EdgeLists g ∧ ∀ e ∈ es, e ∈ edgesAt g.nodes n) ∨
    ∃ x ∈ edgesAt g.nodes n, g.edges.get x = none

namespace RemovesEach

variable {push : Nat → Bool}

/-- Behind a removal the lists are right, or an edge that is freed has stayed on the list of `n`,
where it keeps a search from going on; on another list it would still be in the end. -/
theorem listsOrFreed (h : ListsOrFreed g n (e :: rest)) (hedge : g.edges.get e = some edge)
    (hfind : graphFindEdge g edge.node1 edge.node2 = some (some s))
    {push' : Bool} (hremove : removeEdge g edge.node1 edge.node2 s push' = some (.success, g₁))
    (hrest : RemovesEach push g₁ rest g')
    (hend : ∀ m, m ≠ n → ∀ e ∈ edgesAt g'.nodes m, (g'.edges.get e).isSome) :
    ListsOrFreed g₁ n rest := by
  have hfrees := removeEdge_frees hremove
  rcases h with ⟨h, hes⟩ | ⟨x, hx, hdead⟩
  · have he := hes e List.mem_cons_self
    obtain ⟨h1, h2⟩ := h.ends n e edge he hedge
    obtain ⟨s', other, hfirst, hother, -, hfind'⟩ := h.graphFindEdge_of_listed he hedge
    obtain rfl : s = s' := by simpa using hfind.symm.trans hfind'
    obtain ⟨g₂, hremove', hres⟩ := h.removeEdge_takesOff h1 h2 hfirst hother push'
    obtain rfl : g₁ = g₂ := by simpa using hremove.symm.trans hremove'
    rcases hres with ⟨hout, -⟩ | ⟨hstays, -, -⟩
    · refine .inl ⟨hout.edgeLists, fun e' he' => ?_⟩
      rw [hout.lists, List.mem_filter]
      have hne := hfrees.ne_of_live (hrest.live e' he')
      exact ⟨hes e' (List.mem_cons_of_mem e he'), by simpa using hne⟩
    · by_cases hn : edge.node2 = n
      · exact .inr ⟨s, hn ▸ hstays, hfrees.get_self⟩
      · have hlive := hend _ hn s (hrest.stays hstays hfrees.get_self)
        rw [hrest.get_of_none hfrees.get_self] at hlive
        cases hlive
  · exact .inr ⟨x, (hfrees.lists n).stays x hx hdead, hfrees.get_of_none hdead⟩

/-- The search for an edge from `n` to itself finds one. -/
theorem finds_loop (h : ListsOrFreed g n (e :: rest)) (hedge : g.edges.get e = some edge)
    (hfind : graphFindEdge g edge.node1 edge.node2 = some (some s))
    (hloop : ConnectsAt g.edges n n e = true) :
    s ∈ edgesAt g.nodes n ∧ ConnectsAt g.edges n n s = true := by
  obtain ⟨edge', hedge', hconnects⟩ := connectsAt_iff.mp hloop
  obtain rfl := Option.some.inj (hedge.symm.trans hedge')
  have hends : edge.node1 = n ∧ edge.node2 = n := by
    unfold Edge.Connects at hconnects
    grind
  rcases h with ⟨h, hes⟩ | ⟨x, hx, hdead⟩
  · obtain ⟨s', other, hfirst, hother, hc, hfind'⟩ :=
      h.graphFindEdge_of_listed (hes e List.mem_cons_self) hedge
    obtain rfl : s = s' := by simpa using hfind.symm.trans hfind'
    rw [hends.1, hends.2] at hc hfirst
    exact ⟨List.mem_of_find?_eq_some hfirst, connectsAt_iff.mpr ⟨other, hother, hc⟩⟩
  · rw [hends.1, hends.2] at hfind
    obtain ⟨s', other, hs, hmem, hother, hc⟩ := graphFindEdge_freed hfind hx hdead
    obtain rfl := Option.some.inj hs
    exact ⟨hmem, connectsAt_iff.mpr ⟨other, hother, hc⟩⟩

/-- Each removal of an edge from `n` to itself takes one of them, so there are no more of these
removals than such edges. -/
theorem loops_le (h : RemovesEach push g es g') (hlists : ListsOrFreed g n es)
    (hend : ∀ m, m ≠ n → ∀ e ∈ edgesAt g'.nodes m, (g'.edges.get e).isSome)
    {loops left : List Nat} (hloops : loops.Sublist es)
    (hconnects : ∀ e ∈ loops, ConnectsAt g.edges n n e = true)
    (hleft : ∀ e ∈ edgesAt g.nodes n, ConnectsAt g.edges n n e = true → e ∈ left) :
    loops.length ≤ left.length := by
  induction h generalizing loops left with
  | nil g =>
      rw [List.sublist_nil.mp hloops]
      exact Nat.zero_le _
  | @cons g g₁ g' e s edge rest hedge _ hfind hremove hrest ih =>
      have hfrees := removeEdge_frees hremove
      have hlists₁ := listsOrFreed hlists hedge hfind hremove hrest hend
      -- the edges that are there are as they were
      have hback : ∀ x, ConnectsAt g₁.edges n n x = true → ConnectsAt g.edges n n x = true := by
        intro x hx
        obtain ⟨edge, hget, hc⟩ := connectsAt_iff.mp hx
        exact connectsAt_iff.mpr ⟨edge, hfrees.get_of_some hget, hc⟩
      have hstill : ∀ x ∈ rest, ConnectsAt g.edges n n x = true →
          ConnectsAt g₁.edges n n x = true := by
        intro x hx hc
        rw [ConnectsAt, hfrees.get_ne (hfrees.ne_of_live (hrest.live x hx))]
        exact hc
      have hmem : ∀ x ∈ edgesAt g₁.nodes n, ConnectsAt g₁.edges n n x = true → x ∈ left :=
        fun x hx hc => hleft x ((hfrees.lists n).sublist.subset hx) (hback x hc)
      cases hloops with
      | cons _ hsub =>
          exact ih hlists₁ hend hsub
            (fun x hx => hstill x (hsub.subset hx) (hconnects x hx)) hmem
      | @cons_cons loops _ _ hsub =>
          obtain ⟨hs, hloop⟩ := finds_loop hlists hedge hfind (hconnects e List.mem_cons_self)
          have hmem_left := hleft s hs hloop
          have hothers : loops.length ≤ (left.erase s).length := by
            refine ih hlists₁ hend hsub (fun x hx => hstill x (hsub.subset hx)
              (hconnects x (List.mem_cons_of_mem e hx))) fun x hx hc => ?_
            obtain ⟨edge, hget, -⟩ := connectsAt_iff.mp hc
            have hne := hfrees.ne_of_live (e := x) (by rw [hget]; rfl)
            exact (List.mem_erase_of_ne hne).mpr (hmem x hx hc)
          have hpos := List.length_pos_of_mem hmem_left
          rw [List.length_erase_of_mem hmem_left] at hothers
          rw [List.length_cons]
          omega

/-- No edge is twice on the list of `n` if all of them can be removed. -/
theorem nodup (h : RemovesEach push g (edgesAt g.nodes n) g') (hlists : EdgeLists g)
    (hend : ∀ m, m ≠ n → ∀ e ∈ edgesAt g'.nodes m, (g'.edges.get e).isSome) :
    (edgesAt g.nodes n).Nodup := by
  have hle : ((edgesAt g.nodes n).filter (ConnectsAt g.edges n n)).length ≤
      ((edgesAt g.nodes n).filter (ConnectsAt g.edges n n)).dedup.length := by
    refine h.loops_le (.inl ⟨hlists, fun _ he => he⟩) hend List.filter_sublist
      (fun e he => (List.mem_filter.mp he).2) fun e he hc => ?_
    exact List.mem_dedup.mpr (List.mem_filter.mpr ⟨he, hc⟩)
  have hnd : ((edgesAt g.nodes n).filter (ConnectsAt g.edges n n)).Nodup := by
    rw [← (List.dedup_sublist _).eq_of_length_le hle]
    exact List.nodup_dedup _
  refine List.nodup_iff_count_le_one.mpr fun e => ?_
  by_cases he : e ∈ edgesAt g.nodes n
  · obtain ⟨edge, hedge, hcount⟩ := hlists.stored n e he
    by_cases hloop : ConnectsAt g.edges n n e = true
    · rw [← List.count_filter hloop]
      exact List.nodup_iff_count_le_one.mp hnd e
    · have hno : ¬ edge.Connects n n := fun hc => hloop (connectsAt_iff.mpr ⟨edge, hedge, hc⟩)
      rw [hcount, Edge.occurrences]
      unfold Edge.Connects at hno
      split_ifs <;> grind
  · rw [List.count_eq_zero.mpr he]
    exact Nat.zero_le 1

/-- A list whose length has no room in a `uint32_t` is too long to be removed: a name is on it at
most twice. -/
theorem few (hlists : EdgeLists g)
    (h : RemovesEach push g
      ((edgesAt g.nodes n).take ((edgesAt g.nodes n).length % 2 ^ 32)) g')
    (hdead : ∀ e ∈ edgesAt g.nodes n, g'.edges.get e = none) :
    (edgesAt g.nodes n).length < 2 ^ 32 := by
  have hle := h.length_le (List.nodup_dedup (edgesAt g.nodes n))
    (fun e he => hlists.alive n e (List.mem_dedup.mp he))
    fun e he => hdead e (List.mem_dedup.mp he)
  have htwice : (edgesAt g.nodes n).length ≤ (edgesAt g.nodes n).dedup.length * 2 := by
    refine length_le_mul_dedup fun e he => ?_
    obtain ⟨edge, hedge, hcount⟩ := hlists.stored n e he
    rw [hcount, Edge.occurrences]
    split_ifs <;> omega
  rw [List.length_take] at hle
  omega

end RemovesEach

end CmakeTemplate
