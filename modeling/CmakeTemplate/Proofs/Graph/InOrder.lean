/-
Removing the edges of a node in the order of its list.

All of them are freed in the end, and each removal frees one, so each frees the edge that it was
called for; and as no freed edge is left on another list, that edge was the first one there that
has the node as an end.  So the edges to the node on another list go in the order in which they are
collected.
-/
import CmakeTemplate.Proofs.Graph.Detach
import Mathlib.Data.List.Find

namespace CmakeTemplate

open Lib

variable {α : Type} {g g₁ g' : Graph α} {edge other : Edge} {es rest : List Nat}
  {n m e s x : Nat} {push : Nat → Bool}

/-! ### Edges to the node

From the list of another node, these are what connects the two, in either direction.
-/

theorem hasEndAt_iff : HasEndAt g.edges n e = true ↔
    ∃ edge, g.edges.get e = some edge ∧ edge.HasEnd n := by
  simp [HasEndAt, Option.any_eq_true]

namespace EdgeLists

theorem hasEndAt (h : EdgeLists g) (he : e ∈ edgesAt g.nodes n) :
    HasEndAt g.edges n e = true := by
  obtain ⟨edge, hedge, -⟩ := h.stored n e he
  refine hasEndAt_iff.mpr ⟨edge, hedge, ?_⟩
  rcases h.end_of_mem he hedge with hn | ⟨-, hn⟩
  · exact .inl hn.symm
  · exact .inr hn.symm

/-- On the list of another node the edges to `n` are those that connect the two. -/
theorem connectsAt_eq (h : EdgeLists g) (hm : m ≠ n) (hx : x ∈ edgesAt g.nodes m) :
    ConnectsAt g.edges m n x = HasEndAt g.edges n x := by
  obtain ⟨other, hother, -⟩ := h.stored m x hx
  have hend := h.end_of_mem hx hother
  simp only [ConnectsAt, HasEndAt, hother, Option.any_some, Edge.Connects, Edge.HasEnd]
  grind

/-- And they are EQUAL to a bidirectional edge between the two. -/
theorem equalTo_eq (h : EdgeLists g) (hm : m ≠ n) (hx : x ∈ edgesAt g.nodes m)
    (h1 : edge.node1 = n) (h2 : edge.node2 = m) (hbi : edge.isDirected = false) :
    EqualTo g.edges edge x = HasEndAt g.edges n x := by
  obtain ⟨other, hother, -⟩ := h.stored m x hx
  have hend := h.end_of_mem hx hother
  simp only [EqualTo, HasEndAt, hother, Option.any_some, edgeCompare, Edge.HasEnd]
  grind

end EdgeLists

/-- On the list of another node, `e` is the first edge to `n`. -/
def FirstTo (g : Graph α) (n e : Nat) : Prop :=
  ∀ m, m ≠ n → e ∈ edgesAt g.nodes m → (edgesAt g.nodes m).find? (HasEndAt g.edges n) = some e

/-! ### The first edge of the list

The next removal is for this edge.  It goes as it should if the edge is the first one to the
node on the other list too.
-/

namespace EdgeLists

/-- A bidirectional edge is on no third list. -/
theorem firstTo_iff (h : EdgeLists g) (he : e ∈ edgesAt g.nodes n)
    (hedge : g.edges.get e = some edge) (hm : m ≠ n) (hmem : e ∈ edgesAt g.nodes m) :
    FirstTo g n e ↔ (edgesAt g.nodes m).find? (HasEndAt g.edges n) = some e := by
  constructor
  · intro hfirst
    exact hfirst m hm hmem
  · intro hfirst m' hm' hmem'
    have hsame : m' = m := by
      have hn := h.end_of_mem he hedge
      have hm₁ := h.end_of_mem hmem hedge
      have hm₂ := h.end_of_mem hmem' hedge
      grind
    rw [hsame]
    exact hfirst

/-- A directed edge is on no other list. -/
theorem firstTo_of_directed (h : EdgeLists g) (hedge : g.edges.get e = some edge)
    (hn : edge.node1 = n) (hdir : edge.isDirected = true) : FirstTo g n e := by
  intro m hm hmem
  rcases h.end_of_mem hmem hedge with hm₁ | ⟨hbi, -⟩
  · exact absurd (hm₁.trans hn) hm
  · rw [hdir] at hbi
    cases hbi

/-- A bidirectional edge from `n` is looked for on the list of the other node. -/
theorem firstTo_iff_equalTo (h : EdgeLists g) (he : e ∈ edgesAt g.nodes n)
    (hedge : g.edges.get e = some edge) (hn : edge.node1 = n) (hm : edge.node2 ≠ n)
    (hbi : edge.isDirected = false) :
    FirstTo g n e ↔ (takeOff (edgesAt g.nodes) edge.node1 e edge.node2).find?
      (EqualTo g.edges edge) = some e := by
  have hlist : takeOff (edgesAt g.nodes) edge.node1 e edge.node2 =
      edgesAt g.nodes edge.node2 := by
    rw [takeOff, Function.update_of_ne (by rwa [hn])]
  have hequal : (edgesAt g.nodes edge.node2).find? (EqualTo g.edges edge) =
      (edgesAt g.nodes edge.node2).find? (HasEndAt g.edges n) :=
    List.find?_congr fun x hx => h.equalTo_eq hm hx hn rfl hbi
  rw [hlist, hequal]
  exact h.firstTo_iff he hedge hm (h.mem_node2 he hedge hbi)

/-- One to `n` is looked for there first. -/
theorem firstTo_iff_connectsAt (h : EdgeLists g) (he : e ∈ edgesAt g.nodes n)
    (hedge : g.edges.get e = some edge) (hn : edge.node2 = n) (hm : edge.node1 ≠ n) :
    FirstTo g n e ↔ (edgesAt g.nodes edge.node1).find?
      (ConnectsAt g.edges edge.node1 edge.node2) = some e := by
  have hconnects : (edgesAt g.nodes edge.node1).find?
      (ConnectsAt g.edges edge.node1 edge.node2) =
        (edgesAt g.nodes edge.node1).find? (HasEndAt g.edges n) := by
    rw [hn]
    exact List.find?_congr fun x hx => h.connectsAt_eq hm hx
  rw [hconnects]
  exact h.firstTo_iff he hedge hm (h.mem_node1 he hedge)

/-- The edge in front on the list of `n` is removed, and taken off its lists, if it is the first one
to `n` on the other one too.  If another is in front of it there, then that is removed or `e` is
left there. -/
theorem removes_head (h : EdgeLists g) (hlist : edgesAt g.nodes n = e :: rest)
    (hnd : (e :: rest).Nodup) (hedge : g.edges.get e = some edge) (push : Bool) :
    ∃ s g₁, graphFindEdge g edge.node1 edge.node2 = some (some s) ∧
      removeEdge g edge.node1 edge.node2 s push = some (.success, g₁) ∧
      (FirstTo g n e → s = e ∧ TakesOut g g₁ e) ∧
      (s = e → (FirstTo g n e ∧ TakesOut g g₁ e) ∨ ∃ m, m ≠ n ∧ e ∈ edgesAt g₁.nodes m) := by
  have he : e ∈ edgesAt g.nodes n := by
    rw [hlist]
    exact List.mem_cons_self
  obtain ⟨h1, h2⟩ := h.ends n e edge he hedge
  obtain ⟨s, other, hfirst, hother, -, hfind⟩ := h.graphFindEdge_of_listed he hedge
  obtain ⟨g₁, hremove, hres⟩ := h.removeEdge_takesOff h1 h2 hfirst hother push
  refine ⟨s, g₁, hfind, hremove, ?_⟩
  by_cases hn : edge.node1 = n
  · -- the search finds `e`, which is in front
    rw [hn, hlist, List.find?_cons_of_pos (connectsAt_iff.mpr ⟨edge, hedge, .inl ⟨hn, rfl⟩⟩),
      Option.some.injEq] at hfirst
    subst hfirst
    obtain rfl := Option.some.inj (hedge.symm.trans hother)
    cases hdir : edge.isDirected with
    | true =>
        have htrue := h.firstTo_of_directed hedge hn hdir
        rcases hres with ⟨hout, -⟩ | ⟨-, hbi, -⟩
        · exact ⟨fun _ => ⟨rfl, hout⟩, fun _ => .inl ⟨htrue, hout⟩⟩
        · rw [hdir] at hbi
          cases hbi
    | false =>
        have hm : edge.node2 ≠ n := by
          intro hc
          have honce := List.count_eq_one_of_mem hnd List.mem_cons_self
          rw [← hlist, h.stored.count_eq he hedge, Edge.occurrences, if_pos hn.symm,
            if_pos ⟨hdir, hc.symm⟩] at honce
          cases honce
        have hiff := h.firstTo_iff_equalTo he hedge hn hm hdir
        rcases hres with ⟨hout, hfirst⟩ | ⟨hstays, -, hfirst⟩
        · exact ⟨fun _ => ⟨rfl, hout⟩, fun _ => .inl ⟨hiff.mpr (hfirst hdir), hout⟩⟩
        · exact ⟨fun hc => absurd (hiff.mp hc) hfirst, fun _ => .inr ⟨edge.node2, hm, hstays⟩⟩
  · -- the search looks at the list of the other node
    obtain ⟨-, hn₂⟩ := (h.end_of_mem he hedge).resolve_left fun hc => hn hc.symm
    have hiff := h.firstTo_iff_connectsAt he hedge hn₂.symm hn
    rw [hfirst, Option.some.injEq] at hiff
    have hclean : s = e → TakesOut g g₁ e := by
      rintro rfl
      obtain rfl := Option.some.inj (hedge.symm.trans hother)
      have hfront : (takeOff (edgesAt g.nodes) edge.node1 s edge.node2).find?
          (EqualTo g.edges edge) = some s := by
        rw [← hn₂, takeOff, Function.update_of_ne (Ne.symm hn), hlist]
        exact List.find?_cons_of_pos (equalTo_self hedge)
      rcases hres with ⟨hout, -⟩ | ⟨-, -, hc⟩
      · exact hout
      · exact absurd hfront hc
    exact ⟨fun hf => ⟨hiff.mp hf, hclean (hiff.mp hf)⟩, fun hs => .inl ⟨hiff.mpr hs, hclean hs⟩⟩

end EdgeLists

/-! ### The edges in their order

By induction on the list of the node, one removal at a time.
-/

/-- The edges to `n` on another list are on that of `n`, in the same order. -/
def SameOrder (g : Graph α) (n : Nat) : Prop :=
  ∀ m, m ≠ n → (edgesAt g.nodes m).filter (HasEndAt g.edges n) =
    (edgesAt g.nodes n).filter (· ∈ edgesAt g.nodes m)

/-- The first of the edges, and the others. -/
theorem EdgeLists.sameOrder_iff (h : EdgeLists g) (hlist : edgesAt g.nodes n = e :: rest)
    (hnd : (e :: rest).Nodup) :
    SameOrder g n ↔ FirstTo g n e ∧ ∀ m, m ≠ n →
      ((edgesAt g.nodes m).filter (· ≠ e)).filter (HasEndAt g.edges n) =
        rest.filter (· ∈ (edgesAt g.nodes m).filter (· ≠ e)) := by
  have he : e ∈ edgesAt g.nodes n := by
    rw [hlist]
    exact List.mem_cons_self
  obtain ⟨edge, hedge, hcount⟩ := h.stored n e he
  have hend := h.end_of_mem he hedge
  have honce : ∀ m, m ≠ n → (edgesAt g.nodes m).count e ≤ 1 := by
    intro m hm
    rw [hcount, Edge.occurrences]
    split_ifs <;> grind
  have hiff : ∀ m, m ≠ n → _ := fun m hm =>
    filter_cons_iff (p := HasEndAt g.edges n) (honce m hm) (List.nodup_cons.mp hnd).1
  simp only [SameOrder, hlist, FirstTo]
  constructor
  · intro hall
    exact ⟨fun m hm hmem => ((hiff m hm).mp (hall m hm)).1 hmem,
      fun m hm => ((hiff m hm).mp (hall m hm)).2⟩
  · intro hall m hm
    exact (hiff m hm).mpr ⟨hall.1 m hm, hall.2 m hm⟩

namespace TakesOut

theorem rest_eq (hout : TakesOut g g₁ e) (hlist : edgesAt g.nodes n = e :: rest)
    (hnd : (e :: rest).Nodup) : edgesAt g₁.nodes n = rest := by
  rw [hout.lists, hlist, List.filter_cons_of_neg (by simp), List.filter_eq_self]
  intro x hx
  have hne : x ≠ e := fun hxe => (List.nodup_cons.mp hnd).1 (hxe ▸ hx)
  simpa using hne

/-- What is left is in order if the others are. -/
theorem sameOrder_iff (hout : TakesOut g g₁ e) (hfrees : Frees g g₁ e)
    (hlist : edgesAt g.nodes n = e :: rest) (hnd : (e :: rest).Nodup) :
    SameOrder g₁ n ↔ ∀ m, m ≠ n →
      ((edgesAt g.nodes m).filter (· ≠ e)).filter (HasEndAt g.edges n) =
        rest.filter (· ∈ (edgesAt g.nodes m).filter (· ≠ e)) := by
  have hends : ∀ m, ((edgesAt g.nodes m).filter (· ≠ e)).filter (HasEndAt g₁.edges n) =
      ((edgesAt g.nodes m).filter (· ≠ e)).filter (HasEndAt g.edges n) := by
    intro m
    refine List.filter_congr fun x hx => ?_
    have hne : x ≠ e := by simpa using (List.mem_filter.mp hx).2
    rw [HasEndAt, HasEndAt, hfrees.get_ne hne]
  unfold SameOrder
  rw [hout.rest_eq hlist hnd]
  simp only [hout.lists, hends]

end TakesOut

/-- If in the end the edges are freed and none to `n` is left, each removal took its edge off the
lists, and it was the first there. -/
theorem RemovesEach.sameOrder (h : RemovesEach push g es g') (hlists : EdgeLists g)
    (hlist : edgesAt g.nodes n = es) (hnd : es.Nodup) (hdead : ∀ e ∈ es, g'.edges.get e = none)
    (hend : ∀ m, m ≠ n → ∀ e ∈ edgesAt g'.nodes m,
      ∃ edge, g'.edges.get e = some edge ∧ ¬ edge.HasEnd n) : SameOrder g n := by
  induction h with
  | nil g =>
      intro m hm
      rw [hlist, List.filter_nil, List.filter_eq_nil_iff]
      intro e he hc
      obtain ⟨edge, hedge, hno⟩ := hend m hm e he
      obtain ⟨edge', hedge', hyes⟩ := hasEndAt_iff.mp hc
      obtain rfl := Option.some.inj (hedge.symm.trans hedge')
      exact hno hyes
  | @cons g g₁ g' e s edge rest hedge _ hfind hremove hrest ih =>
      have hfrees := removeEdge_frees hremove
      obtain ⟨hedead, hrestdead⟩ := List.forall_mem_cons.mp hdead
      -- otherwise one more edge is left to be freed than there are removals
      have hse : s = e := by
        by_contra hne
        have hle := hrest.length_le hnd (fun x hx => ?_) hdead
        · rw [List.length_cons] at hle
          exact absurd hle (Nat.not_succ_le_self _)
        · rcases List.mem_cons.mp hx with rfl | hx
          · rw [hfrees.get_ne (Ne.symm hne), hedge]
            rfl
          · exact hrest.live x hx
      obtain ⟨s', g₂, hfind', hremove', -, hres⟩ :=
        hlists.removes_head hlist hnd hedge (push rest.length)
      obtain rfl : s = s' := by simpa using hfind.symm.trans hfind'
      obtain rfl : g₁ = g₂ := by simpa using hremove.symm.trans hremove'
      subst hse
      rcases hres rfl with ⟨hfirst, hout⟩ | ⟨m, hm, hstays⟩
      · have hothers := ih hout.edgeLists (hout.rest_eq hlist hnd) (List.nodup_cons.mp hnd).2
          hrestdead hend
        exact (hlists.sameOrder_iff hlist hnd).mpr
          ⟨hfirst, (hout.sameOrder_iff hfrees hlist hnd).mp hothers⟩
      · obtain ⟨edge', hget, -⟩ := hend m hm s (hrest.stays hstays hfrees.get_self)
        rw [hedead] at hget
        cases hget

/-- Edges in order are removed, and no others. -/
theorem EdgeLists.removesEach (h : EdgeLists g) (hlist : edgesAt g.nodes n = es) (hnd : es.Nodup)
    (hlooked : ∀ e ∈ es, ∀ edge, g.edges.get e = some edge →
      edge.node1 ∈ g.lookedAt ∧ edge.node2 ∈ g.lookedAt)
    (horder : SameOrder g n) (push : Nat → Bool) :
    ∃ g', RemovesEach push g es g' ∧
      (∀ m, edgesAt g'.nodes m = (edgesAt g.nodes m).filter (· ∉ es)) ∧
      ∀ e, g'.edges.get e = if e ∈ es then none else g.edges.get e := by
  induction es generalizing g with
  | nil => exact ⟨g, .nil g, by simp, by simp⟩
  | cons e rest ih =>
      obtain ⟨edge, hedge⟩ := Option.isSome_iff_exists.mp
        (h.alive n e (by rw [hlist]; exact List.mem_cons_self))
      obtain ⟨s, g₁, hfind, hremove, hres, -⟩ :=
        h.removes_head hlist hnd hedge (push rest.length)
      obtain ⟨hfirst, hothers⟩ := (h.sameOrder_iff hlist hnd).mp horder
      obtain ⟨rfl, hout⟩ := hres hfirst
      have hfrees := removeEdge_frees hremove
      obtain ⟨g', hrest, hlists, hedges⟩ := ih hout.edgeLists (hout.rest_eq hlist hnd)
        (List.nodup_cons.mp hnd).2
        (fun x hx other hother => by
          rw [hfrees.lookedAt]
          exact hlooked x (List.mem_cons_of_mem s hx) other (hfrees.get_of_some hother))
        ((hout.sameOrder_iff hfrees hlist hnd).mpr hothers)
      refine ⟨g', .cons hedge (hlooked s List.mem_cons_self edge hedge) hfind hremove hrest,
        fun m => ?_, fun x => ?_⟩
      · rw [hlists, hout.lists, List.filter_filter]
        refine List.filter_congr fun x _ => ?_
        simp [not_or, Bool.and_comm]
      · rw [hedges, hfrees.edges, Function.update_apply]
        by_cases hxs : x = s <;> simp [hxs]

end CmakeTemplate
