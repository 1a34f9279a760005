/-
The searches of a graph and what is done to one edge list.

Every call on a graph is made of a few moves: find a node, find an edge, push an edge to a
list with its count, take one off with its count.  Each has one lemma here, which says what it
leaves in terms of the lists as a whole; the modules on adding and removing put the moves
together and look at no store.

`Listed nodes ns adj` is the form in which that is said: the nodes are `ns`, their lists are
`adj`, and their counts count them.  A push or a removal with the count behind it keeps that,
for other lists.  The data of the nodes stay the same throughout, which is a relation between
two stores and is kept by each move too.
-/
import CmakeTemplate.Adjacency
import CmakeTemplate.Lib.Buckets
import CmakeTemplate.Proofs.LinkedList.Refines

namespace CmakeTemplate

open Lib

variable {α : Type} {nodes : Store (Node α)} {edges : Store Edge} {adj : Nat → List Nat}
  {ns : List Nat} {n e f : Nat} {edge : Edge}

/-! ### Searching

A search finds the first that matches, or the end of the list.
-/

/-- The first node that matches is found. -/
theorem findFirstOccurrence_spec (customCompare : α → Node α → CompRtns) (data : α)
    (hlive : ∀ n ∈ ns, (nodes.get n).isSome) :
    findFirstOccurrence customCompare nodes data ns =
      some (ns.find? fun n => (nodes.get n).any fun node => customCompare data node = .equal) := by
  induction ns with
  | nil => rfl
  | cons n ns ih =>
      obtain ⟨hn, hns⟩ := List.forall_mem_cons.mp hlive
      obtain ⟨node, hnode⟩ := Option.isSome_iff_exists.mp hn
      by_cases hcmp : customCompare data node = .equal
      · rw [List.find?_cons_of_pos (by simp [hnode, hcmp])]
        simp [findFirstOccurrence, hnode, hcmp]
      · rw [List.find?_cons_of_neg (by simp [hnode, hcmp]), ← ih hns]
        simp [findFirstOccurrence, hnode, hcmp]

theorem graphFindNode_spec (customCompare : α → Node α → CompRtns) {g : Graph α}
    (hlive : ∀ n ∈ g.nodeList, (g.nodes.get n).isSome) (data : α) :
    graphFindNode customCompare g data = some (g.lookedAt.find? fun n =>
      (g.nodes.get n).any fun node => customCompare data node = .equal) :=
  findFirstOccurrence_spec customCompare data fun n hn => hlive n (List.mem_of_mem_take hn)

theorem findEdgeLoop_spec {es : List Nat} (node1 node2 : Nat) (p : Ptr)
    (hlive : ∀ e ∈ es, (edges.get e).isSome) :
    findEdgeLoop edges node1 node2 p es =
      some ((es.find? (ConnectsAt edges node1 node2)).or (es.getLast?.or p)) := by
  induction es generalizing p with
  | nil => rfl
  | cons e es ih =>
      obtain ⟨he, hes⟩ := List.forall_mem_cons.mp hlive
      obtain ⟨edge, hedge⟩ := Option.isSome_iff_exists.mp he
      by_cases hc : edge.Connects node1 node2
      · simp [findEdgeLoop, hedge, hc, ConnectsAt]
      · have hlast : es.getLast?.or (some e) = (e :: es).getLast?.or p := by
          rw [List.getLast?_cons]
          cases es.getLast? <;> rfl
        rw [List.find?_cons_of_neg (by simp [ConnectsAt, hedge, hc]), ← hlast, ← ih _ hes]
        simp [findEdgeLoop, hedge, hc]

theorem equalTo_self (he : edges.get e = some edge) : EqualTo edges edge e = true := by
  simp [EqualTo, he, edgeCompare]

/-- The first EQUAL edge goes. -/
theorem removeEqual_spec {es : List Nat} (he : edges.get e = some edge)
    (hlive : ∀ e ∈ es, (edges.get e).isSome) :
    removeEqual edges e es = some ((es.find? (EqualTo edges edge)).map es.erase) := by
  induction es with
  | nil => rfl
  | cons c es ih =>
      obtain ⟨hc, hes⟩ := List.forall_mem_cons.mp hlive
      obtain ⟨other, hother⟩ := Option.isSome_iff_exists.mp hc
      by_cases heq : edgeCompare edge other = .equal
      · have hpos : EqualTo edges edge c = true := by simp [EqualTo, hother, heq]
        rw [List.find?_cons_of_pos hpos, Option.map_some, List.erase_cons_head]
        simp [removeEqual, he, hother, heq]
      · have hneg : EqualTo edges edge c = false := by simp [EqualTo, hother, heq]
        have htail : (es.find? (EqualTo edges edge)).map (c :: es).erase =
            (es.find? (EqualTo edges edge)).map fun f => c :: es.erase f := by
          refine Option.map_congr fun f hf => List.erase_cons_tail ?_
          have hne : c ≠ f := fun hcf => by rw [hcf, List.find?_some hf] at hneg; cases hneg
          simpa using hne
        rw [List.find?_cons_of_neg (by rw [hneg]; simp), htail]
        simp [removeEqual, he, hother, heq, ih hes, Function.comp_def]

/-- `edge_compare` on pointers to edges. -/
def edgePtrCompare (edges : Store Edge) (a b : Option Nat) : CompRtns :=
  match a.bind edges.get, b.bind edges.get with
  | some edgeA, some edgeB => edgeCompare edgeA edgeB
  | _, _ => .error

/-- `list_remove_data` leaves a list of pointers to edges as `removeEqual` says. -/
theorem listRemoveData_edges {s : ListMem Nat × ListT Nat} {es : List Nat} (h : ListSeq s es)
    (hcmp : s.2.compareFunc = edgePtrCompare edges) (hfree : s.2.customFree = true)
    (hlt : es.length < 2 ^ 32) (he : edges.get e = some edge)
    (hlive : ∀ e ∈ es, (edges.get e).isSome) :
    ∃ s' r, listExec s (.removeData e) = some (s', r) ∧
      ListSeq s' (((removeEqual edges e es).join).getD es) := by
  have hmatch : ∀ x ∈ es, Matches (edgePtrCompare edges) e x = EqualTo edges edge x := by
    intro x hx
    obtain ⟨other, hother⟩ := Option.isSome_iff_exists.mp (hlive x hx)
    simp [Matches, edgePtrCompare, EqualTo, he, hother]
  have herase : es.eraseP (Matches (edgePtrCompare edges) e) =
      ((removeEqual edges e es).join).getD es := by
    rw [eraseP_congr hmatch, removeEqual_spec he hlive]
    cases hf : es.find? (EqualTo edges edge) with
    | none => exact List.eraseP_of_forall_not (List.find?_eq_none.mp hf)
    | some f => exact eraseP_eq_erase hf
  have hop : ListOp.removeData e ≠ .sort := by simp
  obtain ⟨s', hs', hseq, -⟩ := listExec_refines h hop
    (Nat.lt_of_le_of_lt List.length_eraseP_le hlt) fun _ => hfree
  refine ⟨s', _, hs', ?_⟩
  rw [← herase, ← hcmp]
  exact hseq

/-! ### What stays of a node

The live nodes and their data, whatever is done to the lists.
-/

namespace SameNodes

variable {nodes' nodes'' : Store (Node α)}

theorem refl (nodes : Store (Node α)) : SameNodes nodes nodes := fun _ => rfl

theorem trans (h : SameNodes nodes nodes') (h' : SameNodes nodes' nodes'') :
    SameNodes nodes nodes'' :=
  fun n => (h' n).trans (h n)

theorem assign {f : Node α → Node α} (h : nodes.assign (some n) f = some nodes')
    (hf : ∀ node, (f node).data = node.data) : SameNodes nodes nodes' := by
  obtain ⟨node, hnode, rfl⟩ := Option.map_eq_some_iff.mp h
  intro m
  by_cases hm : m = n
  · rw [hm, Store.get_upd_self, hnode]
    exact congrArg some (hf node)
  · rw [Store.get_upd_ne _ _ hm]

theorem countUp (h : countUp nodes n = some nodes') : SameNodes nodes nodes' :=
  assign h fun _ => rfl

theorem countDown (h : countDown nodes n = some nodes') : SameNodes nodes nodes' :=
  assign h fun _ => rfl

theorem pushEdge {calloc : Bool} {c : ExitCode}
    (h : pushEdge nodes n e calloc = some (c, nodes')) : SameNodes nodes nodes' := by
  cases calloc with
  | false =>
      obtain ⟨-, rfl⟩ := Prod.mk.inj (Option.some.inj h)
      exact refl nodes
  | true =>
      obtain ⟨nodes₁, hassign, hpair⟩ := Option.bind_eq_some_iff.mp h
      obtain ⟨-, rfl⟩ := Prod.mk.inj (Option.some.inj hpair)
      exact assign hassign fun _ => rfl

theorem removeData {c : ExitCode} (h : removeData nodes edges n e = some (c, nodes')) :
    SameNodes nodes nodes' := by
  obtain ⟨node, -, h⟩ := Option.bind_eq_some_iff.mp h
  obtain ⟨found, -, h⟩ := Option.bind_eq_some_iff.mp h
  cases found with
  | none =>
      obtain ⟨-, rfl⟩ := Prod.mk.inj (Option.some.inj h)
      exact refl nodes
  | some edgeList =>
      obtain ⟨nodes₁, hassign, hpair⟩ := Option.bind_eq_some_iff.mp h
      obtain ⟨-, rfl⟩ := Prod.mk.inj (Option.some.inj hpair)
      exact assign hassign fun _ => rfl

theorem isSome (h : SameNodes nodes nodes') (n : Nat) :
    (nodes'.get n).isSome = (nodes.get n).isSome := by
  rw [← Option.isSome_map (f := Node.data), h n, Option.isSome_map]

/-- A node is its data, its list and its count. -/
theorem get_eq (h : SameNodes nodes nodes') (hedges : edgesAt nodes' = edgesAt nodes)
    (hcounts : edgeCountAt nodes' = edgeCountAt nodes) : nodes'.get = nodes.get := by
  funext n
  have hdata := h n
  have hlist := congrFun hedges n
  have hcount := congrFun hcounts n
  simp only [edgesAt, edgeCountAt] at hlist hcount
  cases hn : nodes.get n with
  | none => simpa [hn] using hdata
  | some node =>
      obtain ⟨node', hn', hsame⟩ := Option.map_eq_some_iff.mp (hdata.trans (by rw [hn]; rfl))
      simp only [hn, hn', Option.map_some, Option.getD_some] at hlist hcount
      obtain ⟨data', edgeCount', edgeList'⟩ := node'
      obtain ⟨data, edgeCount, edgeList⟩ := node
      simp only at hsame hlist hcount
      rw [hn', hsame, hlist, hcount]

end SameNodes

/-! ### One list

A write to a node changes its own list and count and no other.
-/

structure Listed (nodes : Store (Node α)) (ns : List Nat) (adj : Nat → List Nat) : Prop where
  /-- The nodes are these. -/
  live : ∀ n, (nodes.get n).isSome ↔ n ∈ ns
  /-- Their lists are these. -/
  edges : edgesAt nodes = adj
  /-- Each count is the length of its list. -/
  counts : ∀ n, edgeCountAt nodes n = (adj n).length

theorem edgesAt_upd {node : Node α} (hn : nodes.get n = some node) (f : Node α → Node α) :
    edgesAt (nodes.upd n f) = Function.update (edgesAt nodes) n (f node).edgeList := by
  funext m
  by_cases hm : m = n
  · subst hm
    simp [edgesAt, hn]
  · simp [edgesAt, Store.get_upd_ne nodes f hm, Function.update_of_ne hm]

theorem edgeCountAt_upd {node : Node α} (hn : nodes.get n = some node) (f : Node α → Node α) :
    edgeCountAt (nodes.upd n f) = Function.update (edgeCountAt nodes) n (f node).edgeCount := by
  funext m
  by_cases hm : m = n
  · subst hm
    simp [edgeCountAt, hn]
  · simp [edgeCountAt, Store.get_upd_ne nodes f hm, Function.update_of_ne hm]

theorem isSome_get_upd (f : Node α → Node α) (m : Nat) :
    ((nodes.upd n f).get m).isSome = (nodes.get m).isSome := by
  by_cases hm : m = n
  · subst hm
    simp
  · rw [Store.get_upd_ne nodes f hm]

namespace Listed

theorem node (h : Listed nodes ns adj) (hn : n ∈ ns) :
    ∃ node, nodes.get n = some node ∧ node.edgeList = adj n ∧ node.edgeCount = (adj n).length := by
  obtain ⟨node, hnode⟩ := Option.isSome_iff_exists.mp ((h.live n).mpr hn)
  refine ⟨node, hnode, ?_, ?_⟩
  · rw [← h.edges]
    simp [edgesAt, hnode]
  · rw [← h.counts n]
    simp [edgeCountAt, hnode]

/-- Writing a node's list and its count. -/
theorem listed_upd (h : Listed nodes ns adj) {node : Node α} (hnode : nodes.get n = some node)
    {es : List Nat} {f : Node α → Node α} (hes : (f node).edgeList = es)
    (hcount : (f node).edgeCount = es.length) :
    Listed (nodes.upd n f) ns (Function.update adj n es) := by
  refine ⟨fun m => by rw [isSome_get_upd]; exact h.live m, ?_, fun m => ?_⟩
  · rw [edgesAt_upd hnode, h.edges, hes]
  · rw [edgeCountAt_upd hnode, hcount]
    by_cases hm : m = n
    · subst hm
      rw [Function.update_self, Function.update_self]
    · rw [Function.update_of_ne hm, Function.update_of_ne hm, h.counts m]

/-- An edge is put on a list, and counted. -/
theorem pushEdge_countUp (h : Listed nodes ns adj) (hn : n ∈ ns) (e : Nat) :
    ∃ nodes₁ nodes₂, pushEdge nodes n e true = some (.success, nodes₁) ∧
      countUp nodes₁ n = some nodes₂ ∧ Listed nodes₂ ns (put adj n e) := by
  obtain ⟨node, hnode, hes, hcount⟩ := h.node hn
  have hpush : pushEdge nodes n e true =
      some (.success, nodes.upd n fun n => { n with edgeList := e :: n.edgeList }) := by
    simp [pushEdge, Store.assign_live _ hnode]
  refine ⟨_, _, hpush, Store.assign_live _ (by rw [Store.get_upd_self, hnode]; rfl), ?_⟩
  rw [Store.upd_upd]
  refine h.listed_upd hnode (by simp [hes]) ?_
  simp [hcount]

/-- The first EQUAL edge is taken off a list, and no longer counted. -/
theorem removeData_countDown (h : Listed nodes ns adj) (hn : n ∈ ns) (he : edges.get e = some edge)
    (hlive : ∀ e ∈ adj n, (edges.get e).isSome)
    (hfind : (adj n).find? (EqualTo edges edge) = some f) :
    ∃ nodes₁ nodes₂, removeData nodes edges n e = some (.success, nodes₁) ∧
      countDown nodes₁ n = some nodes₂ ∧ Listed nodes₂ ns (takeOff adj n f) := by
  obtain ⟨node, hnode, hes, hcount⟩ := h.node hn
  have hremove : removeData nodes edges n e =
      some (.success, nodes.upd n fun node => { node with edgeList := (adj n).erase f }) := by
    simp [removeData, hnode, hes, removeEqual_spec he hlive, hfind, Store.assign_live _ hnode]
  refine ⟨_, _, hremove, Store.assign_live _ (by rw [Store.get_upd_self, hnode]; rfl), ?_⟩
  rw [Store.upd_upd]
  refine h.listed_upd hnode rfl ?_
  have hmem : f ∈ adj n := List.mem_of_find?_eq_some hfind
  simp [hcount, List.length_erase_of_mem hmem]

/-- No edge on the list is EQUAL. -/
theorem removeData_failure (h : Listed nodes ns adj) (hn : n ∈ ns) (he : edges.get e = some edge)
    (hlive : ∀ e ∈ adj n, (edges.get e).isSome)
    (hfind : (adj n).find? (EqualTo edges edge) = none) :
    removeData nodes edges n e = some (.failure, nodes) := by
  obtain ⟨node, hnode, hes, -⟩ := h.node hn
  simp [removeData, hnode, hes, removeEqual_spec he hlive, hfind]

/-- A count that goes up alone. -/
theorem countUp_ne (h : Listed nodes ns adj) (hn : n ∈ ns) :
    ∃ nodes', countUp nodes n = some nodes' ∧
      (edgeCountAt nodes' n ≠ (edgesAt nodes' n).length) := by
  obtain ⟨node, hnode, hes, hcount⟩ := h.node hn
  refine ⟨_, Store.assign_live _ hnode, ?_⟩
  rw [edgeCountAt_upd hnode, edgesAt_upd hnode, Function.update_self, Function.update_self, hes,
    hcount]
  exact Nat.succ_ne_self _

end Listed

end CmakeTemplate
