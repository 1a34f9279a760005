/-
A depth-first search that runs out of stack.

The stack has `MAX_STACK_SIZE` slots, and a push that finds none fails.  The search is given
up then, in the middle of the edges of a node, with the nodes on the stack that were still to
be visited.  The stack is destroyed with `free`, so these are freed, and they are nodes of the
graph.

The search is compared with one that has room for everything.  The two go the same way up to
the first push that fails; what waits then are nodes that have been found, each once, so each
of them is freed once and the end of the search has a result.  The graph has lost them, while
`node_list` still has their addresses.
-/
import CmakeTemplate.Proofs.Graph.Dfs

namespace CmakeTemplate

open Lib

variable {α σ : Type} {g : Graph α} {W : Worklist σ} {holds : σ → List Nat → Prop}
  {place : List Nat → Nat → List Nat} {room start n : Nat} {waiting : List Nat}

/-! ### A worklist that is full

Up to the failing push the search makes the rounds of one that has room.
-/

/-- When there is no more room, a push fails and changes nothing. -/
def Fills (W : Worklist σ) (holds : σ → List Nat → Prop) (room : Nat) : Prop :=
  ∀ w waiting n, holds w waiting → ¬ waiting.length < room → W.push w n true = some (.failure, w)

namespace Keeps

variable {S S' : Search Nat}

/-- The loop over the edges ends where there is no room for the next node. -/
theorem visitNeighbors_full (hW : Keeps W holds place room) (hfull : Fills W holds room) :
    ∀ (es : List Nat) (t : Traversal σ) (waiting : List Nat), holds t.work waiting →
      (∀ e ∈ es, (g.edges.get e).isSome) → waiting.length ≤ room →
      room < waiting.length + (fresh t.visited
        (es.filterMap fun e => (g.edges.get e).map Edge.node2)).length →
      ∃ t', CmakeTemplate.visitNeighbors W (fun _ => true) g.edges t es = some (.failure, t') ∧
        holds t'.work (((fresh t.visited
          (es.filterMap fun e => (g.edges.get e).map Edge.node2)).take
            (room - waiting.length)).foldl place waiting) := by
  intro es
  induction es with
  | nil =>
      intro t waiting _ _ hle hover
      simp only [List.filterMap_nil, fresh, List.length_nil] at hover
      omega
  | cons e es ih =>
      intro t waiting hw hlive hle hover
      obtain ⟨he, hes⟩ := List.forall_mem_cons.mp hlive
      obtain ⟨edge, hedge⟩ := Option.isSome_iff_exists.mp he
      have htarget : (e :: es).filterMap (fun e => (g.edges.get e).map Edge.node2) =
          edge.node2 :: es.filterMap fun e => (g.edges.get e).map Edge.node2 :=
        List.filterMap_cons_some (by rw [hedge]; rfl)
      rw [htarget] at hover ⊢
      unfold fresh at hover ⊢
      by_cases hold : edge.node2 ∈ t.visited
      · rw [if_pos hold] at hover ⊢
        obtain ⟨t', hloop, hw'⟩ := ih t waiting hw hes hle hover
        exact ⟨t', by simp [CmakeTemplate.visitNeighbors, hedge, hold, hloop], hw'⟩
      · rw [if_neg hold] at hover ⊢
        rw [List.length_cons] at hover
        by_cases hlt : waiting.length < room
        · obtain ⟨t₁, hvisit, hw₁, hvisited₁⟩ := hW.visitNode hw edge.node2 hlt
          have hlength := (hW.perm waiting edge.node2).length_eq
          rw [List.length_cons] at hlength
          obtain ⟨t', hloop, hw'⟩ := ih t₁ (place waiting edge.node2) hw₁ hes (by omega) (by
            rw [hvisited₁]
            omega)
          have htake : room - waiting.length = room - (place waiting edge.node2).length + 1 := by
            omega
          rw [hvisited₁] at hw'
          rw [htake, List.take_succ_cons, List.foldl_cons]
          exact ⟨t', by simp [CmakeTemplate.visitNeighbors, hedge, hold, hvisit, hloop], hw'⟩
        · have hpush := hfull t.work waiting edge.node2 hw hlt
          have hvisit : CmakeTemplate.visitNode W (fun _ => true) t edge.node2 =
              some (.failure, t) := by
            simp [CmakeTemplate.visitNode, hpush]
          have htake : room - waiting.length = 0 := by omega
          rw [htake, List.take_zero, List.foldl_nil]
          exact ⟨t, by simp [CmakeTemplate.visitNeighbors, hedge, hold, hvisit], hw⟩

/-- What is left in a round that fails are nodes that have been found, each once. -/
theorem round_full (hW : Keeps W holds place room) (hfull : Fills W holds room) (h : EdgeLists g)
    (hstart : start ∈ g.nodeList) {t : Traversal σ} (ht : Follows holds t S)
    (hS : Explored (nexts g) start S) (hwaiting : S.waiting = n :: waiting)
    (hle : S.waiting.length ≤ room) (hround : S.round (nexts g) place = some S')
    (hover : room < S'.waiting.length) :
    ∃ w' t' node left, W.pop t.work = some (some n, w') ∧ g.nodes.get n = some node ∧
      CmakeTemplate.visitNeighbors W (fun _ => true) g.edges { t with work := w' } node.edgeList =
        some (.failure, t') ∧
      holds t'.work left ∧ left.length = room ∧ left.Nodup ∧ ∀ m ∈ left, m ∈ g.nodeList := by
  have hn : n ∈ g.nodeList := h.reaches_mem hstart (hS.reached n (by simp [Search.found, hwaiting]))
  obtain ⟨w', node, hpop, hw', hnode, halive, hnexts⟩ := hW.pop_exists h (hwaiting ▸ ht.work) hn
  obtain ⟨u, rest, hcons, hdone', hwaiting'⟩ := Search.round_eq_some hround
  obtain ⟨rfl, rfl⟩ := List.cons.inj (hwaiting.symm.trans hcons)
  have hfresh := fresh_congr ht.visited (nexts g n)
  rw [hwaiting', hW.length_foldl, ← hfresh] at hover
  rw [hwaiting, List.length_cons] at hle
  obtain ⟨t', hloop, hwork⟩ := hW.visitNeighbors_full hfull node.edgeList { t with work := w' }
    waiting hw' halive (by omega) (by rw [hnexts]; exact hover)
  rw [hnexts, hfresh] at hwork
  rw [hfresh] at hover
  -- what is left is part of what would wait after the round
  have hS' := hS.round hW.perm hround
  have hperm := foldl_place_perm hW.perm
    ((fresh S.found (nexts g n)).take (room - waiting.length)) waiting
  have hsub : (waiting ++ (fresh S.found (nexts g n)).take (room - waiting.length)).Sublist
      (waiting ++ fresh S.found (nexts g n)) :=
    (List.take_sublist _ _).append_left waiting
  have hall := foldl_place_perm hW.perm (fresh S.found (nexts g n)) waiting
  refine ⟨w', t', node, _, hpop, hnode, hloop, hwork, ?_, ?_, ?_⟩
  · rw [hW.length_foldl, List.length_take]
    omega
  · refine hperm.nodup_iff.mpr (hsub.nodup (hall.nodup_iff.mp ?_))
    rw [← hwaiting']
    exact (List.nodup_append.mp hS'.nodup).2.1
  · intro m hm
    have hfound : m ∈ S'.found := by
      rw [Search.found, hwaiting']
      exact List.mem_append_right _ (hall.mem_iff.mpr (hsub.subset (hperm.mem_iff.mp hm)))
    exact h.reaches_mem hstart (hS'.reached m hfound)

/-- A traversal fails where too many nodes would wait. -/
theorem traverse_full (hW : Keeps W holds place room) (hfull : Fills W holds room)
    (h : EdgeLists g) (hstart : start ∈ g.nodeList)
    (hleads : Search.Leads (nexts g) place S S') (hover : room < S'.waiting.length) :
    ∀ (fuel : Nat) (t : Traversal σ) (acted : List α), Follows holds t S →
      Explored (nexts g) start S → S.waiting.length ≤ room →
      g.nodes.next < fuel + S.done.length →
      ∃ t' acted' left,
        CmakeTemplate.traverse W (fun _ => true) g fuel t acted = some (.failure, t', acted') ∧
        holds t'.work left ∧ left.length = room ∧ left.Nodup ∧ ∀ m ∈ left, m ∈ g.nodeList := by
  induction hleads using Relation.ReflTransGen.head_induction_on with
  | refl =>
      intro fuel t acted _ _ hle _
      omega
  | @head S S₁ hround _ ih =>
      intro fuel t acted ht hS hle hfuel
      obtain ⟨n, waiting, hwaiting, hdone, -⟩ := Search.round_eq_some hround
      have hmem : n ∈ g.nodeList :=
        h.reaches_mem hstart (hS.reached n (by simp [Search.found, hwaiting]))
      have hmore : ¬ W.isEmpty t.work = true := by
        rw [hW.isEmpty ht.work, hwaiting]
        exact List.cons_ne_nil _ _
      cases fuel with
      | zero =>
          have hlength := h.length_found_next hstart hS
          rw [Search.found, List.length_append] at hlength
          omega
      | succ fuel =>
          by_cases hle₁ : S₁.waiting.length ≤ room
          · obtain ⟨w', t₁, node, hpop, hnode, hloop, ht₁⟩ :=
              hW.round h ht hmem hwaiting hround hle₁
            have hfuel₁ : g.nodes.next < fuel + S₁.done.length := by
              rw [hdone, List.length_append, List.length_singleton]
              omega
            obtain ⟨t', acted', left, hrun, hleft⟩ := ih fuel t₁ (acted ++ [node.data]) ht₁
              (hS.round hW.perm hround) hle₁ hfuel₁
            refine ⟨t', acted', left, ?_, hleft⟩
            rw [CmakeTemplate.traverse, if_neg hmore]
            simp [hpop, hnode, hloop, hrun]
          · obtain ⟨w', t', node, left, hpop, hnode, hloop, hleft⟩ :=
              hW.round_full hfull h hstart ht hS hwaiting hle hround (by omega)
            refine ⟨t', acted ++ [node.data], left, ?_, hleft⟩
            rw [CmakeTemplate.traverse, if_neg hmore]
            simp [hpop, hnode, hloop]

end Keeps

/-! ### What is freed

Nodes that wait are live and different from each other.
-/

theorem freeNodes_live {left : List Nat} (hnodup : left.Nodup) :
    ∀ nodes : Store (Node α), (∀ n ∈ left, (nodes.get n).isSome) →
      ∃ nodes', freeNodes nodes left = some nodes' ∧ ∀ n, n ∈ left ∨ nodes.get n = none →
        nodes'.get n = none := by
  induction left with
  | nil =>
      intro nodes _
      exact ⟨nodes, rfl, fun n hn => hn.resolve_left List.not_mem_nil⟩
  | cons m left ih =>
      intro nodes hlive
      obtain ⟨hm, hleft⟩ := List.forall_mem_cons.mp hlive
      obtain ⟨hnotin, hnd⟩ := List.nodup_cons.mp hnodup
      obtain ⟨node, hnode⟩ := Option.isSome_iff_exists.mp hm
      obtain ⟨nodes', hfree, hgone⟩ := ih hnd (nodes.drop m) (by
        intro n hn
        have hne : n ≠ m := ne_of_mem_of_not_mem hn hnotin
        rw [Store.get_drop_ne _ hne]
        exact hleft n hn)
      refine ⟨nodes', by simp [freeNodes, Store.free_live hnode, hfree], fun n hn => hgone n ?_⟩
      by_cases hnm : n = m
      · exact .inr (hnm ▸ Store.get_drop_self nodes m)
      · rw [Store.get_drop_ne _ hnm]
        exact hn.imp_left fun hmem => (List.mem_cons.mp hmem).resolve_left hnm

/-- A search that is given up frees nodes of the graph. -/
theorem Keeps.search_full (hW : Keeps W holds place room) (hfull : Fills W holds room)
    (h : EdgeLists g) (hstart : start ∈ g.nodeList) {w : σ} (hw : holds w []) (allocs : Nat)
    (hroom : 0 < room) {S : Search Nat} (hleads : Search.Leads (nexts g) place (.start start) S)
    (hover : room < S.waiting.length) :
    ∃ acted g',
      CmakeTemplate.search W (fun _ => true) g w allocs start = some (.failure, acted, g') ∧
      ¬ SameGraph g g' := by
  have hsingle : place [] start = [start] := List.perm_singleton.mp (hW.perm [] start)
  obtain ⟨t, hvisit, hwork, hvisited⟩ := hW.visitNode (t := ⟨w, [], allocs⟩) hw start hroom
  rw [hsingle] at hwork
  have ht : Follows holds t (.start start) := by
    refine ⟨hwork, fun n => ?_⟩
    rw [hvisited]
    rfl
  obtain ⟨t', acted, left, hrun, hleft, hlength, hnodup, hmem⟩ :=
    hW.traverse_full hfull h hstart hleads hover (g.nodes.next + 1) t [] ht (.start _ _) hroom
      (Nat.lt_succ_self _)
  have hlive : ∀ n ∈ left, (g.nodes.get n).isSome := fun n hn => h.alive_nodes n (hmem n hn)
  obtain ⟨nodes', hfree, hgone⟩ := freeNodes_live hnodup g.nodes hlive
  refine ⟨acted, { g with nodes := nodes' }, ?_, fun hsame => ?_⟩
  · simp [CmakeTemplate.search, hvisit, hrun, hW.drain hleft, hfree]
  · obtain ⟨n, hn⟩ := List.exists_mem_of_length_pos (hlength ▸ hroom)
    have hsome := hlive n hn
    rw [← hsame.nodes, hgone n (.inl hn)] at hsome
    cases hsome

/-! ### The stack

The stack fails exactly when more nodes would wait than it has slots.
-/

variable {customCompare : α → Node α → CompRtns}

theorem stackWorklist_fills : Fills stackWorklist OnStack maxStackSize.toNat :=
  fun _ _ n h hfull => h.full n hfull

theorem SameGraph.refl (g : Graph α) : SameGraph g g := ⟨rfl, rfl, rfl, rfl⟩

theorem EdgeLists.search_leaves_iff (h : EdgeLists g) (hstart : start ∈ g.nodeList) :
    LeavesGraph g (search stackWorklist (fun _ => true) g (stackInit maxStackSize) 3 start) ↔
      StackHolds g start := by
  constructor
  · intro hleaves S hS
    by_contra hover
    obtain ⟨acted, g', hsearch, hchanged⟩ := stackWorklist_keeps.search_full
      stackWorklist_fills h hstart stackInit_onStack 3 (by decide) hS (Nat.lt_of_not_le hover)
    obtain ⟨c, acted', g'', hresult, hsame⟩ := hleaves
    rw [hsearch, Option.some.injEq, Prod.mk.injEq, Prod.mk.injEq] at hresult
    obtain ⟨-, -, rfl⟩ := hresult
    exact hchanged hsame
  · intro hholds
    obtain ⟨S, acted, hsearch, -⟩ :=
      stackWorklist_keeps.search h hstart stackInit_onStack 3 hholds
    exact ⟨_, acted, g, hsearch, .refl g⟩

theorem graphDfs_leaves_iff (h : EdgeLists g) (startData : Option α) :
    LeavesGraph g (graphDfs customCompare g startData fun _ => true) ↔
      ∀ data start, startData = some data → graphFindNode customCompare g data = some (some start) →
        StackHolds g start := by
  cases startData with
  | none =>
      refine iff_of_true ⟨_, _, g, rfl, .refl g⟩ fun data start hdata => ?_
      cases hdata
  | some data =>
      obtain ⟨p, hfind, hmem⟩ := h.exists_findNode customCompare data
      cases p with
      | none =>
          refine iff_of_true ⟨.failure, [], g, by simp [graphDfs, hfind], .refl g⟩ ?_
          intro data' start hdata hfound
          obtain rfl := Option.some.inj hdata
          cases hfind.symm.trans hfound
      | some start =>
          have hdfs : graphDfs customCompare g (some data) (fun _ => true) =
              search stackWorklist (fun _ => true) g (stackInit maxStackSize) 3 start := by
            simp [graphDfs, hfind]
          rw [hdfs, h.search_leaves_iff (hmem start rfl)]
          constructor
          · intro hholds data' start' hdata hfound
            obtain rfl := Option.some.inj hdata
            obtain rfl := Option.some.inj (Option.some.inj (hfind.symm.trans hfound))
            exact hholds
          · intro hholds
            exact hholds data start rfl hfind

end CmakeTemplate
