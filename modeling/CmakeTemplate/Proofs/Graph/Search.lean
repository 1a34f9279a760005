/-
The loops of a search and the rounds of an `Exploration`.

`Keeps` says what a queue or a stack does with a list of nodes, the next one in front, as long
as there is room.  The two differ in where a new node is put, which is a parameter, and in how
much room they have.  A traversal over a worklist that keeps its nodes takes the nodes that a
`Search` takes, round by round: where the one is, the other is (`Follows`).

The loops of the source have a fuel here, and a search has not.  No node is taken twice, so
there are as many rounds as nodes at most, and the fuel is enough for them.  What is to be
known of the order and of the nodes that are reached is then known from the search, and the
graph is as it was, as nothing is left on the worklist to be freed.
-/
import CmakeTemplate.Traversal
import CmakeTemplate.Proofs.Graph.Add

namespace CmakeTemplate

open Lib

variable {α σ : Type} {g : Graph α} {W : Worklist σ} {holds : σ → List Nat → Prop}
  {place : List Nat → Nat → List Nat} {room start m n : Nat} {w : σ} {waiting : List Nat}

/-- The worklist holds nodes, up to `room` of them. -/
structure Keeps (W : Worklist σ) (holds : σ → List Nat → Prop)
    (place : List Nat → Nat → List Nat) (room : Nat) : Prop where
  /-- A new node is put somewhere. -/
  perm : ∀ l n, (place l n).Perm (n :: l)
  /-- The worklist knows when it is empty. -/
  isEmpty : ∀ {w waiting}, holds w waiting → (W.isEmpty w = true ↔ waiting = [])
  /-- With room, the node is put where it belongs. -/
  push : ∀ {w waiting} (n), holds w waiting → waiting.length < room →
    ∃ w', W.push w n true = some (.success, w') ∧ holds w' (place waiting n)
  /-- What comes out is the first of them. -/
  pop : ∀ {w n waiting}, holds w (n :: waiting) →
    ∃ w', W.pop w = some (some n, w') ∧ holds w' waiting
  /-- What is freed with it are the nodes that wait. -/
  drain : ∀ {w waiting}, holds w waiting → W.drain w = some waiting

/-- The traversal is where the search is. -/
structure Follows (holds : σ → List Nat → Prop) (t : Traversal σ) (S : Search Nat) : Prop where
  /-- The worklist has the nodes that wait. -/
  work : holds t.work S.waiting
  /-- The visited nodes are those that have been found. -/
  visited : ∀ n, n ∈ t.visited ↔ n ∈ S.found

/-! ### Where the edges lead

The list of a node gives the nodes that the search may go to.
-/

theorem mem_nexts : n ∈ nexts g m ↔
    ∃ e ∈ edgesAt g.nodes m, ∃ edge, g.edges.get e = some edge ∧ edge.node2 = n := by
  simp only [nexts, List.mem_filterMap, Option.map_eq_some_iff]

theorem EdgeLists.nexts_mem (h : EdgeLists g) (hn : n ∈ nexts g m) : n ∈ g.nodeList := by
  obtain ⟨e, he, edge, hedge, rfl⟩ := mem_nexts.mp hn
  exact (h.ends m e edge he hedge).2

theorem EdgeLists.reaches_mem (h : EdgeLists g) (hm : m ∈ g.nodeList)
    (hmn : Reaches (fun m n => n ∈ nexts g m) m n) : n ∈ g.nodeList := by
  induction hmn with
  | refl => exact hm
  | tail _ hstep _ => exact h.nexts_mem hstep

/-- No more nodes are found than there are. -/
theorem EdgeLists.length_found (h : EdgeLists g) (hm : m ∈ g.nodeList) {S : Search Nat}
    (hS : Explored (nexts g) m S) : S.found.length ≤ g.nodeList.length :=
  hS.length_le fun _ hn => h.reaches_mem hm hn

theorem EdgeLists.length_found_next (h : EdgeLists g) (hm : m ∈ g.nodeList) {S : Search Nat}
    (hS : Explored (nexts g) m S) : S.found.length ≤ g.nodes.next := by
  have hlive : ∀ n, Reaches (fun m n => n ∈ nexts g m) m n → n ∈ List.range g.nodes.next := by
    intro n hn
    obtain ⟨node, hnode, -⟩ := h.listed.node (h.reaches_mem hm hn)
    exact List.mem_range.mpr (Store.lt_next hnode)
  have hle := hS.length_le hlive
  rwa [List.length_range] at hle

/-! ### The loops

A visit, the loop over the edges of a node, and the loop over the nodes, each by what it does
to the search.
-/

namespace Keeps

variable {t : Traversal σ} {S S' : Search Nat}

theorem visitNode (hW : Keeps W holds place room) (hw : holds t.work waiting) (n : Nat)
    (hroom : waiting.length < room) :
    ∃ t', visitNode W (fun _ => true) t n = some (.success, t') ∧
      holds t'.work (place waiting n) ∧ t'.visited = t.visited ++ [n] := by
  obtain ⟨w', hpush, hw'⟩ := hW.push n hw hroom
  refine ⟨⟨w', t.visited ++ [n], t.allocs + 2⟩, ?_, hw', rfl⟩
  simp [CmakeTemplate.visitNode, hpush]

theorem length_foldl (hW : Keeps W holds place room) (new waiting : List Nat) :
    (new.foldl place waiting).length = waiting.length + new.length := by
  rw [(foldl_place_perm hW.perm new waiting).length_eq, List.length_append]

/-- The new ones of the nodes that the edges lead to are put on the list. -/
theorem visitNeighbors (hW : Keeps W holds place room) :
    ∀ (es : List Nat) (t : Traversal σ) (waiting : List Nat), holds t.work waiting →
      (∀ e ∈ es, (g.edges.get e).isSome) →
      waiting.length + (fresh t.visited
        (es.filterMap fun e => (g.edges.get e).map Edge.node2)).length ≤ room →
      ∃ t', visitNeighbors W (fun _ => true) g.edges t es = some (.success, t') ∧
        holds t'.work ((fresh t.visited
          (es.filterMap fun e => (g.edges.get e).map Edge.node2)).foldl place waiting) ∧
        t'.visited =
          t.visited ++ fresh t.visited (es.filterMap fun e => (g.edges.get e).map Edge.node2) := by
  intro es
  induction es with
  | nil =>
      intro t waiting hw _ _
      exact ⟨t, rfl, hw, (List.append_nil _).symm⟩
  | cons e es ih =>
      intro t waiting hw hlive hroom
      obtain ⟨he, hes⟩ := List.forall_mem_cons.mp hlive
      obtain ⟨edge, hedge⟩ := Option.isSome_iff_exists.mp he
      have htarget : (e :: es).filterMap (fun e => (g.edges.get e).map Edge.node2) =
          edge.node2 :: es.filterMap fun e => (g.edges.get e).map Edge.node2 :=
        List.filterMap_cons_some (by rw [hedge]; rfl)
      rw [htarget] at hroom ⊢
      unfold fresh at hroom ⊢
      by_cases hold : edge.node2 ∈ t.visited
      · rw [if_pos hold] at hroom ⊢
        obtain ⟨t', hloop, hw', hvisited⟩ := ih t waiting hw hes hroom
        exact ⟨t', by simp [CmakeTemplate.visitNeighbors, hedge, hold, hloop], hw', hvisited⟩
      · rw [if_neg hold] at hroom ⊢
        rw [List.length_cons] at hroom
        obtain ⟨t₁, hvisit, hw₁, hvisited₁⟩ := hW.visitNode hw edge.node2 (by omega)
        have hlength := (hW.perm waiting edge.node2).length_eq
        rw [List.length_cons] at hlength
        obtain ⟨t', hloop, hw', hvisited⟩ := ih t₁ (place waiting edge.node2) hw₁ hes (by
          rw [hvisited₁]
          omega)
        rw [hvisited₁] at hw' hvisited
        refine ⟨t', by simp [CmakeTemplate.visitNeighbors, hedge, hold, hvisit, hloop], hw', ?_⟩
        rw [hvisited, List.append_assoc, List.singleton_append]

/-- The next node is taken, and its edges are looked at. -/
theorem pop_exists (hW : Keeps W holds place room) (h : EdgeLists g) (hw : holds w (n :: waiting))
    (hn : n ∈ g.nodeList) :
    ∃ w' node, W.pop w = some (some n, w') ∧ holds w' waiting ∧ g.nodes.get n = some node ∧
      (∀ e ∈ node.edgeList, (g.edges.get e).isSome) ∧
      node.edgeList.filterMap (fun e => (g.edges.get e).map Edge.node2) = nexts g n := by
  obtain ⟨w', hpop, hw'⟩ := hW.pop hw
  obtain ⟨node, hnode, hedges, -⟩ := h.listed.node hn
  refine ⟨w', node, hpop, hw', hnode, ?_, ?_⟩
  · rw [hedges]
    exact h.alive n
  · rw [hedges, nexts]

/-- One round. -/
theorem round (hW : Keeps W holds place room) (h : EdgeLists g) (ht : Follows holds t S)
    (hu : n ∈ g.nodeList) (hwaiting : S.waiting = n :: waiting)
    (hround : S.round (nexts g) place = some S') (hroom : S'.waiting.length ≤ room) :
    ∃ w' t' node, W.pop t.work = some (some n, w') ∧ g.nodes.get n = some node ∧
      CmakeTemplate.visitNeighbors W (fun _ => true) g.edges { t with work := w' } node.edgeList =
        some (.success, t') ∧ Follows holds t' S' := by
  obtain ⟨w', node, hpop, hw', hnode, halive, hnexts⟩ := hW.pop_exists h (hwaiting ▸ ht.work) hu
  obtain ⟨u, rest, hcons, -, hwaiting'⟩ := Search.round_eq_some hround
  obtain ⟨rfl, rfl⟩ := List.cons.inj (hwaiting.symm.trans hcons)
  have hfresh := fresh_congr ht.visited (nexts g n)
  rw [hwaiting', hW.length_foldl, ← hfresh] at hroom
  obtain ⟨t', hloop, hwork, hvisited⟩ := hW.visitNeighbors node.edgeList { t with work := w' }
    waiting hw' halive (by rw [hnexts]; exact hroom)
  rw [hnexts] at hwork hvisited
  refine ⟨w', t', node, hpop, hnode, hloop, ?_, ?_⟩
  · rw [hwaiting', ← hfresh]
    exact hwork
  · intro v
    rw [hvisited, List.mem_append, hfresh, ht.visited v, mem_fresh,
      Search.mem_found_round hW.perm hround hwaiting]
    by_cases hv : v ∈ S.found
    · simp only [hv, true_or]
    · simp only [hv, not_false_eq_true, and_true]

/-- As long as there is room, the traversal goes on until no node waits. -/
theorem traverse (hW : Keeps W holds place room) (h : EdgeLists g) (hstart : start ∈ g.nodeList) :
    ∀ (fuel : Nat) (t : Traversal σ) (S : Search Nat) (acted : List α), Follows holds t S →
      Explored (nexts g) start S → acted.map some = S.done.map g.dataAt →
      g.nodes.next < fuel + S.done.length →
      (∀ S', Search.Leads (nexts g) place S S' → S'.waiting.length ≤ room) →
      ∃ t' S' acted', traverse W (fun _ => true) g fuel t acted = some (.success, t', acted') ∧
        Search.Leads (nexts g) place S S' ∧ S'.waiting = [] ∧ Follows holds t' S' ∧
        acted'.map some = S'.done.map g.dataAt := by
  intro fuel
  induction fuel with
  | zero =>
      intro t S acted _ hS _ hfuel _
      have hle := h.length_found_next hstart hS
      rw [Search.found, List.length_append] at hle
      omega
  | succ fuel ih =>
      intro t S acted ht hS hacted hfuel hroom
      cases hwaiting : S.waiting with
      | nil =>
          have hempty : W.isEmpty t.work = true := (hW.isEmpty ht.work).mpr hwaiting
          exact ⟨t, S, acted, by rw [CmakeTemplate.traverse, if_pos hempty], .refl, hwaiting, ht,
            hacted⟩
      | cons n waiting =>
          have hmore : ¬ W.isEmpty t.work = true := by
            rw [hW.isEmpty ht.work, hwaiting]
            exact List.cons_ne_nil _ _
          obtain ⟨S₁, hround⟩ : ∃ S₁, S.round (nexts g) place = some S₁ := by
            rw [Search.round, hwaiting]
            exact ⟨_, rfl⟩
          have hmem : n ∈ g.nodeList := by
            refine h.reaches_mem hstart (hS.reached n ?_)
            rw [Search.found, hwaiting]
            simp
          obtain ⟨w', t₁, node, hpop, hnode, hloop, ht₁⟩ :=
            hW.round h ht hmem hwaiting hround (hroom S₁ (.single hround))
          obtain ⟨u, rest, hcons, hdone, -⟩ := Search.round_eq_some hround
          obtain ⟨rfl, -⟩ := List.cons.inj (hwaiting.symm.trans hcons)
          have hacted₁ : (acted ++ [node.data]).map some = S₁.done.map g.dataAt := by
            simp [hdone, hacted, Graph.dataAt, hnode]
          have hfuel₁ : g.nodes.next < fuel + S₁.done.length := by
            rw [hdone, List.length_append, List.length_singleton]
            omega
          obtain ⟨t', S', acted', hrun, hleads, hnil, ht', hacted'⟩ :=
            ih t₁ S₁ (acted ++ [node.data]) ht₁ (hS.round hW.perm hround) hacted₁ hfuel₁
              fun S' hS' => hroom S' (.head hround hS')
          refine ⟨t', S', acted', ?_, .head hround hleads, hnil, ht', hacted'⟩
          rw [CmakeTemplate.traverse, if_neg hmore]
          simp [hpop, hnode, hloop, hrun]

/-- A search for which there is room succeeds, and leaves the graph as it is. -/
theorem search (hW : Keeps W holds place room) (h : EdgeLists g) (hstart : start ∈ g.nodeList)
    (hw : holds w []) (allocs : Nat)
    (hroom : ∀ S, Search.Leads (nexts g) place (.start start) S → S.waiting.length ≤ room) :
    ∃ S acted, search W (fun _ => true) g w allocs start = some (.success, acted, g) ∧
      acted.map some = S.done.map g.dataAt ∧
      Search.Leads (nexts g) place (.start start) S ∧ S.waiting = [] := by
  have hsingle : place [] start = [start] := List.perm_singleton.mp (hW.perm [] start)
  obtain ⟨t, hvisit, hwork, hvisited⟩ := hW.visitNode (t := ⟨w, [], allocs⟩) hw start
    (hroom _ .refl)
  rw [hsingle] at hwork
  have ht : Follows holds t (.start start) := by
    refine ⟨hwork, fun n => ?_⟩
    rw [hvisited]
    rfl
  obtain ⟨t', S, acted, hrun, hleads, hnil, ht', hacted⟩ := hW.traverse h hstart
    (g.nodes.next + 1) t (.start start) [] ht (.start _ _) rfl (Nat.lt_succ_self _) hroom
  refine ⟨S, acted, ?_, hacted, hleads, hnil⟩
  have hdrain : W.drain t'.work = some [] := hnil ▸ hW.drain ht'.work
  simp [CmakeTemplate.search, hvisit, hrun, hdrain, freeNodes]

end Keeps

end CmakeTemplate
