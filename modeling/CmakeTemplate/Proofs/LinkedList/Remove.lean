/-
Removing, searching, peeking and clearing.

`list_remove_head`, `list_remove_tail` and `list_remove_position` are pops whose datum goes to
`custom_free`, so they are known from the pops.  `list_remove_data` finds the first node that
compares EQUAL and unlinks it; the two halves are `findNodeLoop_spec`, an induction on the
chain, and `removeNode_spec`, one case for each of the ends the node may be at.  `list_clear`
frees every node.

A call that needs a `custom_free` on a list that has none has no result, and each of them is
given a lemma for that.  What a peek reads is the datum at a position, and nothing behind the
end.
-/
import CmakeTemplate.Proofs.LinkedList.Pop

namespace CmakeTemplate

open Lib

variable {α : Type} {m : ListMem α} {list : ListT α} {ns : List (Nat × Option α)}

/-- Calling `custom_free` does not touch the nodes. -/
theorem ListRep.withFreed (h : ListRep m list ns) (freed : List (Option α)) :
    ListRep { m with freed } list ns :=
  ⟨h.chain, h.size⟩

/-! ### Removing from an end or a position

A pop, and a call of `custom_free` with its datum.
-/

theorem listRemoveHead_spec (h : ListRep m list ns) (hf : list.customFree = true) :
    ∃ m' list', listRemoveHead m list = some (m', list', .success) ∧
      ListRep m' list' ns.tail ∧ SameFuncs list list' := by
  cases ns with
  | nil =>
      refine ⟨{ m with freed := m.freed ++ [none] }, list, ?_, h.withFreed _, rfl, rfl⟩
      simp [listRemoveHead, listPopHead_nil h, callFree_of_customFree hf]
  | cons n ns =>
      obtain ⟨nodes, list', hrun, hrep, hfun⟩ := listPopHead_spec h
      refine ⟨⟨nodes, m.freed ++ [n.2]⟩, list', ?_, hrep.withFreed _, hfun⟩
      simp [listRemoveHead, hrun, callFree_of_customFree (hfun.1.trans hf)]

theorem listRemoveTail_spec (h : ListRep m list ns) (hf : list.customFree = true) :
    ∃ m' list', listRemoveTail m list = some (m', list', .success) ∧
      ListRep m' list' ns.dropLast ∧ SameFuncs list list' := by
  rcases List.eq_nil_or_concat ns with rfl | ⟨xs, n, rfl⟩
  · refine ⟨{ m with freed := m.freed ++ [none] }, list, ?_, h.withFreed _, rfl, rfl⟩
    simp [listRemoveTail, listPopTail_nil h, callFree_of_customFree hf]
  · rw [List.concat_eq_append] at h ⊢
    obtain ⟨nodes, list', hrun, hrep, hfun⟩ := listPopTail_spec h
    refine ⟨⟨nodes, m.freed ++ [n.2]⟩, list', ?_, ?_, hfun⟩
    · simp [listRemoveTail, hrun, callFree_of_customFree (hfun.1.trans hf)]
    · rw [List.dropLast_concat]
      exact hrep.withFreed _

theorem listRemovePosition_refused (h : ListRep m list ns) {p : UInt32}
    (hp : ns.length ≤ p.toNat) : listRemovePosition m list p = some (m, list, .failure) := by
  have hge : p ≥ list.size := by
    rw [ge_iff_le, UInt32.le_iff_toNat_le, h.size]
    exact hp
  simp [listRemovePosition, hge]

theorem listRemovePosition_spec (h : ListRep m list ns) (hf : list.customFree = true)
    {p : UInt32} (hp : p.toNat < ns.length) :
    ∃ m' list', listRemovePosition m list p = some (m', list', .success) ∧
      ListRep m' list' (ns.eraseIdx p.toNat) ∧ SameFuncs list list' := by
  have hnot : ¬ p ≥ list.size := by
    rw [ge_iff_le, UInt32.le_iff_toNat_le, h.size]
    omega
  obtain ⟨m', list', hrun, hrep, hfun, -⟩ := listPopPosition_spec h hp fun _ => hf
  refine ⟨{ m' with freed := m'.freed ++ [ns[p.toNat].2] }, list', ?_, hrep.withFreed _, hfun⟩
  simp [listRemovePosition, hnot, hrun, callFree_of_customFree (hfun.1.trans hf)]

/-- Without a `custom_free` none of the three gets through. -/
theorem listRemoveHead_stuck (h : ListRep m list ns) (hf : list.customFree = false) :
    listRemoveHead m list = none := by
  cases ns with
  | nil => simp [listRemoveHead, listPopHead_nil h, callFree, hf]
  | cons n ns =>
      obtain ⟨nodes, list', hrun, -, hfun⟩ := listPopHead_spec h
      simp [listRemoveHead, hrun, callFree, hfun.1.trans hf]

theorem listRemoveTail_stuck (h : ListRep m list ns) (hf : list.customFree = false) :
    listRemoveTail m list = none := by
  rcases List.eq_nil_or_concat ns with rfl | ⟨xs, n, rfl⟩
  · simp [listRemoveTail, listPopTail_nil h, callFree, hf]
  · rw [List.concat_eq_append] at h
    obtain ⟨nodes, list', hrun, -, hfun⟩ := listPopTail_spec h
    simp [listRemoveTail, hrun, callFree, hfun.1.trans hf]

theorem listRemovePosition_stuck (h : ListRep m list ns) {p : UInt32} (hp : p.toNat < ns.length)
    (hf : list.customFree = false) : listRemovePosition m list p = none := by
  have hnot : ¬ p ≥ list.size := by
    rw [ge_iff_le, UInt32.le_iff_toNat_le, h.size]
    omega
  by_cases hin : 0 < p.toNat ∧ p.toNat + 1 < ns.length
  · simp [listRemovePosition, hnot, listPopPosition_stuck h hin.1 hin.2 hf]
  · obtain ⟨m', list', hrun, -, hfun, -⟩ := listPopPosition_spec h hp fun hc => absurd hc hin
    simp [listRemovePosition, hnot, hrun, callFree, hfun.1.trans hf]

/-! ### Peeking

The walk is the one of the pops.
-/

theorem listPeekPosition_spec (h : ListRep m list ns) (p : UInt32) :
    listPeekPosition m list p = some (ns[p.toNat]?.bind Prod.snd) := by
  by_cases hp : p.toNat < ns.length
  · have h0 : ¬ list.size = 0 := by
      rw [eq_zero_iff, h.size]
      omega
    have hnot : ¬ p ≥ list.size := by
      rw [ge_iff_le, UInt32.le_iff_toNat_le, h.size]
      omega
    have hcut : ns = ns.take p.toNat ++ ns[p.toNat] :: ns.drop (p.toNat + 1) := by
      rw [List.getElem_cons_drop, List.take_append_drop]
    have htake : (ns.take p.toNat).length = p.toNat := by rw [List.length_take]; omega
    have hchain := h.chain
    rw [hcut] at hchain
    obtain ⟨r, mid, hleft, rfl, k, hn, -⟩ := DChain.append.mp hchain
    have hwalk := advance_chain hleft
    rw [htake] at hwalk
    simp [listPeekPosition, h0, hnot, hwalk, hn, List.getElem?_eq_getElem hp]
  · have hge : p ≥ list.size := by
      rw [ge_iff_le, UInt32.le_iff_toNat_le, h.size]
      omega
    have hnone : ns[p.toNat]? = none := List.getElem?_eq_none (Nat.le_of_not_lt hp)
    simp [listPeekPosition, hge, hnone]

/-! ### Searching

The loop returns the first node that matches, or NULL.
-/

theorem findNodeLoop_spec {nodes : Store (ListNode α)} (cmp : Option α → Option α → CompRtns)
    (data : Option α) {pr p la : Ptr} {fuel : Nat} (h : DChain nodes pr p ns la none)
    (hfuel : ns.length ≤ fuel) :
    findNodeLoop nodes cmp data fuel p
      = some ((ns.find? fun n => cmp data n.2 = .equal).map Prod.fst) := by
  induction ns generalizing pr p fuel with
  | nil =>
      rw [h.1]
      simp [findNodeLoop]
  | cons n ns ih =>
      obtain ⟨rfl, k, hn, hrest⟩ := h
      cases fuel with
      | zero => simp at hfuel
      | succ fuel =>
          by_cases heq : cmp data n.2 = .equal
          · simp [findNodeLoop, hn, heq]
          · simp only [findNodeLoop, hn, Option.bind_eq_bind, Option.bind_some, if_neg heq]
            rw [ih hrest (Nat.le_of_succ_le_succ hfuel)]
            simp [heq]

theorem findNode_spec (h : ListRep m list ns) (d : α) :
    findNode m list (some d)
      = some ((ns.find? fun n => list.compareFunc (some d) n.2 = .equal).map Prod.fst) := by
  simp only [findNode, Option.isNone_some, Bool.false_eq_true, if_false]
  exact findNodeLoop_spec _ _ h.chain (Nat.le_of_lt h.length_lt_walkFuel)

/-! ### Removing a node

The node may be the only one, the first, the last, or between two.
-/

theorem removeNode_spec {xs ys : List (Nat × Option α)} {n : Nat × Option α}
    (h : ListRep m list (xs ++ n :: ys)) :
    ∃ nodes list',
      removeNode m list (some n.1) = (if list.customFree then
        some (⟨nodes, m.freed ++ [n.2]⟩, list', .success) else none) ∧
      ListRep ⟨nodes, m.freed ++ [n.2]⟩ list' (xs ++ ys) ∧ SameFuncs list list' := by
  have hsize : list.size.toNat = (xs ++ ys).length + 1 := by
    rw [h.size]
    simp only [List.length_append, List.length_cons]
    omega
  rcases List.eq_nil_or_concat xs with rfl | ⟨xs, x, rfl⟩
  · obtain ⟨hhead, k, hn, hrest⟩ := id h.chain
    cases ys with
    | nil =>
        obtain ⟨rfl, htail⟩ := hrest
        refine ⟨m.nodes.drop n.1, { list with head := none, tail := none, size := list.size - 1 },
          ?_, ⟨⟨rfl, rfl⟩, size_pred hsize⟩, rfl, rfl⟩
        simp only [removeNode, hn, Option.bind_eq_bind, Option.bind_some, Store.load_some, if_true,
          if_false, reduceCtorEq]
        exact callFree_free hn m.freed { list with head := none, tail := none } n.2 fun m =>
          (m, { list with head := none, tail := none, size := list.size - 1 }, ExitCode.success)
    | cons y ys =>
        obtain ⟨rfl, l, hy, -⟩ := hrest
        have hny : n.1 ≠ y.1 := fun hc => (List.nodup_cons.mp h.nodup).1 (by simp [hc])
        have hlive : (m.nodes.upd y.1 fun c => { c with prev := none }).get n.1
            = some ⟨n.2, none, some y.1⟩ := by
          rw [Store.get_upd_ne _ _ hny, hn]
        refine ⟨(m.nodes.upd y.1 fun c => { c with prev := none }).drop n.1,
          { list with head := some y.1, size := list.size - 1 },
          ?_, ⟨h.chain.unlink_first, size_pred hsize⟩, rfl, rfl⟩
        simp only [removeNode, hn, setPrev_live hy, Option.bind_eq_bind, Option.bind_some,
          Store.load_some, if_true, if_false, reduceCtorEq]
        exact callFree_free hlive m.freed { list with head := some y.1 } n.2 fun m =>
          (m, { list with head := some y.1, size := list.size - 1 }, ExitCode.success)
  · rw [List.concat_eq_append] at h hsize ⊢
    obtain ⟨r, mid, hleft, hright⟩ := DChain.append.mp h.chain
    obtain ⟨l, -, rfl, hx⟩ := DChain.snoc.mp hleft
    obtain ⟨rfl, k, hn, hrest⟩ := hright
    have hnx : n.1 ≠ x.1 :=
      (ne_of_notMem_addrs (DChain.notMem_left h.nodup (n := n) (by simp)) (by simp)).symm
    cases ys with
    | nil =>
        obtain ⟨rfl, htail⟩ := hrest
        rw [List.append_nil] at hsize ⊢
        have hlive : (m.nodes.upd x.1 fun c => { c with next := none }).get n.1
            = some ⟨n.2, some x.1, none⟩ := by
          rw [Store.get_upd_ne _ _ hnx, hn]
        refine ⟨(m.nodes.upd x.1 fun c => { c with next := none }).drop n.1,
          { list with tail := some x.1, size := list.size - 1 },
          ?_, ⟨h.chain.unlink_last, size_pred hsize⟩, rfl, rfl⟩
        simp only [removeNode, hn, setNext_live hx, Option.bind_eq_bind, Option.bind_some,
          Store.load_some, if_true, if_false, reduceCtorEq]
        exact callFree_free hlive m.freed { list with tail := some x.1 } n.2 fun m =>
          (m, { list with tail := some x.1, size := list.size - 1 }, ExitCode.success)
    | cons y ys =>
        obtain ⟨rfl, k', hy, -⟩ := hrest
        have hxy : y.1 ≠ x.1 :=
          (ne_of_notMem_addrs (DChain.notMem_left h.nodup (n := y) (by simp)) (by simp)).symm
        have hny : n.1 ≠ y.1 :=
          fun hc => (List.nodup_cons.mp (DChain.nodup_right h.nodup)).1 (by simp [hc])
        have hyload : (m.nodes.upd x.1 fun c => { c with next := some y.1 }).get y.1
            = some ⟨y.2, some n.1, k'⟩ := by
          rw [Store.get_upd_ne _ _ hxy, hy]
        have hlive : ((m.nodes.upd x.1 fun c => { c with next := some y.1 }).upd y.1 fun c =>
            { c with prev := some x.1 }).get n.1 = some ⟨n.2, some x.1, some y.1⟩ := by
          rw [Store.get_upd_ne _ _ hny, Store.get_upd_ne _ _ hnx, hn]
        refine ⟨((m.nodes.upd x.1 fun c => { c with next := some y.1 }).upd y.1 fun c =>
            { c with prev := some x.1 }).drop n.1, { list with size := list.size - 1 }, ?_,
          ⟨h.chain.unlink_between, size_pred hsize⟩, rfl, rfl⟩
        simp only [removeNode, hn, setNext_live hx, setPrev_live hyload, Option.bind_eq_bind,
          Option.bind_some, Store.load_some, if_false, reduceCtorEq]
        exact callFree_free hlive m.freed list n.2 fun m =>
          (m, { list with size := list.size - 1 }, ExitCode.success)

/-- The node that `list_remove_data` finds. -/
theorem findNode_found (h : ListRep m list ns) {d : α}
    (hex : ∃ n ∈ ns, list.compareFunc (some d) n.2 = .equal) :
    ∃ xs n ys, ns = xs ++ n :: ys ∧ findNode m list (some d) = some (some n.1) ∧
      (ns.eraseP fun n => list.compareFunc (some d) n.2 = .equal) = xs ++ ys := by
  obtain ⟨n, xs, ys, hxs, hn, rfl, herase⟩ := List.exists_of_eraseP
    (p := fun n : Nat × Option α => decide (list.compareFunc (some d) n.2 = .equal))
    hex.choose_spec.1 (decide_eq_true hex.choose_spec.2)
  have hfind : (xs ++ n :: ys).find? (fun n => list.compareFunc (some d) n.2 = .equal)
      = some n :=
    List.find?_eq_some_iff_append.mpr ⟨hn, xs, ys, rfl, fun a ha => by simpa using hxs a ha⟩
  exact ⟨xs, n, ys, rfl, by simp [findNode_spec h, hfind], herase⟩

/-- `list_remove_data` takes out the first node that compares EQUAL, if there is one. -/
theorem listRemoveData_spec (h : ListRep m list ns) (d : α)
    (hf : (∃ n ∈ ns, list.compareFunc (some d) n.2 = .equal) → list.customFree = true) :
    ∃ m' list', listRemoveData m list (some d) = some (m', list',
        if ∃ n ∈ ns, list.compareFunc (some d) n.2 = .equal then .success else .failure) ∧
      ListRep m' list' (ns.eraseP fun n => list.compareFunc (some d) n.2 = .equal) ∧
      SameFuncs list list' := by
  by_cases hex : ∃ n ∈ ns, list.compareFunc (some d) n.2 = .equal
  · rw [if_pos hex]
    obtain ⟨xs, n, ys, rfl, hfind, herase⟩ := findNode_found h hex
    obtain ⟨nodes, list', hrun, hrep, hfun⟩ := removeNode_spec h
    rw [if_pos (hf hex)] at hrun
    refine ⟨⟨nodes, m.freed ++ [n.2]⟩, list', ?_, herase ▸ hrep, hfun⟩
    simp [listRemoveData, hfind, hrun]
  · have hnone : ns.find? (fun n => list.compareFunc (some d) n.2 = .equal) = none := by
      rw [List.find?_eq_none]
      intro n hn hc
      exact hex ⟨n, hn, of_decide_eq_true hc⟩
    have herase : ns.eraseP (fun n => list.compareFunc (some d) n.2 = .equal) = ns :=
      List.eraseP_of_forall_not fun n hn hc => hex ⟨n, hn, of_decide_eq_true hc⟩
    refine ⟨m, list, ?_, herase.symm ▸ h, rfl, rfl⟩
    rw [if_neg hex]
    simp [listRemoveData, findNode_spec h, hnone]

theorem listRemoveData_stuck (h : ListRep m list ns) {d : α}
    (hex : ∃ n ∈ ns, list.compareFunc (some d) n.2 = .equal) (hf : list.customFree = false) :
    listRemoveData m list (some d) = none := by
  obtain ⟨xs, n, ys, rfl, hfind, -⟩ := findNode_found h hex
  obtain ⟨nodes, list', hrun, -⟩ := removeNode_spec h
  simp [listRemoveData, hfind, hrun, hf]

/-! ### Clearing

The data go to `custom_free` in the order of the list, if there is one.
-/

/-- What `list_clear` hands to `custom_free`. -/
def clearedData (list : ListT α) (ns : List (Nat × Option α)) : List (Option α) :=
  if list.customFree then ns.map Prod.snd else []

theorem listClearLoop_spec {m : ListMem α} {pr p la : Ptr} {fuel : Nat}
    (h : DChain m.nodes pr p ns la none) (hfuel : ns.length ≤ fuel) :
    ∃ nodes, listClearLoop list fuel m p
      = some ⟨nodes, m.freed ++ clearedData list ns⟩ := by
  induction ns generalizing m pr p fuel with
  | nil =>
      rw [h.1]
      exact ⟨m.nodes, by simp [listClearLoop, clearedData]⟩
  | cons n ns ih =>
      have hnd := h.nodup
      obtain ⟨rfl, k, hn, hrest⟩ := h
      cases fuel with
      | zero => simp at hfuel
      | succ fuel =>
          -- the rest of the chain is untouched by freeing `n`
          have hdrop := hrest.drop (List.nodup_cons.mp hnd).1
          obtain ⟨nodes, hrun⟩ := ih (m := ⟨m.nodes.drop n.1, m.freed ++ clearedData list [n]⟩)
            hdrop (Nat.le_of_succ_le_succ hfuel)
          refine ⟨nodes, ?_⟩
          cases hf : list.customFree with
          | true =>
              simp only [clearedData, hf, if_true, List.map_cons, List.map_nil] at hrun
              simp [listClearLoop, hn, callFree, hf, Store.free_live hn, hrun, clearedData]
          | false =>
              simp only [clearedData, hf, Bool.false_eq_true, if_false, List.append_nil] at hrun
              simp [listClearLoop, hn, hf, Store.free_live hn, hrun, clearedData]

theorem listClear_spec (h : ListRep m list ns) :
    ∃ nodes list', listClear m list
        = some (⟨nodes, m.freed ++ clearedData list ns⟩, list', .success) ∧
      ListRep ⟨nodes, m.freed ++ clearedData list ns⟩ list' [] ∧ SameFuncs list list' := by
  obtain ⟨nodes, hrun⟩ := @listClearLoop_spec _ list _ _ _ _ _ _ h.chain
    (Nat.le_of_lt h.length_lt_walkFuel)
  refine ⟨nodes, { list with head := none, tail := none, size := 0 }, ?_,
    ⟨⟨rfl, rfl⟩, rfl⟩, rfl, rfl⟩
  simp [listClear, hrun]

end CmakeTemplate
