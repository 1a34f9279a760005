/-
What taking a node out does to a list.

The pops and `remove_node` unlink one node and free it, `list_clear` all of them.  An
unlinking is a cut of the chain and a change at each side of it; a node at an end has one
neighbour, the only node none, and those are cases of their own in the source as they are
here.

Which data `custom_free` is called with is part of each statement: a pop from an end calls it
with nothing, a pop from between two nodes with the data it returns.  So a pop by position has
a result without a `custom_free` at the ends only, and what is returned from elsewhere has
been freed.  A position outside the list is refused, and nothing has changed.
-/
import CmakeTemplate.Proofs.LinkedList.Push

namespace CmakeTemplate

open Lib

variable {α : Type} {m : ListMem α} {list : ListT α} {ns : List (Nat × Option α)}

theorem callFree_of_customFree (hf : list.customFree = true) (m : ListMem α) (data : Option α) :
    callFree m list data = some { m with freed := m.freed ++ [data] } := by
  rw [callFree, if_pos hf]

/-- A node that has been unlinked is freed, with its data. -/
theorem callFree_free {nodes : Store (ListNode α)} {a : Nat} {node : ListNode α} {β : Type}
    (hlive : nodes.get a = some node) (freed : List (Option α)) (list : ListT α) (data : Option α)
    (k : ListMem α → β) :
    ((callFree ⟨nodes, freed⟩ list data).bind fun m =>
        (m.nodes.free (some a)).bind fun nodes => some (k ⟨nodes, m.freed⟩)) =
      if list.customFree then some (k ⟨nodes.drop a, freed ++ [data]⟩) else none := by
  cases hf : list.customFree <;> simp [callFree, hf, Store.free_live hlive]

/-- The size after one node has gone. -/
theorem size_pred {list : ListT α} {k : Nat} (h : list.size.toNat = k + 1) :
    (list.size - 1).toNat = k := by
  rw [toNat_pred (by omega), h, Nat.add_sub_cancel]

/-! ### Popping from an end

The neighbour becomes the new end, or the list is empty.
-/

theorem listPopHead_nil (h : ListRep m list []) : listPopHead m list = some (m, list, none) := by
  have hhead : list.head = none := h.head_eq
  simp [listPopHead, hhead]

theorem listPopHead_spec {n : Nat × Option α} (h : ListRep m list (n :: ns)) :
    ∃ nodes list', listPopHead m list = some ({ m with nodes }, list', n.2) ∧
      ListRep { m with nodes } list' ns ∧ SameFuncs list list' := by
  have hhead : list.head = some n.1 := h.head_eq
  obtain ⟨-, k, hn, hrest⟩ := id h.chain
  cases ns with
  | nil =>
      have htail : list.tail = some n.1 := h.tail_eq
      refine ⟨m.nodes.drop n.1, { list with head := none, tail := none, size := list.size - 1 },
        ?_, ⟨⟨rfl, rfl⟩, size_pred h.size⟩, rfl, rfl⟩
      simp [listPopHead, hhead, htail, hn, Store.free_live hn]
  | cons y ns =>
      obtain ⟨rfl, l, hy, -⟩ := hrest
      have hne : ¬ some n.1 = list.tail := hhead ▸ h.head_ne_tail (by simp)
      have hny : n.1 ≠ y.1 := fun hc => (List.nodup_cons.mp h.nodup).1 (by simp [hc])
      have hfree : (m.nodes.upd y.1 fun c => { c with prev := none }).get n.1
          = some ⟨n.2, none, some y.1⟩ := by
        rw [Store.get_upd_ne _ _ hny, hn]
      refine ⟨(m.nodes.upd y.1 fun c => { c with prev := none }).drop n.1,
        { list with head := some y.1, size := list.size - 1 },
        ?_, ⟨h.chain.unlink_first, size_pred h.size⟩, rfl, rfl⟩
      simp [listPopHead, hhead, hne, hn, setPrev_live hy, Store.free_live hfree]

theorem listPopTail_nil (h : ListRep m list []) : listPopTail m list = some (m, list, none) := by
  have htail : list.tail = none := h.tail_eq
  simp [listPopTail, htail]

theorem listPopTail_spec {n : Nat × Option α} (h : ListRep m list (ns ++ [n])) :
    ∃ nodes list', listPopTail m list = some ({ m with nodes }, list', n.2) ∧
      ListRep { m with nodes } list' ns ∧ SameFuncs list list' := by
  have htail : list.tail = some n.1 := by rw [h.tail_eq]; simp
  have hsize : list.size.toNat = ns.length + 1 := by rw [h.size, List.length_append]; rfl
  obtain ⟨l, hleft, -, hn⟩ := DChain.snoc.mp h.chain
  rcases List.eq_nil_or_concat ns with rfl | ⟨xs, y, rfl⟩
  · have hhead : list.head = some n.1 := h.head_eq
    refine ⟨m.nodes.drop n.1, { list with head := none, tail := none, size := list.size - 1 },
      ?_, ⟨⟨rfl, rfl⟩, size_pred hsize⟩, rfl, rfl⟩
    simp [listPopTail, hhead, htail, hn, Store.free_live hn]
  · rw [List.concat_eq_append] at h hleft hsize ⊢
    obtain ⟨k, -, rfl, hy⟩ := DChain.snoc.mp hleft
    have hne : ¬ list.head = some n.1 := htail ▸ h.head_ne_tail (by simp)
    have hny : n.1 ≠ y.1 :=
      (ne_of_notMem_addrs (DChain.notMem_left h.nodup (by simp)) (by simp)).symm
    have hfree : (m.nodes.upd y.1 fun c => { c with next := none }).get n.1
        = some ⟨n.2, some y.1, none⟩ := by
      rw [Store.get_upd_ne _ _ hny, hn]
    refine ⟨(m.nodes.upd y.1 fun c => { c with next := none }).drop n.1,
      { list with tail := some y.1, size := list.size - 1 },
      ?_, ⟨h.chain.unlink_last, size_pred hsize⟩, rfl, rfl⟩
    simp [listPopTail, hne, htail, hn, setNext_live hy, Store.free_live hfree]

/-! ### Popping from a position

The walk to the position counts from the head.
-/

theorem listPopPosition_refused (h : ListRep m list ns) {p : UInt32} (hp : ns.length ≤ p.toNat) :
    listPopPosition m list p = some (m, list, none) := by
  have hge : p ≥ list.size := by
    rw [ge_iff_le, UInt32.le_iff_toNat_le, h.size]
    exact hp
  simp [listPopPosition, hge]

/-- From between two nodes: the data is also handed to `custom_free`, which had better
be there. -/
theorem listPopPosition_inside {xs ys : List (Nat × Option α)} {x n y : Nat × Option α}
    (h : ListRep m list (xs ++ [x] ++ n :: y :: ys)) {p : UInt32} (hp : p.toNat = xs.length + 1) :
    ∃ nodes list',
      listPopPosition m list p = (if list.customFree then
        some (⟨nodes, m.freed ++ [n.2]⟩, list', n.2) else none) ∧
      ListRep ⟨nodes, m.freed ++ [n.2]⟩ list' (xs ++ [x] ++ y :: ys) ∧ SameFuncs list list' := by
  have hsize : list.size.toNat = (xs ++ [x] ++ y :: ys).length + 1 := by
    rw [h.size]
    simp only [List.length_append, List.length_cons, List.length_nil]
    omega
  have hnot : ¬ p ≥ list.size := by
    rw [ge_iff_le, UInt32.le_iff_toNat_le, hsize, hp]
    simp
  have h0 : ¬ p = 0 := by
    rw [eq_zero_iff]
    omega
  have hlast : ¬ p = list.size - 1 := by
    rw [← UInt32.toNat_inj, size_pred hsize, hp]
    simp
  obtain ⟨r, mid, hleft, hright⟩ := DChain.append.mp h.chain
  obtain ⟨l, -, rfl, hx⟩ := DChain.snoc.mp hleft
  obtain ⟨rfl, k, hn, hrest⟩ := hright
  obtain ⟨rfl, k', hy, -⟩ := hrest
  have hnd := h.nodup
  have hxy : y.1 ≠ x.1 :=
    (ne_of_notMem_addrs (DChain.notMem_left hnd (n := y) (by simp)) (by simp)).symm
  have hnx : n.1 ≠ x.1 :=
    (ne_of_notMem_addrs (DChain.notMem_left hnd (n := n) (by simp)) (by simp)).symm
  have hny : n.1 ≠ y.1 := fun hc => (List.nodup_cons.mp (DChain.nodup_right hnd)).1 (by simp [hc])
  have hwalk : advance m.nodes p.toNat list.head = some (some n.1) := by
    rw [hp, show xs.length + 1 = (xs ++ [x]).length by simp]
    exact advance_chain hleft
  have hyload : (m.nodes.upd x.1 fun c => { c with next := some y.1 }).get y.1
      = some ⟨y.2, some n.1, k'⟩ := by
    rw [Store.get_upd_ne _ _ hxy, hy]
  have hfree : ((m.nodes.upd x.1 fun c => { c with next := some y.1 }).upd y.1 fun c =>
      { c with prev := some x.1 }).get n.1 = some ⟨n.2, some x.1, some y.1⟩ := by
    rw [Store.get_upd_ne _ _ hny, Store.get_upd_ne _ _ hnx, hn]
  refine ⟨((m.nodes.upd x.1 fun c => { c with next := some y.1 }).upd y.1 fun c =>
      { c with prev := some x.1 }).drop n.1, { list with size := list.size - 1 }, ?_,
    ⟨h.chain.unlink_between, size_pred hsize⟩, rfl, rfl⟩
  simp only [listPopPosition, hnot, h0, hlast, hwalk, hn, setNext_live hx, setPrev_live hyload,
    Option.bind_eq_bind, Option.bind_some, Store.load_some, if_false, reduceCtorEq]
  exact callFree_free hfree m.freed list n.2 fun m =>
    (m, { list with size := list.size - 1 }, n.2)

/-- A position inside the list pops its node; only a node between two others has its
data handed to `custom_free`. -/
theorem listPopPosition_spec (h : ListRep m list ns) {p : UInt32} (hp : p.toNat < ns.length)
    (hf : 0 < p.toNat ∧ p.toNat + 1 < ns.length → list.customFree = true) :
    ∃ m' list', listPopPosition m list p = some (m', list', ns[p.toNat].2) ∧
      ListRep m' list' (ns.eraseIdx p.toNat) ∧ SameFuncs list list' ∧
      m'.freed = if 0 < p.toNat ∧ p.toNat + 1 < ns.length then m.freed ++ [ns[p.toNat].2]
        else m.freed := by
  have hnot : ¬ p ≥ list.size := by
    rw [ge_iff_le, UInt32.le_iff_toNat_le, h.size]
    omega
  by_cases h0 : p = 0
  · subst h0
    obtain ⟨n, ns, rfl⟩ := List.exists_cons_of_length_pos hp
    obtain ⟨nodes, list', hrun, hrep, hfun⟩ := listPopHead_spec h
    refine ⟨{ m with nodes }, list', ?_, hrep, hfun, by simp⟩
    simp [listPopPosition, hnot, hrun]
  · have hpos : 0 < p.toNat := Nat.pos_of_ne_zero fun hc => h0 (eq_zero_iff.mpr hc)
    have hsize : list.size.toNat = ns.length - 1 + 1 := by rw [h.size]; omega
    by_cases hlast : p = list.size - 1
    · have hpl : p.toNat = ns.length - 1 := by rw [hlast, size_pred hsize]
      rcases List.eq_nil_or_concat ns with rfl | ⟨xs, n, rfl⟩
      · simp at hp
      · simp only [List.concat_eq_append] at h hp hpl ⊢
        obtain ⟨nodes, list', hrun, hrep, hfun⟩ := listPopTail_spec h
        have hpx : p.toNat = xs.length := by rw [hpl]; simp
        refine ⟨{ m with nodes }, list', ?_, ?_, hfun, ?_⟩
        · simp only [listPopPosition, if_neg hnot, if_neg h0, if_pos hlast, hrun, hpx]
          simp
        · rw [hpx, List.eraseIdx_append_of_length_le (Nat.le_refl _)]
          simpa using hrep
        · simp [hpx]
    · have hin : p.toNat + 1 < ns.length := by
        refine Nat.lt_of_le_of_ne hp fun hc => hlast (UInt32.toNat_inj.mp ?_)
        rw [size_pred hsize]
        omega
      obtain ⟨xs, x, z, zs, rfl, hlen⟩ := cut_inside hpos hp
      cases zs with
      | nil => simp at hin; omega
      | cons y ys =>
          obtain ⟨nodes, list', hrun, hrep, hfun⟩ := listPopPosition_inside h hlen.symm
          rw [if_pos (hf ⟨hpos, hin⟩)] at hrun
          have hpx : p.toNat = (xs ++ [x]).length := by simp; omega
          refine ⟨⟨nodes, m.freed ++ [z.2]⟩, list', ?_, ?_, hfun, ?_⟩
          · rw [hrun]
            simp [hpx]
          · rw [hpx, List.eraseIdx_append_of_length_le (Nat.le_refl _)]
            simpa using hrep
          · rw [if_pos ⟨hpos, hin⟩]
            simp [hpx]

/-- Without a `custom_free` there is no popping from between two nodes. -/
theorem listPopPosition_stuck (h : ListRep m list ns) {p : UInt32} (hpos : 0 < p.toNat)
    (hin : p.toNat + 1 < ns.length) (hf : list.customFree = false) :
    listPopPosition m list p = none := by
  obtain ⟨xs, x, z, zs, rfl, hlen⟩ := cut_inside hpos (Nat.lt_of_succ_lt hin)
  cases zs with
  | nil => simp at hin; omega
  | cons y ys =>
      obtain ⟨nodes, list', hrun, -⟩ := listPopPosition_inside h hlen.symm
      rw [hrun, hf]
      rfl

end CmakeTemplate
