/-
What the three pushes do to a list.

`ListRep m list ns` is the whole of a well-formed list: its nodes are the doubly
linked chain `ns` between two NULLs, and `size` counts them.  Each push adds one
node to `ns`, at the front, at the back or at its position; nothing else changes,
neither the nodes that were there nor what `custom_free` has been called with.  The
chain is right after every push; `size` counts it as long as 32 bits suffice.
-/
import CmakeTemplate.LinkedList
import CmakeTemplate.Lib.Word

namespace CmakeTemplate

open Lib

variable {α : Type}

/-- The list holds exactly the nodes `ns`. -/
structure ListRep (m : ListMem α) (list : ListT α) (ns : List (Nat × Option α)) : Prop where
  /-- The nodes are a chain from `head` to `tail`. -/
  chain : DChain m.nodes none list.head ns list.tail none
  /-- `size` counts them. -/
  size : list.size.toNat = ns.length

/-- The callbacks of a list never change. -/
def SameFuncs (list list' : ListT α) : Prop :=
  list'.customFree = list.customFree ∧ list'.compareFunc = list.compareFunc

namespace ListRep

variable {m : ListMem α} {list : ListT α} {ns : List (Nat × Option α)}

theorem head_eq (h : ListRep m list ns) : list.head = (ns.map Prod.fst).head? := h.chain.first_eq

theorem tail_eq (h : ListRep m list ns) : list.tail = (ns.map Prod.fst).getLast? := h.chain.last_eq

theorem nodup (h : ListRep m list ns) : (ns.map Prod.fst).Nodup := h.chain.nodup

theorem length_lt_walkFuel (h : ListRep m list ns) : ns.length < walkFuel m.nodes :=
  Nat.lt_succ_of_le h.chain.length_le

/-- Only a list of at most one node has its head for tail. -/
theorem head_ne_tail (h : ListRep m list ns) (h2 : 2 ≤ ns.length) : list.head ≠ list.tail := by
  rw [h.head_eq, h.tail_eq, List.head?_eq_getElem?, List.getLast?_eq_getElem?]
  intro hc
  have hlt : 0 < (ns.map Prod.fst).length := by rw [List.length_map]; omega
  have := (List.getElem?_inj hlt h.nodup).mp hc
  rw [List.length_map] at this
  omega

end ListRep

theorem listNew_rep (customFree : Bool) (compareFunc : Option α → Option α → CompRtns) :
    ListRep ⟨.empty, []⟩ (listNew customFree compareFunc) [] :=
  ⟨⟨rfl, rfl⟩, rfl⟩

/-! ### Writing a pointer of a live node

A store through a pointer to a node of the chain has a result, and a walk along the chain
comes to the node it counts to.
-/

theorem setNext_live {nodes : Store (ListNode α)} {a : Nat} {c : ListNode α}
    (h : nodes.get a = some c) (v : Ptr) :
    setNext nodes (some a) v = some (nodes.upd a fun c => { c with next := v }) :=
  Store.assign_live _ h

theorem setPrev_live {nodes : Store (ListNode α)} {a : Nat} {c : ListNode α}
    (h : nodes.get a = some c) (v : Ptr) :
    setPrev nodes (some a) v = some (nodes.upd a fun c => { c with prev := v }) :=
  Store.assign_live _ h

/-- Walking over the first part of a chain leads to where the second part starts. -/
theorem advance_chain {nodes : Store (ListNode α)} {xs : List (Nat × Option α)} {pr p la q : Ptr}
    (h : DChain nodes pr p xs la q) : advance nodes xs.length p = some q := by
  induction xs generalizing pr p with
  | nil => exact congrArg some h.1
  | cons n xs ih =>
      obtain ⟨rfl, k, hk, hrest⟩ := h
      simp only [List.length_cons, advance, Store.load_some, hk, Option.bind_eq_bind,
        Option.bind_some]
      exact ih hrest

/-- A store into the node just made by `list_node_new`. -/
theorem setNext_new (nodes : Store (ListNode α)) (c : ListNode α) (v : Ptr) :
    setNext (nodes.alloc c).1 (some nodes.next) v = some (nodes.alloc { c with next := v }).1 := by
  rw [setNext_live (nodes.get_alloc_self c), Store.upd_alloc]

theorem setPrev_new (nodes : Store (ListNode α)) (c : ListNode α) (v : Ptr) :
    setPrev (nodes.alloc c).1 (some nodes.next) v = some (nodes.alloc { c with prev := v }).1 := by
  rw [setPrev_live (nodes.get_alloc_self c), Store.upd_alloc]

/-! ### The pushes

A new node is linked in front of the first, behind the last, or between two nodes.
-/

section Push

variable {m : ListMem α} {list : ListT α} {ns : List (Nat × Option α)}

/-- The list after a push: its chain, and a size that has gone up by one, wrapping
when it must. -/
structure Pushed (list list' : ListT α) (nodes : Store (ListNode α))
    (ns : List (Nat × Option α)) : Prop where
  /-- The nodes are a chain from `head` to `tail`. -/
  chain : DChain nodes none list'.head ns list'.tail none
  /-- One more is counted. -/
  size : list'.size = list.size + 1
  /-- The callbacks stay. -/
  funcs : SameFuncs list list'

/-- A push that the counter can follow. -/
theorem Pushed.rep {list' : ListT α} {nodes : Store (ListNode α)} {ns' : List (Nat × Option α)}
    (hp : Pushed list list' nodes ns') (h : ListRep m list ns)
    (hlen : ns'.length = ns.length + 1) (hlt : ns.length + 1 < 2 ^ 32) :
    ListRep { m with nodes } list' ns' := by
  refine ⟨hp.chain, ?_⟩
  rw [hp.size, toNat_succ (by rw [h.size]; exact hlt), h.size, hlen]

/-- Every push on the empty list leaves the new node as head and tail. -/
theorem push_empty (list : ListT α) (nodes : Store (ListNode α)) (d : α) :
    Pushed list
      { list with head := some nodes.next, tail := some nodes.next, size := list.size + 1 }
      (nodes.alloc ⟨some d, none, none⟩).1 [(nodes.next, some d)] :=
  ⟨DChain.single.mpr ⟨rfl, rfl, Store.get_alloc_self ..⟩, rfl, rfl, rfl⟩

theorem listPushHead_spec (h : ListRep m list ns) (d : α) :
    ∃ nodes list', listPushHead m list (some d) true = some ({ m with nodes }, list', .success) ∧
      Pushed list list' nodes ((m.nodes.next, some d) :: ns) := by
  cases ns with
  | nil =>
      have hhead : list.head = none := h.head_eq
      refine ⟨_, _, ?_, push_empty list m.nodes d⟩
      simp [listPushHead, listNodeNew, hhead, setNext_new, setPrev_new]
  | cons n ns =>
      have hhead : list.head = some n.1 := h.head_eq
      have hchain := h.chain.alloc ⟨some d, none, some n.1⟩
      obtain ⟨l, r, hn⟩ := hchain.live n (by simp)
      refine ⟨(m.nodes.alloc ⟨some d, none, some n.1⟩).1.upd n.1 fun c =>
          { c with prev := some m.nodes.next },
        { list with head := some m.nodes.next, size := list.size + 1 }, ?_, ?_, rfl, rfl, rfl⟩
      · simp [listPushHead, listNodeNew, hhead, setNext_new, setPrev_new, setPrev_live hn]
      · exact hchain.link_first (Store.get_alloc_self ..) h.chain.next_notMem

theorem listPushTail_spec (h : ListRep m list ns) (d : α) :
    ∃ nodes list', listPushTail m list (some d) true = some ({ m with nodes }, list', .success) ∧
      Pushed list list' nodes (ns ++ [(m.nodes.next, some d)]) := by
  rcases List.eq_nil_or_concat ns with rfl | ⟨xs, n, rfl⟩
  · have hhead : list.head = none := h.head_eq
    refine ⟨_, _, ?_, push_empty list m.nodes d⟩
    simp [listPushTail, listNodeNew, hhead, setNext_new, setPrev_new]
  · rw [List.concat_eq_append] at h ⊢
    have hhead : list.head ≠ none := by rw [h.head_eq]; simp
    have htail : list.tail = some n.1 := by rw [h.tail_eq]; simp
    have hchain := h.chain.alloc ⟨some d, some n.1, none⟩
    obtain ⟨l, r, hn⟩ := hchain.live n (by simp)
    refine ⟨(m.nodes.alloc ⟨some d, some n.1, none⟩).1.upd n.1 fun c =>
        { c with next := some m.nodes.next },
      { list with tail := some m.nodes.next, size := list.size + 1 }, ?_, ?_, rfl, rfl, rfl⟩
    · simp [listPushTail, listNodeNew, hhead, htail, setNext_new, setPrev_new, setNext_live hn]
    · exact hchain.link_last (Store.get_alloc_self ..) h.chain.next_notMem

/-- A position strictly inside the list cuts it into two non-empty pieces. -/
theorem cut_inside {β : Type} {ns : List β} {k : Nat} (h0 : 0 < k) (hk : k < ns.length) :
    ∃ xs x y ys, ns = xs ++ [x] ++ y :: ys ∧ xs.length + 1 = k := by
  have htake : (ns.take k).length = k := by rw [List.length_take]; omega
  rcases List.eq_nil_or_concat (ns.take k) with hnil | ⟨xs, x, hxs⟩
  · rw [hnil] at htake
    exact absurd htake (by simp; omega)
  · rw [List.concat_eq_append] at hxs
    obtain ⟨y, ys, hys⟩ : ∃ y ys, ns.drop k = y :: ys :=
      List.exists_cons_of_length_pos (by rw [List.length_drop]; omega)
    refine ⟨xs, x, y, ys, ?_, ?_⟩
    · rw [← hxs, ← hys, List.take_append_drop]
    · rw [hxs] at htake
      simpa using htake

theorem insertIdx_length_append {β : Type} (xs ys : List β) (b : β) :
    (xs ++ ys).insertIdx xs.length b = xs ++ b :: ys := by
  induction xs with
  | nil => rfl
  | cons x xs ih => simp [ih]

/-- Insertion between two nodes: the loop stops at the first of them. -/
theorem listPushPosition_inside {xs ys : List (Nat × Option α)} {x y : Nat × Option α}
    (h : ListRep m list (xs ++ [x] ++ y :: ys)) (d : α) {p : UInt32}
    (hp : p.toNat = xs.length + 1) :
    ∃ nodes list',
      listPushPosition m list (some d) p true = some ({ m with nodes }, list', .success) ∧
      Pushed list list' nodes (xs ++ [x] ++ (m.nodes.next, some d) :: y :: ys) := by
  have hsize : list.size.toNat = xs.length + 1 + (ys.length + 1) := by
    rw [h.size]
    simp only [List.length_append, List.length_cons, List.length_nil]
  have hnot : ¬ p > list.size := by
    rw [gt_iff_lt, UInt32.lt_iff_toNat_lt]
    omega
  have h0 : ¬ p = 0 := by
    rw [eq_zero_iff]
    omega
  have hend : ¬ p = list.size := by
    rw [← UInt32.toNat_inj]
    omega
  have hcount : (p - 1).toNat = xs.length := by
    rw [toNat_pred (by omega), hp, Nat.add_sub_cancel]
  obtain ⟨r, mid, hleft, hright⟩ := DChain.append.mp h.chain
  obtain ⟨l, hxs, rfl, hx⟩ := DChain.snoc.mp hleft
  obtain ⟨rfl, k, hy, -⟩ := hright
  have hxne : x.1 ≠ m.nodes.next := ne_of_notMem_addrs h.chain.next_notMem (by simp)
  have hyne : y.1 ≠ m.nodes.next := ne_of_notMem_addrs h.chain.next_notMem (by simp)
  have hyx : x.1 ≠ y.1 := ne_of_notMem_addrs (DChain.notMem_left h.nodup (by simp)) (by simp)
  have hwalk := advance_chain (hxs.alloc ⟨some d, none, none⟩)
  have hxload : (m.nodes.alloc ⟨some d, none, none⟩).1.get x.1 = some ⟨x.2, l, some y.1⟩ := by
    rw [Store.get_alloc_ne _ _ hxne, hx]
  have hyload : (m.nodes.alloc ⟨some d, some x.1, some y.1⟩).1.get y.1
      = some ⟨y.2, some x.1, k⟩ := by
    rw [Store.get_alloc_ne _ _ hyne, hy]
  have hxload' : ((m.nodes.alloc ⟨some d, some x.1, some y.1⟩).1.upd y.1 fun c =>
      { c with prev := some m.nodes.next }).get x.1 = some ⟨x.2, l, some y.1⟩ := by
    rw [Store.get_upd_ne _ _ hyx, Store.get_alloc_ne _ _ hxne, hx]
  refine ⟨((m.nodes.alloc ⟨some d, some x.1, some y.1⟩).1.upd y.1 fun c =>
      { c with prev := some m.nodes.next }).upd x.1 fun c => { c with next := some m.nodes.next },
    { list with size := list.size + 1 }, ?_, ?_, rfl, rfl, rfl⟩
  · simp [listPushPosition, hnot, h0, hend, listNodeNew, hcount, hwalk, hxload, setNext_new,
      setPrev_new, setPrev_live hyload, setNext_live hxload']
  · exact (h.chain.alloc ⟨some d, some x.1, some y.1⟩).link_between (Store.get_alloc_self ..)
      h.chain.next_notMem

theorem listPushPosition_spec (h : ListRep m list ns) (d : α) {p : UInt32}
    (hp : p.toNat ≤ ns.length) :
    ∃ nodes list',
      listPushPosition m list (some d) p true = some ({ m with nodes }, list', .success) ∧
      Pushed list list' nodes (ns.insertIdx p.toNat (m.nodes.next, some d)) := by
  have hnot : ¬ p > list.size := by
    rw [gt_iff_lt, UInt32.lt_iff_toNat_lt, h.size]
    omega
  by_cases h0 : p = 0
  · obtain ⟨nodes, list', hrun, hrep⟩ := listPushHead_spec h d
    refine ⟨nodes, list', ?_, ?_⟩
    · simp [listPushPosition, h0, hrun]
    · subst h0
      simpa using hrep
  · by_cases hend : p = list.size
    · obtain ⟨nodes, list', hrun, hrep⟩ := listPushTail_spec h d
      refine ⟨nodes, list', ?_, ?_⟩
      · simp only [listPushPosition, Option.isNone_some, Bool.false_eq_true, if_false, if_neg hnot,
          if_neg h0, if_pos hend, hrun]
      · rw [hend, h.size, List.insertIdx_length_self]
        exact hrep
    · have hpos : 0 < p.toNat := Nat.pos_of_ne_zero fun hc => h0 (eq_zero_iff.mpr hc)
      have hin : p.toNat < ns.length := by
        refine Nat.lt_of_le_of_ne hp fun hc => hend (UInt32.toNat_inj.mp ?_)
        rw [hc, h.size]
      obtain ⟨xs, x, y, ys, rfl, hlen⟩ := cut_inside hpos hin
      rw [show p.toNat = (xs ++ [x]).length by simp; omega, insertIdx_length_append]
      exact listPushPosition_inside h d hlen.symm

/-- A position beyond the end is refused. -/
theorem listPushPosition_refused (h : ListRep m list ns) (d : α) {p : UInt32}
    (hp : ns.length < p.toNat) (calloc : Bool) :
    listPushPosition m list (some d) p calloc = some (m, list, .failure) := by
  have hgt : p > list.size := by
    rw [gt_iff_lt, UInt32.lt_iff_toNat_lt, h.size]
    exact hp
  simp [listPushPosition, hgt]

end Push

end CmakeTemplate
