/-
When a list is well linked.

A list is linked if `head`, `tail` and `size` agree and both walks meet the same nodes in
opposite orders.  Every call keeps that, with two exceptions.  `list_sort` writes back the new
head but not the new tail, so the links survive it exactly when the last element was to stay
last.  A push wraps `size` to zero when the list already holds `2 ^ 32 - 1` elements.

The condition on a call, `KeepsLinks`, is stated on the sequence before it.  On every run
whose calls all meet it the list is linked, and there the next call keeps it so exactly when
it meets the condition too.  A sort that moves the last element leaves a list whose walk along
`next` goes on behind its `tail`.
-/
import CmakeTemplate.Proofs.LinkedList.Refines
import CmakeTemplate.Proofs.LinkedList.Sort

namespace CmakeTemplate

open Lib

variable {α : Type} {s s' : ListMem α × ListT α} {xs : List α}

/-- `head`, `tail` and `size` agree, and the two walks meet the same nodes in opposite
orders, each ending where the other starts. -/
structure Linked (s : ListMem α × ListT α) : Prop where
  /-- There is a head if and only if there is a tail. -/
  headTail : s.2.head = none ↔ s.2.tail = none
  /-- There is a tail if and only if there is an element. -/
  tailSize : s.2.tail = none ↔ s.2.size = 0
  /-- The two walks meet the same nodes. -/
  walks : ∃ as, as.length = s.2.size.toNat ∧ Walk (nextOf s.1) s.2.head as none ∧
    as.getLast? = s.2.tail ∧ Walk (prevOf s.1) s.2.tail as.reverse none

/-- The calls that keep a list linked: a push that `size` can count, and a sort of a
list whose last element is above every other one. -/
def KeepsLinks (s : ListMem α × ListT α) : ListOp α → Prop
  | .pushHead _ => s.2.size.toNat + 1 < 2 ^ 32
  | .pushTail _ => s.2.size.toNat + 1 < 2 ^ 32
  | .pushPosition _ _ => s.2.size.toNat + 1 < 2 ^ 32
  | .sort => ∀ z ∈ (listData s).getLast?, ∀ x ∈ (listData s).dropLast,
      s.2.compareFunc x z = .lessThan
  | _ => True

instance decidableKeepsLinks (s : ListMem α × ListT α) : ∀ op, Decidable (KeepsLinks s op)
  | .pushHead _ => inferInstanceAs (Decidable (s.2.size.toNat + 1 < 2 ^ 32))
  | .pushTail _ => inferInstanceAs (Decidable (s.2.size.toNat + 1 < 2 ^ 32))
  | .pushPosition _ _ => inferInstanceAs (Decidable (s.2.size.toNat + 1 < 2 ^ 32))
  | .sort => inferInstanceAs (Decidable (∀ z ∈ (listData s).getLast?, ∀ x ∈ (listData s).dropLast,
      s.2.compareFunc x z = .lessThan))
  | .popHead => inferInstanceAs (Decidable True)
  | .popTail => inferInstanceAs (Decidable True)
  | .popPosition _ => inferInstanceAs (Decidable True)
  | .removeHead => inferInstanceAs (Decidable True)
  | .removeTail => inferInstanceAs (Decidable True)
  | .removePosition _ => inferInstanceAs (Decidable True)
  | .removeData _ => inferInstanceAs (Decidable True)
  | .clear => inferInstanceAs (Decidable True)

theorem KeepsLinks.room {op : ListOp α} (hk : KeepsLinks s op) (hpush : op.isPush = true) :
    s.2.size.toNat + 1 < 2 ^ 32 := by
  cases op with
  | pushHead d => exact hk
  | pushTail d => exact hk
  | pushPosition d p => exact hk
  | _ => simp [ListOp.isPush] at hpush

/-! ### A list that holds a sequence is linked

The two walks of a doubly linked chain are in opposite orders.
-/

theorem ListRep.linked {ns : List (Nat × Option α)} (h : ListRep s.1 s.2 ns) : Linked s := by
  refine ⟨?_, ?_, ns.map Prod.fst, ?_, h.chain.walk_next, h.tail_eq.symm, h.chain.walk_prev⟩
  · rw [h.head_eq, h.tail_eq, List.head?_eq_none_iff, List.getLast?_eq_none_iff]
  · rw [h.tail_eq, List.getLast?_eq_none_iff, eq_zero_iff, h.size, List.map_eq_nil_iff,
      List.length_eq_zero_iff]
  · rw [List.length_map, h.size]

theorem ListSeq.linked (h : ListSeq s xs) : Linked s := by
  obtain ⟨ns, hrep, -⟩ := h
  exact hrep.linked

theorem chainData_eq {nodes : Store (ListNode α)} {ns : List (Nat × Option α)} {pr p la : Ptr}
    {fuel : Nat} (h : DChain nodes pr p ns la none) (hfuel : ns.length < fuel) :
    chainData nodes fuel p = ns.map Prod.snd := by
  induction ns generalizing pr p fuel with
  | nil =>
      rw [h.1]
      cases fuel <;> simp [chainData]
  | cons n ns ih =>
      obtain ⟨rfl, k, hn, hrest⟩ := h
      cases fuel with
      | zero => simp at hfuel
      | succ fuel => simp [chainData, hn, ih hrest (Nat.lt_of_succ_lt_succ hfuel)]

theorem ListRep.listData_eq {ns : List (Nat × Option α)} (h : ListRep s.1 s.2 ns) :
    listData s = ns.map Prod.snd :=
  chainData_eq h.chain h.length_lt_walkFuel

/-! ### Sorting

Whether the last node stays last is decided by the data.
-/

/-- The sorted nodes hold the sorted data. -/
theorem map_mergeSort_less {cmp : Option α → Option α → CompRtns} {ns : List (Nat × Option α)}
    (hmap : ns.map Prod.snd = xs.map some) :
    (ns.mergeSort (Less cmp)).map Prod.snd
      = (xs.mergeSort fun x y => cmp (some x) (some y) = .lessThan).map some := by
  have hns : (ns.mergeSort (Less cmp)).map Prod.snd
      = (ns.map Prod.snd).mergeSort fun x y => cmp x y = .lessThan :=
    List.map_mergeSort fun _ _ _ _ => rfl
  have hxs : (xs.mergeSort fun x y => cmp (some x) (some y) = .lessThan).map some
      = (xs.map some).mergeSort fun x y => cmp x y = .lessThan :=
    List.map_mergeSort fun _ _ _ _ => rfl
  rw [hns, hxs, hmap]

/-- A sort that keeps the last node last keeps everything. -/
theorem listSort_keeps {m : ListMem α} {list : ListT α} (h : ListSeq (m, list) xs)
    (hk : KeepsLinks (m, list) .sort) :
    ∃ s', listExec (m, list) .sort = some (s', .code .success) ∧
      ListSeq s' (seqExec list.compareFunc xs .sort).1 ∧ SameFuncs list s'.2 := by
  obtain ⟨ns, hrep, hmap⟩ := h
  obtain ⟨nodes', head, la, hrun, hchain⟩ := listSort_spec hrep.chain
  refine ⟨({ m with nodes := nodes' }, { list with head }), by simp [listExec, codeRet, hrun],
    ⟨ns.mergeSort (Less list.compareFunc), ⟨?_, ?_⟩, map_mergeSort_less hmap⟩, rfl, rfl⟩
  · have hlast := hchain.last_eq
    have htail := hrep.tail_eq
    rw [KeepsLinks, hrep.listData_eq] at hk
    rcases List.eq_nil_or_concat ns with rfl | ⟨ys, z, rfl⟩
    · show DChain nodes' none head _ list.tail none
      simp only [List.map_nil, List.getLast?_nil] at htail
      simp only [List.mergeSort_nil, List.map_nil, List.getLast?_nil] at hlast hchain ⊢
      rw [hlast] at hchain
      rw [htail]
      exact hchain
    · rw [List.concat_eq_append] at hchain hlast htail hk ⊢
      have hless : ∀ y ∈ ys, Less list.compareFunc y z := by
        intro y hy
        simp only [List.map_append, List.map_cons, List.map_nil, List.getLast?_concat,
          List.dropLast_concat] at hk
        exact decide_eq_true (hk z.2 rfl y.2 (List.mem_map_of_mem hy))
      obtain ⟨zs, hzs⟩ := mergeSort_concat hless
      show DChain nodes' none head _ list.tail none
      have hla : la = list.tail := by
        rw [hlast, htail, hzs]
        simp
      rw [← hla]
      exact hchain
  · rw [List.length_mergeSort]
    exact hrep.size

/-- A sort that moves the last node breaks the list. -/
theorem listSort_breaks (htrans : ∀ x y z, s.2.compareFunc x y = .lessThan →
      s.2.compareFunc y z = .lessThan → s.2.compareFunc x z = .lessThan)
    (h : ListSeq s xs) {r : ListRet α} (hs : listExec s .sort = some (s', r)) (hl : Linked s') :
    KeepsLinks s .sort := by
  obtain ⟨m, list⟩ := s
  obtain ⟨ns, hrep, hmap⟩ := h
  obtain ⟨nodes', head, la, hrun, hchain⟩ := listSort_spec hrep.chain
  simp only [listExec, codeRet, hrun, Option.map_some, Option.some.injEq, Prod.mk.injEq] at hs
  obtain ⟨rfl, -⟩ := hs
  obtain ⟨as, -, hwalk, hlast, -⟩ := hl.walks
  -- the walk from the new head is the sorted chain, and it ends at the old tail
  have has : as = (ns.mergeSort (Less list.compareFunc)).map Prod.fst :=
    hwalk.unique hchain.walk_next
  have htail : as.getLast? = (ns.map Prod.fst).getLast? := hlast.trans hrep.tail_eq
  rw [KeepsLinks, hrep.listData_eq]
  rcases List.eq_nil_or_concat ns with rfl | ⟨ys, z, rfl⟩
  · simp
  · rw [List.concat_eq_append] at has htail hrep ⊢
    have hz : z ∉ ys := fun hc =>
      DChain.notMem_left hrep.nodup (n := z) (by simp) (List.mem_map_of_mem hc)
    have hsorted : ((ys ++ [z]).mergeSort (Less list.compareFunc)).getLast? = some z := by
      rw [has, List.getLast?_map, List.getLast?_map, List.getLast?_concat] at htail
      obtain ⟨w, hw, hwz⟩ := Option.map_eq_some_iff.mp htail
      have hmem : w ∈ ys ++ [z] := List.mem_mergeSort.mp (List.mem_of_getLast? hw)
      rw [hw, List.inj_on_of_nodup_map hrep.nodup hmem (by simp) hwz]
    have hless := lt_of_getLast?_mergeSort
      (fun a b c hab hbc => by
        simp only [Less, decide_eq_true_eq] at hab hbc ⊢
        exact htrans _ _ _ hab hbc) hz hsorted
    intro w hw x hx
    simp only [List.map_append, List.map_cons, List.map_nil, List.getLast?_concat,
      List.dropLast_concat, Option.mem_def, Option.some.injEq, List.mem_map] at hw hx
    obtain ⟨y, hy, rfl⟩ := hx
    rw [← hw]
    exact of_decide_eq_true (hless y hy)

/-! ### Pushing

The counter is the only thing that may go wrong.
-/

/-- A push that wraps `size` leaves a list that claims to be empty. -/
theorem Pushed.not_linked {m : ListMem α} {list list' : ListT α} {nodes : Store (ListNode α)}
    {ns : List (Nat × Option α)} (h : Pushed list list' nodes ns) (hne : ns ≠ [])
    (hfull : ¬ list.size.toNat + 1 < 2 ^ 32) : ¬ Linked (m, list') := by
  intro hl
  have hsize : list'.size = 0 := by
    rw [h.size, succ_eq_zero]
    have := list.size.toNat_lt
    omega
  have hhead : list'.head = none := hl.headTail.mpr (hl.tailSize.mpr hsize)
  rw [h.chain.first_eq, List.head?_eq_none_iff, List.map_eq_nil_iff] at hhead
  exact hne hhead

/-! ### Runs

The invariant is that the list holds some sequence.
-/

/-- A call that keeps the links takes the list to the next sequence. -/
theorem listExec_keeps (h : ListSeq s xs) {op : ListOp α} {r : ListRet α}
    (hk : KeepsLinks s op) (hs : listExec s op = some (s', r)) :
    ListSeq s' (seqExec s.2.compareFunc xs op).1 ∧ SameFuncs s.2 s'.2 := by
  by_cases hop : op = .sort
  · subst hop
    obtain ⟨t, ht, hres⟩ := listSort_keeps h hk
    rw [ht] at hs
    cases hs
    exact hres
  · have hfree : CallsFree s.2.compareFunc xs op → s.2.customFree = true := by
      intro hcalls
      by_contra hf
      rw [listExec_stuck h hcalls (by simpa using hf)] at hs
      simp at hs
    have hlt : (seqExec s.2.compareFunc xs op).1.length < 2 ^ 32 := by
      refine Nat.lt_of_le_of_lt (length_seqExec_le _ _ _) ?_
      rw [← h.shows.size]
      cases hpush : op.isPush with
      | true => exact hk.room hpush
      | false => exact s.2.size.toNat_lt
    obtain ⟨t, ht, hres⟩ := listExec_refines h hop hlt hfree
    rw [ht] at hs
    cases hs
    exact hres

theorem listExec_breaks (htrans : ∀ x y z, s.2.compareFunc x y = .lessThan →
      s.2.compareFunc y z = .lessThan → s.2.compareFunc x z = .lessThan)
    (h : ListSeq s xs) {op : ListOp α} {r : ListRet α} (hs : listExec s op = some (s', r))
    (hl : Linked s') : KeepsLinks s op := by
  by_contra hk
  obtain ⟨m, list⟩ := s
  obtain ⟨ns, hrep, hmap⟩ := id h
  cases op with
  | pushHead d =>
      obtain ⟨nodes, list', hrun, hpush⟩ := listPushHead_spec hrep d
      simp only [listExec, codeRet, hrun, Option.map_some, Option.some.injEq, Prod.mk.injEq] at hs
      obtain ⟨rfl, -⟩ := hs
      exact hpush.not_linked (by simp) hk hl
  | pushTail d =>
      obtain ⟨nodes, list', hrun, hpush⟩ := listPushTail_spec hrep d
      simp only [listExec, codeRet, hrun, Option.map_some, Option.some.injEq, Prod.mk.injEq] at hs
      obtain ⟨rfl, -⟩ := hs
      exact hpush.not_linked (by simp) hk hl
  | pushPosition d p =>
      -- a full list has room for every position that 32 bits can name
      have hp : p.toNat ≤ ns.length := by
        have := p.toNat_lt
        have hfull : ¬ list.size.toNat + 1 < 2 ^ 32 := hk
        rw [hrep.size] at hfull
        omega
      obtain ⟨nodes, list', hrun, hpush⟩ := listPushPosition_spec hrep d hp
      simp only [listExec, codeRet, hrun, Option.map_some, Option.some.injEq, Prod.mk.injEq] at hs
      obtain ⟨rfl, -⟩ := hs
      refine hpush.not_linked (fun hc => ?_) hk hl
      have := congrArg List.length hc
      rw [List.length_insertIdx_of_le_length hp] at this
      simp at this
  | sort => exact hk (listSort_breaks htrans h hs hl)
  | _ => exact hk trivial

/-- On every run whose calls all keep the links the list is linked, and there the next
call keeps it so exactly when it is one of these calls. -/
theorem listSystem_linked (customFree : Bool) (cmp : Option α → Option α → CompRtns)
    (htrans : ∀ x y z, cmp x y = .lessThan → cmp y z = .lessThan → cmp x z = .lessThan)
    (h : (listSystem customFree cmp).ReachIf KeepsLinks s) :
    Linked s ∧ ∀ op s', (listSystem customFree cmp).step s op = some s' →
      (Linked s' ↔ KeepsLinks s op) := by
  have hinv : (∃ xs, ListSeq s xs) ∧ s.2.compareFunc = cmp := by
    refine h.invariant (I := fun s => (∃ xs, ListSeq s xs) ∧ s.2.compareFunc = cmp) ?_ ?_
    · rintro s rfl
      exact ⟨⟨[], [], listNew_rep customFree cmp, rfl⟩, rfl⟩
    · rintro s op s' ⟨⟨xs, hseq⟩, hcmp⟩ hk hs
      obtain ⟨⟨t, r⟩, hr, rfl⟩ := Option.map_eq_some_iff.mp hs
      obtain ⟨hseq', hfun⟩ := listExec_keeps hseq hk hr
      exact ⟨⟨_, hseq'⟩, hfun.2.trans hcmp⟩
  obtain ⟨⟨xs, hseq⟩, rfl⟩ := hinv
  refine ⟨hseq.linked, fun op s' hs => ?_⟩
  obtain ⟨⟨t, r⟩, hr, rfl⟩ := Option.map_eq_some_iff.mp hs
  exact ⟨listExec_breaks htrans hseq hr, fun hk => (listExec_keeps hseq hk hr).1.linked⟩

/-- Numbers compared by size. -/
def natCompare : Option Nat → Option Nat → CompRtns
  | some x, some y => if x < y then .lessThan else if y < x then .greaterThan else .equal
  | _, _ => .error

theorem natCompare_trans : ∀ x y z, natCompare x y = .lessThan → natCompare y z = .lessThan →
    natCompare x z = .lessThan := by
  have hlt : ∀ x y, natCompare x y = .lessThan ↔ ∃ a b, x = some a ∧ y = some b ∧ a < b := by
    intro x y
    match x, y with
    | none, y => simp [natCompare]
    | some a, none => simp [natCompare]
    | some a, some b =>
        by_cases hab : a < b
        · simp [natCompare, hab]
        · by_cases hba : b < a <;> simp [natCompare, hab, hba]
  intro x y z hxy hyz
  obtain ⟨a, b, rfl, rfl, hab⟩ := (hlt _ _).mp hxy
  obtain ⟨b', c, hb, rfl, hbc⟩ := (hlt _ _).mp hyz
  obtain rfl : b = b' := by simpa using hb
  exact (hlt _ _).mpr ⟨a, c, rfl, rfl, Nat.lt_trans hab hbc⟩

/-- The state after a run of calls on a new list of numbers. -/
def numbersAfter (ops : List (ListOp Nat)) : Option (ListMem Nat × ListT Nat) :=
  (listSystem true natCompare).run (⟨.empty, []⟩, listNew true natCompare) ops

/-- Pushing 1 and then 2 behind it, and sorting, is fine. -/
theorem listSystem_linked_run :
    ∃ s, numbersAfter [.pushTail 1, .pushTail 2, .sort] = some s ∧ Linked s := by
  have h0 : (listSystem true natCompare).ReachIf KeepsLinks (⟨.empty, []⟩, listNew true natCompare) :=
    .init rfl
  have h1 := h0.step (l := .pushTail 1) (by decide) rfl
  have h2 := h1.step (l := .pushTail 2) (by decide) rfl
  have h3 := h2.step (l := .sort) (by decide) rfl
  exact ⟨_, rfl, (listSystem_linked true natCompare natCompare_trans h3).1⟩

/-- Pushing 2 and then 1 behind it, and sorting: 1 is first now, and `tail` is still 1. -/
theorem listSort_stale_tail :
    ¬ ∀ s, (listSystem true natCompare).Reach s → Linked s := by
  intro hall
  obtain ⟨s, hs⟩ : ∃ s, numbersAfter [.pushTail 2, .pushTail 1, .sort] = some s := ⟨_, rfl⟩
  have hl := hall s ((System.Reach.init rfl).run hs)
  obtain ⟨as, -, hwalk, hlast, -⟩ := hl.walks
  cases hs
  have has : as = [1, 0] := hwalk.unique ⟨rfl, _, rfl, rfl, _, rfl, rfl⟩
  rw [has] at hlast
  exact absurd hlast (by decide)

end CmakeTemplate
