/-
The searches of a list agree where the comparator cannot tell its arguments apart.

Each loop is followed along the chain.  Three of the searches hand the searched datum to the
comparator first and one second, so they agree on a list just in case some element comes out
EQUAL in the one order if and only if some does in the other; besides, what is found has to be
freed by one of them and listed by another.  The condition is exact for every list and every
searched datum.

`list_find_all_occurrences` makes a second chain in the same store while it walks the first
one, so the invariant of its loop is that the two have no node in common.  A push in front of
the second chain touches its first node, and allocates; neither is on the first chain.
-/
import CmakeTemplate.ListSearch
import CmakeTemplate.Proofs.Comparisons.Order
import CmakeTemplate.Proofs.LinkedList.Refines

namespace CmakeTemplate

open Lib

variable {α : Type} {m : ListMem α} {list : ListT α} {ns ms : List (Nat × Option α)}

/-! ### Looking for one occurrence

Two loops that go along the chain until something is EQUAL.
-/

theorem findFirstLoop_spec {nodes : Store (ListNode α)} (cmp : Option α → Option α → CompRtns)
    (searchData : Option α) {pr p la : Ptr} (h : DChain nodes pr p ns la none) :
    findFirstLoop nodes cmp searchData ns.length p
      = some ((ns.find? fun n => cmp searchData n.2 = .equal).map Prod.fst) := by
  induction ns generalizing pr p with
  | nil => rfl
  | cons n ns ih =>
      obtain ⟨rfl, k, hn, hrest⟩ := h
      by_cases heq : cmp searchData n.2 = .equal
      · simp [findFirstLoop, hn, heq]
      · simp only [List.length_cons, findFirstLoop, Store.load_some, hn, Option.bind_eq_bind,
          Option.bind_some, if_neg heq]
        rw [ih hrest]
        simp [heq]

theorem containsLoop_spec {nodes : Store (ListNode α)} (cmp : Option α → Option α → CompRtns)
    (data : Option α) {pr p la : Ptr} {fuel : Nat} (h : DChain nodes pr p ns la none)
    (hfuel : ns.length ≤ fuel) :
    containsLoop nodes cmp data fuel p = some (ns.any fun n => cmp n.2 data = .equal) := by
  induction ns generalizing pr p fuel with
  | nil =>
      rw [h.1]
      simp [containsLoop]
  | cons n ns ih =>
      obtain ⟨rfl, k, hn, hrest⟩ := h
      cases fuel with
      | zero => simp at hfuel
      | succ fuel =>
          by_cases heq : cmp n.2 data = .equal
          · simp [containsLoop, hn, heq]
          · simp only [containsLoop, hn, Option.bind_eq_bind, Option.bind_some, if_neg heq]
            rw [ih hrest (Nat.le_of_succ_le_succ hfuel)]
            simp [heq]

theorem listFindFirstOccurrence_spec (h : ListRep m list ns) (d : Option α) :
    listFindFirstOccurrence m list d
      = some ((ns.find? fun n => list.compareFunc d n.2 = .equal).map Prod.fst) := by
  unfold listFindFirstOccurrence
  rw [h.size]
  exact findFirstLoop_spec _ _ h.chain

theorem listContains_spec (h : ListRep m list ns) (d : α) :
    listContains m list (some d)
      = some (ns.any fun n => list.compareFunc n.2 (some d) = .equal) := by
  simp only [listContains, Option.isNone_some, Bool.false_eq_true, if_false]
  exact containsLoop_spec _ _ h.chain (Nat.le_of_lt h.length_lt_walkFuel)

/-! ### Listing all of them

The loop pushes what it finds, so the second list has it in the opposite order.
-/

theorem assign_get_ne {nodes nodes' : Store (ListNode α)} {p : Ptr}
    {f : ListNode α → ListNode α} (h : nodes.assign p f = some nodes') {b : Nat}
    (hb : p ≠ some b) : nodes'.get b = nodes.get b := by
  obtain ⟨a, rfl, h⟩ := Option.bind_eq_some_iff.mp h
  obtain ⟨c, -, rfl⟩ := Option.map_eq_some_iff.mp h
  exact Store.get_upd_ne _ _ fun hba => hb (by rw [hba])

/-- A push in front touches the new node and the one that was the head. -/
theorem listPushHead_frame {m' : ListMem α} {list' : ListT α} {d : α} {c : ExitCode}
    (h : listPushHead m list (some d) true = some (m', list', c)) {b : Nat}
    (hb : b < m.nodes.next) (hhead : list.head ≠ some b) : m'.nodes.get b = m.nodes.get b := by
  have hnew : (m.nodes.alloc ⟨some d, none, none⟩).1.get b = m.nodes.get b :=
    Store.get_alloc_ne _ _ (Nat.ne_of_lt hb)
  have hne : some m.nodes.next ≠ some b := fun hc => Nat.ne_of_gt hb (Option.some.inj hc)
  simp only [listPushHead, listNodeNew, Option.isNone_some, Bool.false_eq_true, if_false, if_true,
    reduceCtorEq, Store.alloc_addr] at h
  split at h
  · obtain ⟨nodes₁, h₁, h⟩ := Option.bind_eq_some_iff.mp h
    obtain ⟨nodes₂, h₂, h⟩ := Option.bind_eq_some_iff.mp h
    cases h
    show nodes₂.get b = _
    rw [assign_get_ne h₂ hne, assign_get_ne h₁ hne, hnew]
  · obtain ⟨nodes₁, h₁, h⟩ := Option.bind_eq_some_iff.mp h
    obtain ⟨nodes₂, h₂, h⟩ := Option.bind_eq_some_iff.mp h
    obtain ⟨nodes₃, h₃, h⟩ := Option.bind_eq_some_iff.mp h
    cases h
    show nodes₃.get b = _
    rw [assign_get_ne h₃ hhead, assign_get_ne h₂ hne, assign_get_ne h₁ hne, hnew]

/-- What the next push needs of the chain that is walked over and the one that is built: they
have no node in common. -/
theorem listPushHead_apart {newList : ListT α} {pr p la : Ptr}
    (hchain : DChain m.nodes pr p ns la none) (hrep : ListRep m newList ms)
    (hdisj : ∀ n ∈ ns, n.1 ∉ ms.map Prod.fst) (hlen : ms.length + 1 < 2 ^ 32) (x : α) :
    ∃ nodes newList', listPushHead m newList (some x) true
        = some ({ m with nodes }, newList', .success) ∧
      ListRep { m with nodes } newList' ((m.nodes.next, some x) :: ms) ∧
      (∀ n ∈ ns, nodes.get n.1 = m.nodes.get n.1) ∧
      ∀ n ∈ ns, n.1 ∉ ((m.nodes.next, some x) :: ms).map Prod.fst := by
  obtain ⟨nodes, newList', hpush, hpushed⟩ := listPushHead_spec hrep x
  refine ⟨nodes, newList', hpush, hpushed.rep hrep rfl hlen, fun n hn => ?_, fun n hn hc => ?_⟩
  · refine listPushHead_frame hpush (hchain.lt_next _ (List.mem_map_of_mem hn)) ?_
    intro hhead
    rw [hrep.head_eq] at hhead
    exact hdisj n hn (List.mem_of_head? hhead)
  · rcases List.mem_cons.mp hc with hnew | hold
    · exact Nat.ne_of_lt (hchain.lt_next _ (List.mem_map_of_mem hn)) hnew
    · exact hdisj n hn hold

/-- There is a node for each match; an allocation is told by how many elements come behind. -/
def AllocatesAll (cmp : Option α → Option α → CompRtns) (d : α) (calloc : Nat → Bool) :
    List α → Prop
  | [] => True
  | x :: xs => (Matches cmp d x → calloc xs.length = true) ∧ AllocatesAll cmp d calloc xs

/-- The walk goes on over the rest `ns` of one chain, with the matches so far in another. -/
theorem findAllLoop_spec {newList : ListT α} {d : α} {calloc : Nat → Bool} {xs : List α}
    {pr current la : Ptr} (hchain : DChain m.nodes pr current ns la none)
    (hdata : ns.map Prod.snd = xs.map some) (hrep : ListRep m newList ms)
    (hdisj : ∀ n ∈ ns, n.1 ∉ ms.map Prod.fst) (hlen : ms.length + ns.length < 2 ^ 32) :
    (AllocatesAll list.compareFunc d calloc xs ∧ ∃ m' newList' ms',
      findAllLoop list (some d) calloc ns.length m newList current = some (m', some newList') ∧
      ListRep m' newList' ms' ∧
      ms'.map Prod.snd
        = (xs.filter (Matches list.compareFunc d)).reverse.map some ++ ms.map Prod.snd) ∨
    (¬ AllocatesAll list.compareFunc d calloc xs ∧ ∃ m',
      findAllLoop list (some d) calloc ns.length m newList current = some (m', none)) := by
  induction ns generalizing xs m newList ms pr current with
  | nil =>
      obtain rfl : xs = [] := List.map_eq_nil_iff.mp hdata.symm
      exact .inl ⟨trivial, m, newList, ms, rfl, hrep, rfl⟩
  | cons n ns ih =>
      obtain ⟨x, xs, rfl, hx, hdata⟩ := List.map_eq_cons_iff.mp hdata.symm
      obtain ⟨rfl, k, hn, hrest⟩ := id hchain
      simp only [List.length_cons] at hlen ⊢
      have hxs : xs.length = ns.length := by simpa using congrArg List.length hdata
      rw [← hx] at hn
      by_cases hmatch : Matches list.compareFunc d x
      · have heq : list.compareFunc (some d) (some x) = .equal := of_decide_eq_true hmatch
        cases hcalloc : calloc ns.length with
        | false =>
            obtain ⟨nodes, emptied, hclear, -, -⟩ := listClear_spec hrep
            refine .inr ⟨fun hall => ?_, ⟨nodes, m.freed ++ clearedData newList ms⟩, ?_⟩
            · have htrue := hall.1 hmatch
              rw [hxs, hcalloc] at htrue
              exact absurd htrue (by decide)
            · simp [findAllLoop, hn, heq, listPushHead, listNodeNew, hcalloc, hclear]
        | true =>
            obtain ⟨nodes, newList', hpush, hrep', hkept, hdisj'⟩ :=
              listPushHead_apart hchain hrep hdisj (by omega) x
            have hrest' : DChain nodes (some n.1) k ns la none :=
              hrest.congr fun b hb => (hkept b (List.mem_cons_of_mem _ hb)).symm
            have hstep : findAllLoop list (some d) calloc (ns.length + 1) m newList (some n.1)
                = findAllLoop list (some d) calloc ns.length { m with nodes } newList' k := by
              simp [findAllLoop, hn, heq, hcalloc, hpush, hkept n (by simp)]
            rw [hstep]
            rcases ih (m := { m with nodes }) hrest' hdata.symm hrep'
              (fun b hb => hdisj' b (List.mem_cons_of_mem _ hb))
              (by rw [List.length_cons]; omega) with
              ⟨hall, m', newList'', ms', hrun, hrep'', hms⟩ | ⟨hnot, hrun⟩
            · refine .inl ⟨⟨fun _ => hxs ▸ hcalloc, hall⟩, m', newList'', ms', hrun, hrep'', ?_⟩
              rw [hms, List.filter_cons_of_pos hmatch]
              simp
            · exact .inr ⟨fun hall => hnot hall.2, hrun⟩
      · have heq : ¬ list.compareFunc (some d) (some x) = .equal :=
          fun hc => hmatch (decide_eq_true hc)
        have hstep : findAllLoop list (some d) calloc (ns.length + 1) m newList (some n.1)
            = findAllLoop list (some d) calloc ns.length m newList k := by
          simp [findAllLoop, hn, heq]
        rw [hstep]
        rcases ih hrest hdata.symm hrep (fun b hb => hdisj b (List.mem_cons_of_mem _ hb))
          (by omega) with ⟨hall, m', newList', ms', hrun, hrep', hms⟩ | ⟨hnot, hrun⟩
        · refine .inl ⟨⟨fun hc => absurd hc hmatch, hall⟩, m', newList', ms', hrun, hrep', ?_⟩
          rw [hms, List.filter_cons_of_neg hmatch]
        · exact .inr ⟨fun hall => hnot hall.2, hrun⟩

/-! ### The four searches of a list that holds `xs`

What each of them says is put in terms of the elements.
-/

variable {s : ListMem α × ListT α} {xs : List α}

/-- Some element comes out EQUAL when the searched data is the second argument. -/
def EqualSecond (cmp : Option α → Option α → CompRtns) (xs : List α) (d : α) : Prop :=
  ∃ x ∈ xs, cmp (some x) (some d) = .equal

/-- Some element comes out EQUAL when the searched data is the first argument. -/
def EqualFirst (cmp : Option α → Option α → CompRtns) (xs : List α) (d : α) : Prop :=
  ∃ x ∈ xs, cmp (some d) (some x) = .equal

theorem equalFirst_iff_filter {cmp : Option α → Option α → CompRtns} {d : α} :
    EqualFirst cmp xs d ↔ xs.filter (Matches cmp d) ≠ [] := by
  rw [ne_eq, List.filter_eq_nil_iff]
  simp [EqualFirst, Matches]

theorem listContains_iff (h : ListSeq s xs) (d : α) :
    ∃ contains, listContains s.1 s.2 (some d) = some contains ∧
      (contains = true ↔ EqualSecond s.2.compareFunc xs d) := by
  obtain ⟨ns, hrep, hmap⟩ := h
  refine ⟨_, listContains_spec hrep d, ?_⟩
  have hany : ns.any (fun n => s.2.compareFunc n.2 (some d) = .equal)
      = (ns.map Prod.snd).any fun x => s.2.compareFunc x (some d) = .equal := by
    rw [List.any_map]
    rfl
  rw [hany, hmap, List.any_map, List.any_eq_true]
  simp [EqualSecond]

theorem listFindFirstOccurrence_iff (h : ListSeq s xs) (d : α) :
    ∃ first, listFindFirstOccurrence s.1 s.2 (some d) = some first ∧
      (first ≠ none ↔ EqualFirst s.2.compareFunc xs d) := by
  obtain ⟨ns, hrep, hmap⟩ := h
  refine ⟨_, listFindFirstOccurrence_spec hrep (some d), ?_⟩
  rw [ne_eq, Option.map_eq_none_iff, List.find?_eq_none, EqualFirst]
  have hany : (∃ n ∈ ns, s.2.compareFunc (some d) n.2 = .equal) ↔ _ := exists_equal_iff hmap d
  simp only [List.any_eq_true, Matches, decide_eq_true_eq] at hany ⊢
  rw [← hany]
  simp

theorem listRemoveData_iff (h : ListSeq s xs) (d : α) :
    (∃ m' list', listRemoveData s.1 s.2 (some d) = some (m', list', .success)) ↔
      EqualFirst s.2.compareFunc xs d ∧ s.2.customFree = true := by
  obtain ⟨ns, hrep, hmap⟩ := h
  have hany : (∃ n ∈ ns, s.2.compareFunc (some d) n.2 = .equal) ↔ _ := exists_equal_iff hmap d
  simp only [List.any_eq_true, Matches, decide_eq_true_eq] at hany
  show _ ↔ (∃ x ∈ xs, s.2.compareFunc (some d) (some x) = .equal) ∧ _
  rw [← hany]
  by_cases hex : ∃ n ∈ ns, s.2.compareFunc (some d) n.2 = .equal
  · cases hf : s.2.customFree with
    | false => simp [listRemoveData_stuck hrep hex hf]
    | true =>
        obtain ⟨m', list', hrun, -⟩ := listRemoveData_spec hrep d fun _ => hf
        simp [hrun, hex]
  · obtain ⟨m', list', hrun, -⟩ := listRemoveData_spec hrep d fun hc => absurd hc hex
    simp [hrun, hex]

theorem listFindAllOccurrences_iff (h : ListSeq s xs) (d : α) (new : Bool) (calloc : Nat → Bool) :
    ∃ m all, listFindAllOccurrences s.1 s.2 (some d) new calloc = some (m, all) ∧
      ((∃ newList, all = some newList ∧ newList.size ≠ 0) ↔ EqualFirst s.2.compareFunc xs d ∧
        new = true ∧ AllocatesAll s.2.compareFunc d calloc xs) ∧
      ∀ newList, all = some newList → ListSeq (m, newList)
        (xs.filter (Matches s.2.compareFunc d)).reverse := by
  have hsizeIff := h.size_ne_zero_iff
  obtain ⟨m, list⟩ := s
  obtain ⟨ns, hrep, hmap⟩ := h
  dsimp only at hrep hsizeIff ⊢
  unfold listFindAllOccurrences
  by_cases hsize : list.size = 0
  · have hxs : xs = [] := by
      by_contra hne
      exact hsizeIff.mpr hne hsize
    subst hxs
    refine ⟨m, none, if_pos hsize, ?_, ?_⟩
    · simp [EqualFirst]
    · intro newList hnone
      cases hnone
  · rw [if_neg hsize]
    cases new with
    | false =>
        refine ⟨m, none, rfl, ?_, ?_⟩
        · simp
        · intro newList hnone
          cases hnone
    | true =>
        have hnew : ListRep m (listNew list.customFree list.compareFunc) [] := ⟨⟨rfl, rfl⟩, rfl⟩
        have hlt : list.size.toNat < 2 ^ 32 := list.size.toNat_lt
        rw [if_pos rfl, hrep.size]
        rcases findAllLoop_spec hrep.chain hmap hnew (fun _ _ => List.not_mem_nil)
          (by rw [List.length_nil, ← hrep.size]; omega) with
          ⟨hall, m', newList', ms', hrun, hrep', hms⟩ | ⟨hnot, m', hrun⟩
        · rw [List.map_nil, List.append_nil] at hms
          have hlist : ListSeq (m', newList')
              (xs.filter (Matches list.compareFunc d)).reverse := ⟨ms', hrep', hms⟩
          have hsize' : newList'.size ≠ 0 ↔ EqualFirst list.compareFunc xs d := by
            rw [equalFirst_iff_filter, hlist.size_ne_zero_iff, ne_eq, List.reverse_eq_nil_iff]
          refine ⟨m', some newList', hrun, ?_, ?_⟩
          · simp [hsize', hall]
          · intro newList hsome
            cases hsome
            exact hlist
        · refine ⟨m', none, hrun, ?_, ?_⟩
          · simp [hnot]
          · intro newList hnone
            cases hnone

/-- The searches agree just in case the comparator does not mind the order of its arguments, and
whatever is found can be freed and listed. -/
theorem searchesAgree_iff (h : ListSeq s xs) (d : α) (new : Bool) (calloc : Nat → Bool) :
    SearchesAgree s xs d new calloc ↔
      (EqualSecond s.2.compareFunc xs d ↔ EqualFirst s.2.compareFunc xs d) ∧
      (EqualFirst s.2.compareFunc xs d → s.2.customFree = true ∧ new = true ∧
        AllocatesAll s.2.compareFunc d calloc xs) := by
  obtain ⟨contains, hcontains, hc⟩ := listContains_iff h d
  obtain ⟨first, hfirst, hf⟩ := listFindFirstOccurrence_iff h d
  obtain ⟨m, all, hall, ha, hholds⟩ := listFindAllOccurrences_iff h d new calloc
  have hr := listRemoveData_iff h d
  constructor
  · rintro ⟨⟨contains', first', m', all', hcontains', hfirst', hall', h₁, h₂, h₃⟩, -⟩
    cases hcontains.symm.trans hcontains'
    cases hfirst.symm.trans hfirst'
    cases hall.symm.trans hall'
    rw [hc, hf] at h₁
    rw [hf, ha] at h₂
    rw [hf, hr] at h₃
    exact ⟨h₁, fun hequal => ⟨(h₃.mp hequal).2, (h₂.mp hequal).2⟩⟩
  · rintro ⟨h₁, h₂⟩
    refine ⟨⟨contains, first, m, all, hcontains, hfirst, hall, ?_, ?_, ?_⟩, ?_⟩
    · rw [hc, hf]
      exact h₁
    · rw [hf, ha]
      exact ⟨fun hequal => ⟨hequal, (h₂ hequal).2⟩, And.left⟩
    · rw [hf, hr]
      exact ⟨fun hequal => ⟨hequal, (h₂ hequal).1⟩, And.left⟩
    · intro m' newList hrun
      cases hall.symm.trans hrun
      obtain ⟨ns, hrep, hmap⟩ := hholds newList rfl
      refine ⟨_, ?_, ?_, List.reverse_perm _⟩
      · rw [hrep.listData_eq, hmap]
      · rw [hrep.size, ListSeq.length_eq hmap]

theorem equalSecond_iff_equalFirst {cmp : Option α → Option α → CompRtns} {d : α}
    (hcomm : ∀ x, cmp (some x) (some d) = .equal ↔ cmp (some d) (some x) = .equal) :
    EqualSecond cmp xs d ↔ EqualFirst cmp xs d := by
  unfold EqualSecond EqualFirst
  simp only [hcomm]

/-! ### With the comparators of `comparisons.h`

Only `str_comp` distinguishes its arguments.
-/

variable [DecidableEq α]

/-- What is asked of the strings: the searched one begins a string of the list just in case some
string of the list begins it.  Only `MAX_STR_LEN` characters of a beginning count. -/
def Comparator.BothWays (xs : List α) (d : α) : Comparator α → Prop
  | .strComp memory =>
    (∃ x ∈ xs, (memory x).chars.take maxStrLen <+: (memory d).chars) ↔
      ∃ x ∈ xs, (memory d).chars.take maxStrLen <+: (memory x).chars
  | .nodePtrComp | .intComp _ _ | .cellComp _ => True

theorem Comparator.bothWays_iff (c : Comparator α) (xs : List α) (d : α) :
    (EqualSecond c.compareFunc xs d ↔ EqualFirst c.compareFunc xs d) ↔ c.BothWays xs d := by
  cases c with
  | nodePtrComp =>
      refine iff_of_true (equalSecond_iff_equalFirst fun x => ?_) trivial
      simp only [compareFunc, CmakeTemplate.nodePtrComp]
      split_ifs <;> simp_all
  | intComp order memory =>
      refine iff_of_true (equalSecond_iff_equalFirst fun x => ?_) trivial
      have hequal := (intComp_laws order).equal
      exact (hequal _ _ trivial trivial).trans (eq_comm.trans (hequal _ _ trivial trivial).symm)
  | strComp memory =>
      unfold EqualSecond EqualFirst BothWays
      simp only [compareFunc, Option.map_some, strComp_equal]
  | cellComp memory =>
      refine iff_of_true (equalSecond_iff_equalFirst fun x => ?_) trivial
      have hequal := cellComp_laws.equal
      exact (hequal _ _ trivial trivial).trans (eq_comm.trans (hequal _ _ trivial trivial).symm)

/-- The searches of a list that is made with a comparator. -/
theorem comparator_searches_agree_iff (c : Comparator α) (h : ListSeq s xs)
    (hcmp : s.2.compareFunc = c.compareFunc) (d : α) (new : Bool) (calloc : Nat → Bool) :
    SearchesAgree s xs d new calloc ↔ c.BothWays xs d ∧
      (EqualFirst c.compareFunc xs d → s.2.customFree = true ∧ new = true ∧
        AllocatesAll c.compareFunc d calloc xs) := by
  rw [searchesAgree_iff h, hcmp, c.bothWays_iff]

/-- Looking for `"ab"` where it is. -/
theorem comparator_searches_agree_strings :
    ∃ s, listRun (⟨.empty, []⟩, listNew true (Comparator.strComp id).compareFunc)
        [.pushTail stringB, .pushTail stringAb] = some (s, [.code .success, .code .success]) ∧
      SearchesAgree s [stringB, stringAb] stringAb true fun _ => true := by
  obtain ⟨s, hrun, hlist, hcmp, hfree⟩ :
      ∃ s, listRun (⟨.empty, []⟩, listNew true (Comparator.strComp id).compareFunc)
          [.pushTail stringB, .pushTail stringAb] = some (s, [.code .success, .code .success]) ∧
        ListSeq s [stringB, stringAb] ∧ s.2.compareFunc = (Comparator.strComp id).compareFunc ∧
        s.2.customFree = true :=
    ⟨_, rfl, ⟨[(0, some stringB), (1, some stringAb)],
      ⟨⟨rfl, _, rfl, rfl, _, rfl, rfl, rfl⟩, rfl⟩, rfl⟩, rfl, rfl⟩
  refine ⟨s, hrun, (comparator_searches_agree_iff _ hlist hcmp _ _ _).mpr ⟨?_, fun _ => ?_⟩⟩
  · refine iff_of_true ⟨stringAb, by simp, ?_⟩ ⟨stringAb, by simp, ?_⟩
    · exact List.take_prefix _ _
    · exact List.take_prefix _ _
  · exact ⟨hfree, rfl, fun _ => rfl, fun _ => rfl, trivial⟩

/-- `list_contains` finds `"ab"` in a list of `"a"`, and `list_find_first_occurrence` does not. -/
theorem searches_disagree :
    ∃ s, listRun (⟨.empty, []⟩, listNew true (Comparator.strComp id).compareFunc)
        [.pushTail stringA] = some (s, [.code .success]) ∧
      listContains s.1 s.2 (some stringAb) = some true ∧
      listFindFirstOccurrence s.1 s.2 (some stringAb) = some none ∧
      ¬ SearchesAgree s [stringA] stringAb true fun _ => true := by
  obtain ⟨s, hrun, hcontains, hfirst⟩ :
      ∃ s, listRun (⟨.empty, []⟩, listNew true (Comparator.strComp id).compareFunc)
          [.pushTail stringA] = some (s, [.code .success]) ∧
        listContains s.1 s.2 (some stringAb) = some true ∧
        listFindFirstOccurrence s.1 s.2 (some stringAb) = some none :=
    ⟨_, rfl, rfl, rfl⟩
  refine ⟨s, hrun, hcontains, hfirst, ?_⟩
  rintro ⟨⟨contains, first, _, _, hc, hf, -, hagree, -⟩, -⟩
  cases hcontains.symm.trans hc
  cases hfirst.symm.trans hf
  exact hagree.mp rfl rfl

end CmakeTemplate
