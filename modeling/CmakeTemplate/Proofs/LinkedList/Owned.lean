/-
Runs of calls on lists whose data are freed.

As long as no call gives a datum away twice, what has been pushed is in a node, has been freed
or has been popped, and the next call keeps it so exactly when it gives nothing away twice
either.  Freed and popped together are then never more than pushed.

The calls are those that return.  Every list has a `custom_free`, so a call is stuck only
where it follows a pointer to a freed node, which takes a list whose `tail` was left behind by
`list_sort`; a call that is stuck is no step of a run, and nothing is said of it.  For every
call that returns, from any state of such a run, the condition is exact.
-/
import CmakeTemplate.Proofs.LinkedList.Kept

namespace CmakeTemplate

open Lib

variable {α : Type} {s s' : ListHeap α} {a : Nat} {list : ListT α}

/-! ### The books

The balance of a state, and how it changes when one list and the store do.
-/

theorem DataConserved.notMem (h : DataConserved s) : none ∉ s.mem.kept := by
  intro hmem
  have hsum : none ∈ s.mem.kept + s.popped.map some := Multiset.mem_add.mpr (.inl hmem)
  rw [h] at hsum
  obtain ⟨d, -, hd⟩ := Multiset.mem_map.mp hsum
  exact absurd hd nofun

/-- Where nothing is pushed and nothing popped, the books balance if what is kept is the same. -/
theorem DataConserved.iff_kept (h : DataConserved s) (hpushed : s'.pushed = s.pushed)
    (hpopped : s'.popped = s.popped) : DataConserved s' ↔ s'.mem.kept = s.mem.kept := by
  unfold DataConserved at h ⊢
  rw [hpushed, hpopped, ← h]
  exact add_left_inj _

theorem DataConserved.set_iff (h : DataConserved s) (a : Nat) (m : ListMem α) (list : ListT α) :
    DataConserved (s.set a m list) ↔ m.kept = s.mem.kept :=
  h.iff_kept rfl rfl

theorem DataConserved.owned [DecidableEq α] (h : DataConserved s) : DataOwned s := by
  constructor
  · intro d
    have hinj : Function.Injective (some : α → Option α) := Option.some_injective α
    have hcount := congrArg (Multiset.count (some d)) h
    unfold ListMem.kept at hcount
    rw [Multiset.count_add, Multiset.count_add, Multiset.count_map_eq_count' some _ hinj,
      Multiset.count_map_eq_count' some _ hinj] at hcount
    omega
  · intro hmem
    apply h.notMem
    unfold ListMem.kept
    exact Multiset.mem_add.mpr (.inr hmem)

/-- Every list has a `custom_free`. -/
def AllFree (s : ListHeap α) : Prop :=
  ∀ a list, s.lists.get a = some list → list.customFree = true

theorem AllFree.upd (h : AllFree s) (hlist : s.lists.get a = some list) {list' : ListT α}
    (hcustom : list'.customFree = list.customFree)
    (hlists : s'.lists = s.lists.upd a fun _ => list') :
    AllFree s' := by
  intro b l hb
  rw [hlists, Store.get_upd] at hb
  split at hb
  · rw [hlist] at hb
    cases hb
    rw [hcustom]
    exact h a list hlist
  · exact h b l hb

/-! ### One call

Each call of the library by what it does to the balance.
-/

/-- What a call does to the books and to the lists. -/
structure DataBooks (s : ListHeap α) (once : Prop) (s' : ListHeap α) : Prop where
  /-- The books balance if and only if nothing was given away twice. -/
  conserved : DataConserved s' ↔ once
  /-- Every list still has a `custom_free`. -/
  free : AllFree s'

theorem pushCall_books {data : Option α} {r : Option (ListMem α × ListT α × ExitCode)}
    (hs : DataConserved s) (hfree : AllFree s) (hlist : s.lists.get a = some list)
    (hr : ∀ m' list' c, r = some (m', list', c) →
      (∃ works, Entered s.mem data works c m') ∧ list'.customFree = list.customFree)
    (h : pushCall s a data r = some s') : DataBooks s True s' := by
  obtain ⟨⟨m', list', c⟩, hx, rfl⟩ := Option.map_eq_some_iff.mp h
  obtain ⟨⟨works, hentered⟩, hcustom⟩ := hr m' list' c hx
  cases hentered with
  | success d hdata hworks hc hkept =>
      subst hdata
      subst hc
      refine ⟨iff_of_true ?_ trivial, hfree.upd hlist hcustom rfl⟩
      show m'.kept + s.popped.map some = (d ::ₘ s.pushed).map some
      rw [hkept, Multiset.cons_add, Multiset.map_cons, hs]
  | failure hnot hc hkept =>
      cases data with
      | none => exact ⟨iff_of_true ((hs.set_iff _ _ _).mpr hkept) trivial,
          hfree.upd hlist hcustom rfl⟩
      | some d =>
          have hsame : (if c = .success then
              ({ s.set a m' list' with pushed := d ::ₘ s.pushed } : ListHeap α)
              else s.set a m' list') = s.set a m' list' := if_neg hc
          show DataBooks s True (if c = .success then _ else _)
          rw [hsame]
          exact ⟨iff_of_true ((hs.set_iff _ _ _).mpr hkept) trivial,
            hfree.upd hlist hcustom rfl⟩

/-- The datum that a pop returns has left the nodes. -/
theorem popCall_books {r : Option (ListMem α × ListT α × Option α)} (hs : DataConserved s)
    (hfree : AllFree s) (hlist : s.lists.get a = some list)
    (hr : ∀ m' list' data, r = some (m', list', data) →
      ∃ p, PopsEnd s.mem list p m' list' data)
    (h : popCall s a r = some s') : DataBooks s True s' := by
  obtain ⟨⟨m', list', data⟩, hx, rfl⟩ := Option.map_eq_some_iff.mp h
  obtain ⟨p, hpops⟩ := hr m' list' data hx
  by_cases hp : p = none
  · obtain ⟨rfl, rfl⟩ := hpops.null hp
    exact ⟨iff_of_true ((hs.set_iff _ _ _).mpr rfl) trivial, hfree.upd hlist hpops.customFree rfl⟩
  · have hkept := hpops.node hp
    cases data with
    | none =>
        have hmem : none ∈ s.mem.kept := hkept ▸ Multiset.mem_cons_self _ _
        exact absurd hmem hs.notMem
    | some d =>
        refine ⟨iff_of_true ?_ trivial, hfree.upd hlist hpops.customFree rfl⟩
        show m'.kept + (d ::ₘ s.popped).map some = s.pushed.map some
        rw [Multiset.map_cons, Multiset.add_cons, ← Multiset.cons_add, hkept, hs]

/-- The datum is returned, and freed as well. -/
theorem popPosition_inside_books {position : UInt32} (hs : DataConserved s) (hfree : AllFree s)
    (hlist : s.lists.get a = some list) (hin : Inside list position)
    (h : popCall s a (listPopPosition s.mem list position) = some s') : DataBooks s False s' := by
  obtain ⟨⟨m', list', data⟩, hx, rfl⟩ := Option.map_eq_some_iff.mp h
  obtain ⟨hcustom, hkept, node, hnode, rfl⟩ := listPopPosition_inner hin hx
  rcases hdata : node.data with _ | d
  · apply absurd _ hs.notMem
    rw [← hdata]
    exact Multiset.mem_add.mpr (.inl (Multiset.mem_map_of_mem _ hnode))
  · refine ⟨iff_of_false ?_ id, hfree.upd hlist hcustom rfl⟩
    intro hs'
    replace hs' : m'.kept + (d ::ₘ s.popped).map some = s.pushed.map some := hs'
    rw [Multiset.map_cons, Multiset.add_cons, hkept, hs] at hs'
    exact (Multiset.lt_cons_self _ _).ne' hs'

theorem freeCall_books {r : Option (ListMem α × ListT α × ExitCode)} {once : Prop}
    (hs : DataConserved s) (hfree : AllFree s) (hlist : s.lists.get a = some list)
    (hr : ∀ m' list' c, r = some (m', list', c) →
      list'.customFree = list.customFree ∧ (m'.kept = s.mem.kept ↔ once))
    (h : freeCall s a r = some s') : DataBooks s once s' := by
  obtain ⟨⟨m', list', c⟩, hx, rfl⟩ := Option.map_eq_some_iff.mp h
  obtain ⟨hcustom, hkept⟩ := hr m' list' c hx
  exact ⟨(hs.set_iff _ _ _).trans hkept, hfree.upd hlist hcustom rfl⟩

/-- A list made of the matches has their data once more, unless there are none. -/
theorem findAllCall_books {searchData : Option α} {new : Bool} {calloc : Nat → Bool}
    (hs : DataConserved s) (hfree : AllFree s) (hlist : s.lists.get a = some list)
    (h : heapExec s a list (.findAll searchData new calloc) = some s') :
    DataBooks s (GivesOnce s.mem.nodes list (.findAll searchData new calloc)) s' := by
  obtain ⟨⟨m', found⟩, hr, rfl⟩ := Option.map_eq_some_iff.mp h
  obtain ⟨hkept, hfound⟩ := listFindAllOccurrences_kept_iff (hfree a list hlist) hr
  show DataBooks s (list.size = 0 ∨ new = false ∨
    FindsNothing list searchData calloc s.mem.nodes list.size.toNat list.head) _
  rw [← hkept]
  cases found with
  | none => exact ⟨hs.iff_kept rfl rfl, hfree⟩
  | some newList =>
      refine ⟨hs.iff_kept rfl rfl, ?_⟩
      intro b l hb
      replace hb : (s.lists.alloc newList).1.get b = some l := hb
      rw [Store.get_alloc] at hb
      split at hb
      · cases hb
        exact hfound _ rfl
      · exact hfree b l hb

theorem deleteCall_books (hs : DataConserved s) (hfree : AllFree s)
    (hlist : s.lists.get a = some list) (h : heapExec s a list .delete = some s') :
    DataBooks s (GivesOnce s.mem.nodes list .delete) s' := by
  obtain ⟨⟨m', list', c⟩, hr, rfl⟩ := Option.map_eq_some_iff.mp h
  have hiff : DataConserved { s with mem := m', lists := s.lists.drop a } ↔
      m'.kept = s.mem.kept := hs.iff_kept rfl rfl
  refine ⟨hiff.trans (iff_of_true (listClear_kept (hfree a list hlist) hr).2 trivial), ?_⟩
  intro b l hb
  replace hb : (s.lists.drop a).get b = some l := hb
  rw [Store.get_drop] at hb
  split at hb
  · simp at hb
  · exact hfree b l hb

theorem heapExec_books {op : HeapOp α} (hs : DataConserved s) (hfree : AllFree s)
    (hlist : s.lists.get a = some list) (h : heapExec s a list op = some s') :
    DataBooks s (GivesOnce s.mem.nodes list op) s' := by
  have hcustom : list.customFree = true := hfree a list hlist
  cases op with
  | pushHead data calloc =>
      apply pushCall_books hs hfree hlist _ h
      intro m' list' c hr
      exact ⟨⟨_, (listPushHead_pushed hr).1⟩, (listPushHead_pushed hr).2⟩
  | pushTail data calloc =>
      apply pushCall_books hs hfree hlist _ h
      intro m' list' c hr
      exact ⟨⟨_, (listPushTail_pushed hr).1⟩, (listPushTail_pushed hr).2⟩
  | pushPosition data position calloc =>
      apply pushCall_books hs hfree hlist _ h
      intro m' list' c hr
      exact listPushPosition_pushed hr
  | popHead =>
      apply popCall_books hs hfree hlist _ h
      intro m' list' data hr
      exact ⟨_, listPopHead_popsEnd hr⟩
  | popTail =>
      apply popCall_books hs hfree hlist _ h
      intro m' list' data hr
      exact ⟨_, listPopTail_popsEnd hr⟩
  | popPosition position =>
      by_cases hin : Inside list position
      · have hbooks := popPosition_inside_books hs hfree hlist hin h
        exact ⟨hbooks.conserved.trans (iff_of_false id fun hc => hc hin), hbooks.free⟩
      · have hbooks := popCall_books hs hfree hlist
          (fun m' list' data hr => ⟨_, listPopPosition_popsEnd hin hr⟩) h
        exact ⟨hbooks.conserved.trans (iff_of_true trivial hin), hbooks.free⟩
  | removeHead =>
      apply freeCall_books hs hfree hlist _ h
      intro m' list' c hr
      exact listRemoveHead_kept_iff hr
  | removeTail =>
      apply freeCall_books hs hfree hlist _ h
      intro m' list' c hr
      exact listRemoveTail_kept_iff hr
  | removePosition position =>
      apply freeCall_books hs hfree hlist _ h
      intro m' list' c hr
      exact listRemovePosition_kept_iff hr
  | removeData data =>
      apply freeCall_books hs hfree hlist _ h
      intro m' list' c hr
      obtain ⟨hcustom', hkept⟩ := listRemoveData_kept hr
      exact ⟨hcustom', iff_of_true hkept trivial⟩
  | sort =>
      apply freeCall_books hs hfree hlist _ h
      intro m' list' c hr
      obtain ⟨hcustom', hkept⟩ := listSort_kept hr
      exact ⟨hcustom', iff_of_true hkept trivial⟩
  | clear =>
      apply freeCall_books hs hfree hlist _ h
      intro m' list' c hr
      obtain ⟨hcustom', hkept⟩ := listClear_kept hcustom hr
      exact ⟨hcustom', iff_of_true hkept trivial⟩
  | findAll searchData new calloc => exact findAllCall_books hs hfree hlist h
  | delete => exact deleteCall_books hs hfree hlist h

theorem heapStep_books {call : Nat × HeapOp α} (hs : DataConserved s) (hfree : AllFree s)
    (h : heapStep s call = some s') : DataBooks s (FreesOnce s call) s' := by
  obtain ⟨list, hlist, h⟩ := Option.bind_eq_some_iff.mp h
  have hbooks := heapExec_books hs hfree hlist h
  refine ⟨hbooks.conserved.trans ?_, hbooks.free⟩
  constructor
  · intro honce l hl
    cases hlist.symm.trans hl
    exact honce
  · intro hall
    exact hall list hlist

/-! ### Runs

The balance is kept as long as the condition is met, and not longer.
-/

theorem heapStart_books (compareFunc : Option α → Option α → CompRtns) :
    DataConserved (heapStart compareFunc) ∧ AllFree (heapStart compareFunc) := by
  refine ⟨rfl, ?_⟩
  intro a list ha
  replace ha : (Store.empty.alloc (listNew true compareFunc)).1.get a = some list := ha
  rw [Store.get_alloc] at ha
  split at ha
  · cases ha
    rfl
  · simp [Store.empty] at ha

/-- As long as no call gives a datum away twice, each is freed or popped at most as often as it was
pushed; and the next call keeps the books exactly when it gives none away twice. -/
theorem heapSystem_owned [DecidableEq α] {compareFunc : Option α → Option α → CompRtns}
    (h : (heapSystem compareFunc).ReachIf FreesOnce s) :
    DataOwned s ∧ ∀ call s', heapStep s call = some s' → (DataConserved s' ↔ FreesOnce s call) := by
  have hinv : DataConserved s ∧ AllFree s := by
    apply h.invariant (I := fun s => DataConserved s ∧ AllFree s)
    · intro s hs
      rw [hs]
      exact heapStart_books compareFunc
    · intro s call s' hinv honce hstep
      have hbooks := heapStep_books hinv.1 hinv.2 hstep
      exact ⟨hbooks.conserved.mpr honce, hbooks.free⟩
  refine ⟨hinv.1.owned, ?_⟩
  intro call s' hstep
  exact (heapStep_books hinv.1 hinv.2 hstep).conserved

/-- Data that are equal, or not. -/
def sameOrGreater (a b : Option Nat) : CompRtns := if a = b then .equal else .greaterThan

/-- One datum is popped by its position, one removed, and one deleted with the list. -/
theorem heapSystem_owned_run :
    ∃ s, (heapSystem sameOrGreater).run (heapStart sameOrGreater) [(0, .pushHead (some 1) true),
        (0, .pushTail (some 2) true), (0, .pushHead (some 1) true), (0, .popPosition 0),
        (0, .removeTail), (0, .delete)] = some s ∧
      s.mem.freed = [some 2, some 1] ∧ s.popped = {1} ∧ DataOwned s ∧
      ∀ call s', heapStep s call = some s' → (DataConserved s' ↔ FreesOnce s call) := by
  have h0 : (heapSystem sameOrGreater).ReachIf FreesOnce (heapStart sameOrGreater) := .init rfl
  have h1 := h0.step (l := (0, HeapOp.pushHead (some 1) true)) (fun _ _ => trivial) rfl
  have h2 := h1.step (l := (0, HeapOp.pushTail (some 2) true)) (fun _ _ => trivial) rfl
  have h3 := h2.step (l := (0, HeapOp.pushHead (some 1) true)) (fun _ _ => trivial) rfl
  have h4 := h3.step (l := (0, HeapOp.popPosition 0)) (fun _ _ hin => hin.2.1 rfl) rfl
  have h5 := h4.step (l := (0, HeapOp.removeTail)) (fun _ hl => Option.some.inj hl ▸ nofun) rfl
  have h6 := h5.step (l := (0, HeapOp.delete)) (fun _ _ => trivial) rfl
  exact ⟨_, rfl, rfl, rfl, heapSystem_owned h6⟩

/-- The middle one of three data is popped. -/
theorem freed_and_popped :
    ¬ ∀ (compareFunc : Option Nat → Option Nat → CompRtns) s, (heapSystem compareFunc).Reach s →
      DataOwned s := by
  intro hall
  obtain ⟨s, hrun, hfreed, hpopped, hpushed⟩ : ∃ s, (heapSystem sameOrGreater).run
      (heapStart sameOrGreater) [(0, .pushTail (some 1) true), (0, .pushTail (some 2) true),
        (0, .pushTail (some 3) true), (0, .popPosition 1)] = some s ∧
      s.mem.freed = [some 2] ∧ s.popped = {2} ∧ s.pushed = {3, 2, 1} :=
    ⟨_, rfl, rfl, rfl, rfl⟩
  have honce := (hall sameOrGreater s ((System.Reach.init rfl).run hrun)).once 2
  rw [hfreed, hpopped, hpushed] at honce
  exact absurd honce (by decide)

end CmakeTemplate
