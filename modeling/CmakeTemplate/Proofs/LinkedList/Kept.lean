/-
What the calls on lists do with the data.

The books are kept over the store, whatever has become of `head`, `tail` and `size`: a node
takes its datum along from the push that made it to the `free` that ends it.  So it is enough
to see what each call does with the datum of the one node it frees, and a list whose `tail` is
stale needs no case of its own.

A call that returns has done one of a few things to the data: it put a datum in, took one out
and returned it, took one out and freed it, or did nothing.  Linking and sorting write
pointers, which the data do not see.  The only calls that give one datum to two owners are a
pop from an inner position, which frees the datum that it returns, and a list of occurrences,
whose nodes hold data of another list.
-/
import CmakeTemplate.Ownership
import Mathlib.Algebra.Order.Group.Multiset

namespace CmakeTemplate

open Lib

variable {α : Type} {m m' : ListMem α} {list list' : ListT α}

/-! ### Nodes

Freeing a node takes its datum out of the store, and a write to a pointer changes none.
-/

/-- The nodes hold the same data. -/
abbrev SameData (s t : Store (ListNode α)) : Prop := Store.SameUnder DCell.data s t

theorem setNext_sameData {nodes nodes' : Store (ListNode α)} {p v : Ptr}
    (h : setNext nodes p v = some nodes') : SameData nodes nodes' :=
  Store.SameUnder.assign (g := fun c => { c with next := v }) (fun _ => rfl) h

theorem setPrev_sameData {nodes nodes' : Store (ListNode α)} {p v : Ptr}
    (h : setPrev nodes p v = some nodes') : SameData nodes nodes' :=
  Store.SameUnder.assign (g := fun c => { c with prev := v }) (fun _ => rfl) h

theorem SameData.kept {nodes : Store (ListNode α)} (h : SameData m.nodes nodes) :
    ({ m with nodes } : ListMem α).kept = m.kept := by
  unfold ListMem.kept
  rw [Store.SameUnder.live h]

/-- Freeing a node gives its datum out. -/
theorem free_kept {nodes : Store (ListNode α)} {p : Ptr} {node : ListNode α}
    (hnode : m.nodes.load p = some node) (h : m.nodes.free p = some nodes) :
    node.data ::ₘ ({ m with nodes } : ListMem α).kept = m.kept := by
  unfold ListMem.kept
  rw [← Store.live_free hnode h, Multiset.map_cons, Multiset.cons_add]

theorem callFree_kept {data : Option α} (h : callFree m list data = some m') :
    m'.kept = data ::ₘ m.kept ∧ m'.nodes = m.nodes := by
  unfold callFree at h
  split at h
  · cases h
    refine ⟨?_, rfl⟩
    unfold ListMem.kept
    show m.nodes.live.map DCell.data + Multiset.ofList (m.freed ++ [data]) = _
    rw [← Multiset.coe_add, Multiset.coe_singleton, ← Multiset.singleton_add, ← add_assoc, add_comm]
  · simp at h

/-- What is read at a node whose data nobody has written. -/
theorem SameData.load {s t : Store (ListNode α)} (h : SameData s t) {p : Ptr} {node : ListNode α}
    (hnode : s.load p = some node) : ∃ node', t.load p = some node' ∧ node'.data = node.data := by
  obtain ⟨a, rfl, ha⟩ := Option.bind_eq_some_iff.mp hnode
  exact Store.SameUnder.of_get h ha

/-- An assignment that is made only where there is a neighbour. -/
theorem bind_neighbour {β γ : Type} {c : Prop} [Decidable c] {x : β} {o : Option β}
    {k : β → Option γ} {r : γ} (h : (if c then some x >>= k else o >>= k) = some r) :
    ∃ y, (c ∧ y = x ∨ ¬ c ∧ o = some y) ∧ k y = some r := by
  split at h
  · rename_i hc
    exact ⟨x, .inl ⟨hc, rfl⟩, h⟩
  · rename_i hc
    obtain ⟨y, ho, h⟩ := Option.bind_eq_some_iff.mp h
    exact ⟨y, .inr ⟨hc, ho⟩, h⟩

/-! ### Pushing

A push allocates first, so one without memory has done nothing yet.
-/

/-- A push that works puts its datum in, and another does nothing to the data. -/
inductive Entered (m : ListMem α) (data : Option α) (works : Prop) (c : ExitCode)
    (m' : ListMem α) : Prop
  | success (d : α) (hdata : data = some d) (hworks : works) (hc : c = .success)
      (hkept : m'.kept = some d ::ₘ m.kept)
  | failure (hnot : ¬ works) (hc : c ≠ .success) (hkept : m'.kept = m.kept)

/-- There is something to push, and memory for it. -/
def CanPush (data : Option α) (calloc : Bool) : Prop := data ≠ none ∧ calloc = true

theorem listNodeNew_cases {data : Option α} {calloc : Bool} {p : Ptr} (hdata : ¬ data.isNone = true)
    (h : listNodeNew m data calloc = (m', p)) :
    (p = none ∧ calloc = false ∧ m' = m) ∨
      (p ≠ none ∧ ∃ d, data = some d ∧ calloc = true ∧ m'.kept = some d ::ₘ m.kept) := by
  cases data with
  | none => exact absurd rfl hdata
  | some d =>
      cases calloc with
      | false =>
          cases h
          exact .inl ⟨rfl, rfl, rfl⟩
      | true =>
          cases h
          refine .inr ⟨nofun, d, rfl, rfl, ?_⟩
          unfold ListMem.kept
          rw [Store.live_alloc, Multiset.map_cons, Multiset.cons_add]

theorem pushed_of_sameData {data : Option α} {calloc : Bool} {m₁ : ListMem α} {p : Ptr}
    (hdata : ¬ data.isNone = true) (hnew : listNodeNew m data calloc = (m₁, p)) (hp : ¬ p = none)
    {nodes : Store (ListNode α)} (hsame : SameData m₁.nodes nodes) :
    Entered m data (CanPush data calloc) .success { m₁ with nodes } := by
  rcases listNodeNew_cases hdata hnew with ⟨hnone, -, -⟩ | ⟨-, d, hd, hcalloc, hkept⟩
  · exact absurd hnone hp
  · apply Entered.success d hd ⟨hd ▸ nofun, hcalloc⟩ rfl
    rw [hsame.kept, hkept]

theorem pushed_of_noMemory {data : Option α} {calloc : Bool} {m₁ : ListMem α} {p : Ptr}
    (hdata : ¬ data.isNone = true) (hnew : listNodeNew m data calloc = (m₁, p)) (hp : p = none) :
    Entered m data (CanPush data calloc) .failure m₁ := by
  rcases listNodeNew_cases hdata hnew with ⟨-, hcalloc, rfl⟩ | ⟨hsome, -⟩
  · refine .failure ?_ nofun rfl
    intro hc
    exact absurd (hcalloc.symm.trans hc.2) Bool.noConfusion
  · exact absurd hp hsome

theorem pushed_of_null {data : Option α} {calloc : Bool} (hnone : data.isNone = true) :
    Entered m data (CanPush data calloc) .nullPointer m :=
  .failure (fun hc => hc.1 (Option.isNone_iff_eq_none.mp hnone)) nofun rfl

theorem listPushHead_pushed {data : Option α} {calloc : Bool} {c : ExitCode}
    (h : listPushHead m list data calloc = some (m', list', c)) :
    Entered m data (CanPush data calloc) c m' ∧ list'.customFree = list.customFree := by
  unfold listPushHead at h
  split at h
  · rename_i hnone
    cases h
    exact ⟨pushed_of_null hnone, rfl⟩
  · rename_i hdata
    rcases hnew : listNodeNew m data calloc with ⟨m₁, p⟩
    simp only [hnew] at h
    split at h
    · rename_i hp
      cases h
      exact ⟨pushed_of_noMemory hdata hnew hp, rfl⟩
    · rename_i hp
      split at h
      · obtain ⟨nodes₁, h1, h⟩ := Option.bind_eq_some_iff.mp h
        obtain ⟨nodes₂, h2, h⟩ := Option.bind_eq_some_iff.mp h
        cases h
        have hsame := (setNext_sameData h1).trans (setPrev_sameData h2)
        exact ⟨pushed_of_sameData hdata hnew hp hsame, rfl⟩
      · obtain ⟨nodes₁, h1, h⟩ := Option.bind_eq_some_iff.mp h
        obtain ⟨nodes₂, h2, h⟩ := Option.bind_eq_some_iff.mp h
        obtain ⟨nodes₃, h3, h⟩ := Option.bind_eq_some_iff.mp h
        cases h
        have hsame :=
          ((setNext_sameData h1).trans (setPrev_sameData h2)).trans (setPrev_sameData h3)
        exact ⟨pushed_of_sameData hdata hnew hp hsame, rfl⟩

theorem listPushTail_pushed {data : Option α} {calloc : Bool} {c : ExitCode}
    (h : listPushTail m list data calloc = some (m', list', c)) :
    Entered m data (CanPush data calloc) c m' ∧ list'.customFree = list.customFree := by
  unfold listPushTail at h
  split at h
  · rename_i hnone
    cases h
    exact ⟨pushed_of_null hnone, rfl⟩
  · rename_i hdata
    rcases hnew : listNodeNew m data calloc with ⟨m₁, p⟩
    simp only [hnew] at h
    split at h
    · rename_i hp
      cases h
      exact ⟨pushed_of_noMemory hdata hnew hp, rfl⟩
    · rename_i hp
      split at h
      · obtain ⟨nodes₁, h1, h⟩ := Option.bind_eq_some_iff.mp h
        obtain ⟨nodes₂, h2, h⟩ := Option.bind_eq_some_iff.mp h
        cases h
        have hsame := (setNext_sameData h1).trans (setPrev_sameData h2)
        exact ⟨pushed_of_sameData hdata hnew hp hsame, rfl⟩
      · obtain ⟨nodes₁, h1, h⟩ := Option.bind_eq_some_iff.mp h
        obtain ⟨nodes₂, h2, h⟩ := Option.bind_eq_some_iff.mp h
        obtain ⟨nodes₃, h3, h⟩ := Option.bind_eq_some_iff.mp h
        cases h
        have hsame :=
          ((setPrev_sameData h1).trans (setNext_sameData h2)).trans (setNext_sameData h3)
        exact ⟨pushed_of_sameData hdata hnew hp hsame, rfl⟩

theorem listPushPosition_pushed {data : Option α} {position : UInt32} {calloc : Bool} {c : ExitCode}
    (h : listPushPosition m list data position calloc = some (m', list', c)) :
    (∃ works, Entered m data works c m') ∧ list'.customFree = list.customFree := by
  unfold listPushPosition at h
  by_cases hnone : data.isNone = true
  · rw [if_pos hnone] at h
    cases h
    exact ⟨⟨CanPush data calloc, pushed_of_null hnone⟩, rfl⟩
  · rw [if_neg hnone] at h
    by_cases hsize : position > list.size
    · rw [if_pos hsize] at h
      cases h
      exact ⟨⟨False, .failure id nofun rfl⟩, rfl⟩
    · rw [if_neg hsize] at h
      by_cases hzero : position = 0
      · rw [if_pos hzero] at h
        obtain ⟨hpushed, hfree⟩ := listPushHead_pushed h
        exact ⟨⟨_, hpushed⟩, hfree⟩
      · rw [if_neg hzero] at h
        by_cases hend : position = list.size
        · rw [if_pos hend] at h
          obtain ⟨hpushed, hfree⟩ := listPushTail_pushed h
          exact ⟨⟨_, hpushed⟩, hfree⟩
        · rw [if_neg hend] at h
          rcases hnew : listNodeNew m data calloc with ⟨m₁, p⟩
          rw [hnew] at h
          dsimp only at h
          by_cases hp : p = none
          · rw [if_pos hp] at h
            cases h
            exact ⟨⟨_, pushed_of_noMemory hnone hnew hp⟩, rfl⟩
          · rw [if_neg hp] at h
            obtain ⟨current, -, h⟩ := Option.bind_eq_some_iff.mp h
            obtain ⟨node, -, h⟩ := Option.bind_eq_some_iff.mp h
            obtain ⟨nodes₁, h1, h⟩ := Option.bind_eq_some_iff.mp h
            obtain ⟨nodes₂, h2, h⟩ := Option.bind_eq_some_iff.mp h
            obtain ⟨nodes₃, h3, h⟩ := bind_neighbour h
            obtain ⟨nodes₄, h4, h⟩ := Option.bind_eq_some_iff.mp h
            cases h
            have hsame : SameData m₁.nodes nodes₃ := by
              have hlinked := (setNext_sameData h1).trans (setPrev_sameData h2)
              rcases h3 with ⟨-, rfl⟩ | ⟨-, h3⟩
              · exact hlinked
              · exact hlinked.trans (setPrev_sameData h3)
            exact ⟨⟨_, pushed_of_sameData hnone hnew hp (hsame.trans (setNext_sameData h4))⟩, rfl⟩

/-! ### Popping and removing

The node is unlinked, and then freed; only the second counts here.
-/

theorem free_sameData {nodes nodes' : Store (ListNode α)} {p : Ptr} {node : ListNode α}
    (hnode : m.nodes.load p = some node) (hsame : SameData m.nodes nodes)
    (h : nodes.free p = some nodes') :
    node.data ::ₘ ({ m with nodes := nodes' } : ListMem α).kept = m.kept := by
  obtain ⟨node', hnode', hdata⟩ := hsame.load hnode
  have hfree := free_kept (m := { m with nodes }) hnode' h
  rw [hdata, hsame.kept] at hfree
  exact hfree

/-- What a pop from an end does: nothing without a node, and else the datum leaves with it. -/
structure PopsEnd (m : ListMem α) (list : ListT α) (p : Ptr) (m' : ListMem α) (list' : ListT α)
    (data : Option α) : Prop where
  /-- The callback stays. -/
  customFree : list'.customFree = list.customFree
  /-- Without a node there is no datum. -/
  null : p = none → data = none ∧ m' = m
  /-- The datum has left the nodes. -/
  node : p ≠ none → data ::ₘ m'.kept = m.kept

theorem listPopHead_popsEnd {data : Option α} (h : listPopHead m list = some (m', list', data)) :
    PopsEnd m list list.head m' list' data := by
  unfold listPopHead at h
  split at h
  · rename_i hnone
    cases h
    exact ⟨rfl, fun _ => ⟨rfl, rfl⟩, fun hc => absurd hnone hc⟩
  · rename_i hsome
    obtain ⟨head, hhead, h⟩ := Option.bind_eq_some_iff.mp h
    split at h
    · obtain ⟨nodes, hfree, h⟩ := Option.bind_eq_some_iff.mp h
      cases h
      refine ⟨rfl, fun hc => absurd hc hsome, ?_⟩
      intro _
      exact free_kept hhead hfree
    · obtain ⟨nodes₁, h1, h⟩ := Option.bind_eq_some_iff.mp h
      obtain ⟨nodes, hfree, h⟩ := Option.bind_eq_some_iff.mp h
      cases h
      refine ⟨rfl, fun hc => absurd hc hsome, ?_⟩
      intro _
      exact free_sameData hhead (setPrev_sameData h1) hfree

theorem listPopTail_popsEnd {data : Option α} (h : listPopTail m list = some (m', list', data)) :
    PopsEnd m list list.tail m' list' data := by
  unfold listPopTail at h
  split at h
  · rename_i hnone
    cases h
    exact ⟨rfl, fun _ => ⟨rfl, rfl⟩, fun hc => absurd hnone hc⟩
  · rename_i hsome
    obtain ⟨tail, htail, h⟩ := Option.bind_eq_some_iff.mp h
    split at h
    · obtain ⟨nodes, hfree, h⟩ := Option.bind_eq_some_iff.mp h
      cases h
      refine ⟨rfl, fun hc => absurd hc hsome, ?_⟩
      intro _
      exact free_kept htail hfree
    · obtain ⟨nodes₁, h1, h⟩ := Option.bind_eq_some_iff.mp h
      obtain ⟨nodes, hfree, h⟩ := Option.bind_eq_some_iff.mp h
      cases h
      refine ⟨rfl, fun hc => absurd hc hsome, ?_⟩
      intro _
      exact free_sameData htail (setNext_sameData h1) hfree

/-- Unlinking a node and freeing it with its datum. -/
theorem freeNode_kept {m₁ : ListMem α} {nodes nodes' : Store (ListNode α)} {p : Ptr}
    {node : ListNode α} (hnode : m.nodes.load p = some node) (hsame : SameData m.nodes nodes)
    (hcall : callFree { m with nodes } list node.data = some m₁)
    (hfree : m₁.nodes.free p = some nodes') :
    ({ m₁ with nodes := nodes' } : ListMem α).kept = m.kept := by
  obtain ⟨hkept, hnodes⟩ := callFree_kept hcall
  obtain ⟨node', hnode', hdata⟩ := hsame.load hnode
  have hload : m₁.nodes.load p = some node' := by
    rw [hnodes]
    exact hnode'
  have hrest := free_kept hload hfree
  rw [hkept, hdata, hsame.kept] at hrest
  exact (Multiset.cons_inj_right _).mp hrest

/-- The node at an inner position is freed with its datum, and the datum is returned. -/
theorem listPopPosition_inner {position : UInt32} {data : Option α} (hin : Inside list position)
    (h : listPopPosition m list position = some (m', list', data)) :
    list'.customFree = list.customFree ∧ m'.kept = m.kept ∧
      ∃ node ∈ m.nodes.live, data = node.data := by
  unfold listPopPosition at h
  rw [if_neg hin.1, if_neg hin.2.1, if_neg hin.2.2] at h
  obtain ⟨current, -, h⟩ := Option.bind_eq_some_iff.mp h
  obtain ⟨node, hnode, h⟩ := Option.bind_eq_some_iff.mp h
  obtain ⟨nodes₁, h1, h⟩ := Option.bind_eq_some_iff.mp h
  obtain ⟨nodes₂, h2, h⟩ := bind_neighbour h
  obtain ⟨m₃, h3, h⟩ := Option.bind_eq_some_iff.mp h
  obtain ⟨nodes₄, h4, h⟩ := Option.bind_eq_some_iff.mp h
  cases h
  have hsame : SameData m.nodes nodes₂ := by
    rcases h2 with ⟨-, rfl⟩ | ⟨-, h2⟩
    · exact setNext_sameData h1
    · exact (setNext_sameData h1).trans (setPrev_sameData h2)
  obtain ⟨a, rfl, ha⟩ := Option.bind_eq_some_iff.mp hnode
  exact ⟨rfl, freeNode_kept hnode hsame h3 h4, node, Store.mem_live ha, rfl⟩

theorem removeNode_kept {p : Ptr} {c : ExitCode} (h : removeNode m list p = some (m', list', c)) :
    list'.customFree = list.customFree ∧ m'.kept = m.kept := by
  unfold removeNode at h
  split at h
  · cases h
    exact ⟨rfl, rfl⟩
  · obtain ⟨node, hnode, h⟩ := Option.bind_eq_some_iff.mp h
    obtain ⟨nodes₁, h1, h⟩ := bind_neighbour h
    obtain ⟨nodes₂, h2, h⟩ := bind_neighbour h
    obtain ⟨m₃, h3, h⟩ := Option.bind_eq_some_iff.mp h
    obtain ⟨nodes₄, h4, h⟩ := Option.bind_eq_some_iff.mp h
    cases h
    have hsame₁ : SameData m.nodes nodes₁ := by
      rcases h1 with ⟨-, rfl⟩ | ⟨-, h1⟩
      · exact Store.SameUnder.refl _ _
      · exact setNext_sameData h1
    have hsame₂ : SameData nodes₁ nodes₂ := by
      rcases h2 with ⟨-, rfl⟩ | ⟨-, h2⟩
      · exact Store.SameUnder.refl _ _
      · exact setPrev_sameData h2
    refine ⟨?_, freeNode_kept hnode (hsame₁.trans hsame₂) h3 h4⟩
    split <;> split <;> rfl

theorem listRemoveData_kept {data : Option α} {c : ExitCode}
    (h : listRemoveData m list data = some (m', list', c)) :
    list'.customFree = list.customFree ∧ m'.kept = m.kept := by
  unfold listRemoveData at h
  split at h
  · cases h
    exact ⟨rfl, rfl⟩
  · obtain ⟨p, -, h⟩ := Option.bind_eq_some_iff.mp h
    split at h
    · cases h
      exact ⟨rfl, rfl⟩
    · exact removeNode_kept h

/-! ### Sorting and clearing

A sort relinks the nodes by recursion, and clearing frees them one by one.
-/

theorem split_sameData {nodes nodes' : Store (ListNode α)} {head first second : Ptr}
    (h : split nodes head = some (nodes', first, second)) : SameData nodes nodes' := by
  unfold split at h
  obtain ⟨_, -, h⟩ := Option.bind_eq_some_iff.mp h
  obtain ⟨slow, -, h⟩ := Option.bind_eq_some_iff.mp h
  obtain ⟨_, -, h⟩ := Option.bind_eq_some_iff.mp h
  obtain ⟨nodes₁, h1, h⟩ := Option.bind_eq_some_iff.mp h
  cases h
  exact setNext_sameData h1

theorem merge_sameData {compareFunc : Option α → Option α → CompRtns} {fuel : Nat}
    {nodes nodes' : Store (ListNode α)} {first second p : Ptr}
    (h : merge compareFunc fuel nodes first second = some (nodes', p)) : SameData nodes nodes' := by
  induction fuel generalizing nodes nodes' first second p with
  | zero =>
      cases first with
      | none =>
          cases h
          exact Store.SameUnder.refl _ _
      | some _ =>
          cases second with
          | none =>
              cases h
              exact Store.SameUnder.refl _ _
          | some _ => simp [merge] at h
  | succ fuel ih =>
      cases first with
      | none =>
          cases h
          exact Store.SameUnder.refl _ _
      | some first =>
          cases second with
          | none =>
              cases h
              exact Store.SameUnder.refl _ _
          | some second =>
              unfold merge at h
              obtain ⟨f, -, h⟩ := Option.bind_eq_some_iff.mp h
              obtain ⟨s, -, h⟩ := Option.bind_eq_some_iff.mp h
              -- both branches merge the rest and then link one node before it
              split at h
              all_goals
                obtain ⟨⟨nodes₁, rest⟩, hrest, h⟩ := Option.bind_eq_some_iff.mp h
                obtain ⟨nodes₂, h2, h⟩ := Option.bind_eq_some_iff.mp h
                obtain ⟨nodes₃, h3, h⟩ := Option.bind_eq_some_iff.mp h
                obtain ⟨nodes₄, h4, h⟩ := Option.bind_eq_some_iff.mp h
                cases h
                have hlinks := ((setNext_sameData h2).trans (setPrev_sameData h3)).trans
                  (setPrev_sameData h4)
                exact (ih hrest).trans hlinks

theorem mergeSort_sameData {compareFunc : Option α → Option α → CompRtns} {fuel : Nat}
    {nodes nodes' : Store (ListNode α)} {head p : Ptr}
    (h : mergeSort compareFunc fuel nodes head = some (nodes', p)) : SameData nodes nodes' := by
  induction fuel generalizing nodes nodes' head p with
  | zero =>
      cases head with
      | none =>
          cases h
          exact Store.SameUnder.refl _ _
      | some _ => simp [mergeSort] at h
  | succ fuel ih =>
      cases head with
      | none =>
          cases h
          exact Store.SameUnder.refl _ _
      | some head =>
          unfold mergeSort at h
          obtain ⟨node, -, h⟩ := Option.bind_eq_some_iff.mp h
          split at h
          · cases h
            exact Store.SameUnder.refl _ _
          · obtain ⟨⟨nodes₁, first, second⟩, h1, h⟩ := Option.bind_eq_some_iff.mp h
            obtain ⟨⟨nodes₂, first'⟩, h2, h⟩ := Option.bind_eq_some_iff.mp h
            obtain ⟨⟨nodes₃, second'⟩, h3, h⟩ := Option.bind_eq_some_iff.mp h
            exact (((split_sameData h1).trans (ih h2)).trans (ih h3)).trans (merge_sameData h)

theorem listSort_kept {c : ExitCode} (h : listSort m list = some (m', list', c)) :
    list'.customFree = list.customFree ∧ m'.kept = m.kept := by
  unfold listSort at h
  obtain ⟨⟨nodes, head⟩, hsort, h⟩ := Option.bind_eq_some_iff.mp h
  cases h
  exact ⟨rfl, (mergeSort_sameData hsort).kept⟩

theorem listClearLoop_kept {fuel : Nat} {p : Ptr} (hcustom : list.customFree = true)
    (h : listClearLoop list fuel m p = some m') : m'.kept = m.kept := by
  induction fuel generalizing m p with
  | zero =>
      cases p with
      | none =>
          cases h
          rfl
      | some _ => simp [listClearLoop] at h
  | succ fuel ih =>
      cases p with
      | none =>
          cases h
          rfl
      | some current =>
          unfold listClearLoop at h
          obtain ⟨node, hnode, h⟩ := Option.bind_eq_some_iff.mp h
          rw [if_pos hcustom] at h
          obtain ⟨m₁, h1, h⟩ := Option.bind_eq_some_iff.mp h
          obtain ⟨nodes, h2, h⟩ := Option.bind_eq_some_iff.mp h
          rw [ih h]
          exact freeNode_kept (p := some current) hnode (Store.SameUnder.refl _ _) h1 h2

theorem listClear_kept {c : ExitCode} (hcustom : list.customFree = true)
    (h : listClear m list = some (m', list', c)) :
    list'.customFree = list.customFree ∧ m'.kept = m.kept := by
  unfold listClear at h
  obtain ⟨m₁, h1, h⟩ := Option.bind_eq_some_iff.mp h
  cases h
  exact ⟨rfl, listClearLoop_kept hcustom h1⟩

/-! ### A list of occurrences

The data that are pushed to the new list are still in the old one.
-/

/-- A push only adds. -/
theorem Entered.le {data : Option α} {works : Prop} {c : ExitCode} (h : Entered m data works c m') :
    m.kept ≤ m'.kept := by
  cases h with
  | success d _ _ _ hkept => exact hkept ▸ Multiset.le_cons_self _ _
  | failure _ _ hkept => exact le_of_eq hkept.symm

theorem findAllLoop_le {searchData : Option α} {calloc : Nat → Bool} {rest : Nat}
    {newList : ListT α} {current : Ptr} {found : Option (ListT α)}
    (hcustom : newList.customFree = true)
    (h : findAllLoop list searchData calloc rest m newList current = some (m', found)) :
    m.kept ≤ m'.kept ∧ ∀ l, found = some l → l.customFree = true := by
  induction rest generalizing m newList current with
  | zero =>
      cases h
      refine ⟨le_rfl, ?_⟩
      intro l hl
      cases hl
      exact hcustom
  | succ rest ih =>
      unfold findAllLoop at h
      obtain ⟨node, -, h⟩ := Option.bind_eq_some_iff.mp h
      split at h
      · obtain ⟨⟨m₁, newList₁, c⟩, hpush, h⟩ := Option.bind_eq_some_iff.mp h
        obtain ⟨hentered, hcustom₁⟩ := listPushHead_pushed hpush
        rw [hcustom] at hcustom₁
        dsimp only at h
        split at h
        · obtain ⟨node', -, h⟩ := Option.bind_eq_some_iff.mp h
          obtain ⟨hle, hfound⟩ := ih hcustom₁ h
          exact ⟨hentered.le.trans hle, hfound⟩
        · obtain ⟨⟨m₂, _, _⟩, hclear, h⟩ := Option.bind_eq_some_iff.mp h
          cases h
          rw [(listClear_kept hcustom₁ hclear).2]
          exact ⟨hentered.le, nofun⟩
      · exact ih hcustom h

/-- Nothing is added just in case nothing is found. -/
theorem findAllLoop_kept_iff {searchData : Option α} {calloc : Nat → Bool} {rest : Nat}
    {newList : ListT α} {current : Ptr} {found : Option (ListT α)}
    (hcustom : newList.customFree = true)
    (h : findAllLoop list searchData calloc rest m newList current = some (m', found)) :
    m'.kept = m.kept ↔ FindsNothing list searchData calloc m.nodes rest current := by
  induction rest generalizing current with
  | zero =>
      cases h
      exact iff_of_true rfl trivial
  | succ rest ih =>
      unfold findAllLoop at h
      obtain ⟨node, hnode, h⟩ := Option.bind_eq_some_iff.mp h
      have hnothing : FindsNothing list searchData calloc m.nodes (rest + 1) current ↔
          if list.compareFunc searchData node.data = .equal then
            node.data = none ∨ calloc rest = false
          else FindsNothing list searchData calloc m.nodes rest node.next := by
        constructor
        · intro hf
          exact hf node hnode
        · intro hf node' hnode'
          cases hnode.symm.trans hnode'
          exact hf
      rw [hnothing]
      split at h
      · rename_i hequal
        rw [if_pos hequal]
        obtain ⟨⟨m₁, newList₁, c⟩, hpush, h⟩ := Option.bind_eq_some_iff.mp h
        obtain ⟨hentered, hcustom₁⟩ := listPushHead_pushed hpush
        rw [hcustom] at hcustom₁
        dsimp only at h
        cases hentered with
        | success d hdata hworks hc hkept =>
            rw [if_pos hc] at h
            obtain ⟨node', -, h⟩ := Option.bind_eq_some_iff.mp h
            have hle := (findAllLoop_le hcustom₁ h).1
            rw [hkept] at hle
            apply iff_of_false
            · intro heq
              rw [heq] at hle
              exact absurd hle (Multiset.lt_cons_self _ _).not_ge
            · intro hor
              rcases hor with hnone | hfalse
              · exact hworks.1 hnone
              · exact absurd (hfalse.symm.trans hworks.2) Bool.noConfusion
        | failure hnot hc hkept =>
            rw [if_neg hc] at h
            obtain ⟨⟨m₂, _, _⟩, hclear, h⟩ := Option.bind_eq_some_iff.mp h
            cases h
            apply iff_of_true
            · rw [(listClear_kept hcustom₁ hclear).2, hkept]
            · by_contra hor
              obtain ⟨hdata, hcalloc⟩ := not_or.mp hor
              exact hnot ⟨hdata, Bool.eq_true_of_not_eq_false hcalloc⟩
      · rename_i hequal
        rw [if_neg hequal]
        exact ih h

theorem listFindAllOccurrences_kept_iff {searchData : Option α} {new : Bool} {calloc : Nat → Bool}
    {found : Option (ListT α)} (hcustom : list.customFree = true)
    (h : listFindAllOccurrences m list searchData new calloc = some (m', found)) :
    (m'.kept = m.kept ↔ list.size = 0 ∨ new = false ∨
      FindsNothing list searchData calloc m.nodes list.size.toNat list.head) ∧
      ∀ l, found = some l → l.customFree = true := by
  unfold listFindAllOccurrences at h
  split at h
  · rename_i hsize
    cases h
    exact ⟨iff_of_true rfl (.inl hsize), nofun⟩
  · rename_i hsize
    cases new with
    | false =>
        cases h
        exact ⟨iff_of_true rfl (.inr (.inl rfl)), nofun⟩
    | true =>
        have hnew : (listNew list.customFree list.compareFunc).customFree = true := hcustom
        refine ⟨?_, (findAllLoop_le hnew h).2⟩
        rw [findAllLoop_kept_iff hnew h]
        simp [hsize]

/-! ### Where a call frees from

A removal frees the datum that a pop would return, if there is one; on an empty list it frees
NULL.
-/

/-- Handing on what a pop returned. -/
theorem PopsEnd.callFree_kept_iff {p : Ptr} {m₁ : ListMem α} {data : Option α}
    (h : PopsEnd m list p m₁ list' data) (hcall : callFree m₁ list' data = some m') :
    m'.kept = m.kept ↔ p ≠ none := by
  rw [(callFree_kept hcall).1]
  constructor
  · intro heq hp
    obtain ⟨rfl, rfl⟩ := h.null hp
    exact (Multiset.lt_cons_self _ _).ne' heq
  · exact h.node

theorem listRemoveHead_kept_iff {c : ExitCode} (h : listRemoveHead m list = some (m', list', c)) :
    list'.customFree = list.customFree ∧ (m'.kept = m.kept ↔ list.head ≠ none) := by
  unfold listRemoveHead at h
  obtain ⟨⟨m₁, list₁, data⟩, hpop, h⟩ := Option.bind_eq_some_iff.mp h
  obtain ⟨m₂, hcall, h⟩ := Option.bind_eq_some_iff.mp h
  cases h
  have hpops := listPopHead_popsEnd hpop
  exact ⟨hpops.customFree, hpops.callFree_kept_iff hcall⟩

theorem listRemoveTail_kept_iff {c : ExitCode} (h : listRemoveTail m list = some (m', list', c)) :
    list'.customFree = list.customFree ∧ (m'.kept = m.kept ↔ list.tail ≠ none) := by
  unfold listRemoveTail at h
  obtain ⟨⟨m₁, list₁, data⟩, hpop, h⟩ := Option.bind_eq_some_iff.mp h
  obtain ⟨m₂, hcall, h⟩ := Option.bind_eq_some_iff.mp h
  cases h
  have hpops := listPopTail_popsEnd hpop
  exact ⟨hpops.customFree, hpops.callFree_kept_iff hcall⟩

/-- The end that a pop by position comes to, if it comes to one. -/
def endAt (list : ListT α) (position : UInt32) : Ptr :=
  if position ≥ list.size then none
  else if position = 0 then list.head
  else list.tail

theorem listPopPosition_popsEnd {position : UInt32} {data : Option α}
    (hout : ¬ Inside list position)
    (h : listPopPosition m list position = some (m', list', data)) :
    PopsEnd m list (endAt list position) m' list' data := by
  unfold listPopPosition at h
  unfold endAt
  split at h
  · rename_i hge
    cases h
    rw [if_pos hge]
    exact ⟨rfl, fun _ => ⟨rfl, rfl⟩, fun hc => absurd rfl hc⟩
  · rename_i hlt
    rw [if_neg hlt]
    split at h
    · rename_i hzero
      rw [if_pos hzero]
      exact listPopHead_popsEnd h
    · rename_i hzero
      rw [if_neg hzero]
      split at h
      · exact listPopTail_popsEnd h
      · rename_i hlast
        exact absurd ⟨hlt, hzero, hlast⟩ hout

theorem listRemovePosition_kept_iff {position : UInt32} {c : ExitCode}
    (h : listRemovePosition m list position = some (m', list', c)) :
    list'.customFree = list.customFree ∧ (m'.kept = m.kept ↔ RemovesEnd list position) := by
  unfold listRemovePosition at h
  split at h
  · rename_i hge
    cases h
    exact ⟨rfl, iff_of_true rfl (.inl hge)⟩
  · rename_i hlt
    obtain ⟨⟨m₁, list₁, data⟩, hpop, h⟩ := Option.bind_eq_some_iff.mp h
    obtain ⟨m₂, hcall, h⟩ := Option.bind_eq_some_iff.mp h
    cases h
    unfold RemovesEnd
    by_cases hin : Inside list position
    · obtain ⟨hcustom, hkept, -⟩ := listPopPosition_inner hin hpop
      refine ⟨hcustom, ?_⟩
      rw [(callFree_kept hcall).1, hkept]
      apply iff_of_false
      · exact (Multiset.lt_cons_self _ _).ne'
      · intro hor
        rcases hor with hge | ⟨hzero, -⟩ | ⟨-, hlast, -⟩
        · exact hlt hge
        · exact hin.2.1 hzero
        · exact hin.2.2 hlast
    · have hpops := listPopPosition_popsEnd hin hpop
      refine ⟨hpops.customFree, ?_⟩
      rw [hpops.callFree_kept_iff hcall]
      unfold endAt
      rw [if_neg hlt]
      by_cases hzero : position = 0
      · rw [if_pos hzero]
        constructor
        · intro hhead
          exact .inr (.inl ⟨hzero, hhead⟩)
        · intro hor
          rcases hor with hge | ⟨-, hhead⟩ | ⟨hc, -⟩
          · exact absurd hge hlt
          · exact hhead
          · exact absurd hzero hc
      · have hlast : position = list.size - 1 := by
          by_contra hc
          exact hin ⟨hlt, hzero, hc⟩
        rw [if_neg hzero]
        constructor
        · intro htail
          exact .inr (.inr ⟨hzero, hlast, htail⟩)
        · intro hor
          rcases hor with hge | ⟨hc, -⟩ | ⟨-, -, htail⟩
          · exact absurd hge hlt
          · exact absurd hc hzero
          · exact htail

end CmakeTemplate
