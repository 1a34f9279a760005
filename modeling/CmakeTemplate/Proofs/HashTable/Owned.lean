/-
Who frees the data of a hash table.

A node takes its datum along from the `hash_table_add` that made it to the `free` that ends
it, and `customfree` is called on the datum then.  So the data in the nodes and the data that
have been freed make up what was added, each as often as it was added, whatever is linked to
what.

What has been freed and the entries make up what was added too, since a call frees what it
takes out of the entries.  So there are no nodes but those of the entries, however the keys
collide, and `hash_table_clear` leaves none.  The first balance is kept over the store alone,
and the second over the entries alone; neither looks at a chain.
-/
import CmakeTemplate.Proofs.HashTable.Refines
import CmakeTemplate.Lib.Live
import Mathlib.Algebra.Order.Group.Multiset

namespace CmakeTemplate

open Lib

variable {α : Type} {z : TableSize} {t t' : HashTable α z} {es : List (CString × α)}

namespace HashTable

/-- The data in the nodes that are there. -/
def stored (t : HashTable α z) : Multiset α := t.nodes.live.map fun c => c.data.data

/-- With the data that has been freed. -/
def held (t : HashTable α z) : Multiset α := t.stored + ↑t.freed

end HashTable

/-- The data that the calls of a run put in. -/
def addedData (ops : List (HashOp α)) : List α :=
  ops.filterMap fun
    | .add _ data true => some data
    | _ => none

/-! ### The nodes

A call allocates one node at most, frees some, and writes no datum.
-/

/-- The nodes hold the same data. -/
abbrev SameNodeData (s s' : Store (SCell (HashNode α))) : Prop :=
  Store.SameUnder (fun c => c.data.data) s s'

theorem sameNodeData_of_assign {s s' : Store (SCell (HashNode α))} {p next : Ptr}
    (h : s.assign p (fun c => { c with next }) = some s') : SameNodeData s s' := by
  refine .assign ?_ h
  intro c
  rfl

theorem held_of_same (hnodes : SameNodeData t.nodes t'.nodes) (hfreed : t'.freed = t.freed) :
    t'.held = t.held := by
  unfold HashTable.held HashTable.stored
  rw [hnodes.live, hfreed]

/-- A node is freed with its datum. -/
theorem held_free {a : Nat} {c : SCell (HashNode α)} (hc : t.nodes.get a = some c)
    (h : t.nodes.free (some a) = some t'.nodes) (hfreed : t'.freed = t.freed ++ [c.data.data]) :
    t'.held = t.held := by
  unfold HashTable.held HashTable.stored
  rw [← Store.live_free (p := some a) hc h, hfreed, Multiset.map_cons, ← Multiset.coe_add,
    Multiset.coe_singleton, ← Multiset.singleton_add]
  ac_rfl

theorem removeLoop_held {key : CString} {fuel : Nat} {prevNode p : Ptr} {c : ExitCode}
    (h : removeLoop t key fuel prevNode p = some (c, t')) : t'.held = t.held := by
  induction fuel generalizing prevNode p with
  | zero =>
      cases p with
      | none =>
          cases h
          rfl
      | some a => simp [removeLoop] at h
  | succ fuel ih =>
      cases p with
      | none =>
          cases h
          rfl
      | some a =>
          rw [removeLoop] at h
          obtain ⟨node, hnode, h⟩ := Option.bind_eq_some_iff.mp h
          split at h
          · exact ih h
          · dsimp only at h
            cases prevNode with
            | none =>
                obtain ⟨t₁, ht₁, h⟩ := Option.bind_eq_some_iff.mp h
                obtain ⟨nodes, hfree, h⟩ := Option.bind_eq_some_iff.mp h
                cases ht₁
                cases h
                exact held_free hnode hfree rfl
            | some prev =>
                obtain ⟨t₁, ht₁, h⟩ := Option.bind_eq_some_iff.mp h
                obtain ⟨nodes₁, hassign, rfl⟩ := Option.map_eq_some_iff.mp ht₁
                obtain ⟨nodes, hfree, h⟩ := Option.bind_eq_some_iff.mp h
                cases h
                have hunlinked := sameNodeData_of_assign hassign
                obtain ⟨node₁, hnode₁, hdata⟩ := hunlinked.of_get hnode
                have hfreed : ({ t with nodes := nodes₁ } : HashTable α z).held = t.held :=
                  held_of_same hunlinked rfl
                rw [← hfreed, ← hdata]
                exact held_free hnode₁ hfree rfl

theorem clearChain_held {fuel : Nat} {p : Ptr} (h : clearChain t fuel p = some t') :
    t'.held = t.held := by
  induction fuel generalizing t p with
  | zero =>
      cases p with
      | none =>
          cases h
          rfl
      | some a => simp [clearChain] at h
  | succ fuel ih =>
      cases p with
      | none =>
          cases h
          rfl
      | some a =>
          rw [clearChain] at h
          obtain ⟨node, hnode, h⟩ := Option.bind_eq_some_iff.mp h
          obtain ⟨nodes, hfree, h⟩ := Option.bind_eq_some_iff.mp h
          exact (ih h).trans (held_free hnode hfree rfl)

theorem clearTable_held {idxs : List (Fin z.1.toNat)} (h : clearTable t idxs = some t') :
    t'.held = t.held := by
  induction idxs generalizing t with
  | nil =>
      cases h
      rfl
  | cons idx idxs ih =>
      obtain ⟨t₁, ht₁, h⟩ := Option.bind_eq_some_iff.mp h
      have hchain : t₁.held = t.held := clearChain_held ht₁
      exact (ih h).trans hchain

/-- A new node comes with its datum. -/
theorem hashTableAdd_held {data : α} {key : CString} {c : ExitCode}
    (h : hashTableAdd t (some data) (some key) true = some (c, t')) :
    t'.held = t.held + {data} := by
  have halloc : ∀ {nodes} table,
      SameNodeData (t.nodes.alloc ⟨⟨key.take maxKeySize, data⟩, none⟩).1 nodes →
      ({ t with nodes, table } : HashTable α z).held = t.held + {data} := by
    intro nodes table hnodes
    unfold HashTable.held HashTable.stored
    rw [hnodes.live, Store.live_alloc, Multiset.map_cons, ← Multiset.singleton_add]
    ac_rfl
  simp only [hashTableAdd] at h
  rw [if_pos trivial] at h
  split at h
  · cases h
    exact halloc _ (.refl _ _)
  · obtain ⟨last, -, h⟩ := Option.bind_eq_some_iff.mp h
    obtain ⟨nodes, hassign, h⟩ := Option.bind_eq_some_iff.mp h
    cases h
    exact halloc _ (sameNodeData_of_assign hassign)

theorem hashExec_held {op : HashOp α} (h : hashExec t op = some t') :
    t'.held = t.held + ↑(addedData [op]) := by
  have hsame : t'.held = t.held → t'.held = t.held + (↑([] : List α) : Multiset α) := by
    intro he
    rw [he, Multiset.coe_nil, add_zero]
  cases op with
  | add key data calloc =>
      obtain ⟨⟨c, t₁⟩, hadd, rfl⟩ := Option.map_eq_some_iff.mp h
      cases calloc with
      | true => exact hashTableAdd_held hadd
      | false =>
          cases hadd
          exact hsame rfl
  | remove key =>
      obtain ⟨⟨c, t₁⟩, hremove, rfl⟩ := Option.map_eq_some_iff.mp h
      exact hsame (removeLoop_held hremove)
  | lookup key =>
      obtain ⟨d, -, rfl⟩ := Option.map_eq_some_iff.mp h
      exact hsame rfl
  | clear =>
      obtain ⟨⟨c, t₁⟩, hclear, rfl⟩ := Option.map_eq_some_iff.mp h
      obtain ⟨t₂, htable, hpair⟩ := Option.map_eq_some_iff.mp hclear
      cases hpair
      exact hsame (clearTable_held htable)

theorem addedData_cons (op : HashOp α) (ops : List (HashOp α)) :
    addedData (op :: ops) = addedData [op] ++ addedData ops := by
  rw [← List.singleton_append, addedData, List.filterMap_append]
  rfl

theorem hashRun_held {ops : List (HashOp α)} (h : hashRun t ops = some t') :
    t'.held = t.held + ↑(addedData ops) := by
  induction ops generalizing t with
  | nil =>
      cases h
      exact (add_zero _).symm
  | cons op ops ih =>
      obtain ⟨t₁, ht₁, h⟩ := Option.bind_eq_some_iff.mp h
      rw [ih h, hashExec_held ht₁, addedData_cons op ops, ← Multiset.coe_add, add_assoc]

/-! ### The entries

The entry that is found is the entry that is removed.
-/

/-- The data of the entries, with the data that has been freed. -/
def owned (es : List (CString × α)) (freed : List α) : Multiset α :=
  ↑(es.map Prod.snd) + ↑freed

/-- What is removed is what was found. -/
theorem find?_eraseP_perm {β : Type} (p : β → Bool) (xs : List β) :
    ((xs.find? p).toList ++ xs.eraseP p).Perm xs := by
  induction xs with
  | nil => exact .nil
  | cons x xs ih =>
      by_cases hx : p x = true
      · rw [List.find?_cons_of_pos hx, List.eraseP_cons_of_pos hx]
        exact .refl _
      · rw [List.find?_cons_of_neg hx, List.eraseP_cons_of_neg hx]
        exact List.perm_middle.trans (ih.cons x)

theorem hashExec_owned (h : Holds t es) {op : HashOp α} (hs : hashExec t op = some t') :
    Holds t' (entriesExec (Meets z) es op) ∧
      owned (entriesExec (Meets z) es op) t'.freed = owned es t.freed + ↑(addedData [op]) := by
  have hsame : ∀ {m : Multiset α}, m = m + (↑([] : List α) : Multiset α) := by
    intro m
    rw [Multiset.coe_nil, add_zero]
  cases op with
  | add key data calloc =>
      cases calloc with
      | true =>
          obtain ⟨t₁, ht₁, hfreed, h₁⟩ := h.add data key
          obtain rfl : t₁ = t' := by simpa [hashExec, ht₁] using hs
          refine ⟨h₁, ?_⟩
          show owned (es ++ [(key, data)]) _ = _ + ↑[data]
          rw [owned, owned, hfreed, List.map_append, ← Multiset.coe_add]
          exact add_right_comm _ _ _
      | false =>
          cases hs
          exact ⟨h, hsame⟩
  | remove key =>
      obtain ⟨t₁, ht₁, hfreed, h₁⟩ := h.remove key
      obtain rfl : t₁ = t' := by simpa [hashExec, ht₁] using hs
      refine ⟨h₁, ?_⟩
      have hperm := (find?_eraseP_perm (Meets z key) es).map Prod.snd
      rw [List.map_append, ← Option.toList_map] at hperm
      show owned (es.eraseP (Meets z key)) _ = _ + ↑([] : List α)
      rw [← hsame, owned, owned, hfreed, ← Multiset.coe_add, ← Multiset.coe_eq_coe.mpr hperm,
        ← Multiset.coe_add]
      ac_rfl
  | lookup key =>
      obtain ⟨d, -, rfl⟩ := Option.map_eq_some_iff.mp hs
      exact ⟨h, hsame⟩
  | clear =>
      obtain ⟨t₁, l, ht₁, hfreed, hl, h₁⟩ := h.clear
      obtain rfl : t₁ = t' := by simpa [hashExec, ht₁] using hs
      refine ⟨h₁, ?_⟩
      show owned ([] : List (CString × α)) _ = _ + ↑([] : List α)
      rw [← hsame, owned, owned, hfreed, ← Multiset.coe_add, Multiset.coe_eq_coe.mpr hl, List.map_nil,
        Multiset.coe_nil, zero_add, add_comm]

theorem hashRun_owned (h : Holds t es) {ops : List (HashOp α)} (hs : hashRun t ops = some t') :
    owned (entriesRun (Meets z) es ops) t'.freed = owned es t.freed + ↑(addedData ops) := by
  induction ops generalizing t es with
  | nil =>
      cases hs
      exact (add_zero _).symm
  | cons op ops ih =>
      obtain ⟨t₁, ht₁, hs⟩ := Option.bind_eq_some_iff.mp hs
      obtain ⟨h₁, howned⟩ := hashExec_owned h ht₁
      show owned (entriesRun (Meets z) (entriesExec (Meets z) es op) ops) _ = _
      rw [ih h₁ hs, howned, addedData_cons op ops, ← Multiset.coe_add, add_assoc]

/-! ### Every run

The two balances, put together.
-/

/-- A table has the nodes of its entries and no others. -/
theorem stored_eq {ops : List (HashOp α)} (hs : hashRun (hashTableInit z) ops = some t) :
    t.stored = ↑((entriesRun (Meets z) [] ops).map Prod.snd) := by
  have hheld := hashRun_held hs
  have howned := hashRun_owned Holds.init hs
  have hstart : (hashTableInit z : HashTable α z).held = owned [] (hashTableInit z).freed := rfl
  exact add_right_cancel (hheld.trans ((congrArg (· + _) hstart).trans howned.symm))

/-- Whatever is called on a table, and however the keys collide, the data that was added is in the
nodes or has been freed, each as often as it was added; the nodes are those of the entries, and
`hash_table_clear` frees what is left and leaves no node. -/
theorem hashTable_owns (z : TableSize) (ops : List (HashOp α)) :
    ∃ t : HashTable α z, hashRun (hashTableInit z) ops = some t ∧
      t.stored + ↑t.freed = (↑(addedData ops) : Multiset α) ∧
      t.stored = ↑((entriesRun (Meets z) [] ops).map Prod.snd) ∧
      ∃ t', hashTableClear t = some (.success, t') ∧ t'.nodes.live = 0 ∧
        t'.freed.Perm (addedData ops) := by
  obtain ⟨t, ht, h⟩ := hashRun_refines (Holds.init (α := α) (z := z)) ops
  have hheld : t.held = ↑(addedData ops) := (hashRun_held ht).trans (zero_add _)
  refine ⟨t, ht, hheld, stored_eq ht, ?_⟩
  obtain ⟨t', l, hclear, hfreed, hl, -⟩ := h.clear
  have hstored : t.stored = ↑l := (stored_eq ht).trans (Multiset.coe_eq_coe.mpr hl.symm)
  have hheld' : t'.held = t.held := by
    obtain ⟨t₁, htable, hpair⟩ := Option.map_eq_some_iff.mp hclear
    cases hpair
    exact clearTable_held htable
  have hall : t.held = ↑t'.freed := by
    rw [HashTable.held, hstored, hfreed, ← Multiset.coe_add, add_comm]
  have hnone : t'.stored = 0 := add_eq_right.mp (hheld'.trans hall)
  exact ⟨t', hclear, Multiset.map_eq_zero.mp hnone, Multiset.coe_eq_coe.mp (hall.symm.trans hheld)⟩

end CmakeTemplate
