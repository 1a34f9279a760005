/-
What the operations of the hash table do to its chains.

`TableRep t bs` says that the chain at index `i` is `bs i`, and that no node is on two chains.
An operation on a key changes the chain at one index: `TableRep.set` carries the other chains
over, from what the operation leaves of the store outside the nodes of that chain and the new
ones.

The loops go along one chain and are followed by induction on it, with a fuel that is enough
as a chain is no longer than the number of addresses handed out.  What an operation finds is
stated by the comparison of the source, on the keys as the nodes keep them; what that means
for the keys of the callers is another matter.
-/
import CmakeTemplate.HashTable

namespace CmakeTemplate

open Lib

variable {α : Type} {z : TableSize} {t : HashTable α z}
  {bs : Fin z.1.toNat → List (Nat × HashNode α)}

/-- The chains of a table. -/
structure TableRep (t : HashTable α z) (bs : Fin z.1.toNat → List (Nat × HashNode α)) : Prop where
  /-- Each index has its chain. -/
  chain : ∀ i, Chain t.nodes (t.table i) (bs i) none
  /-- Different chains have no node in common. -/
  apart : ∀ i j, i ≠ j → ∀ a ∈ (bs i).map Prod.fst, a ∉ (bs j).map Prod.fst

/-- The comparison of `hash_table_lookup` and `hash_table_remove`. -/
def SameKey (key : CString) (e : HashNode α) : Bool :=
  strncmp e.key.chars key.chars maxLength = 0

theorem hashTableInit_rep : TableRep (hashTableInit z : HashTable α z) fun _ => [] :=
  ⟨fun _ => rfl, fun _ _ _ _ ha => absurd ha (by simp)⟩

/-- One chain is replaced, by old nodes of its own and new ones. -/
theorem TableRep.set (h : TableRep t bs) {t' : HashTable α z} {b : Fin z.1.toNat}
    {ns : List (Nat × HashNode α)} (hb : Chain t'.nodes (t'.table b) ns none)
    (htable : ∀ i, i ≠ b → t'.table i = t.table i)
    (hnodes : ∀ a, a < t.nodes.next → a ∉ (bs b).map Prod.fst → t'.nodes.get a = t.nodes.get a)
    (hns : ∀ a ∈ ns.map Prod.fst, a ∈ (bs b).map Prod.fst ∨ t.nodes.next ≤ a) :
    TableRep t' (Function.update bs b ns) := by
  have hother : ∀ i, i ≠ b → ∀ a ∈ (bs i).map Prod.fst, a ∉ ns.map Prod.fst := by
    intro i hi a ha hc
    rcases hns a hc with hold | hnew
    · exact h.apart i b hi a ha hold
    · exact Nat.not_lt.mpr hnew ((h.chain i).lt_next a ha)
  constructor
  · intro i
    by_cases hi : i = b
    · subst hi
      rwa [Function.update_self]
    · rw [Function.update_of_ne hi, htable i hi]
      refine (h.chain i).congr fun n hn => (hnodes n.1 ?_ ?_).symm
      · exact (h.chain i).lt_next n.1 (List.mem_map_of_mem hn)
      · exact h.apart i b hi n.1 (List.mem_map_of_mem hn)
  · intro i j hij a ha
    by_cases hi : i = b
    · subst hi
      rw [Function.update_self] at ha
      rw [Function.update_of_ne hij.symm]
      exact fun hc => hother j hij.symm a hc ha
    · rw [Function.update_of_ne hi] at ha
      by_cases hj : j = b
      · subst hj
        rw [Function.update_self]
        exact hother i hi a ha
      · rw [Function.update_of_ne hj]
        exact h.apart i j hij a ha

/-! ### Adding

The loop finds the last node, which need not be there.
-/

theorem lastNode_spec {nodes : Store (SCell (HashNode α))} {xs : List (Nat × HashNode α)}
    {l : Nat × HashNode α} {a fuel : Nat} (h : Chain nodes (some a) (xs ++ [l]) none)
    (hfuel : xs.length < fuel) : lastNode nodes fuel a = some l.1 := by
  induction xs generalizing a fuel with
  | nil =>
      obtain ⟨fuel, rfl⟩ := Nat.exists_eq_succ_of_ne_zero (Nat.ne_of_gt hfuel)
      obtain ⟨ha, m, hm, rfl⟩ := h
      obtain rfl := Option.some.inj ha
      simp [lastNode, hm]
  | cons n xs ih =>
      obtain ⟨fuel, rfl⟩ := Nat.exists_eq_succ_of_ne_zero (Nat.ne_of_gt (Nat.zero_lt_of_lt hfuel))
      obtain ⟨ha, m, hm, hrest⟩ := h
      obtain rfl := Option.some.inj ha
      cases m with
      | none => exact absurd hrest.null.1 (by simp)
      | some b => simpa [lastNode, hm] using ih hrest (Nat.lt_of_succ_lt_succ hfuel)

/-- A node is added behind the others on its chain. -/
theorem hashTableAdd_spec (h : TableRep t bs) (data : α) (key : CString) :
    ∃ t', hashTableAdd t (some data) (some key) true = some (.success, t') ∧
      t'.freed = t.freed ∧ ∃ n, TableRep t' (Function.update bs (bucket z key)
        (bs (bucket z key) ++ [(n, ⟨key.take maxKeySize, data⟩)])) := by
  have hchain := h.chain (bucket z key)
  have hnew : ∀ {ns : List (Nat × HashNode α)} {e}, ∀ a ∈ (ns ++ [(t.nodes.next, e)]).map Prod.fst,
      a ∈ ns.map Prod.fst ∨ t.nodes.next ≤ a := by
    intro ns e a ha
    rw [List.map_append, List.mem_append] at ha
    exact ha.imp id fun ha => (List.mem_singleton.mp ha).ge
  cases hp : t.table (bucket z key) with
  | none =>
      rw [hp] at hchain
      refine ⟨{ t with
        nodes := (t.nodes.alloc ⟨⟨key.take maxKeySize, data⟩, none⟩).1
        table := Function.update t.table (bucket z key) (some t.nodes.next) }, ?_, rfl,
        t.nodes.next, h.set ?_ ?_ ?_ hnew⟩
      · simp [hashTableAdd, hp]
      · rw [hchain.null.1]
        exact ⟨Function.update_self .., none, Store.get_alloc_self _ _, rfl⟩
      · exact fun i hi => Function.update_of_ne hi _ _
      · exact fun a ha _ => Store.get_alloc_ne _ _ (Nat.ne_of_lt ha)
  | some a =>
      rw [hp] at hchain
      rcases List.eq_nil_or_concat (bs (bucket z key)) with hnil | ⟨xs, l, hbs⟩
      · rw [hnil] at hchain
        simp [Chain] at hchain
      · rw [List.concat_eq_append] at hbs
        rw [hbs] at hchain
        have halloc := hchain.alloc (⟨⟨key.take maxKeySize, data⟩, none⟩ : SCell (HashNode α))
        have hlen := hchain.length_le
        have hlast : lastNode _ (chainFuel (t.nodes.alloc ⟨⟨key.take maxKeySize, data⟩, none⟩).1) a
            = some l.1 := lastNode_spec halloc (by
          simp only [List.length_append, List.length_singleton] at hlen
          simp only [chainFuel, Store.next_alloc]
          omega)
        obtain ⟨m, hl⟩ := halloc.live l (by simp)
        refine ⟨{ t with
          nodes := (t.nodes.alloc ⟨⟨key.take maxKeySize, data⟩, none⟩).1.upd l.1
            fun c => { c with next := some t.nodes.next } }, ?_, rfl, t.nodes.next,
          h.set ?_ (fun _ _ => rfl) ?_ hnew⟩
        · simp [hashTableAdd, hp, hlast, Store.assign_live _ hl]
        · rw [hbs]
          show Chain _ (t.table (bucket z key)) _ none
          rw [hp]
          exact halloc.snoc (Store.get_alloc_self _ _)
            fun hc => Nat.lt_irrefl _ (hchain.lt_next _ hc)
        · intro b hb hout
          have hbl : b ≠ l.1 := fun hc => hout (by rw [hbs]; simp [hc])
          exact (Store.get_upd_ne _ _ hbl).trans (Store.get_alloc_ne _ _ (Nat.ne_of_lt hb))

/-! ### Looking up

The first node whose key compares equal.
-/

theorem lookupLoop_spec {nodes : Store (SCell (HashNode α))} {key : CString} {p : Ptr}
    {ns : List (Nat × HashNode α)} {fuel : Nat} (h : Chain nodes p ns none)
    (hfuel : ns.length ≤ fuel) :
    lookupLoop nodes key fuel p =
      some (((ns.map Prod.snd).find? (SameKey key)).map HashNode.data) := by
  induction ns generalizing p fuel with
  | nil =>
      obtain rfl : p = none := h
      cases fuel <;> rfl
  | cons n ns ih =>
      obtain ⟨rfl, m, hn, hrest⟩ := h
      obtain ⟨fuel, rfl⟩ := Nat.exists_eq_succ_of_ne_zero (Nat.ne_of_gt (Nat.zero_lt_of_lt hfuel))
      by_cases hkey : strncmp n.2.key.chars key.chars maxLength = 0
      · simp [lookupLoop, hn, SameKey, hkey]
      · simp [lookupLoop, hn, SameKey, hkey, ih hrest (Nat.le_of_succ_le_succ hfuel)]

theorem hashTableLookup_spec (h : TableRep t bs) (key : CString) :
    hashTableLookup t (some key) =
      some ((((bs (bucket z key)).map Prod.snd).find? (SameKey key)).map HashNode.data) :=
  lookupLoop_spec (h.chain _) (Nat.le_succ_of_le (h.chain _).length_le)

/-! ### Removing

The node is unlinked from the one in front of it, or from the array.
-/

/-- The loop passes over the nodes with other keys. -/
theorem removeLoop_skip {key : CString} {p q prev : Ptr} {xs : List (Nat × HashNode α)}
    (h : Chain t.nodes p xs q) (hno : ∀ n ∈ xs, SameKey key n.2 = false) (fuel : Nat) :
    removeLoop t key (xs.length + fuel) prev p =
      removeLoop t key fuel ((xs.getLast?.map Prod.fst).or prev) q := by
  induction xs generalizing p prev with
  | nil =>
      obtain rfl : p = q := h
      simp
  | cons n xs ih =>
      obtain ⟨rfl, m, hn, hrest⟩ := h
      have hkey : strncmp n.2.key.chars key.chars maxLength ≠ 0 := by
        simpa [SameKey] using hno n (by simp)
      have hlast : ((n :: xs).getLast?.map Prod.fst).or prev
          = (xs.getLast?.map Prod.fst).or (some n.1) := by
        cases xs with
        | nil => rfl
        | cons y ys => simp [List.getLast?_cons]
      rw [List.length_cons, Nat.add_right_comm, hlast, ← ih hrest fun x hx => hno x (by simp [hx])]
      simp [removeLoop, hn, hkey]

theorem hashTableRemove_missing (h : TableRep t bs) (key : CString)
    (hno : ∀ n ∈ bs (bucket z key), SameKey key n.2 = false) :
    hashTableRemove t (some key) = some (.failure, t) := by
  have hchain := h.chain (bucket z key)
  obtain ⟨k, hk⟩ : ∃ k, t.nodes.next + 1 = (bs (bucket z key)).length + k :=
    Nat.exists_eq_add_of_le (Nat.le_succ_of_le hchain.length_le)
  show removeLoop t key (t.nodes.next + 1) none _ = _
  rw [hk, removeLoop_skip hchain hno]
  cases k <;> rfl

/-- The first node with the key goes, with its data. -/
theorem hashTableRemove_spec (h : TableRep t bs) (key : CString) {xs ys : List (Nat × HashNode α)}
    {n : Nat × HashNode α} (hbs : bs (bucket z key) = xs ++ n :: ys)
    (hno : ∀ m ∈ xs, SameKey key m.2 = false) (hn : SameKey key n.2 = true) :
    ∃ t', hashTableRemove t (some key) = some (.success, t') ∧ t'.freed = t.freed ++ [n.2.data] ∧
      TableRep t' (Function.update bs (bucket z key) (xs ++ ys)) := by
  have hchain := h.chain (bucket z key)
  rw [hbs] at hchain
  obtain ⟨q, hxs, hq⟩ := Chain.append.mp hchain
  obtain ⟨rfl, m, hget, hys⟩ := id hq
  have hkey : strncmp n.2.key.chars key.chars maxLength = 0 := by simpa [SameKey] using hn
  obtain ⟨k, hk⟩ : ∃ k, t.nodes.next + 1 = xs.length + (k + 1) := by
    have hlen := hchain.length_le
    rw [List.length_append, List.length_cons] at hlen
    exact ⟨t.nodes.next - xs.length, by omega⟩
  have hsub : ∀ a ∈ (xs ++ ys).map Prod.fst,
      a ∈ (bs (bucket z key)).map Prod.fst ∨ t.nodes.next ≤ a := by
    intro a ha
    refine .inl ?_
    rw [hbs]
    simp only [List.map_append, List.map_cons, List.mem_append, List.mem_cons] at ha ⊢
    exact ha.imp id .inr
  have hout : ∀ {a}, a ∉ (bs (bucket z key)).map Prod.fst → a ≠ n.1 :=
    fun ha hc => ha (by rw [hbs]; simp [hc])
  have hskip : hashTableRemove t (some key) =
      removeLoop t key (k + 1) ((xs.getLast?.map Prod.fst).or none) (some n.1) := by
    show removeLoop t key (t.nodes.next + 1) none _ = _
    rw [hk, removeLoop_skip hxs hno]
  rcases List.eq_nil_or_concat xs with rfl | ⟨xs, l, rfl⟩
  · -- the head of the chain
    refine ⟨{ t with
      table := Function.update t.table (bucket z key) m
      nodes := t.nodes.drop n.1
      freed := t.freed ++ [n.2.data] }, ?_, rfl, h.set ?_ ?_ ?_ hsub⟩
    · rw [hskip]
      simp [removeLoop, hget, hkey, Store.free_live hget]
    · obtain ⟨m', hget', hrest⟩ := hchain.tail_drop
      obtain rfl : m = m' := by simpa [hget] using hget'
      show Chain _ (Function.update t.table (bucket z key) m (bucket z key)) _ _
      rw [Function.update_self]
      exact hrest
    · exact fun i hi => Function.update_of_ne hi _ _
    · exact fun a _ ha => Store.get_drop_ne _ (hout ha)
  · -- behind the node `l`
    rw [List.concat_eq_append] at *
    rw [List.append_assoc] at hchain
    obtain ⟨m', hget', hln, hrest⟩ := hchain.unlink
    obtain rfl : m = m' := by simpa [hget] using hget'
    obtain ⟨r, hl⟩ := hchain.live l (by simp)
    have hfree : (t.nodes.upd l.1 fun c => { c with next := m }).get n.1 = some ⟨n.2, m⟩ := by
      rw [Store.get_upd_ne _ _ hln.symm, hget]
    refine ⟨{ t with
      nodes := (t.nodes.upd l.1 fun c => { c with next := m }).drop n.1
      freed := t.freed ++ [n.2.data] }, ?_, rfl, h.set ?_ (fun _ _ => rfl) ?_ hsub⟩
    · rw [hskip]
      simp [removeLoop, hget, hkey, Store.assign_live _ hl, Store.free_live hfree]
    · rw [List.append_assoc]
      exact hrest
    · intro a _ ha
      rw [Store.get_drop_ne _ (hout ha), Store.get_upd_ne _ _ fun hc => ha (by rw [hbs]; simp [hc])]

/-! ### Clearing

The chains are freed index by index, and the array is left with NULLs.
-/

/-- A chain that is freed node by node. -/
theorem clearChain_spec {p : Ptr} {ns : List (Nat × HashNode α)} {fuel : Nat}
    (h : Chain t.nodes p ns none) (hfuel : ns.length ≤ fuel) :
    ∃ t', clearChain t fuel p = some t' ∧ t'.table = t.table ∧
      t'.freed = t.freed ++ ns.map (fun n => n.2.data) ∧
      t.nodes.SameOff t'.nodes (ns.map Prod.fst) := by
  induction ns generalizing t p fuel with
  | nil =>
      obtain rfl : p = none := h
      exact ⟨t, by cases fuel <;> rfl, rfl, by simp, .refl _ _⟩
  | cons n ns ih =>
      obtain ⟨fuel, rfl⟩ := Nat.exists_eq_succ_of_ne_zero (Nat.ne_of_gt (Nat.zero_lt_of_lt hfuel))
      obtain ⟨rfl, -⟩ := id h
      obtain ⟨m, hget, hrest⟩ := h.tail_drop
      obtain ⟨t', ht', htable, hfreed, hsame⟩ :=
        ih (t := { t with nodes := t.nodes.drop n.1, freed := t.freed ++ [n.2.data] }) hrest
          (Nat.le_of_succ_le_succ hfuel)
      refine ⟨t', ?_, htable, by simp [hfreed], hsame.next, fun a ha => ?_⟩
      · simp [clearChain, hget, Store.free_live hget, ht']
      · rw [hsame.get a fun hc => ha (by simp [hc]), Store.get_drop_ne _ fun hc => ha (by simp [hc])]

/-- The chains at some of the indices are emptied, one after the other. -/
theorem clearTable_spec {is : List (Fin z.1.toNat)} (h : TableRep t bs) (hnd : is.Nodup) :
    ∃ t', clearTable t is = some t' ∧ TableRep t' (fun i => if i ∈ is then [] else bs i) ∧
      t'.freed = t.freed ++ is.flatMap fun i => (bs i).map fun n => n.2.data := by
  induction is generalizing t bs with
  | nil => exact ⟨t, rfl, by simpa using h, by simp⟩
  | cons i is ih =>
      obtain ⟨hi, hnd⟩ := List.nodup_cons.mp hnd
      obtain ⟨t₁, ht₁, htable, hfreed, hsame⟩ :=
        clearChain_spec (h.chain i) (Nat.le_succ_of_le (h.chain i).length_le)
      have hrep : TableRep { t₁ with table := Function.update t₁.table i none }
          (Function.update bs i []) := by
        refine h.set (Function.update_self ..) ?_ ?_ ?_
        · intro j hj
          show Function.update t₁.table i none j = _
          rw [Function.update_of_ne hj, htable]
        · exact fun a _ ha => hsame.get a ha
        · exact fun a ha => absurd ha (by simp)
      obtain ⟨t₂, ht₂, hrep₂, hfreed₂⟩ := ih hrep hnd
      refine ⟨t₂, by simp [clearTable, chainFuel, ht₁, ht₂], ?_, ?_⟩
      · convert hrep₂ using 2 with j
        by_cases hj : j = i
        · subst hj
          simp
        · simp [hj]
      · have hrest : is.flatMap (fun j => (Function.update bs i [] j).map fun n => n.2.data)
            = is.flatMap fun j => (bs j).map fun n => n.2.data := by
          refine List.flatMap_congr fun j hj => ?_
          rw [Function.update_of_ne fun hc : j = i => hi (hc ▸ hj)]
        rw [hfreed₂, hrest, List.flatMap_cons, ← List.append_assoc, ← hfreed]

theorem hashTableClear_spec (h : TableRep t bs) :
    ∃ t', hashTableClear t = some (.success, t') ∧ TableRep t' (fun _ => []) ∧
      t'.freed = t.freed ++
        (List.finRange z.1.toNat).flatMap fun i => (bs i).map fun n => n.2.data := by
  obtain ⟨t', ht', hrep, hfreed⟩ := clearTable_spec h (List.nodup_finRange _)
  exact ⟨t', by simp [hashTableClear, ht'], by simpa using hrep, hfreed⟩

end CmakeTemplate
