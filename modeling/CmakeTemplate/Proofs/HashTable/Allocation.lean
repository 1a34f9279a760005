/-
Where the hash table reports that an allocation has failed.

It does so nowhere but for the table itself: each of the other allocations is either checked
with an exit code that says success, or not checked.  An addition without memory for its node
or its key returns E_SUCCESS and appends nothing.  A listing without memory for its array
returns E_SUCCESS and NULL where there is nothing to list, and stores through NULL where there
is.  A table whose array could not be allocated is returned as a table.

Each of the four functions is held to what it owes on its own, and the condition for it is
exact: it is one on the outcomes of its allocations.  With all allocations succeeding the
functions are those of the table without allocations, so what is known of these carries over.
-/
import CmakeTemplate.HashAllocation
import CmakeTemplate.Proofs.HashTable.Reported

namespace CmakeTemplate

open Lib

variable {α : Type} {z : TableSize} {t : HashTable α z} {es : List (CString × α)}
  {bs : Fin z.1.toNat → List (Nat × HashNode α)}

/-! ### Adding

An entry that was appended is the last on its chain, so a chain that has not changed lacks it.
-/

theorem chainNodes_eq {nodes : Store (SCell (HashNode α))} {ns : List (Nat × HashNode α)} {p : Ptr}
    {fuel : Nat} (h : Chain nodes p ns none) (hfuel : ns.length < fuel) :
    chainNodes nodes fuel p = ns.map Prod.snd := by
  induction ns generalizing p fuel with
  | nil =>
      obtain rfl : p = none := h
      cases fuel <;> rfl
  | cons n ns ih =>
      obtain ⟨rfl, m, hn, hrest⟩ := h
      cases fuel with
      | zero => simp at hfuel
      | succ fuel => simp [chainNodes, hn, ih hrest (Nat.lt_of_succ_lt_succ hfuel)]

theorem TableRep.bucketChain_eq (h : TableRep t bs) (i : Fin z.1.toNat) :
    bucketChain t i = (bs i).map Prod.snd :=
  chainNodes_eq (h.chain i) (Nat.lt_succ_of_le (h.chain i).length_le)

/-- An entry is not appended by doing nothing. -/
theorem not_entryAppended_self (t : HashTable α z) (data : α) (key : CString) :
    ¬ EntryAppended t t data key := by
  intro h
  have hlen := congrArg List.length h.own
  rw [List.length_append, List.length_singleton] at hlen
  omega

theorem entryAppended_of_add (h : TableRep t bs) (data : α) (key : CString) :
    ∃ t', hashTableAdd t (some data) (some key) true = some (.success, t') ∧
      EntryAppended t t' data key := by
  obtain ⟨t', hrun, -, n, hrep⟩ := hashTableAdd_spec h data key
  refine ⟨t', hrun, ?_, ?_⟩
  · rw [hrep.bucketChain_eq, h.bucketChain_eq, Function.update_self, List.map_append]
    rfl
  · intro i hi
    rw [hrep.bucketChain_eq, h.bucketChain_eq, Function.update_of_ne hi]

/-- What `hash_table_add` returns is right unless an allocation has failed. -/
theorem addReports_iff (h : TableRep t bs) (data : Option α) (key : Option CString)
    (callocNode callocKey : Bool) :
    AddReports t data key (hashTableAddWith t data key callocNode callocKey) ↔
      data = none ∨ key = none ∨ callocNode = true ∧ callocKey = true := by
  cases data with
  | none =>
      refine iff_of_true ⟨.failure, t, rfl, iff_of_false (by decide) ?_, fun _ => rfl⟩ (.inl rfl)
      rintro ⟨d, k, hd, -⟩
      cases hd
  | some d =>
      cases key with
      | none =>
          refine iff_of_true ⟨.failure, t, rfl, iff_of_false (by decide) ?_, fun _ => rfl⟩
            (.inr (.inl rfl))
          rintro ⟨d, k, -, hk, -⟩
          cases hk
      | some k =>
          unfold hashTableAddWith
          cases hboth : callocNode && callocKey with
          | true =>
              obtain ⟨t', hrun, happended⟩ := entryAppended_of_add h d k
              refine iff_of_true ⟨.success, t', hrun, ?_, fun hc => absurd rfl hc⟩ ?_
              · exact iff_of_true rfl ⟨d, k, rfl, rfl, happended⟩
              · exact .inr (.inr (Bool.and_eq_true_iff.mp hboth))
          | false =>
              apply iff_of_false
              · rintro ⟨c, t', hrun, hiff, -⟩
                cases hrun
                obtain ⟨d', k', hd, hk, happended⟩ := hiff.mp rfl
                exact not_entryAppended_self t d' k' happended
              · rintro (hd | hk | hand)
                · cases hd
                · cases hk
                · rw [hand.1, hand.2] at hboth
                  cases hboth

/-! ### Listing

A buffer that is there stays there, and one that is not is never made up for.
-/

/-- The loops end with a buffer, or they do not end because of NULL. -/
def KeepsBuffer (r : Except BadAccess KeyBuffer) : Prop :=
  r ≠ .error .throughNull ∧ ∀ buffer, r = .ok buffer → buffer ≠ none

/-- The loops end without a buffer, or with a store through NULL. -/
def LacksBuffer (r : Except BadAccess KeyBuffer) : Prop :=
  r = .ok none ∨ r = .error .throughNull

theorem KeepsBuffer.ok (keys : List (Option CString)) : KeepsBuffer (.ok (some keys)) := by
  constructor
  · intro h
    cases h
  · intro buffer h hnone
    cases h
    cases hnone

theorem KeepsBuffer.error {e : BadAccess} (h : e ≠ .throughNull) : KeepsBuffer (.error e) := by
  refine ⟨fun hc => h (Except.error.inj hc), ?_⟩
  intro buffer hc
  cases hc

/-- A loop behind a loop. -/
theorem KeepsBuffer.bind {r : Except BadAccess KeyBuffer}
    {f : KeyBuffer → Except BadAccess KeyBuffer} (hr : KeepsBuffer r)
    (hf : ∀ keys, KeepsBuffer (f (some keys))) : KeepsBuffer (r >>= f) := by
  match r with
  | .error e => exact .error fun he => hr.1 (he ▸ rfl)
  | .ok none => exact absurd rfl (hr.2 none rfl)
  | .ok (some keys) => exact hf keys

/-- A buffer that is there stays there. -/
theorem collectChainWith_keeps {nodes : Store (SCell (HashNode α))} {size : Nat}
    {wanted : CString → Bool} {strndup : Nat → Bool} (fuel : Nat) (p : Ptr)
    (keys : List (Option CString)) :
    KeepsBuffer (collectChainWith nodes size wanted strndup fuel p (some keys)) := by
  induction fuel generalizing p keys with
  | zero =>
      cases p with
      | none => exact .ok keys
      | some a => exact .error (by decide)
  | succ fuel ih =>
      cases p with
      | none => exact .ok keys
      | some a =>
          unfold collectChainWith
          split
          · exact .error (by decide)
          · split
            · refine KeepsBuffer.bind ?_ fun keys' => ih _ keys'
              unfold KeyBuffer.store
              dsimp only
              split
              · exact .ok _
              · exact .error (by decide)
            · exact ih _ keys

theorem collectTableWith_keeps (wanted : CString → Bool) (strndup : Nat → Bool)
    (is : List (Fin z.1.toNat)) (keys : List (Option CString)) :
    KeepsBuffer (collectTableWith t wanted strndup is (some keys)) := by
  induction is generalizing keys with
  | nil => exact .ok keys
  | cons i is ih => exact (collectChainWith_keeps _ _ keys).bind ih

/-- Over a chain, what there is to be written is written through NULL. -/
theorem collectChainWith_lacks {nodes : Store (SCell (HashNode α))} {size : Nat}
    {wanted : CString → Bool} {strndup : Nat → Bool} {ns : List (Nat × HashNode α)} {fuel : Nat}
    {p : Ptr} (h : Chain nodes p ns none) (hfuel : ns.length ≤ fuel) :
    LacksBuffer (collectChainWith nodes size wanted strndup fuel p none) := by
  induction ns generalizing p fuel with
  | nil =>
      obtain rfl : p = none := h
      cases fuel with
      | zero => exact .inl rfl
      | succ fuel => exact .inl rfl
  | cons n ns ih =>
      obtain ⟨rfl, m, hn, hrest⟩ := h
      cases fuel with
      | zero => simp at hfuel
      | succ fuel =>
          unfold collectChainWith
          rw [hn]
          dsimp only
          split
          · exact .inr rfl
          · exact ih hrest (Nat.le_of_succ_le_succ hfuel)

theorem collectTableWith_lacks (h : TableRep t bs) (wanted : CString → Bool)
    (strndup : Nat → Bool) (is : List (Fin z.1.toNat)) :
    LacksBuffer (collectTableWith t wanted strndup is none) := by
  induction is with
  | nil => exact .inl rfl
  | cons i is ih =>
      have hfuel : (bs i).length ≤ chainFuel t.nodes :=
        Nat.le_succ_of_le (h.chain i).length_le
      unfold collectTableWith
      rcases collectChainWith_lacks (h.chain i) hfuel with hone | hone
      · rw [hone]
        exact ih
      · rw [hone]
        exact .inr rfl

/-- What a listing returns is right unless the allocation of its array has failed. -/
theorem listingReports_iff (h : TableRep t bs) (wanted : CString → Bool) (calloc : Bool)
    (strndup : Nat → Bool) :
    ListingReports (hashTableCollectWith t wanted calloc strndup) ↔ calloc = true := by
  unfold hashTableCollectWith
  cases calloc with
  | true =>
      refine iff_of_true ?_ rfl
      obtain ⟨hnull, hsome⟩ :=
        collectTableWith_keeps (t := t) wanted strndup (List.finRange z.1.toNat) []
      rw [if_pos rfl]
      cases hrun : collectTableWith t wanted strndup (List.finRange z.1.toNat) (some []) with
      | error e =>
          constructor
          · intro hc
            have he : e = .throughNull := Except.error.inj hc
            exact hnull (he ▸ hrun)
          · intro count results hc
            cases hc
      | ok buffer =>
          constructor
          · intro hc
            cases hc
          · intro count results hc
            cases hc
            exact hsome buffer hrun
  | false =>
      refine iff_of_false ?_ (by decide)
      rintro ⟨hnull, hsome⟩
      rw [if_neg (by decide)] at hnull hsome
      rcases collectTableWith_lacks h wanted strndup (List.finRange z.1.toNat) with hrun | hrun
      · rw [hrun] at hsome
        exact hsome 0 none rfl rfl
      · rw [hrun] at hnull
        exact hnull rfl

/-- With every allocation succeeding, a listing is what it is without them. -/
theorem collectChainWith_eq {nodes : Store (SCell (HashNode α))} {size : Nat}
    {wanted : CString → Bool} (fuel : Nat) (p : Ptr) (keys : List CString) :
    (collectChainWith nodes size wanted (fun _ => true) fuel p (some (keys.map some))).toOption
      = (collectChain nodes size wanted fuel p keys).map fun keys => some (keys.map some) := by
  induction fuel generalizing p keys with
  | zero => cases p <;> rfl
  | succ fuel ih =>
      cases p with
      | none => rfl
      | some a =>
          unfold collectChainWith collectChain
          cases nodes.get a with
          | none => rfl
          | some c =>
              by_cases hwanted : wanted c.data.key = true
              · by_cases hlt : keys.length < size
                · have hstep := ih c.next (keys ++ [c.data.key.take maxKeySize])
                  rw [List.map_append] at hstep
                  simp only [Option.bind_eq_bind, Option.bind_some, hwanted, if_true, hlt,
                    KeyBuffer.store, List.length_map]
                  exact hstep
                · simp only [Option.bind_eq_bind, Option.bind_some, hwanted, if_true, hlt, if_false,
                    KeyBuffer.store, List.length_map]
                  rfl
              · simpa [hwanted] using ih c.next keys

theorem collectTableWith_eq (wanted : CString → Bool) (is : List (Fin z.1.toNat))
    (keys : List CString) :
    (collectTableWith t wanted (fun _ => true) is (some (keys.map some))).toOption
      = (collectTable t wanted is keys).map fun keys => some (keys.map some) := by
  induction is generalizing keys with
  | nil => rfl
  | cons i is ih =>
      have hone : (collectChainWith t.nodes z.1.toNat wanted (fun _ => true) (chainFuel t.nodes)
          (t.table i) (some (keys.map some))).toOption = _ :=
        collectChainWith_eq (chainFuel t.nodes) (t.table i) keys
      unfold collectTableWith collectTable
      cases hwith : collectChainWith t.nodes z.1.toNat wanted (fun _ => true)
          (chainFuel t.nodes) (t.table i) (some (keys.map some)) with
      | error e =>
          rw [hwith] at hone
          have hnone := Option.map_eq_none_iff.mp hone.symm
          rw [hnone]
          rfl
      | ok buffer =>
          rw [hwith] at hone
          obtain ⟨keys', hkeys, rfl⟩ := Option.map_eq_some_iff.mp hone.symm
          rw [hkeys]
          exact ih keys'

/-- A listing whose allocations succeed. -/
theorem hashTableCollectWith_eq (wanted : CString → Bool) :
    (hashTableCollectWith t wanted true fun _ => true).toOption
      = (collectTable t wanted (List.finRange z.1.toNat) []).map fun keys =>
          (.success, keys.length, some (keys.map some)) := by
  have htable : (collectTableWith t wanted (fun _ => true) (List.finRange z.1.toNat)
      (some [])).toOption = _ := collectTableWith_eq wanted (List.finRange z.1.toNat) []
  unfold hashTableCollectWith
  rw [if_pos rfl]
  cases hwith : collectTableWith t wanted (fun _ => true) (List.finRange z.1.toNat) (some []) with
  | error e =>
      rw [hwith] at htable
      rw [Option.map_eq_none_iff.mp htable.symm]
      rfl
  | ok buffer =>
      rw [hwith] at htable
      obtain ⟨keys, hkeys, rfl⟩ := Option.map_eq_some_iff.mp htable.symm
      rw [hkeys]
      simp [Except.toOption, KeyBuffer.count, bind, Except.bind]

/-! ### Creating

Each operation on a table without an array divides by zero, returns at once, or does what it
does to an empty table.
-/

/-- Over an empty table a listing has nothing to write. -/
theorem collectTableWith_init (wanted : CString → Bool) (strndup : Nat → Bool)
    (is : List (Fin z.1.toNat)) (buffer : KeyBuffer) :
    collectTableWith (hashTableInit z : HashTable α z) wanted strndup is buffer = .ok buffer := by
  induction is with
  | nil => rfl
  | cons i is ih => exact ih

/-- The table that `hash_table_init` makes. -/
def HashTableT.fresh (α : Type) (size : UInt32) : HashTableT α :=
  { size, table := some fun _ => none, nodes := .empty, freed := [] }

theorem HashTableT.onArray_fresh {size : UInt32} (hsize : size ≠ 0)
    {f : HashTable α ⟨size, hsize⟩ → Option (HashTable α ⟨size, hsize⟩)}
    (hf : (f (hashTableInit ⟨size, hsize⟩)).isSome) : ((fresh α size).onArray hsize f).isSome := by
  obtain ⟨u, hu⟩ := Option.isSome_iff_exists.mp hf
  show ((f (hashTableInit ⟨size, hsize⟩)).bind fun u => some _).isSome
  rw [hu]
  rfl

theorem HashTableT.hashing_fresh {size : UInt32} (hsize : size ≠ 0)
    {f : ∀ z : TableSize, HashTable α z → Option (HashTable α z)}
    (hf : (f ⟨size, hsize⟩ (hashTableInit ⟨size, hsize⟩)).isSome) :
    ((fresh α size).hashing f).isSome := by
  show (if h : size = 0 then none else (fresh α size).onArray h (f ⟨size, h⟩)).isSome
  rw [dif_neg hsize]
  exact onArray_fresh hsize hf

theorem HashTableT.looping_fresh {size : UInt32} (hsize : size ≠ 0)
    {f : ∀ z : TableSize, HashTable α z → Option (HashTable α z)}
    (hf : (f ⟨size, hsize⟩ (hashTableInit ⟨size, hsize⟩)).isSome) :
    ((fresh α size).looping f).isSome := by
  show (if h : size = 0 then some _ else (fresh α size).onArray h (f ⟨size, h⟩)).isSome
  rw [dif_neg hsize]
  exact onArray_fresh hsize hf

/-- Every operation is safe on it. -/
theorem exec_fresh_isSome {size : UInt32} (hsize : size ≠ 0) (op : TableOp α) :
    ((HashTableT.fresh α size).exec op).isSome := by
  have hholds : Holds (hashTableInit ⟨size, hsize⟩ : HashTable α ⟨size, hsize⟩) [] := .init
  have hcollect : ∀ wanted calloc strndup, (((hashTableCollectWith
      (hashTableInit ⟨size, hsize⟩ : HashTable α ⟨size, hsize⟩) wanted calloc strndup).toOption).map
        fun _ => (hashTableInit ⟨size, hsize⟩ : HashTable α ⟨size, hsize⟩)).isSome := by
    intro wanted calloc strndup
    unfold hashTableCollectWith
    rw [collectTableWith_init]
    rfl
  have hclear : ((hashTableClear (hashTableInit ⟨size, hsize⟩ : HashTable α ⟨size, hsize⟩)).map
      Prod.snd).isSome := by
    obtain ⟨t', l, hrun, -⟩ := hholds.clear
    rw [hrun]
    rfl
  cases op with
  | add data key callocNode callocKey =>
      match data, key with
      | none, _ => rfl
      | some _, none => rfl
      | some data, some key =>
          simp only [HashTableT.exec]
          refine HashTableT.hashing_fresh hsize ?_
          unfold hashTableAddWith
          cases callocNode && callocKey with
          | true =>
              obtain ⟨t', hrun, -⟩ := hholds.add data key
              rw [hrun]
              rfl
          | false => rfl
  | lookup key =>
      match key with
      | none => rfl
      | some key =>
          simp only [HashTableT.exec]
          refine HashTableT.hashing_fresh hsize ?_
          rw [hholds.lookup]
          rfl
  | remove key =>
      match key with
      | none => rfl
      | some key =>
          simp only [HashTableT.exec]
          refine HashTableT.hashing_fresh hsize ?_
          obtain ⟨t', hrun, -⟩ := hholds.remove key
          rw [hrun]
          rfl
  | list calloc strndup =>
      simp only [HashTableT.exec]
      refine HashTableT.looping_fresh hsize ?_
      exact hcollect _ calloc strndup
  | find search calloc strndup =>
      simp only [HashTableT.exec]
      refine HashTableT.looping_fresh hsize ?_
      exact hcollect _ calloc strndup
  | clear =>
      simp only [HashTableT.exec]
      exact HashTableT.looping_fresh hsize hclear
  | destroy =>
      simp only [HashTableT.exec]
      exact HashTableT.looping_fresh hsize hclear

/-- What `hash_table_init` returns is right unless the allocation of the array has failed. -/
theorem initReports_iff (size : UInt32) (calloc callocTable mutexInit : Bool) :
    InitReports (hashTableInitWith α size calloc callocTable mutexInit) ↔
      size = 0 ∨ calloc = false ∨ callocTable = true := by
  unfold hashTableInitWith
  by_cases hsize : size = 0
  · rw [if_pos hsize]
    exact iff_of_true (fun t ht => by cases ht) (.inl hsize)
  · rw [if_neg hsize]
    cases calloc with
    | false => exact iff_of_true (fun t ht => by cases ht) (.inr (.inl rfl))
    | true =>
        cases callocTable with
        | false =>
            refine iff_of_false (fun h => ?_) (by simp [hsize])
            -- a lookup divides by the size
            have hlookup := h _ rfl (.lookup (some ⟨[], List.not_mem_nil⟩))
            cases hlookup
        | true =>
            refine iff_of_true ?_ (.inr (.inr rfl))
            cases mutexInit with
            | false => exact fun t ht => by cases ht
            | true =>
                intro t ht op
                cases ht
                exact exec_fresh_isSome hsize op

/-! ### All of them

The conditions of the four functions, put together.
-/

/-- The operations report the failure of an allocation just in case it is none of these: the array
of a new table, the node or the key of a new entry, the array of a listing. -/
theorem allocations_reported_iff (α : Type) :
    (∀ size calloc callocTable mutexInit,
        InitReports (hashTableInitWith α size calloc callocTable mutexInit) ↔
          size = 0 ∨ calloc = false ∨ callocTable = true) ∧
      ∀ (z : TableSize) (ops : List (HashOp α)) (t : HashTable α z),
        hashRun (hashTableInit z) ops = some t →
          (∀ data key callocNode callocKey,
            AddReports t data key (hashTableAddWith t data key callocNode callocKey) ↔
              data = none ∨ key = none ∨ callocNode = true ∧ callocKey = true) ∧
          (∀ calloc strndup,
            ListingReports (hashTableListWith t calloc strndup) ↔ calloc = true) ∧
          ∀ search calloc strndup,
            ListingReports (hashTableFindWith t search calloc strndup) ↔ calloc = true := by
  refine ⟨initReports_iff, ?_⟩
  intro z ops t hrun
  obtain ⟨t', hrun', bs, hrep, -⟩ := hashRun_refines (Holds.init (α := α) (z := z)) ops
  cases hrun.symm.trans hrun'
  exact ⟨addReports_iff hrep, listingReports_iff hrep _,
    fun _ => listingReports_iff hrep _⟩

/-- A table of one bucket with one entry. -/
theorem allocations_reported_one :
    ∃ t : HashTable Nat ⟨1, by decide⟩,
      hashRun (hashTableInit ⟨1, by decide⟩) [.add ⟨[97], by decide⟩ 7 true] = some t ∧
      AddReports t (some 8) (some ⟨[98], by decide⟩)
        (hashTableAddWith t (some 8) (some ⟨[98], by decide⟩) true true) ∧
      ListingReports (hashTableListWith t true fun _ => true) := by
  obtain ⟨t, hrun, -⟩ := hashRun_refines (Holds.init (α := Nat) (z := ⟨1, by decide⟩))
    [.add ⟨[97], by decide⟩ 7 true]
  obtain ⟨hadd, hlist, -⟩ := (allocations_reported_iff Nat).2 _ _ t hrun
  exact ⟨t, hrun, (hadd _ _ _ _).mpr (.inr (.inr ⟨rfl, rfl⟩)), (hlist _ _).mpr rfl⟩

/-- A table without an array is returned, an entry that is not there is reported as added, and a
listing succeeds with NULL, or writes through it. -/
theorem allocations_unreported :
    (∃ t, hashTableInitWith Nat 1 true false true = some t ∧
      t.exec (.lookup (some ⟨[97], by decide⟩)) = none) ∧
    (hashTableAddWith (hashTableInit ⟨1, by decide⟩) (some 7) (some ⟨[97], by decide⟩) false true
        = some (.success, hashTableInit ⟨1, by decide⟩) ∧
      hashTableLookup (hashTableInit ⟨1, by decide⟩ : HashTable Nat _) (some ⟨[97], by decide⟩)
        = some none) ∧
    hashTableListWith (hashTableInit ⟨1, by decide⟩ : HashTable Nat _) false (fun _ => true)
      = .ok (.success, 0, none) ∧
    ∃ t : HashTable Nat ⟨1, by decide⟩,
      hashRun (hashTableInit ⟨1, by decide⟩) [.add ⟨[97], by decide⟩ 7 true] = some t ∧
      hashTableListWith t false (fun _ => true) = .error .throughNull := by
  refine ⟨⟨_, rfl, rfl⟩, ⟨rfl, rfl⟩, rfl, _, rfl, rfl⟩

end CmakeTemplate
