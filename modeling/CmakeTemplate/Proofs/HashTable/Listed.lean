/-
What a table lists, and whether it finds that again.

The listings go through the buckets in order and along each chain, so they return the copies
of the keys of the entries, bucket by bucket, as long as there is a slot for each.  A key that
was listed should be found by a lookup and by a removal.

An entry is in the bucket of its whole key, and it is looked up by its copy in the bucket of
that: the two are one for a key that the copy does not shorten.  A longer key may have its
copy in the same bucket by chance.  So the condition is that the copy of each key is in the
bucket of the key; it is asked of the keys that a run adds, and is exact for a set of keys
over all runs.
-/
import CmakeTemplate.Proofs.HashTable.Refines

namespace CmakeTemplate

open Lib

variable {α : Type} {z : TableSize} {t : HashTable α z} {es : List (CString × α)}

theorem CString.take_take (s : CString) (m n : Nat) : (s.take m).take n = s.take (min n m) :=
  CString.ext List.take_take

/-! ### Collecting

The buffer has room for as many keys as there are buckets.
-/

/-- The keys that one chain contributes. -/
def chainKeys (wanted : CString → Bool) (ns : List (HashNode α)) : List CString :=
  (ns.filter fun n => wanted n.key).map fun n => n.key.take maxKeySize

/-- A buffer of `size` slots. -/
def fitting (size : Nat) (keys : List CString) : Option (List CString) :=
  if keys.length ≤ size then some keys else none

theorem collectChain_spec {nodes : Store (SCell (HashNode α))} {size : Nat}
    {wanted : CString → Bool} :
    ∀ (ns : List (Nat × HashNode α)) (p : Ptr) (fuel : Nat) (buffer : List CString),
      Chain nodes p ns none → ns.length ≤ fuel → buffer.length ≤ size →
      collectChain nodes size wanted fuel p buffer =
        fitting size (buffer ++ chainKeys wanted (ns.map Prod.snd)) := by
  intro ns
  induction ns with
  | nil =>
      intro p fuel buffer h _ hfits
      obtain rfl : p = none := h
      rw [show chainKeys wanted (([] : List (Nat × HashNode α)).map Prod.snd) = [] from rfl,
        List.append_nil, fitting, if_pos hfits]
      cases fuel <;> rfl
  | cons n ns ih =>
      intro p fuel buffer h hfuel hfits
      obtain ⟨rfl, m, hn, hrest⟩ := h
      obtain ⟨fuel, rfl⟩ := Nat.exists_eq_succ_of_ne_zero (Nat.ne_of_gt (Nat.zero_lt_of_lt hfuel))
      have hfuel' : ns.length ≤ fuel := Nat.le_of_succ_le_succ hfuel
      by_cases hwanted : wanted n.2.key = true
      · have hkeys : chainKeys wanted ((n :: ns).map Prod.snd) =
            n.2.key.take maxKeySize :: chainKeys wanted (ns.map Prod.snd) := by
          simp [chainKeys, hwanted]
        simp only [collectChain, hn, Option.bind_eq_bind, Option.bind_some, hwanted, if_true]
        by_cases hlt : buffer.length < size
        · have hroom : (buffer ++ [n.2.key.take maxKeySize]).length ≤ size := by
            rw [List.length_append]
            exact hlt
          rw [if_pos hlt, ih m fuel _ hrest hfuel' hroom, hkeys, List.append_assoc]
          rfl
        · rw [if_neg hlt, fitting, if_neg]
          rw [hkeys, List.length_append, List.length_cons]
          omega
      · have hkeys : chainKeys wanted ((n :: ns).map Prod.snd) =
            chainKeys wanted (ns.map Prod.snd) := by
          simp [chainKeys, hwanted]
        simp only [collectChain, hn, Option.bind_eq_bind, Option.bind_some, hwanted]
        rw [hkeys]
        exact ih m fuel buffer hrest hfuel' hfits

theorem collectTable_spec {bs : Fin z.1.toNat → List (Nat × HashNode α)} (h : TableRep t bs)
    (wanted : CString → Bool) :
    ∀ (is : List (Fin z.1.toNat)) (buffer : List CString), buffer.length ≤ z.1.toNat →
      collectTable t wanted is buffer =
        fitting z.1.toNat
          (buffer ++ is.flatMap fun i => chainKeys wanted ((bs i).map Prod.snd)) := by
  intro is
  induction is with
  | nil =>
      intro buffer hfits
      rw [collectTable, List.flatMap_nil, List.append_nil, fitting, if_pos hfits]
  | cons i is ih =>
      intro buffer hfits
      have hfuel : (bs i).length ≤ chainFuel t.nodes := by
        have := (h.chain i).length_le
        rw [chainFuel]
        omega
      rw [collectTable, collectChain_spec _ _ _ _ (h.chain i) hfuel hfits, List.flatMap_cons,
        ← List.append_assoc]
      by_cases hlen : (buffer ++ chainKeys wanted ((bs i).map Prod.snd)).length ≤ z.1.toNat
      · rw [fitting, if_pos hlen]
        exact ih _ hlen
      · rw [fitting, if_neg hlen, fitting, if_neg]
        · rfl
        · rw [List.length_append]
          omega

/-- The keys that are listed of some entries. -/
def listedKeys (z : TableSize) (wanted : CString → Bool) (es : List (CString × α)) :
    List CString :=
  (List.finRange z.1.toNat).flatMap fun i =>
    chainKeys wanted ((es.filter fun e => bucket z e.1 = i).map nodeOf)

theorem Holds.collect (h : Holds t es) (wanted : CString → Bool) :
    collectTable t wanted (List.finRange z.1.toNat) [] =
      fitting z.1.toNat (listedKeys z wanted es) := by
  obtain ⟨bs, hrep, hbs⟩ := h
  rw [collectTable_spec hrep wanted _ [] (Nat.zero_le _), List.nil_append, listedKeys]
  simp only [hbs]

/-- There is a slot for each entry. -/
theorem length_listedKeys_le (z : TableSize) (wanted : CString → Bool) (es : List (CString × α)) :
    (listedKeys z wanted es).length ≤ es.length := by
  have hperm := flatMap_filter_perm (fun e : CString × α => bucket z e.1)
    (List.nodup_finRange z.1.toNat) (l := es) fun _ _ => List.mem_finRange _
  have hkeys : listedKeys z wanted es = chainKeys wanted
      (((List.finRange z.1.toNat).flatMap fun i => es.filter fun e => bucket z e.1 = i).map
        nodeOf) := by
    simp only [listedKeys, chainKeys, List.map_flatMap, List.filter_flatMap]
  rw [hkeys, chainKeys, List.length_map, ← hperm.length_eq]
  refine Nat.le_trans (List.length_filter_le _ _) ?_
  rw [List.length_map]

/-- A listed key is the copy of the key of an entry. -/
theorem mem_listedKeys {wanted : CString → Bool} {k : CString} (h : k ∈ listedKeys z wanted es) :
    ∃ e ∈ es, k = e.1.take maxKeySize := by
  obtain ⟨i, -, hk⟩ := List.mem_flatMap.mp h
  obtain ⟨n, hn, rfl⟩ := List.mem_map.mp hk
  obtain ⟨e, he, rfl⟩ := List.mem_map.mp (List.mem_filter.mp hn).1
  refine ⟨e, (List.mem_filter.mp he).1, ?_⟩
  show (e.1.take maxKeySize).take maxKeySize = e.1.take maxKeySize
  rw [CString.take_take, Nat.min_self]

/-! ### Finding it again

A lookup by a copy finds the first entry with that copy in the bucket, which need not be the
one that was listed.
-/

/-- The key is looked up, and an entry is removed by it. -/
structure Found (t : HashTable α z) (key : CString) : Prop where
  /-- Something is found under the key. -/
  lookup : ∃ data, hashTableLookup t (some key) = some (some data)
  /-- And it can be removed. -/
  remove : ∃ t' data, hashTableRemove t (some key) = some (.success, t') ∧
    t'.freed = t.freed ++ [data]

/-- Whatever the table lists is found in it. -/
def ListedFound (t : HashTable α z) : Prop :=
  ∀ keys, (hashTableList t = some keys ∨ ∃ search, hashTableFind t search = some keys) →
    ∀ key ∈ keys, Found t key

/-- The stored copy of a key is in the bucket of the key. -/
def CopyInBucket (z : TableSize) (key : CString) : Prop :=
  bucket z (key.take maxKeySize) = bucket z key

instance (z : TableSize) (key : CString) : Decidable (CopyInBucket z key) :=
  inferInstanceAs (Decidable (_ = _))

/-- A key that is not longer than its copy. -/
theorem copyInBucket_of_short (z : TableSize) {key : CString} (h : key.chars.length ≤ maxKeySize) :
    CopyInBucket z key := by
  rw [CopyInBucket, CString.take_of_le h]

theorem Holds.found_iff (h : Holds t es) (key : CString) :
    Found t key ↔ ∃ e ∈ es, Meets z key e = true := by
  constructor
  · intro hf
    obtain ⟨data, hdata⟩ := hf.lookup
    rw [h.lookup, Option.some.injEq, Option.map_eq_some_iff] at hdata
    obtain ⟨e, he, -⟩ := hdata
    exact ⟨e, List.mem_of_find?_eq_some he, List.find?_some he⟩
  · intro hmet
    obtain ⟨e, he, hmeets⟩ := hmet
    obtain ⟨f, hf⟩ := Option.isSome_iff_exists.mp (List.find?_isSome.mpr ⟨e, he, hmeets⟩)
    obtain ⟨t', ht', hfreed, -⟩ := h.remove key
    rw [if_pos (List.any_eq_true.mpr ⟨e, he, hmeets⟩)] at ht'
    refine ⟨⟨f.2, ?_⟩, t', f.2, ht', ?_⟩
    · rw [h.lookup, hf]
      rfl
    · rw [hfreed, hf]
      rfl

/-- An entry is met by the copy of its key, in its bucket. -/
theorem meets_copy {e : CString × α} (h : CopyInBucket z e.1) :
    Meets z (e.1.take maxKeySize) e = true := by
  have hmin : min maxLength maxKeySize = maxLength := rfl
  have htake : (e.1.take maxKeySize).take maxLength = e.1.take maxLength := by
    rw [CString.take_take, hmin]
  have hb : bucket z (e.1.take maxKeySize) = bucket z e.1 := h
  simp [Meets, htake, hb]

theorem Holds.listedFound (h : Holds t es) (hes : ∀ e ∈ es, CopyInBucket z e.1) :
    ListedFound t := by
  have hlisted : ∀ wanted keys, fitting z.1.toNat (listedKeys z wanted es) = some keys →
      ∀ key ∈ keys, Found t key := by
    intro wanted keys hkeys key hkey
    have hlist : listedKeys z wanted es = keys := by
      rw [fitting] at hkeys
      split at hkeys
      · exact Option.some.inj hkeys
      · cases hkeys
    obtain ⟨e, he, rfl⟩ := mem_listedKeys (hlist ▸ hkey)
    exact (h.found_iff _).mpr ⟨e, he, meets_copy (hes e he)⟩
  intro keys hkeys
  rcases hkeys with hkeys | ⟨search, hkeys⟩
  · rw [hashTableList, h.collect] at hkeys
    exact hlisted _ keys hkeys
  · rw [hashTableFind, h.collect] at hkeys
    exact hlisted _ keys hkeys

/-- With room for all entries, both listings return. -/
theorem Holds.listings_isSome (h : Holds t es) (hroom : es.length ≤ z.1.toNat) :
    (hashTableList t).isSome ∧ ∀ search, (hashTableFind t search).isSome := by
  have hfits : ∀ wanted, (fitting z.1.toNat (listedKeys z wanted es)).isSome := by
    intro wanted
    rw [fitting, if_pos (Nat.le_trans (length_listedKeys_le z wanted es) hroom)]
    rfl
  refine ⟨?_, ?_⟩
  · rw [hashTableList, h.collect]
    exact hfits _
  · intro search
    rw [hashTableFind, h.collect]
    exact hfits _

/-- One entry whose copy is in another bucket. -/
theorem ListedFound.copyInBucket {data : α} {key : CString} (h : Holds t [(key, data)])
    (hf : ListedFound t) : CopyInBucket z key := by
  have hpos : 1 ≤ z.1.toNat := Nat.pos_of_ne_zero fun hz => z.2 (UInt32.toNat_inj.mp hz)
  have hmem : key.take maxKeySize ∈ listedKeys z (fun _ => true) [(key, data)] := by
    refine List.mem_flatMap.mpr ⟨bucket z key, List.mem_finRange _, ?_⟩
    refine List.mem_map.mpr ⟨nodeOf (key, data), by simp, ?_⟩
    show (key.take maxKeySize).take maxKeySize = key.take maxKeySize
    rw [CString.take_take, Nat.min_self]
  have hlist : hashTableList t = some (listedKeys z (fun _ => true) [(key, data)]) := by
    rw [hashTableList, h.collect, fitting,
      if_pos (Nat.le_trans (length_listedKeys_le z _ [(key, data)]) hpos)]
  obtain ⟨e, he, hmeets⟩ := (h.found_iff _).mp (hf _ (.inl hlist) _ hmem)
  rw [List.mem_singleton.mp he] at hmeets
  exact (Meets.sameKey hmeets).1.symm

/-- The keys that are added. -/
def KeysAdded (K : CString → Prop) (ops : List (HashOp α)) : Prop :=
  ∀ key data, .add key data true ∈ ops → K key

/-- Whatever a table lists is found in it, on every run that adds keys of a set, if and only if
the copy of every key of the set is in the bucket of the key; and it lists them all
when there are as many buckets as entries. -/
theorem hashTable_listed_iff [Inhabited α] (z : TableSize) (K : CString → Prop) :
    (∀ ops : List (HashOp α), KeysAdded K ops →
        ∃ t : HashTable α z, hashRun (hashTableInit z) ops = some t ∧ ListedFound t ∧
          ((entriesRun (Meets z) [] ops).length ≤ z.1.toNat →
            (hashTableList t).isSome ∧ ∀ search, (hashTableFind t search).isSome)) ↔
      ∀ key, K key → CopyInBucket z key := by
  constructor
  · intro h key hkey
    obtain ⟨t, ht, hfound, -⟩ := h [.add key default true] (by
      intro key' data hmem
      obtain ⟨rfl, -⟩ := HashOp.add.inj (List.mem_singleton.mp hmem)
      exact hkey)
    obtain ⟨t', ht', hholds⟩ :=
      hashRun_refines (Holds.init (α := α) (z := z)) [.add key default true]
    rw [ht, Option.some.injEq] at ht'
    exact hfound.copyInBucket (ht' ▸ hholds)
  · intro hK ops hops
    obtain ⟨t, ht, hholds⟩ := hashRun_refines (Holds.init (α := α) (z := z)) ops
    refine ⟨t, ht, hholds.listedFound ?_, hholds.listings_isSome⟩
    intro e he
    exact hK e.1 (hops e.1 e.2 ((added_of_mem he).resolve_left List.not_mem_nil))

/-- A key of 65 characters, in a table of two buckets. -/
theorem long_key_not_found :
    ¬ ∀ (z : TableSize) (ops : List (HashOp Nat)), ∃ t : HashTable Nat z,
      hashRun (hashTableInit z) ops = some t ∧
        ((entriesRun (Meets z) [] ops).length ≤ z.1.toNat → ListedFound t) := by
  intro h
  obtain ⟨t, ht, hfound⟩ := h ⟨2, by decide⟩ [.add ⟨List.replicate 64 97 ++ [98], by decide⟩ 0 true]
  obtain ⟨t', ht', hholds⟩ := hashRun_refines (Holds.init (α := Nat) (z := ⟨2, by decide⟩))
    [.add ⟨List.replicate 64 97 ++ [98], by decide⟩ 0 true]
  rw [ht, Option.some.injEq] at ht'
  exact absurd ((hfound (by decide)).copyInBucket (ht' ▸ hholds)) (by decide +kernel)

end CmakeTemplate
