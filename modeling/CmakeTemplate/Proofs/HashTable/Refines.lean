/-
The hash table serves its entries in the order they were added.

`Holds t es` says that the chain at an index holds the entries with that bucket, in their
order.  Every call keeps it, and answers as the entries do, `Meets` being what counts as the
same key.  That is so for any keys, so a run on the table is a run on the entries.

On keys of at most 50 characters, to meet is to be the key itself: the comparison sees the
whole of both keys.  A run with such keys answers as the entries under each key do, the
earliest first; a removal uncovers the next, and clearing the table frees all of them once.
-/
import CmakeTemplate.Entries
import CmakeTemplate.Proofs.HashTable.Buckets
import Mathlib.Data.List.Find

namespace CmakeTemplate

open Lib

variable {α : Type} {z : TableSize} {t : HashTable α z} {es : List (CString × α)}

/-! ### Comparing keys

Three lengths, 50 for the comparison and 64 for the copy among them, of which only the first
counts.
-/

/-- Two strings compare equal when their first `n` characters agree. -/
theorem strncmp_eq_zero {cs ds : List UInt8} {n : Nat} (hc : 0 ∉ cs) (hd : 0 ∉ ds) :
    strncmp cs ds n = 0 ↔ cs.take n = ds.take n := by
  have hpos : ∀ {c : UInt8} {cs : List UInt8}, 0 ∉ c :: cs → c.toNat ≠ 0 := by
    intro c cs h hc
    exact h (by rw [show c = 0 from UInt8.toNat_inj.mp hc]; simp)
  induction n generalizing cs ds with
  | zero => cases cs <;> cases ds <;> simp [strncmp]
  | succ n ih =>
      cases cs with
      | nil =>
          cases ds with
          | nil => simp [strncmp]
          | cons d ds => simpa [strncmp] using hpos hd
      | cons c cs =>
          cases ds with
          | nil => simpa [strncmp] using hpos hc
          | cons d ds =>
              by_cases hcd : c = d
              · subst hcd
                simp only [strncmp, if_true, List.take_succ_cons, List.cons.injEq, true_and]
                exact ih (fun h => hc (List.mem_cons_of_mem _ h))
                  (fun h => hd (List.mem_cons_of_mem _ h))
              · have hne : c.toNat ≠ d.toNat := fun h => hcd (UInt8.toNat_inj.mp h)
                simp only [strncmp, hcd, if_false, List.take_succ_cons, List.cons.injEq, false_and,
                  iff_false]
                omega

/-- What a node keeps of an entry. -/
def nodeOf (e : CString × α) : HashNode α := ⟨e.1.take maxKeySize, e.2⟩

/-- The 64 characters a node keeps are enough for a comparison of 50. -/
theorem sameKey_nodeOf (key : CString) (e : CString × α) :
    SameKey key (nodeOf e) = decide (e.1.take maxLength = key.take maxLength) := by
  rw [SameKey, decide_eq_decide, strncmp_eq_zero (nodeOf e).key.noNul key.noNul, CString.ext_iff]
  show List.take maxLength (List.take maxKeySize e.1.chars) = _ ↔ _
  rw [List.take_take, show min maxLength maxKeySize = maxLength from rfl]
  rfl

/-! ### The entries of a table

Each call, by what it does to the entries.
-/

/-- Each chain holds the entries of its bucket, in order. -/
def Holds (t : HashTable α z) (es : List (CString × α)) : Prop :=
  ∃ bs, TableRep t bs ∧
    ∀ i, (bs i).map Prod.snd = (es.filter fun e => bucket z e.1 = i).map nodeOf

theorem Holds.init : Holds (hashTableInit z : HashTable α z) [] :=
  ⟨_, hashTableInit_rep, fun _ => rfl⟩

theorem Holds.add (h : Holds t es) (data : α) (key : CString) :
    ∃ t', hashTableAdd t (some data) (some key) true = some (.success, t') ∧
      t'.freed = t.freed ∧ Holds t' (es ++ [(key, data)]) := by
  obtain ⟨bs, hrep, hbs⟩ := h
  obtain ⟨t', ht', hfreed, n, hrep'⟩ := hashTableAdd_spec hrep data key
  refine ⟨t', ht', hfreed, _, hrep', fun i => ?_⟩
  by_cases hi : i = bucket z key
  · subst hi
    rw [Function.update_self, List.map_append, hbs]
    simp [nodeOf]
  · rw [Function.update_of_ne hi, hbs]
    simp [Ne.symm hi]

theorem Holds.lookup (h : Holds t es) (key : CString) :
    hashTableLookup t (some key) = some ((es.find? (Meets z key)).map Prod.snd) := by
  obtain ⟨bs, hrep, hbs⟩ := h
  have hmeets : (fun e : CString × α =>
      decide (bucket z e.1 = bucket z key) && (SameKey key ∘ nodeOf) e) = Meets z key := by
    funext e
    rw [Function.comp_apply, sameKey_nodeOf, Meets, Bool.decide_and]
  rw [hashTableLookup_spec hrep, hbs, List.find?_map, List.find?_filter]
  simp only [Bool.decide_and, Bool.decide_eq_true, hmeets, Option.map_map]
  rfl

theorem Meets.sameKey {key : CString} {e : CString × α} (h : Meets z key e = true) :
    bucket z e.1 = bucket z key ∧ SameKey key (nodeOf e) = true := by
  rw [sameKey_nodeOf]
  simpa [Meets] using h

theorem sameKey_of_not_meets {key : CString} {e : CString × α} (h : ¬ Meets z key e = true)
    (hb : bucket z e.1 = bucket z key) : SameKey key (nodeOf e) = false := by
  rw [sameKey_nodeOf, decide_eq_false_iff_not]
  exact fun htake => h (by simp [Meets, hb, htake])

/-- Without an entry that meets the key, nothing happens. -/
theorem Holds.remove_missing (h : Holds t es) {key : CString}
    (hno : ∀ e ∈ es, ¬ Meets z key e = true) :
    hashTableRemove t (some key) = some (.failure, t) := by
  obtain ⟨bs, hrep, hbs⟩ := h
  refine hashTableRemove_missing hrep key fun n hn => ?_
  have hmem : n.2 ∈ (es.filter fun e => bucket z e.1 = bucket z key).map nodeOf :=
    hbs _ ▸ List.mem_map_of_mem hn
  obtain ⟨e, he, hne⟩ := List.mem_map.mp hmem
  obtain ⟨hes, hb⟩ := List.mem_filter.mp he
  rw [← hne]
  exact sameKey_of_not_meets (hno e hes) (by simpa using hb)

/-- The first entry that meets the key goes, with its data. -/
theorem Holds.remove_first {e : CString × α} {es₁ es₂ : List (CString × α)}
    (h : Holds t (es₁ ++ e :: es₂)) {key : CString} (hno : ∀ e ∈ es₁, ¬ Meets z key e = true)
    (he : Meets z key e = true) :
    ∃ t', hashTableRemove t (some key) = some (.success, t') ∧ t'.freed = t.freed ++ [e.2] ∧
      Holds t' (es₁ ++ es₂) := by
  obtain ⟨bs, hrep, hbs⟩ := h
  obtain ⟨hb, hsame⟩ := Meets.sameKey he
  -- the chain splits where the entries do
  have hchain := hbs (bucket z key)
  rw [List.filter_append, List.filter_cons_of_pos (by simpa using hb), List.map_append,
    List.map_cons, List.map_eq_append_iff] at hchain
  obtain ⟨xs, ns, hsplit, hxs, hns⟩ := hchain
  obtain ⟨n, ys, rfl, hn, hys⟩ := List.map_eq_cons_iff.mp hns
  have hnone : ∀ m ∈ xs, SameKey key m.2 = false := by
    intro m hm
    obtain ⟨f, hf, hfm⟩ := List.mem_map.mp (hxs ▸ List.mem_map_of_mem hm :
      m.2 ∈ (es₁.filter fun e => bucket z e.1 = bucket z key).map nodeOf)
    obtain ⟨hes, hfb⟩ := List.mem_filter.mp hf
    rw [← hfm]
    exact sameKey_of_not_meets (hno f hes) (by simpa using hfb)
  obtain ⟨t', ht', hfreed, hrep'⟩ := hashTableRemove_spec hrep key hsplit hnone (hn ▸ hsame)
  refine ⟨t', ht', by rw [hfreed, hn]; rfl, _, hrep', fun i => ?_⟩
  by_cases hi : i = bucket z key
  · subst hi
    rw [Function.update_self, List.map_append, hxs, hys, List.filter_append, List.map_append]
  · have hne : ¬ bucket z e.1 = i := fun hc => hi (hc.symm.trans hb)
    rw [Function.update_of_ne hi, hbs, List.filter_append, List.filter_append,
      List.filter_cons_of_neg (by simpa using hne)]

theorem Holds.remove (h : Holds t es) (key : CString) :
    ∃ t', hashTableRemove t (some key) =
        some (if es.any (Meets z key) then .success else .failure, t') ∧
      t'.freed = t.freed ++ ((es.find? (Meets z key)).map Prod.snd).toList ∧
      Holds t' (es.eraseP (Meets z key)) := by
  by_cases hany : ∃ e ∈ es, Meets z key e = true
  · obtain ⟨a, ha, hmeets⟩ := hany
    obtain ⟨e, es₁, es₂, hno, he, rfl, herase⟩ := List.exists_of_eraseP ha hmeets
    obtain ⟨t', ht', hfreed, hholds⟩ := h.remove_first hno he
    have hfind : (es₁ ++ e :: es₂).find? (Meets z key) = some e :=
      List.find?_eq_some_iff_append.mpr ⟨he, es₁, es₂, rfl, by simpa using hno⟩
    refine ⟨t', ?_, by rw [hfreed, hfind]; rfl, herase ▸ hholds⟩
    rw [ht', if_pos (List.any_eq_true.mpr ⟨a, ha, hmeets⟩)]
  · have hno : ∀ e ∈ es, ¬ Meets z key e = true := fun e he hm => hany ⟨e, he, hm⟩
    refine ⟨t, ?_, ?_, ?_⟩
    · rw [h.remove_missing hno, if_neg fun hc => hany (List.any_eq_true.mp hc)]
    · rw [List.find?_eq_none.mpr hno]
      simp
    · rwa [List.eraseP_of_forall_not hno]

theorem Holds.clear (h : Holds t es) :
    ∃ t' l, hashTableClear t = some (.success, t') ∧ t'.freed = t.freed ++ l ∧
      l.Perm (es.map Prod.snd) ∧ Holds t' [] := by
  obtain ⟨bs, hrep, hbs⟩ := h
  obtain ⟨t', ht', hrep', hfreed⟩ := hashTableClear_spec hrep
  refine ⟨t', _, ht', hfreed, ?_, _, hrep', fun i => rfl⟩
  have hdata : ∀ i, (bs i).map (fun n => n.2.data)
      = (es.filter fun e => bucket z e.1 = i).map Prod.snd := by
    intro i
    have := congrArg (List.map HashNode.data) (hbs i)
    rwa [List.map_map, List.map_map] at this
  rw [List.flatMap_congr fun i _ => hdata i, ← List.map_flatMap]
  exact (flatMap_filter_perm (fun e : CString × α => bucket z e.1) (List.nodup_finRange _)
    fun e _ => List.mem_finRange _).map _

/-! ### Runs

From the empty table on, by induction on the calls.
-/

/-- Every call returns, and does to the table what it does to the entries. -/
theorem hashExec_refines (h : Holds t es) (op : HashOp α) :
    ∃ t', hashExec t op = some t' ∧ Holds t' (entriesExec (Meets z) es op) := by
  cases op with
  | add key data calloc =>
      cases calloc with
      | true =>
          obtain ⟨t', ht', -, h'⟩ := h.add data key
          exact ⟨t', by simp [hashExec, ht'], h'⟩
      | false => exact ⟨t, rfl, h⟩
  | remove key =>
      obtain ⟨t', ht', -, h'⟩ := h.remove key
      exact ⟨t', by simp [hashExec, ht'], h'⟩
  | lookup key => exact ⟨t, by simp [hashExec, h.lookup key], h⟩
  | clear =>
      obtain ⟨t', l, ht', -, -, h'⟩ := h.clear
      exact ⟨t', by simp [hashExec, ht'], h'⟩

theorem hashRun_refines (h : Holds t es) (ops : List (HashOp α)) :
    ∃ t', hashRun t ops = some t' ∧ Holds t' (entriesRun (Meets z) es ops) := by
  induction ops generalizing t es with
  | nil => exact ⟨t, rfl, h⟩
  | cons op ops ih =>
      obtain ⟨t₁, ht₁, h₁⟩ := hashExec_refines h op
      obtain ⟨t₂, ht₂, h₂⟩ := ih h₁
      exact ⟨t₂, by simp [hashRun, ht₁, ht₂], h₂⟩

/-- The table answers every call with these keys as the entries do. -/
structure Serves (K : CString → Prop) (t : HashTable α z) (es : List (CString × α)) : Prop where
  /-- The data of the earliest entry. -/
  lookup : ∀ key, K key → hashTableLookup t (some key) = some ((es.find? (Owns key)).map Prod.snd)
  /-- The earliest entry goes, and its data is freed. -/
  remove : ∀ key, K key → ∃ t', hashTableRemove t (some key) =
      some (if es.any (Owns key) then .success else .failure, t') ∧
    t'.freed = t.freed ++ ((es.find? (Owns key)).map Prod.snd).toList ∧
    ∀ key', K key' → hashTableLookup t' (some key') =
      some (((es.eraseP (Owns key)).find? (Owns key')).map Prod.snd)
  /-- All data is freed once. -/
  clear : ∃ t' l, hashTableClear t = some (.success, t') ∧ t'.freed = t.freed ++ l ∧
    l.Perm (es.map Prod.snd)

theorem Holds.serves {K : CString → Prop} (hK : Separated z K) (hes : ∀ e ∈ es, K e.1)
    (h : Holds t es) : Serves K t es := by
  have hfind : ∀ {fs : List (CString × α)}, (∀ e ∈ fs, K e.1) → ∀ key, K key →
      fs.find? (Meets z key) = fs.find? (Owns key) :=
    fun hfs key hkey => List.find?_congr fun e he => hK.meets hkey (hfs e he)
  refine ⟨fun key hkey => ?_, fun key hkey => ?_, ?_⟩
  · rw [h.lookup, hfind hes key hkey]
  · have hany : es.any (Meets z key) = es.any (Owns key) :=
      any_congr_mem fun e he => hK.meets hkey (hes e he)
    have herase : es.eraseP (Meets z key) = es.eraseP (Owns key) :=
      eraseP_congr fun e he => hK.meets hkey (hes e he)
    obtain ⟨t', ht', hfreed, h'⟩ := h.remove key
    rw [hany] at ht'
    rw [hfind hes key hkey] at hfreed
    rw [herase] at h'
    refine ⟨t', ht', hfreed, fun key' hkey' => ?_⟩
    rw [h'.lookup, hfind (fun e he => hes e (List.mem_of_mem_eraseP he)) key' hkey']
  · obtain ⟨t', l, ht', hfreed, hperm, -⟩ := h.clear
    exact ⟨t', l, ht', hfreed, hperm⟩

/-- Over keys of at most 50 characters, a table serves every key in the order of its adds. -/
theorem hashTable_serves (z : TableSize) (ops : List (HashOp α))
    (hops : KeysIn (fun key => key.chars.length ≤ maxLength) ops) :
    ∃ t : HashTable α z, hashRun (hashTableInit z) ops = some t ∧
      Serves (fun key => key.chars.length ≤ maxLength) t (entriesRun Owns [] ops) := by
  have hnil : ∀ e ∈ ([] : List (CString × α)), e.1.chars.length ≤ maxLength :=
    fun e he => absurd he List.not_mem_nil
  obtain ⟨t, ht, h⟩ := hashRun_refines (Holds.init (α := α) (z := z)) ops
  rw [entriesRun_owns (separated_of_short z) hops hnil] at h
  exact ⟨t, ht, h.serves (separated_of_short z) (entriesRun_keys hops hnil)⟩

/-- Two keys on one chain, one of them twice: the second entry of that key is served last. -/
theorem hashTable_serves_run :
    ∃ t : HashTable Nat ⟨1, by decide⟩, hashRun (hashTableInit ⟨1, by decide⟩)
        [.add ⟨[97], by decide⟩ 1 true, .add ⟨[98], by decide⟩ 2 true,
          .add ⟨[97], by decide⟩ 3 true, .remove ⟨[97], by decide⟩] = some t ∧
      Serves (fun key => key.chars.length ≤ maxLength) t
        [(⟨[98], by decide⟩, 2), (⟨[97], by decide⟩, 3)] :=
  hashTable_serves ⟨1, by decide⟩ [.add ⟨[97], by decide⟩ 1 true, .add ⟨[98], by decide⟩ 2 true,
    .add ⟨[97], by decide⟩ 3 true, .remove ⟨[97], by decide⟩] (by simp [KeysIn, HashOp.key?, maxLength])

end CmakeTemplate
