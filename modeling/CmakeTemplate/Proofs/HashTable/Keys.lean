/-
When different keys leave each other alone.

A call with one key should not change what is found under another, and what is found under a
key should have been added under it.  A node keeps 64 characters of its key, but only 50 are
compared.  Keys that are longer than that, share their first 50 characters and fall into the
same bucket are the same key to the table; and that is the only way two keys can meet.

The statement is about a set of keys, behind any run of calls with keys of the set.  That
separated keys do not interfere follows from the table serving each key on its own.  For the
other direction two keys that meet are enough: on an empty table, adding one of them changes
what is found under the other.
-/
import CmakeTemplate.Proofs.HashTable.Refines

namespace CmakeTemplate

open Lib

variable {α : Type} {z : TableSize} {t : HashTable α z} {es : List (CString × α)}
  {K : CString → Prop}

/-- Behind the calls `ops`, no key of `K` interferes with another. -/
structure Independent (K : CString → Prop) (ops : List (HashOp α)) (t : HashTable α z) : Prop where
  /-- An addition leaves the lookups of other keys as they are. -/
  add : ∀ key key', K key → K key' → key ≠ key' → ∀ data calloc, ∃ t',
    hashTableAdd t (some data) (some key) calloc = some (.success, t') ∧
      hashTableLookup t' (some key') = hashTableLookup t (some key')
  /-- So does a removal. -/
  remove : ∀ key key', K key → K key' → key ≠ key' → ∃ c t',
    hashTableRemove t (some key) = some (c, t') ∧
      hashTableLookup t' (some key') = hashTableLookup t (some key')
  /-- What is found was added under this key. -/
  lookup : ∀ key, K key → ∀ data, hashTableLookup t (some key) = some (some data) →
    .add key data true ∈ ops
  /-- A key that was never added is not removed. -/
  missing : ∀ key, K key → (∀ data, .add key data true ∉ ops) →
    ∃ t', hashTableRemove t (some key) = some (.failure, t')

theorem Holds.lookup_owns (h : Holds t es) (hK : Separated z K) (hes : ∀ e ∈ es, K e.1)
    {key : CString} (hkey : K key) :
    hashTableLookup t (some key) = some ((es.find? (Owns key)).map Prod.snd) :=
  (h.serves hK hes).lookup key hkey

/-- Separated keys do not interfere. -/
theorem Holds.independent {ops : List (HashOp α)} (h : Holds t (entriesRun Owns [] ops))
    (hK : Separated z K) (hops : KeysIn K ops) : Independent K ops t := by
  have hes : ∀ e ∈ entriesRun Owns [] ops, K e.1 :=
    entriesRun_keys hops fun e he => absurd he List.not_mem_nil
  have hadded : ∀ e ∈ entriesRun Owns [] ops, .add e.1 e.2 true ∈ ops :=
    fun e he => (added_of_mem he).resolve_left List.not_mem_nil
  refine ⟨?_, ?_, ?_, ?_⟩
  · intro key key' hkey hkey' hne data calloc
    cases calloc with
    | false => exact ⟨t, rfl, rfl⟩
    | true =>
        obtain ⟨t', ht', -, h'⟩ := h.add data key
        refine ⟨t', ht', ?_⟩
        have hes' : ∀ e ∈ entriesRun Owns [] ops ++ [(key, data)], K e.1 := by
          intro e he
          rcases List.mem_append.mp he with he | he
          · exact hes e he
          · exact List.mem_singleton.mp he ▸ hkey
        rw [h'.lookup_owns hK hes' hkey', h.lookup_owns hK hes hkey', List.find?_append]
        simp [Owns, hne]
  · intro key key' hkey hkey' hne
    obtain ⟨t', ht', -, hlookup⟩ := (h.serves hK hes).remove key hkey
    refine ⟨_, t', ht', ?_⟩
    rw [hlookup key' hkey', find_eraseP_owns hne, h.lookup_owns hK hes hkey']
  · intro key hkey data hdata
    rw [h.lookup_owns hK hes hkey, Option.some.injEq, Option.map_eq_some_iff] at hdata
    obtain ⟨e, he, rfl⟩ := hdata
    have hown : e.1 = key := by simpa [Owns] using List.find?_some he
    exact hown ▸ hadded e (List.mem_of_find?_eq_some he)
  · intro key hkey hnone
    obtain ⟨t', ht', -⟩ := (h.serves hK hes).remove key hkey
    refine ⟨t', ?_⟩
    rw [ht', if_neg]
    intro hany
    obtain ⟨e, he, hown⟩ := List.any_eq_true.mp hany
    have hkeye : e.1 = key := by simpa [Owns] using hown
    exact hnone e.2 (hkeye ▸ hadded e he)

/-- Keys that are not separated interfere as soon as one of them is added. -/
theorem Independent.separated [Inhabited α]
    (h : Independent K ([] : List (HashOp α)) (hashTableInit z)) : Separated z K := by
  intro k k' hk hk' hb htake
  by_contra hne
  obtain ⟨t', ht', hlookup⟩ := h.add k k' hk hk' hne default true
  obtain ⟨t'', ht'', -, hholds⟩ := (Holds.init (α := α) (z := z)).add default k
  obtain rfl : t' = t'' := by simpa [ht'] using ht''
  rw [hholds.lookup, Holds.init.lookup] at hlookup
  simp [Meets, hb, htake] at hlookup

/-- The keys of a set never interfere if and only if no two of them have their first 50
characters and their bucket in common. -/
theorem hashTable_independent_iff [Inhabited α] (z : TableSize) (K : CString → Prop) :
    (∀ ops : List (HashOp α), KeysIn K ops →
        ∃ t : HashTable α z, hashRun (hashTableInit z) ops = some t ∧ Independent K ops t) ↔
      Separated z K := by
  constructor
  · intro h
    obtain ⟨t, ht, hind⟩ := h [] fun op hop => absurd hop List.not_mem_nil
    obtain rfl := Option.some.inj ht
    exact hind.separated
  · intro hK ops hops
    obtain ⟨t, ht, h⟩ := hashRun_refines (Holds.init (α := α) (z := z)) ops
    rw [entriesRun_owns hK hops fun e he => absurd he List.not_mem_nil] at h
    exact ⟨t, ht, h.independent hK hops⟩

/-- Two keys of 51 characters that differ in the last one, in a table of one bucket. -/
theorem long_keys_interfere :
    ¬ ∀ (z : TableSize) (ops : List (HashOp Nat)),
      KeysIn (fun key => key.chars ≠ [] ∧ key.chars.length ≤ maxKeySize) ops →
        ∃ t : HashTable Nat z, hashRun (hashTableInit z) ops = some t ∧
          Independent (fun key => key.chars ≠ [] ∧ key.chars.length ≤ maxKeySize) ops t := by
  intro h
  obtain ⟨t, ht, hind⟩ := h ⟨1, by decide⟩ [] fun op hop => absurd hop List.not_mem_nil
  obtain rfl := Option.some.inj ht
  have hsame := hind.separated ⟨List.replicate 50 97 ++ [98], by decide⟩
    ⟨List.replicate 50 97 ++ [99], by decide⟩ (by decide) (by decide)
    (Subsingleton.elim (α := Fin 1) _ _) rfl
  exact absurd hsame (by decide)

end CmakeTemplate
