/-
What a table reports of its entries.

A listing returns the stored key of every entry, and a search those of them with the string
inside, as long as there is a slot for each.  The array of results has a slot for each bucket,
so a table with more entries than buckets is written out behind its array, and the listing has
no result.

So the entries are reported exactly when there is a bucket for each of them.  The keys of two
entries may fall into one bucket and leave another one empty; what counts is how many entries
there are, not where they are.  A listing is in the order of the buckets, which is another one
than that of the entries, and a search has its keys in the order of the listing.
-/
import CmakeTemplate.Proofs.HashTable.Listed
import Mathlib.Data.List.Infix

namespace CmakeTemplate

open Lib

variable {α : Type} {z : TableSize} {t : HashTable α z} {es : List (CString × α)}

/-- The copy of a key that is kept in the table. -/
def storedKey (e : CString × α) : CString := e.1.take maxKeySize

/-- The listing has one stored key for each entry, and a search finds those of them, in their
order, that contain the string. -/
structure ReportsEntries (t : HashTable α z) (es : List (CString × α)) : Prop where
  /-- Each entry has its key in the listing. -/
  list : ∃ keys, hashTableList t = some keys ∧ keys.Perm (es.map storedKey)
  /-- A search finds the keys with the string in them. -/
  find : ∀ keys search, hashTableList t = some keys →
    hashTableFind t search = some (keys.filter fun key => search.chars <:+: key.chars)

/-! ### Strings

`strstr` finds a string inside another if it is an infix of it.
-/

theorem strstr_iff {haystack needle : List UInt8} :
    strstr haystack needle = true ↔ needle <:+: haystack := by
  rw [strstr, List.any_eq_true, List.infix_iff_prefix_suffix]
  constructor
  · intro h
    obtain ⟨suffix, hsuffix, hprefix⟩ := h
    exact ⟨suffix, List.isPrefixOf_iff_prefix.mp hprefix, (List.mem_tails _ _).mp hsuffix⟩
  · intro h
    obtain ⟨suffix, hprefix, hsuffix⟩ := h
    exact ⟨suffix, (List.mem_tails _ _).mpr hsuffix, List.isPrefixOf_iff_prefix.mpr hprefix⟩

theorem storedKey_take (e : CString × α) : (storedKey e).take maxKeySize = storedKey e := by
  rw [storedKey, CString.take_take, Nat.min_self]

/-! ### What is listed

The chains together hold every entry once.
-/

/-- A chain of nodes contributes the keys stored in them. -/
theorem chainKeys_nodeOf (wanted : CString → Bool) (es : List (CString × α)) :
    chainKeys wanted (es.map nodeOf) = (es.map storedKey).filter wanted := by
  rw [chainKeys, List.filter_map, List.map_map, List.filter_map]
  exact List.map_congr_left fun e _ => storedKey_take e

theorem listedKeys_filter (z : TableSize) (wanted : CString → Bool) (es : List (CString × α)) :
    listedKeys z wanted es = (listedKeys z (fun _ => true) es).filter wanted := by
  rw [listedKeys, listedKeys, List.filter_flatMap]
  refine List.flatMap_congr fun i _ => ?_
  rw [chainKeys_nodeOf, chainKeys_nodeOf, List.filter_true]

/-- Every entry is in one bucket. -/
theorem listedKeys_perm (z : TableSize) (es : List (CString × α)) :
    (listedKeys z (fun _ => true) es).Perm (es.map storedKey) := by
  have hkeys : listedKeys z (fun _ => true) es =
      ((List.finRange z.1.toNat).flatMap fun i => es.filter fun e => bucket z e.1 = i).map
        storedKey := by
    rw [listedKeys, List.map_flatMap]
    refine List.flatMap_congr fun i _ => ?_
    rw [chainKeys_nodeOf, List.filter_true]
  rw [hkeys]
  exact (flatMap_filter_perm (fun e : CString × α => bucket z e.1)
    (List.nodup_finRange z.1.toNat) fun _ _ => List.mem_finRange _).map storedKey

theorem Holds.list (h : Holds t es) :
    hashTableList t = fitting z.1.toNat (listedKeys z (fun _ => true) es) := h.collect _

theorem Holds.find (h : Holds t es) (search : CString) :
    hashTableFind t search = fitting z.1.toNat
      ((listedKeys z (fun _ => true) es).filter fun key => search.chars <:+: key.chars) := by
  have hwanted : (fun key : CString => strstr key.chars search.chars) =
      fun key => decide (search.chars <:+: key.chars) := by
    funext key
    rw [Bool.eq_iff_iff, strstr_iff, decide_eq_true_eq]
  rw [hashTableFind, h.collect, listedKeys_filter, hwanted]

/-- The entries are reported exactly when there is a bucket for each. -/
theorem Holds.reports_iff (h : Holds t es) : ReportsEntries t es ↔ es.length ≤ z.1.toNat := by
  have hlength : (listedKeys z (fun _ => true) es).length = es.length := by
    rw [(listedKeys_perm z es).length_eq, List.length_map]
  constructor
  · intro hr
    obtain ⟨keys, hkeys, -⟩ := hr.list
    by_contra hmore
    rw [h.list, fitting, if_neg (by rwa [hlength])] at hkeys
    cases hkeys
  · intro hroom
    have hlist : hashTableList t = some (listedKeys z (fun _ => true) es) := by
      rw [h.list, fitting, if_pos (by rwa [hlength])]
    refine ⟨⟨_, hlist, listedKeys_perm z es⟩, ?_⟩
    intro keys search hkeys
    obtain rfl := Option.some.inj (hlist.symm.trans hkeys)
    rw [h.find, fitting, if_pos]
    refine Nat.le_trans (List.length_filter_le _ _) ?_
    rwa [hlength]

/-- After every run the entries are reported exactly when there is a bucket for each. -/
theorem hashTable_reports_iff (z : TableSize) (ops : List (HashOp α)) :
    ∃ t : HashTable α z, hashRun (hashTableInit z) ops = some t ∧
      Holds t (entriesRun (Meets z) [] ops) ∧
      (ReportsEntries t (entriesRun (Meets z) [] ops) ↔
        (entriesRun (Meets z) [] ops).length ≤ z.1.toNat) := by
  obtain ⟨t, ht, hholds⟩ := hashRun_refines (Holds.init (α := α) (z := z)) ops
  exact ⟨t, ht, hholds, hholds.reports_iff⟩

/-- Two entries in a table of one bucket. -/
theorem listing_overflows :
    ¬ ∀ (z : TableSize) (ops : List (HashOp Nat)), ∃ t : HashTable Nat z,
      hashRun (hashTableInit z) ops = some t ∧ ReportsEntries t (entriesRun (Meets z) [] ops) := by
  intro hall
  obtain ⟨t, ht, hreports⟩ := hall ⟨1, by decide⟩
    [.add ⟨[97], by decide⟩ 1 true, .add ⟨[98], by decide⟩ 2 true]
  obtain ⟨keys, hkeys, -⟩ := hreports.list
  have hnone : (hashRun (hashTableInit (α := Nat) ⟨1, by decide⟩)
      [.add ⟨[97], by decide⟩ 1 true, .add ⟨[98], by decide⟩ 2 true]).bind hashTableList = none :=
    by decide +kernel
  rw [ht] at hnone
  exact absurd (hkeys.symm.trans hnone) (by simp)

end CmakeTemplate
