/-
The allocations of the hash table.

`hash_table_init`, `hash_table_add`, `hash_table_list` and `hash_table_find` again, with the
outcome of each allocation that they make.  A table whose array could not be allocated is
returned all the same, with the size 0; `hash` divides by the size before anything else is
looked at, and the loops over the array do not start.  So a call on such a table has no
result, returns at once, or goes on as if the table were empty, and which of these is decided
by what it does first.

A listing does not look at its `buffer` before it stores a key there, so the buffer is a list
of slots here, or NULL.  The copy of a key may fail as well, and NULL is then stored as if it
were one.

What an operation owes is stated without the code: an operation that could not get its memory
says so, and leaves no trace.
-/
import CmakeTemplate.HashTable

namespace CmakeTemplate

open Lib

variable {α : Type} {z : TableSize}

/-! ### Creating

The struct, its array and the mutex, each of which may fail.
-/

/-- `hash_table_t`; `table` may be NULL. -/
structure HashTableT (α : Type) where
  /-- `size`, which is 0 where there is no array. -/
  size : UInt32
  /-- The array of chains, or NULL. -/
  table : Option (Fin size.toNat → Ptr)
  /-- The nodes of all chains. -/
  nodes : Store (SCell (HashNode α))
  /-- What `customfree` has been called on. -/
  freed : List α

/-- `hash_table_init`; the outcomes of its allocations and of `pthread_mutex_init`. -/
def hashTableInitWith (α : Type) (size : UInt32) (calloc callocTable mutexInit : Bool) :
    Option (HashTableT α) :=
  if size = 0 then none
  else if !calloc then none
  -- what the first `calloc` has left is returned
  else if !callocTable then some { size := 0, table := none, nodes := .empty, freed := [] }
  else if !mutexInit then none
  else some { size, table := some fun _ => none, nodes := .empty, freed := [] }

/-! ### Adding

A node and its key are two allocations, and a node without a key is freed again.
-/

/-- `hash_table_add`; the outcomes of the two allocations of `new_node`. -/
def hashTableAddWith (t : HashTable α z) (data : Option α) (key : Option CString)
    (callocNode callocKey : Bool) : Option (ExitCode × HashTable α z) :=
  hashTableAdd t data key (callocNode && callocKey)

/-! ### Listing

The array of results, and a copy of each key.
-/

/-- Why a listing does not return. -/
inductive BadAccess
  /-- A store through NULL. -/
  | throughNull
  /-- A store behind the last slot. -/
  | behindArray
  /-- A node that is gone, or a loop that does not end. -/
  | noNode
  deriving DecidableEq

/-- The slots of `buffer` that have been written, or NULL. -/
abbrev KeyBuffer := Option (List (Option CString))

/-- `count`. -/
def KeyBuffer.count (buffer : KeyBuffer) : Nat := (buffer.getD []).length

/-- `buffer[count++] = copy`. -/
def KeyBuffer.store (size : Nat) (buffer : KeyBuffer) (copy : Option CString) :
    Except BadAccess KeyBuffer :=
  match buffer with
  | none => .error .throughNull
  | some keys =>
    if keys.length < size then .ok (some (keys ++ [copy])) else .error .behindArray

/-- The inner loop; `strndup` is the outcome of the copy for each slot. -/
def collectChainWith (nodes : Store (SCell (HashNode α))) (size : Nat) (wanted : CString → Bool)
    (strndup : Nat → Bool) : Nat → Ptr → KeyBuffer → Except BadAccess KeyBuffer
  | _, none, buffer => .ok buffer
  | 0, some _, _ => .error .noNode
  | fuel + 1, some current, buffer =>
    match nodes.get current with
    | none => .error .noNode
    | some c =>
      if wanted c.data.key then do
        let copy := if strndup buffer.count then some (c.data.key.take maxKeySize) else none
        let buffer ← buffer.store size copy
        collectChainWith nodes size wanted strndup fuel c.next buffer
      else collectChainWith nodes size wanted strndup fuel c.next buffer

/-- The outer loop, over the indices that are left. -/
def collectTableWith (t : HashTable α z) (wanted : CString → Bool) (strndup : Nat → Bool) :
    List (Fin z.1.toNat) → KeyBuffer → Except BadAccess KeyBuffer
  | [], buffer => .ok buffer
  | idx :: rest, buffer => do
    let buffer ← collectChainWith t.nodes z.1.toNat wanted strndup (chainFuel t.nodes)
      (t.table idx) buffer
    collectTableWith t wanted strndup rest buffer

/-- What a listing returns: the exit code, `*result_count` and `*results`. -/
abbrev Listing := Except BadAccess (ExitCode × Nat × KeyBuffer)

/-- What `hash_table_list` and `hash_table_find` have in common; `calloc` is the outcome of the
allocation of `buffer`. -/
def hashTableCollectWith (t : HashTable α z) (wanted : CString → Bool) (calloc : Bool)
    (strndup : Nat → Bool) : Listing := do
  let buffer ← collectTableWith t wanted strndup (List.finRange z.1.toNat)
    (if calloc then some [] else none)
  .ok (.success, buffer.count, buffer)

/-- `hash_table_list`. -/
def hashTableListWith (t : HashTable α z) (calloc : Bool) (strndup : Nat → Bool) : Listing :=
  hashTableCollectWith t (fun _ => true) calloc strndup

/-- `hash_table_find`. -/
def hashTableFindWith (t : HashTable α z) (search : CString) (calloc : Bool)
    (strndup : Nat → Bool) : Listing :=
  hashTableCollectWith t (fun key => strstr key.chars search.chars) calloc strndup

/-! ### The operations on what `hash_table_init` returns

The array may be missing.  An operation is followed as far as it gets without one.
-/

inductive TableOp (α : Type)
  | add (data : Option α) (key : Option CString) (callocNode callocKey : Bool)
  | lookup (key : Option CString)
  | remove (key : Option CString)
  | list (calloc : Bool) (strndup : Nat → Bool)
  | find (search : CString) (calloc : Bool) (strndup : Nat → Bool)
  | clear
  | destroy

/-- Something is done to the array, which has to be there. -/
def HashTableT.onArray (t : HashTableT α) (h : t.size ≠ 0)
    (f : HashTable α ⟨t.size, h⟩ → Option (HashTable α ⟨t.size, h⟩)) : Option (HashTableT α) := do
  let table ← t.table
  let u ← f { table, nodes := t.nodes, freed := t.freed }
  some { t with table := some u.table, nodes := u.nodes, freed := u.freed }

/-- A call that hashes a key, which divides by the size. -/
def HashTableT.hashing (t : HashTableT α)
    (f : ∀ z : TableSize, HashTable α z → Option (HashTable α z)) : Option (HashTableT α) :=
  if h : t.size = 0 then none else t.onArray h (f ⟨t.size, h⟩)

/-- A call that loops over the array. -/
def HashTableT.looping (t : HashTableT α)
    (f : ∀ z : TableSize, HashTable α z → Option (HashTable α z)) : Option (HashTableT α) :=
  if h : t.size = 0 then some t else t.onArray h (f ⟨t.size, h⟩)

/-- One operation; it has no result where its behaviour is undefined. -/
def HashTableT.exec (t : HashTableT α) : TableOp α → Option (HashTableT α)
  | .add (some data) (some key) callocNode callocKey =>
    t.hashing fun _ u =>
      (hashTableAddWith u (some data) (some key) callocNode callocKey).map Prod.snd
  | .add _ _ _ _ => some t
  | .lookup (some key) => t.hashing fun _ u => (hashTableLookup u (some key)).map fun _ => u
  | .lookup none => some t
  | .remove (some key) => t.hashing fun _ u => (hashTableRemove u (some key)).map Prod.snd
  | .remove none => some t
  | .list calloc strndup =>
    t.looping fun _ u => (hashTableListWith u calloc strndup).toOption.map fun _ => u
  | .find search calloc strndup =>
    t.looping fun _ u => (hashTableFindWith u search calloc strndup).toOption.map fun _ => u
  | .clear => t.looping fun _ u => (hashTableClear u).map Prod.snd
  -- `hash_table_clear`, and everything is freed
  | .destroy => t.looping fun _ u => (hashTableClear u).map Prod.snd

/-! ### What an operation owes when an allocation fails

E_SUCCESS means that all has been done, and anything else that nothing has.
-/

/-- NULL, or a table on which every operation is safe. -/
def InitReports (r : Option (HashTableT α)) : Prop :=
  ∀ t, r = some t → ∀ op, (t.exec op).isSome

/-- What a chain holds. -/
def chainNodes (nodes : Store (SCell (HashNode α))) : Nat → Ptr → List (HashNode α)
  | 0, _ => []
  | fuel + 1, p =>
    match nodes.load p with
    | none => []
    | some c => c.data :: chainNodes nodes fuel c.next

def bucketChain (t : HashTable α z) (i : Fin z.1.toNat) : List (HashNode α) :=
  chainNodes t.nodes (chainFuel t.nodes) (t.table i)

/-- The entry is behind the others in its bucket chain, and the other chains are as they were. -/
structure EntryAppended (t t' : HashTable α z) (data : α) (key : CString) : Prop where
  /-- The entry is the last one in the chain of its key. -/
  own : bucketChain t' (bucket z key) =
    bucketChain t (bucket z key) ++ [⟨key.take maxKeySize, data⟩]
  /-- The other chains are as before. -/
  others : ∀ i, i ≠ bucket z key → bucketChain t' i = bucketChain t i

/-- `E_SUCCESS` if and only if the entry has been appended, and no change otherwise. -/
def AddReports (t : HashTable α z) (data : Option α) (key : Option CString)
    (r : Option (ExitCode × HashTable α z)) : Prop :=
  ∃ c t', r = some (c, t') ∧
    (c = .success ↔ ∃ d k, data = some d ∧ key = some k ∧ EntryAppended t t' d k) ∧
    (c ≠ .success → t' = t)

/-- `E_SUCCESS` with an array only, and no store through NULL. -/
def ListingReports (r : Listing) : Prop :=
  r ≠ .error .throughNull ∧ ∀ count results, r = .ok (.success, count, results) → results ≠ none

end CmakeTemplate
