/-
The hash table of `hash_table.c`.

A table is an array of chains of nodes.  The array is a function from the indices below the
size, so there is no index out of bounds; `hash` reduces modulo the size, and
`hash_table_init` refuses the size 0.  The key buffer of a node is part of the node, as it is
made and freed together with it.  `customfree` is known by what it is called on, which `freed`
records in its order; a NULL in its place is replaced by `free` when the table is made, so
there always is one.

Three lengths meet here: `hash` reads the whole key, a node keeps its first 64 characters, and
two keys are compared on their first 50.  Loops along a chain run on a fuel of one more than
the number of addresses handed out, which a walk that does not meet a node twice never needs
more of.
-/
import CmakeTemplate.Core
import CmakeTemplate.Lib.Chain
import Mathlib.Logic.Function.Basic
import Mathlib.Data.List.FinRange

namespace CmakeTemplate

open Lib

/-! ### Strings

A string cannot have a zero inside, so the structure carries a proof of that.  `strncmp` sees
the characters in front of its bound, and no character behind the end of either string.
-/

/-- A string: the characters in front of the terminating `'\0'`. -/
@[ext] structure CString where
  /-- The characters. -/
  chars : List UInt8
  /-- None of them is the terminating one. -/
  noNul : 0 ∉ chars
  deriving DecidableEq

/-- What `strncpy` copies into a buffer of zeroes that is one longer than `n`. -/
def CString.take (s : CString) (n : Nat) : CString :=
  ⟨s.chars.take n, fun h => s.noNul (List.mem_of_mem_take h)⟩

theorem CString.take_of_le {s : CString} {n : Nat} (h : s.chars.length ≤ n) : s.take n = s :=
  CString.ext (List.take_of_length_le h)

def strncmp : List UInt8 → List UInt8 → Nat → Int
  | _, _, 0 => 0
  | [], [], _ + 1 => 0
  | c :: _, [], _ + 1 => c.toNat
  | [], d :: _, _ + 1 => - d.toNat
  | c :: cs, d :: ds, n + 1 => if c = d then strncmp cs ds n else c.toNat - d.toNat

/-! ### The table

A new node is hung on the last one of its chain; a lookup and a removal take the first node
whose key agrees with theirs.
-/

/-- `BASE`. -/
def hashBase : UInt32 := 256

/-- `PRIME`. -/
def hashPrime : UInt32 := 65521

/-- `MAX_KEY_SIZE`. -/
def maxKeySize : Nat := 64

/-- `MAX_LENGTH`. -/
def maxLength : Nat := 50

/-- What a `node_t` holds, less `next`. -/
structure HashNode (α : Type) where
  /-- What the node keeps of the key. -/
  key : CString
  /-- The data of the user. -/
  data : α
  deriving DecidableEq

/-- The sizes `hash_table_init` accepts. -/
abbrev TableSize := { size : UInt32 // size ≠ 0 }

/-- `hash_table_t` and the nodes; `freed` is what `customfree` has been called on. -/
structure HashTable (α : Type) (z : TableSize) where
  /-- The first node of each chain. -/
  table : Fin z.1.toNat → Ptr
  /-- The nodes of all chains. -/
  nodes : Store (SCell (HashNode α))
  /-- What `customfree` has been called on. -/
  freed : List α

variable {α : Type} {z : TableSize}

def hashTableInit (z : TableSize) : HashTable α z :=
  { table := fun _ => none, nodes := .empty, freed := [] }

/-- `hash`. -/
def hash (size : UInt32) (key : CString) : UInt32 :=
  key.chars.foldl (fun target letter => (target * hashBase + letter.toUInt32) % hashPrime) 0 % size

theorem hash_lt (z : TableSize) (key : CString) : (hash z.1 key).toNat < z.1.toNat := by
  rw [hash, UInt32.toNat_mod]
  exact Nat.mod_lt _ (Nat.pos_of_ne_zero fun h => z.2 (UInt32.toNat_inj.mp h))

/-- The index of the chain for `key`. -/
def bucket (z : TableSize) (key : CString) : Fin z.1.toNat := ⟨(hash z.1 key).toNat, hash_lt z key⟩

/-- Enough for a walk that does not meet a node twice. -/
def chainFuel (nodes : Store (SCell (HashNode α))) : Nat := nodes.next + 1

/-- The loop of `hash_table_add`, from a node on. -/
def lastNode (nodes : Store (SCell (HashNode α))) : Nat → Nat → Option Nat
  | 0, _ => none
  | fuel + 1, currentNode => do
    let c ← nodes.get currentNode
    match c.next with
    | none => some currentNode
    | some next => lastNode nodes fuel next

/-- `hash_table_add`; `calloc` is the outcome of `new_node`. -/
def hashTableAdd (t : HashTable α z) (data : Option α) (key : Option CString) (calloc : Bool) :
    Option (ExitCode × HashTable α z) :=
  match data, key with
  | some data, some key =>
    if calloc then
      let nodes := (t.nodes.alloc ⟨⟨key.take maxKeySize, data⟩, none⟩).1
      let newNode := (t.nodes.alloc ⟨⟨key.take maxKeySize, data⟩, none⟩).2
      match t.table (bucket z key) with
      | none =>
        some (.success, { t with
          nodes, table := Function.update t.table (bucket z key) (some newNode) })
      | some currentNode => do
        let last ← lastNode nodes (chainFuel nodes) currentNode
        let nodes ← nodes.assign (some last) fun c => { c with next := some newNode }
        some (.success, { t with nodes })
    else
      -- `exit_code` is still what `hash` returned
      some (.success, t)
  | _, _ => some (.failure, t)

/-- The loop of `hash_table_lookup`. -/
def lookupLoop (nodes : Store (SCell (HashNode α))) (key : CString) :
    Nat → Ptr → Option (Option α)
  | _, none => some none
  | 0, some _ => none
  | fuel + 1, some currentNode => do
    let c ← nodes.get currentNode
    if strncmp c.data.key.chars key.chars maxLength = 0 then some (some c.data.data)
    else lookupLoop nodes key fuel c.next

/-- `hash_table_lookup`. -/
def hashTableLookup (t : HashTable α z) (key : Option CString) : Option (Option α) :=
  match key with
  | none => some none
  | some key => lookupLoop t.nodes key (chainFuel t.nodes) (t.table (bucket z key))

/-- The loop of `hash_table_remove`; it ends with the first removal. -/
def removeLoop (t : HashTable α z) (key : CString) :
    Nat → Ptr → Ptr → Option (ExitCode × HashTable α z)
  | _, _, none => some (.failure, t)
  | 0, _, some _ => none
  | fuel + 1, prevNode, some currentNode => do
    let c ← t.nodes.get currentNode
    if strncmp c.data.key.chars key.chars maxLength ≠ 0 then
      removeLoop t key fuel (some currentNode) c.next
    else
      let t ← match prevNode with
        | none => some { t with table := Function.update t.table (bucket z key) c.next }
        | some _ =>
          (t.nodes.assign prevNode fun p => { p with next := c.next }).map fun nodes =>
            { t with nodes }
      let nodes ← t.nodes.free (some currentNode)
      some (.success, { t with nodes, freed := t.freed ++ [c.data.data] })

/-- `hash_table_remove`. -/
def hashTableRemove (t : HashTable α z) (key : Option CString) :
    Option (ExitCode × HashTable α z) :=
  match key with
  | none => some (.failure, t)
  | some key => removeLoop t key (chainFuel t.nodes) none (t.table (bucket z key))

/-- The inner loop of `hash_table_clear`. -/
def clearChain (t : HashTable α z) : Nat → Ptr → Option (HashTable α z)
  | _, none => some t
  | 0, some _ => none
  | fuel + 1, some currentNode => do
    let c ← t.nodes.get currentNode
    let nodes ← t.nodes.free (some currentNode)
    clearChain { t with nodes, freed := t.freed ++ [c.data.data] } fuel c.next

/-- The outer loop of `hash_table_clear`, over the indices that are left. -/
def clearTable (t : HashTable α z) : List (Fin z.1.toNat) → Option (HashTable α z)
  | [] => some t
  | idx :: rest => do
    let t ← clearChain t (chainFuel t.nodes) (t.table idx)
    clearTable { t with table := Function.update t.table idx none } rest

/-- `hash_table_clear`. -/
def hashTableClear (t : HashTable α z) : Option (ExitCode × HashTable α z) :=
  (clearTable t (List.finRange z.1.toNat)).map fun t => (.success, t)

/-! ### Listing

Both functions put the keys they come to into a buffer that has a slot for each chain of the
array, however many keys there are.
-/

/-- `strstr` finds `needle`. -/
def strstr (haystack needle : List UInt8) : Bool := haystack.tails.any needle.isPrefixOf

/-- The inner loop of `hash_table_list` and `hash_table_find`, behind the keys in the buffer.
`buffer` has a slot for each chain, and there is no writing behind it. -/
def collectChain (nodes : Store (SCell (HashNode α))) (size : Nat) (wanted : CString → Bool) :
    Nat → Ptr → List CString → Option (List CString)
  | _, none, buffer => some buffer
  | 0, some _, _ => none
  | fuel + 1, some current, buffer => do
    let c ← nodes.get current
    if wanted c.data.key then
      if buffer.length < size then
        -- `strndup`
        collectChain nodes size wanted fuel c.next (buffer ++ [c.data.key.take maxKeySize])
      else none
    else collectChain nodes size wanted fuel c.next buffer

/-- The outer loop, over the indices that are left. -/
def collectTable (t : HashTable α z) (wanted : CString → Bool) :
    List (Fin z.1.toNat) → List CString → Option (List CString)
  | [], buffer => some buffer
  | idx :: rest, buffer => do
    let buffer ← collectChain t.nodes z.1.toNat wanted (chainFuel t.nodes) (t.table idx) buffer
    collectTable t wanted rest buffer

/-- `hash_table_list`, once its allocations have succeeded. -/
def hashTableList (t : HashTable α z) : Option (List CString) :=
  collectTable t (fun _ => true) (List.finRange z.1.toNat) []

/-- `hash_table_find`, once its allocations have succeeded. -/
def hashTableFind (t : HashTable α z) (search : CString) : Option (List CString) :=
  collectTable t (fun key => strstr key.chars search.chars) (List.finRange z.1.toNat) []

/-! ### Runs

A run is made of additions, lookups and removals, each with the outcome of its allocation.
-/

inductive HashOp (α : Type)
  | add (key : CString) (data : α) (calloc : Bool)
  | remove (key : CString)
  | lookup (key : CString)
  | clear

def hashExec (t : HashTable α z) : HashOp α → Option (HashTable α z)
  | .add key data calloc => (hashTableAdd t (some data) (some key) calloc).map Prod.snd
  | .remove key => (hashTableRemove t (some key)).map Prod.snd
  | .lookup key => (hashTableLookup t (some key)).map fun _ => t
  | .clear => (hashTableClear t).map Prod.snd

def hashRun (t : HashTable α z) : List (HashOp α) → Option (HashTable α z)
  | [] => some t
  | op :: ops => (hashExec t op).bind fun t => hashRun t ops

/-- The key a call is made with, if it takes one. -/
def HashOp.key? : HashOp α → Option CString
  | .add key _ _ => some key
  | .remove key => some key
  | .lookup key => some key
  | .clear => none

end CmakeTemplate
