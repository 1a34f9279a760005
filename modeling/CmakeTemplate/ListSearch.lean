/-
The four searches of `linked_list.c` for a datum.

`list_contains`, `list_find_first_occurrence`, `list_find_all_occurrences` and the search of
`list_remove_data` ask the same question of a list: is the datum in it?  Two of the loops
count the nodes and two walk until NULL, and `list_contains` alone hands the searched data to
the comparator second.  On a comparator that takes its arguments either way round they have to
agree; the comparators of the library do not all do so.

`find_node`, which `list_remove_data` calls, is with the other removals, and
`list_find_all_occurrences` with the lists it makes.  `SearchesAgree` says what the four have
to say of one list and one datum, with whatever allocations `list_find_all_occurrences` gets.
-/
import CmakeTemplate.Comparators
import CmakeTemplate.Ownership
import CmakeTemplate.Sequence

namespace CmakeTemplate

open Lib

variable {α : Type}

/-- The loop of `list_find_first_occurrence` with `rest` nodes to go. -/
def findFirstLoop (nodes : Store (ListNode α)) (compareFunc : Option α → Option α → CompRtns)
    (searchData : Option α) : Nat → Ptr → Option Ptr
  | 0, _ => some none
  | rest + 1, currentNode => do
    let node ← nodes.load currentNode
    if compareFunc searchData node.data = .equal then some currentNode
    else findFirstLoop nodes compareFunc searchData rest node.next

/-- `list_find_first_occurrence`: the node, or NULL. -/
def listFindFirstOccurrence (m : ListMem α) (list : ListT α) (searchData : Option α) : Option Ptr :=
  findFirstLoop m.nodes list.compareFunc searchData list.size.toNat list.head

/-- The loop of `list_contains`. -/
def containsLoop (nodes : Store (ListNode α)) (compareFunc : Option α → Option α → CompRtns)
    (data : Option α) : Nat → Ptr → Option Bool
  | _, none => some false
  | 0, some _ => none
  | fuel + 1, some current => do
    let node ← nodes.get current
    if compareFunc node.data data = .equal then some true
    else containsLoop nodes compareFunc data fuel node.next

/-- `list_contains`. -/
def listContains (m : ListMem α) (list : ListT α) (data : Option α) : Option Bool :=
  if data.isNone then some false
  else containsLoop m.nodes list.compareFunc data (walkFuel m.nodes) list.head

/-- What the four searches for `d` say about a list that holds `xs`; `new` and `calloc` are the
outcomes of the allocations that `list_find_all_occurrences` makes. -/
structure SearchesAgree (s : ListMem α × ListT α) (xs : List α) (d : α) (new : Bool)
    (calloc : Nat → Bool) : Prop where
  /-- Either all of them find something or none of them does. -/
  agree : ∃ contains first m all, listContains s.1 s.2 (some d) = some contains ∧
    listFindFirstOccurrence s.1 s.2 (some d) = some first ∧
    listFindAllOccurrences s.1 s.2 (some d) new calloc = some (m, all) ∧
    (contains = true ↔ first ≠ none) ∧
    (first ≠ none ↔ ∃ newList, all = some newList ∧ newList.size ≠ 0) ∧
    (first ≠ none ↔ ∃ m' list', listRemoveData s.1 s.2 (some d) = some (m', list', .success))
  /-- A list of occurrences holds what the test of `list_find_first_occurrence` is passed by. -/
  holds : ∀ m newList,
    listFindAllOccurrences s.1 s.2 (some d) new calloc = some (m, some newList) →
    ∃ ys : List α, listData (m, newList) = ys.map some ∧ newList.size.toNat = ys.length ∧
      ys.Perm (xs.filter (Matches s.2.compareFunc d))

end CmakeTemplate
