/-
`list_pick_random_item` of `linked_list.c`.

The function asks `random_number` for an index between 0 and the size of the list less one,
and walks there from the head.  A list that is empty, or that has more elements than an `int`
counts, is refused in front.  A call has what `random` returns and the state of the seed as
arguments, and returns the state that the call of `random_number` leaves.

The loop stops at NULL, and returns NULL then.  It does not come to the end of the list as
long as the index is below the number of nodes, which it is where `random_number` succeeds.
-/
import CmakeTemplate.LinkedList
import CmakeTemplate.NumberGenerator

namespace CmakeTemplate

open Lib

variable {α : Type}

/-- The loop with `k` nodes to go, which stops at NULL. -/
def pickLoop (nodes : Store (ListNode α)) : Nat → Ptr → Option Ptr
  | _, none => some none
  | 0, some a => some (some a)
  | k + 1, some a => do
    let node ← nodes.get a
    pickLoop nodes k node.next

/-- `list_pick_random_item`: the data, or NULL. -/
def listPickRandomItem (state : SeedState) (sources : SeedSources) (random : Int) (m : ListMem α)
    (list : Option (ListT α)) : Option (Option α × SeedState) :=
  match list with
  | none => some (none, state)
  | some list =>
    if list.size = 0 then some (none, state)
    else if (list.size.toNat : Int) > int32Max then some (none, state)
    else do
      let (exitCode, randomIndex, state) ←
        randomNumber state sources random 0 (Int32.ofNat (list.size - 1).toNat) (some 0)
      if .success ≠ exitCode then some (none, state)
      else do
        let node ← pickLoop m.nodes (randomIndex.getD 0).toInt.toNat list.head
        if node = none then some (none, state)
        else (m.nodes.load node).map fun n => (n.data, state)

end CmakeTemplate
