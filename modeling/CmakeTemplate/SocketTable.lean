/-
Calls on a socket manager by one thread.

`sockExec` is one call, with the `int` that `sock_fd_remove` takes as its index.  A call on a
locked manager does not return.  `fd_capacity` is a number here, as it is in C while it stays
below `2 ^ 30`.

`SockTable` keeps a ledger beside the manager, for the statements only: the descriptors that
were added, and those that stood at the index when one was removed.  What is in the table is
then what was added and has not been removed, each as often as that, in any order, as a
removal moves the last descriptor.

A call that is refused may leave the mutex locked, and no call returns after that.  A removal
at index 0, the server's own entry, is no use of the table, and `InRange` leaves it out,
together with calls that have no memory and indices without an entry.
-/
import CmakeTemplate.Server

namespace CmakeTemplate

open Lib

/-- `sock_fd_remove` with any `int`. -/
def sockFdRemoveAt (m : SocketManager) (index : Int) : Option (ExitCode × SocketManager) :=
  if m.locked then none
  else if index < 0 then some (.failure, { m with locked := true })
  else sockFdRemove m index.toNat

inductive SockOp
  | add (fd : Int) (realloc : Option (Nat → PollFd))
  | remove (index : Int)

def sockExec (m : SocketManager) : SockOp → Option (ExitCode × SocketManager)
  | .add fd realloc => sockFdAdd m fd realloc
  | .remove index => sockFdRemoveAt m index

/-- The slots a successful call reads or writes, behind the growth of the array. -/
def slotsUsed (m : SocketManager) : SockOp → List Nat
  | .add _ _ => [m.fdCount]
  | .remove index => [index.toNat, m.fdCount - 1]

/-- The array has as many slots as the manager says, and there is room for those in use. -/
structure SocketManager.WellFormed (m : SocketManager) : Prop where
  /-- The descriptors fit into the array. -/
  room : m.fdCount ≤ m.fdCapacity
  /-- The array has the slots that it is said to have. -/
  capacity : m.fdCapacity = m.allocated
  /-- It has one at least. -/
  pos : 0 < m.fdCapacity

/-- A manager and what calls have been made on it. -/
structure SockTable where
  /-- The manager. -/
  mgr : SocketManager
  /-- What has been added. -/
  added : Multiset Int
  /-- What has been removed. -/
  taken : Multiset Int

def sockStep (s : SockTable) (op : SockOp) : Option SockTable := do
  let (exitCode, mgr) ← sockExec s.mgr op
  if exitCode = .success then
    match op with
    | .add fd _ => some { s with mgr, added := fd ::ₘ s.added }
    | .remove index =>
      some { s with mgr, taken := (s.mgr.fdArr index.toNat).fd ::ₘ s.taken }
  else some { s with mgr }

/-- The runs of calls behind `sock_mgr_init` on a manager of zeros. -/
def sockSystem (serverFd maxFds : Int) : System SockTable SockOp where
  init s := s =
    ⟨sockMgrInit zeroManager serverFd maxFds defaultFdCapacity, 0, 0⟩
  step := sockStep

/-- There is memory for a larger array, and the server's own descriptor is not removed. -/
def InRange (s : SockTable) : SockOp → Prop
  | .add _ realloc => realloc.isSome
  | .remove index => 1 ≤ index ∧ index < s.mgr.fdCount

/-- The runs of calls on a given manager. -/
def lockSystem (m₀ : SocketManager) : System SocketManager SockOp where
  init m := m = m₀
  step m op := (sockExec m op).map Prod.snd

/-- The calls that give the mutex back. -/
def Releases (m : SocketManager) : SockOp → Prop
  | .add _ realloc => m.fdCount = m.fdCapacity → realloc.isSome
  | .remove index => 0 ≤ index ∧ index < m.fdCount

end CmakeTemplate
