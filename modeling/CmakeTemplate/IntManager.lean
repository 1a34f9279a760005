/-
The socket manager with the `int`s of the source, and with writes outside its array.

`Server.lean` has numbers for `fd_count` and `fd_capacity`, and gives a write outside the
array no outcome.  Here any `int` may be in the fields and in the arguments, and a write
outside is noted in `outside`; the fields stay what they are.  A request to `realloc` for
a positive number of slots succeeds; one for none frees the array and returns NULL, and a
negative number, which becomes a size that no object has, fails.
-/
import CmakeTemplate.Server
import Mathlib.Algebra.Group.Nat.Defs

namespace CmakeTemplate

open Lib

/-- `socket_manager_t`. -/
structure IntManager where
  /-- What is in a slot. -/
  fdArr : Nat → PollFd
  /-- How many slots the array has. -/
  allocated : Int
  /-- `max_fds`. -/
  maxFds : Int
  /-- `fd_count`. -/
  fdCount : Int
  /-- `fd_capacity`. -/
  fdCapacity : Int
  /-- `fd_mutex` was left locked. -/
  locked : Bool
  /-- A slot outside the array was written. -/
  outside : Bool

/-- The value of an `int` expression, on a machine where it wraps. -/
def wrapInt (x : Int) : Int := x.bmod (2 ^ 32)

namespace IntManager

/-- A write to `fd_arr[idx]`. -/
def write (m : IntManager) (idx : Int) (e : PollFd) : IntManager :=
  if 0 ≤ idx ∧ idx < m.allocated then
    { m with fdArr := Function.update m.fdArr idx.toNat e }
  else { m with outside := true }

/-- The loop of `sock_fd_arr_init`, over `idx = 1, …, n`. -/
def markUnused (m : IntManager) : Nat → IntManager
  | 0 => m
  | n + 1 =>
    let m := m.markUnused n
    m.write (n + 1) { m.fdArr (n + 1) with fd := -1, events := 0 }

/-- `sock_fd_arr_init`. -/
def sockFdArrInit (m : IntManager) (serverFd : Int) (calloc : Bool) : ExitCode × IntManager :=
  if calloc then
    let m := { m with
      fdArr := fun _ => ⟨0, 0, 0⟩, allocated := defaultFdCapacity, outside := false }
    let m := m.write 0 { m.fdArr 0 with fd := serverFd, events := pollIn }
    (.success, m.markUnused (m.maxFds - 1).toNat)
  else (.failure, m)

/-- `sock_mgr_init`. -/
def sockMgrInit (m : IntManager) (serverFd maxFds fdCapacity : Int) (calloc : Bool) :
    ExitCode × IntManager :=
  if 0 ≥ maxFds then (.failure, m)
  else
    match m.sockFdArrInit serverFd calloc with
    | (.success, m) => (.success, { m with fdCount := 1, fdCapacity, maxFds, locked := false })
    | (c, m) => (c, m)

/-- `sock_fd_increase_capacity`; `fresh` is what new slots hold. -/
def sockFdIncreaseCapacity (m : IntManager) (fresh : Nat → PollFd) : ExitCode × IntManager :=
  let newCapacity := wrapInt (m.fdCapacity * 2)
  if 0 < newCapacity then
    (.success, { m with
      fdArr := fun idx => if (idx : Int) < m.allocated then m.fdArr idx else fresh idx
      allocated := newCapacity
      fdCapacity := newCapacity })
  else if newCapacity = 0 then (.failure, { m with allocated := 0 })
  else (.failure, m)

/-- The end of `sock_fd_add`. -/
def sockFdAppend (m : IntManager) (newFd : Int) : ExitCode × IntManager :=
  let m := m.write m.fdCount { m.fdArr m.fdCount.toNat with fd := newFd, events := pollIn }
  (.success, { m with fdCount := wrapInt (m.fdCount + 1) })

/-- `sock_fd_add`. -/
def sockFdAdd (m : IntManager) (newFd : Int) (fresh : Nat → PollFd) :
    Option (ExitCode × IntManager) :=
  if m.locked then none
  else if m.fdCount = m.fdCapacity then
    match m.sockFdIncreaseCapacity fresh with
    | (.success, m) => some (m.sockFdAppend newFd)
    | (c, m) => some (c, { m with locked := true })
  else some (m.sockFdAppend newFd)

end IntManager

/-- Calls of `sock_fd_add` on a manager. -/
def addSystem (m₀ : IntManager) : System IntManager (Int × (Nat → PollFd)) where
  init m := m = m₀
  step m call := (m.sockFdAdd call.1 call.2).map Prod.snd

/-- The initialisation writes inside the array, records a capacity that the array has, and no
run of `sock_fd_add` writes outside. -/
def InitMatches (m : IntManager) (serverFd maxFds fdCapacity : Int) : Prop :=
  ∀ calloc m', m.sockMgrInit serverFd maxFds fdCapacity calloc = (.success, m') →
    m'.outside = false ∧ (1 ≤ m'.fdCapacity ∧ m'.fdCapacity ≤ m'.allocated) ∧
      ∀ m'', (addSystem m').Reach m'' → m''.outside = false

end CmakeTemplate
