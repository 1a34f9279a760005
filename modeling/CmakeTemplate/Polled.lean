/-
What `poll` was called with, and what it reported.

The main loop and the workers are those of `Generations.lean`.  `call` is what there is to say
of the latest call of `poll` that has returned: how many entries it was given, their
descriptors, and the events it reported for them.  Nothing in the code reads it; it is there
so that what the main loop acts on can be compared with what was reported.

The loop acts on an entry by the `revents` it finds in the array, and by then the array may
have other entries: a worker that puts a client back writes a descriptor into a slot whose
`revents` are from before, and `poll` may never have been given that slot.  An entry is acted
on when it is closed, accepted on, or given to a job.
-/
import CmakeTemplate.Generations

namespace CmakeTemplate

open Lib

structure PollCall where
  /-- How many entries `poll` was given. -/
  count : Nat
  /-- The descriptor in each of them. -/
  fds : Nat → Int
  /-- The events it reported. -/
  revents : Nat → UInt16

structure PolledState where
  /-- The server. -/
  arr : ArrState
  /-- The latest call of `poll`. -/
  call : PollCall

/-- The latest call behind an event; without an entry that is ready it reports nothing. -/
def PolledState.callAfter (s : PolledState) (ev : ArrEvent) : PollCall :=
  match ev, s.arr.main with
  | .pollReturns (.ready revents), .polling count =>
    { count, fds := fun idx => (s.arr.mgr.fdArr idx).fd, revents }
  | .pollReturns _, .polling count =>
    { count, fds := fun idx => (s.arr.mgr.fdArr idx).fd, revents := fun _ => 0 }
  | _, _ => s.call

def polledStep (s : PolledState) (ev : ArrEvent) : Option PolledState :=
  (arrStep s.arr ev).map fun arr => { arr, call := s.callAfter ev }

def polledStart (fd maxClients : Int) : PolledState :=
  { arr := arrStart fd maxClients, call := { count := 0, fds := fun _ => -1, revents := fun _ => 0 } }

def polledSystem (fd maxClients : Int) : System PolledState ArrEvent where
  init s := s = polledStart fd maxClients
  step := polledStep

/-! ### Acting on events

Which actions were reported, and which slots could lead to one that was not.
-/

/-- `poll` was given the entry, with the descriptor it has now, and reported one of the events. -/
def Reports (s : PolledState) (idx : Nat) (events : UInt16) : Prop :=
  idx < s.call.count ∧ (s.arr.mgr.fdArr idx).fd = s.call.fds idx ∧
    s.call.revents idx &&& events ≠ 0

/-- The entry that is about to be closed, accepted on or given to a job was reported. -/
def Reported (s : PolledState) : Prop :=
  match s.arr.main with
  | .closing idx _ _ => Reports s idx pollErrorEvents
  | .registering idx _ => Reports s idx pollIn
  | .submitting idx _ => Reports s idx pollIn
  | _ => True

/-- The slot has no event that `handle_connections` would act on. -/
def PollFd.Silent (p : PollFd) : Prop :=
  p.revents &&& pollErrorEvents = 0 ∧ p.revents &&& pollIn = 0

/-- The pass comes to no slot that `poll` was not given and that has an event. -/
def Covered (s : PolledState) : ArrEvent → Prop
  | .go => ∀ idx count ok, s.arr.main = .scan idx count ok → idx < count →
      idx < s.call.count ∨ (s.arr.mgr.fdArr idx).Silent
  | _ => True

end CmakeTemplate
