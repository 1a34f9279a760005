/-
`queue_clear` beside other users of the queue.

The threads of `Queue.lean` run with one more, `none`, which is in `queue_clear`.  It reads
`current_size` without the mutex, which is a step of its own, and then calls `queue_dequeue`
like any other thread.  What `queue_dequeue` returns goes to `customfree` in the step that
gives the mutex back: nothing of the queue is touched in between.

Between the test and the call another thread may take the last element.  The clearing thread
then waits in `queue_dequeue` for an element that may never come; and once the flag is set,
`queue_dequeue` returns NULL, which goes to `customfree` like any element.  So what the
clearing thread frees is kept as a list of pointers with NULL in it, and the question is in
which runs none is.
-/
import CmakeTemplate.Queue
import Mathlib.Data.Fintype.Option

namespace CmakeTemplate

open Lib

variable {T α : Type}

/-- Where the clearing thread is in `queue_clear`. -/
inductive ClearPc
  | idle
  /-- About to read `current_size`. -/
  | test
  /-- In `queue_dequeue`. -/
  | dequeue
  | returned (c : ExitCode)
  deriving DecidableEq

/-- `freed` are the arguments of the calls of `customfree`, NULL as `none`. -/
structure ClearState (T α : Type) where
  /-- The queue, with the clearing thread among its threads. -/
  queue : QState (Option T) α
  /-- Where that thread is in `queue_clear`. -/
  clear : ClearPc
  /-- The arguments of `customfree`, in their order. -/
  freed : List (Option α)

inductive ClearEvent (T α : Type)
  | call
  | test
  /-- The clearing thread takes the mutex in `queue_dequeue`, or takes it again. -/
  | dequeue (woken : List (Option T))
  | other (ev : QEvent (Option T) α)

/-- The thread that takes the step. -/
def QEvent.thread : QEvent T α → Option T
  | .callEnqueue t _ _ => some t
  | .callDequeue t => some t
  | .lock t _ => some t
  | .peek t => some t
  | .ret t => some t
  | .spurious _ => none
  | .signal => none
  | .broadcast => none

variable [DecidableEq T] [Fintype T]

/-- `queue_clear`, with the other threads. -/
def clearStep (s : ClearState T α) : ClearEvent T α → Option (ClearState T α)
  | .call => if s.clear = .idle then some { s with clear := .test } else none
  | .test =>
    if s.clear = .test then
      if s.queue.queue.currentSize > 0 then do
        let queue ← queueStep s.queue (.callDequeue none)
        some { s with queue, clear := .dequeue }
      else some { s with clear := .returned .success }
    else none
  | .dequeue woken =>
    if s.clear = .dequeue then do
      let queue ← queueStep s.queue (.lock none woken)
      match queue.pc none with
      | .returned (.data data) => do
        let queue ← queueStep queue (.ret none)
        some { queue, clear := .test, freed := s.freed ++ [data] }
      | _ => some { s with queue }
    else none
  | .other ev =>
    if ev.thread = some none then none
    else do
      let queue ← queueStep s.queue ev
      some { s with queue }

/-- One thread in `queue_clear` and any number of others on one queue. -/
def clearSystem (T α : Type) [DecidableEq T] [Fintype T] (maxSize : UInt32) :
    System (ClearState T α) (ClearEvent T α) where
  init s := s = { queue := queueStart (Option T) maxSize, clear := .idle, freed := [] }
  step := clearStep

end CmakeTemplate
