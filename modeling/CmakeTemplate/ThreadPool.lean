/-
The thread pool of `thread_pool.c`.

The task queue is the queue of `queue.c` with its threads: the pool's threads make their
calls on it through the steps of `queueStep`, and the state below adds where each of them
is outside the queue.  There are any number of submitters and of workers, and one thread
that shuts the pool down and destroys it.

A task is what `create_task` allocates: `id` is the allocation, and `argFree` says
whether it was given an `arg_free`.  Its function is never NULL, which `add_task`
checks.  The lists at the end of the state are kept for the statements only.

Once `thread_pool_destroy` has returned there is no pool left, and no further step of it
has a meaning.
-/
import CmakeTemplate.Queue
import Mathlib.Data.Fintype.Sum
import Mathlib.Tactic.DeriveFintype

namespace CmakeTemplate

open Lib

/-- `task_t`. -/
structure TaskT where
  /-- The allocation. -/
  id : Nat
  /-- Whether there is an `arg_free`. -/
  argFree : Bool
  deriving DecidableEq, Repr

/-- The threads of a program with a pool. -/
inductive PThread (S W : Type)
  | submitter (s : S)
  | worker (w : W)
  | main
  deriving DecidableEq, Fintype

/-- A thread in `thread_pool_add_task`. -/
inductive SubmitterPc
  | idle
  /-- `signal_flag` was not SHUTDOWN. -/
  | checked (argFree : Bool)
  | created (task : TaskT)
  /-- In `queue_enqueue`. -/
  | enqueueing (task : TaskT)

/-- A thread in `thread_routine`. -/
inductive WorkerPc
  | loop
  /-- In `queue_dequeue`. -/
  | dequeueing
  /-- In `process_task`, before, in and after `exe_function`. -/
  | got (task : TaskT)
  | running (task : TaskT)
  | ran (task : TaskT)
  /-- Behind `process_task`. -/
  | processed (task : TaskT)
  | exited

/-- The thread in `thread_pool_shutdown` and `thread_pool_destroy`, which makes the same
call first; `destroying` tells the two apart. -/
inductive MainPc
  | idle
  | broadcast (destroying : Bool)
  | join (destroying : Bool)
  /-- In the loop of `queue_clear`. -/
  | clear
  | clearing
  | destroyed

variable {S W : Type} [DecidableEq S] [DecidableEq W]

structure PoolState (S W : Type) where
  /-- The task queue, with where each thread is in a call on it. -/
  q : QState (PThread S W) TaskT
  /-- Where each submitter is in `thread_pool_add_task`. -/
  submitter : S → SubmitterPc
  /-- Where each worker is in `thread_routine`. -/
  worker : W → WorkerPc
  /-- Where the thread is that shuts the pool down. -/
  main : MainPc
  /-- The allocation the next task will be. -/
  nextTask : Nat
  /-- The tasks `add_task` has returned E_SUCCESS for. -/
  returned : List TaskT
  /-- The tasks whose function has been called, and has returned. -/
  started : List TaskT
  /-- The tasks whose function has returned. -/
  executed : List TaskT
  /-- The tasks whose argument has been freed. -/
  argFreed : List TaskT
  /-- The tasks that `queue_clear` has freed. -/
  discarded : List TaskT

inductive PoolEvent (S W : Type)
  /-- `add_task` up to its test of `signal_flag`. -/
  | addTask (s : S) (argFree : Bool)
  | createTask (s : S) (calloc : Bool)
  | enqueueTask (s : S) (calloc : Bool)
  | taskAdded (s : S)
  /-- A step of a thread inside the queue. -/
  | lock (t : PThread S W) (woken : List (PThread S W))
  | spurious (t : PThread S W)
  /-- The test of `signal_flag` in `thread_routine`. -/
  | loop (w : W)
  | taskTaken (w : W)
  | execute (w : W)
  | executed (w : W)
  | argFree (w : W)
  | freeTask (w : W)
  | signal
  | shutdown
  | destroy
  | broadcast
  | join
  | clear
  | cleared

variable [Fintype S] [Fintype W]

/-- A step of the queue and what the pool makes of it. -/
def queueDo (s : PoolState S W) (ev : QEvent (PThread S W) TaskT)
    (f : PoolState S W → PoolState S W) : Option (PoolState S W) :=
  (queueStep s.q ev).map fun q => f { s with q }

/-- One step of a thread in `thread_pool_add_task`. -/
def submitterStep (s : PoolState S W) (i : S) : PoolEvent S W → Option (PoolState S W)
  | .addTask _ argFree =>
    match s.submitter i with
    | .idle =>
      if s.q.shutdown then some s
      else some { s with submitter := Function.update s.submitter i (.checked argFree) }
    | _ => none
  | .createTask _ calloc =>
    match s.submitter i with
    | .checked argFree =>
      if calloc then
        some { s with
          nextTask := s.nextTask + 1
          submitter := Function.update s.submitter i (.created ⟨s.nextTask, argFree⟩) }
      else some { s with submitter := Function.update s.submitter i .idle }
    | _ => none
  | .enqueueTask _ calloc =>
    match s.submitter i with
    | .created task =>
      queueDo s (.callEnqueue (.submitter i) (some task) calloc) fun s =>
        { s with submitter := Function.update s.submitter i (.enqueueing task) }
    | _ => none
  | .taskAdded _ =>
    match s.submitter i, s.q.pc (.submitter i) with
    | .enqueueing task, .returned (.code .success) =>
      queueDo s (.ret (.submitter i)) fun s =>
        { s with
          submitter := Function.update s.submitter i .idle
          returned := s.returned ++ [task] }
    | .enqueueing _, .returned (.code _) =>
      -- the task is freed, `add_task` fails
      queueDo s (.ret (.submitter i)) fun s =>
        { s with submitter := Function.update s.submitter i .idle }
    | _, _ => none
  | _ => none

/-- One step of a worker in `thread_routine`. -/
def workerStep (s : PoolState S W) (w : W) : PoolEvent S W → Option (PoolState S W)
  | .loop _ =>
    match s.worker w with
    | .loop =>
      if s.q.shutdown then some { s with worker := Function.update s.worker w .exited }
      else
        queueDo s (.callDequeue (.worker w)) fun s =>
          { s with worker := Function.update s.worker w .dequeueing }
    | _ => none
  | .taskTaken _ =>
    match s.worker w, s.q.pc (.worker w) with
    | .dequeueing, .returned (.data (some task)) =>
      queueDo s (.ret (.worker w)) fun s =>
        { s with worker := Function.update s.worker w (.got task) }
    | .dequeueing, .returned (.data none) =>
      queueDo s (.ret (.worker w)) fun s =>
        { s with worker := Function.update s.worker w .loop }
    | _, _ => none
  | .execute _ =>
    match s.worker w with
    | .got task =>
      some { s with
        worker := Function.update s.worker w (.running task)
        started := s.started ++ [task] }
    | _ => none
  | .executed _ =>
    match s.worker w with
    | .running task =>
      some { s with
        worker := Function.update s.worker w (.ran task)
        executed := s.executed ++ [task] }
    | _ => none
  | .argFree _ =>
    match s.worker w with
    | .ran task =>
      some { s with
        worker := Function.update s.worker w (.processed task)
        argFreed := if task.argFree then s.argFreed ++ [task] else s.argFreed }
    | _ => none
  | .freeTask _ =>
    match s.worker w with
    | .processed _ => some { s with worker := Function.update s.worker w .loop }
    | _ => none
  | _ => none

def WorkerPc.isExited : WorkerPc → Bool
  | exited => true
  | _ => false

/-- One step of the thread in `thread_pool_shutdown` or `thread_pool_destroy`. -/
def mainStep (s : PoolState S W) : PoolEvent S W → Option (PoolState S W)
  | .shutdown =>
    match s.main with
    | .idle => some { s with main := .broadcast false }
    | _ => none
  | .destroy =>
    match s.main with
    | .idle => some { s with main := .broadcast true }
    | _ => none
  | .broadcast =>
    match s.main with
    | .broadcast destroying => queueDo s .broadcast fun s => { s with main := .join destroying }
    | _ => none
  | .join =>
    -- the joins wait for one worker after the other; none of them comes back
    match s.main with
    | .join destroying =>
      if ∀ w, (s.worker w).isExited then
        some { s with main := if destroying then .clear else .idle }
      else none
    | _ => none
  | .clear =>
    match s.main with
    | .clear =>
      if s.q.queue.currentSize > 0 then
        queueDo s (.callDequeue .main) fun s => { s with main := .clearing }
      else some { s with main := .destroyed }
    | _ => none
  | .cleared =>
    match s.main, s.q.pc .main with
    | .clearing, .returned (.data (some task)) =>
      -- `customfree` is `free`: it knows of no task
      queueDo s (.ret .main) fun s =>
        { s with main := .clear, discarded := s.discarded ++ [task] }
    | .clearing, .returned (.data none) => queueDo s (.ret .main) fun s => { s with main := .clear }
    | _, _ => none
  | _ => none

def MainPc.isDestroyed : MainPc → Bool
  | destroyed => true
  | _ => false

def poolStep (s : PoolState S W) (ev : PoolEvent S W) : Option (PoolState S W) :=
  if s.main.isDestroyed then none
  else match ev with
    | .addTask i _ | .createTask i _ | .enqueueTask i _ | .taskAdded i => submitterStep s i ev
    | .loop w | .taskTaken w | .execute w | .executed w | .argFree w | .freeTask w =>
      workerStep s w ev
    | .lock t woken => queueDo s (.lock t woken) id
    | .spurious t => queueDo s (.spurious t) id
    | .signal => queueDo s .signal id
    | .shutdown | .destroy | .broadcast | .join | .clear | .cleared => mainStep s ev

/-- The pool that `thread_pool_create` makes. -/
def poolStart (S W : Type) : PoolState S W :=
  { q := queueStart (PThread S W) queueUnbounded, submitter := fun _ => .idle,
    worker := fun _ => .loop, main := .idle, nextTask := 0, returned := [], started := [],
    executed := [], argFreed := [], discarded := [] }

def poolSystem (S W : Type) [DecidableEq S] [DecidableEq W] [Fintype S] [Fintype W] :
    System (PoolState S W) (PoolEvent S W) where
  init s := s = poolStart S W
  step := poolStep

end CmakeTemplate
