/-
The blocking queue of `queue.c`, and the threads that call it.

The first half is the queue itself: what the critical sections of `queue_enqueue`,
`queue_dequeue` and `queue_peek` do to `head`, `tail`, `current_size` and the nodes.
The second half runs threads over it.  What a thread does between taking the mutex
and giving it back, at the end or in `pthread_cond_wait`, is one step; so is what it
does before the lock or after the unlock, where it touches only memory of its own
(the `free` of a removed node goes with the step that removed it).

A `pthread_cond_signal` wakes the threads its step names: at least one of those that
are blocked on the condition variable, if there are any.  A blocked thread may also be
woken by nobody.  A woken thread takes the mutex again before it looks at the queue.
-/
import CmakeTemplate.Core
import CmakeTemplate.Lib.Chain
import CmakeTemplate.Lib.System
import Mathlib.Data.Fintype.Basic

namespace CmakeTemplate

open Lib

variable {α : Type}

/-- `queue_t`, less the mutex, the condition variables and `customfree`. -/
structure QueueT (α : Type) where
  /-- The nodes by their addresses. -/
  nodes : Store (SCell α)
  /-- `current_size`. -/
  currentSize : UInt32
  /-- `max_size`, which is `QUEUE_UNBOUNDED` for a queue without a bound. -/
  maxSize : UInt32
  /-- `head`. -/
  head : Ptr
  /-- `tail`. -/
  tail : Ptr

/-- `QUEUE_UNBOUNDED`. -/
def queueUnbounded : UInt32 := 0

/-- `queue_init`, once its allocations have succeeded. -/
def queueInit (maxSize : UInt32) : QueueT α :=
  { nodes := .empty, currentSize := 0, maxSize, head := none, tail := none }

/-- `queue_is_empty`, and the test in the loop of `queue_dequeue`. -/
def queueIsEmpty (queue : QueueT α) : Bool := queue.currentSize = 0

/-- `queue_is_full`, and the test in the loop of `queue_enqueue`. -/
def queueIsFull (queue : QueueT α) : Bool :=
  queue.maxSize ≠ queueUnbounded && queue.currentSize ≥ queue.maxSize

/-- The new node of `queue_enqueue`. -/
def queueNodeNew (queue : QueueT α) (data : α) : QueueT α × Nat :=
  ({ queue with nodes := (queue.nodes.alloc ⟨data, none⟩).1 },
    (queue.nodes.alloc ⟨data, none⟩).2)

/-- `queue_enqueue` behind its loop. -/
def queueAppend (queue : QueueT α) (newNode : Nat) : Option (QueueT α) :=
  if queue.currentSize = 0 then
    some { queue with
      head := some newNode, tail := some newNode, currentSize := queue.currentSize + 1 }
  else do
    let nodes ← queue.nodes.assign queue.tail fun c => { c with next := some newNode }
    some { queue with nodes, tail := some newNode, currentSize := queue.currentSize + 1 }

/-- `queue_dequeue` behind its loop. -/
def queueTakeHead (queue : QueueT α) : Option (QueueT α × α) := do
  let nodeToRemove ← queue.nodes.load queue.head
  let head := nodeToRemove.next
  let tail := if head = none then none else queue.tail
  let nodes ← queue.nodes.free queue.head
  some ({ queue with nodes, head, tail, currentSize := queue.currentSize - 1 },
    nodeToRemove.data)

/-- `queue_peek`. -/
def queuePeek (queue : QueueT α) : Option (Option α) :=
  if queue.head = none then some none
  else (queue.nodes.load queue.head).map fun c => some c.data

/-- The data on the chain from `head`. -/
def queueData (queue : QueueT α) : List α := go (queue.nodes.next + 1) queue.head
where
  go : Nat → Ptr → List α
    | 0, _ => []
    | fuel + 1, p =>
      match queue.nodes.load p with
      | none => []
      | some c => c.data :: go fuel c.next

/-! ### Threads

The calls of a thread, and the points at which it may be blocked or woken.
-/

/-- The condition variables of a queue. -/
inductive QCond
  | notEmpty
  | notFull

/-- What a call returns. -/
inductive QRet (α : Type)
  | code (c : ExitCode)
  | data (d : Option α)

/-- Where a thread is in a call on the queue. -/
inductive QPc (α : Type)
  | idle
  /-- In `queue_enqueue`, about to lock the mutex with its new node. -/
  | enqueueLock (newNode : Nat) (data : α)
  /-- Blocked on `not_full`. -/
  | enqueueWait (newNode : Nat) (data : α)
  /-- Woken on `not_full`, about to take the mutex again. -/
  | enqueueWoken (newNode : Nat) (data : α)
  | dequeueLock
  /-- Blocked on `not_empty`. -/
  | dequeueWait
  /-- Woken on `not_empty`, about to take the mutex again. -/
  | dequeueWoken
  | returned (r : QRet α)

namespace QPc

def isIdle : QPc α → Bool
  | idle => true
  | _ => false

/-- Blocked on a condition variable. -/
def waits : QPc α → QCond → Bool
  | enqueueWait _ _, .notFull => true
  | dequeueWait, .notEmpty => true
  | _, _ => false

/-- Woken on a condition variable, and not resumed yet. -/
def woken : QPc α → QCond → Bool
  | enqueueWoken _ _, .notFull => true
  | dequeueWoken, .notEmpty => true
  | _, _ => false

/-- A blocked thread that is woken. -/
def wake : QPc α → QPc α
  | enqueueWait newNode data => enqueueWoken newNode data
  | dequeueWait => dequeueWoken
  | p => p

/-- The node a thread in `queue_enqueue` has not linked in yet. -/
def pending : QPc α → Option (Nat × α)
  | enqueueLock newNode data => some (newNode, data)
  | enqueueWait newNode data => some (newNode, data)
  | enqueueWoken newNode data => some (newNode, data)
  | _ => none

end QPc

variable {T : Type} [DecidableEq T]

/-- The queue with its threads and `signal_flag`.  `inserted` and `removed` are kept for
the statements only: the data of every enqueue and of every dequeue so far. -/
structure QState (T α : Type) where
  /-- The queue. -/
  queue : QueueT α
  /-- `signal_flag == SHUTDOWN`. -/
  shutdown : Bool
  /-- Where each thread is. -/
  pc : T → QPc α
  /-- What has been enqueued so far, in this order. -/
  inserted : List α
  /-- What has been dequeued. -/
  removed : List α

inductive QEvent (T α : Type)
  /-- `t` calls `queue_enqueue`; `calloc` is the outcome of its allocation. -/
  | callEnqueue (t : T) (data : Option α) (calloc : Bool)
  | callDequeue (t : T)
  /-- `t` takes the mutex and goes on until it gives it back. -/
  | lock (t : T) (woken : List T)
  /-- All of `queue_peek`. -/
  | peek (t : T)
  /-- `t` is woken by nobody. -/
  | spurious (t : T)
  /-- The signal handler sets `signal_flag` to SHUTDOWN. -/
  | signal
  /-- `pthread_cond_broadcast` on `not_empty`. -/
  | broadcast
  | ret (t : T)

def wakeThreads (pc : T → QPc α) (woken : List T) (u : T) : QPc α :=
  if u ∈ woken then (pc u).wake else pc u

/-- `woken` is an outcome of `pthread_cond_signal`. -/
def Signals (pc : T → QPc α) (cond : QCond) (woken : List T) : Prop :=
  (∀ u ∈ woken, (pc u).waits cond = true) ∧ ((∃ u, (pc u).waits cond = true) → woken ≠ [])

instance [Fintype T] (pc : T → QPc α) (cond : QCond) (woken : List T) :
    Decidable (Signals pc cond woken) :=
  inferInstanceAs (Decidable (_ ∧ _))

variable [Fintype T]

/-- The critical section of `queue_enqueue`. -/
def enqueueSection (s : QState T α) (t : T) (newNode : Nat) (data : α) (woken : List T) :
    Option (QState T α) :=
  if queueIsFull s.queue then
    some { s with pc := Function.update s.pc t (.enqueueWait newNode data) }
  else if Signals s.pc .notEmpty woken then do
    let queue ← queueAppend s.queue newNode
    some { s with
      queue
      inserted := s.inserted ++ [data]
      pc := Function.update (wakeThreads s.pc woken) t (.returned (.code .success)) }
  else none

/-- The critical section of `queue_dequeue`. -/
def dequeueSection (s : QState T α) (t : T) (woken : List T) : Option (QState T α) :=
  if queueIsEmpty s.queue then
    if s.shutdown then some { s with pc := Function.update s.pc t (.returned (.data none)) }
    else some { s with pc := Function.update s.pc t .dequeueWait }
  else if Signals s.pc .notFull woken then do
    let (queue, data) ← queueTakeHead s.queue
    some { s with
      queue
      removed := s.removed ++ [data]
      pc := Function.update (wakeThreads s.pc woken) t (.returned (.data (some data))) }
  else none

/-- One step of the threads. -/
def queueStep (s : QState T α) : QEvent T α → Option (QState T α)
  | .callEnqueue t data calloc =>
    if (s.pc t).isIdle then
      match data with
      | none => some { s with pc := Function.update s.pc t (.returned (.code .failure)) }
      | some d =>
        if calloc then
          some { s with
            queue := (queueNodeNew s.queue d).1
            pc := Function.update s.pc t (.enqueueLock (queueNodeNew s.queue d).2 d) }
        else some { s with pc := Function.update s.pc t (.returned (.code .failure)) }
    else none
  | .callDequeue t =>
    if (s.pc t).isIdle then some { s with pc := Function.update s.pc t .dequeueLock } else none
  | .lock t woken =>
    match s.pc t with
    | .enqueueLock newNode data => enqueueSection s t newNode data woken
    | .enqueueWoken newNode data => enqueueSection s t newNode data woken
    | .dequeueLock => dequeueSection s t woken
    | .dequeueWoken => dequeueSection s t woken
    | _ => none
  | .peek t =>
    if (s.pc t).isIdle then do
      let data ← queuePeek s.queue
      some { s with pc := Function.update s.pc t (.returned (.data data)) }
    else none
  | .spurious t =>
    if (s.pc t).waits .notFull || (s.pc t).waits .notEmpty then
      some { s with pc := Function.update s.pc t (s.pc t).wake }
    else none
  | .signal => some { s with shutdown := true }
  | .broadcast =>
    some { s with pc := fun u => if (s.pc u).waits .notEmpty then (s.pc u).wake else s.pc u }
  | .ret t =>
    match s.pc t with
    | .returned _ => some { s with pc := Function.update s.pc t .idle }
    | _ => none

/-- A new queue with all threads idle. -/
def queueStart (T : Type) (maxSize : UInt32) : QState T α :=
  { queue := queueInit maxSize, shutdown := false, pc := fun _ => .idle, inserted := [],
    removed := [] }

/-- Any number of threads on one queue. -/
def queueSystem (T α : Type) [DecidableEq T] [Fintype T] (maxSize : UInt32) :
    System (QState T α) (QEvent T α) where
  init s := s = queueStart T maxSize
  step := queueStep

end CmakeTemplate
