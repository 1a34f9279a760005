/-
The threads of a pool, from `thread_pool_create` to `thread_pool_destroy`.

Which handle is passed to `pthread_join` is for the thread to decide that makes the pool
and destroys it; the tasks have no part in that.  `Workers` is what there is behind the
handles: how many threads have been started, and every argument of `pthread_join` so far.

A join returns when its thread has, and a worker returns once the flag is set.  What
`pthread_join` does with a handle of no thread, or of one that has been joined, is not
defined; here it returns.
-/
import CmakeTemplate.Core
import Mathlib.Logic.Function.Basic

namespace CmakeTemplate

/-- `thread_pool_t`, less the queue.  A handle that `calloc` has left zero is `none`. -/
structure ThreadPool where
  /-- `thread_count`. -/
  threadCount : Nat
  /-- The handle in each slot of `worker_threads`. -/
  workerThreads : Nat → Option Nat

structure Workers where
  /-- How many threads have been started. -/
  created : Nat
  /-- The arguments of `pthread_join`, in their order. -/
  joined : List (Option Nat)

/-- `MIN_THREADS`. -/
def minThreads : Nat := 2

/-- `pthread_join`; `shutdown` says that the flag is set, now or while it waits. -/
def pthreadJoin (shutdown : Bool) (workers : Workers) (handle : Option Nat) : Option Workers :=
  if handle.isSome && !shutdown then none
  else some { workers with joined := workers.joined ++ [handle] }

/-- The handles in the order of their joins. -/
def ThreadPool.handles (pool : ThreadPool) : List (Option Nat) :=
  (List.range pool.threadCount).map pool.workerThreads

/-- `thread_pool_shutdown`. -/
def threadPoolShutdown (shutdown : Bool) (threadPool : Option ThreadPool) (workers : Workers) :
    Option (ExitCode × Workers) :=
  match threadPool with
  | none => some (.failure, workers)
  | some pool => do
    let workers ← pool.handles.foldlM (pthreadJoin shutdown) workers
    some (.success, workers)

/-- `thread_pool_destroy`. -/
def threadPoolDestroy (shutdown : Bool) (threadPool : Option ThreadPool) (workers : Workers) :
    Option (ExitCode × Option ThreadPool × Workers) :=
  match threadPool with
  | none => some (.failure, none, workers)
  | some pool => do
    let (_, workers) ← threadPoolShutdown shutdown (some pool) workers
    some (.success, none, workers)

/-- The loop of `thread_pool_create`, with `rest` threads to go; `pthreadCreate` is the
outcome of each call of `pthread_create`. -/
def createLoop (pthreadCreate : Nat → Bool) (shutdown : Bool) :
    Nat → ThreadPool → Workers → Option (Option ThreadPool × Workers)
  | 0, pool, workers => some (some pool, workers)
  | rest + 1, pool, workers =>
    let idx := pool.threadCount - (rest + 1)
    if pthreadCreate idx then
      createLoop pthreadCreate shutdown rest
        { pool with workerThreads := Function.update pool.workerThreads idx (some workers.created) }
        { workers with created := workers.created + 1 }
    else do
      let (_, workers) ← threadPoolShutdown shutdown (some pool) workers
      let (_, threadPool, workers) ← threadPoolDestroy shutdown (some pool) workers
      some (threadPool, workers)

/-- `thread_pool_create`, once its allocations have succeeded. -/
def threadPoolCreate (threadCount : Nat) (pthreadCreate : Nat → Bool) (shutdown : Bool) :
    Option (Option ThreadPool × Workers) :=
  if minThreads > threadCount then some (none, ⟨0, []⟩)
  else createLoop pthreadCreate shutdown threadCount ⟨threadCount, fun _ => none⟩ ⟨0, []⟩

/-! ### A program with a pool

The program that makes a pool may set the flag, shut the pool down and destroy it, in any
order and more than once.
-/

inductive PoolCall
  | addTask
  /-- The flag is set. -/
  | signal
  | shutdown
  | destroy
  deriving DecidableEq

structure PoolLife where
  /-- The pool, until it has been destroyed. -/
  threadPool : Option ThreadPool
  /-- The threads behind it. -/
  workers : Workers
  /-- Whether the flag is set. -/
  shutdown : Bool

/-- One call; a task that is added goes to the queue. -/
def poolCall (s : PoolLife) : PoolCall → Option PoolLife
  | .addTask => some s
  | .signal => some { s with shutdown := true }
  | .shutdown => do
    let (_, workers) ← threadPoolShutdown s.shutdown s.threadPool s.workers
    some { s with workers }
  | .destroy => do
    let (_, threadPool, workers) ← threadPoolDestroy s.shutdown s.threadPool s.workers
    some { s with threadPool, workers }

/-- A pool of `threadCount` threads is made, and `calls` are made on it. -/
def poolLife (threadCount : Nat) (pthreadCreate : Nat → Bool) (shutdown : Bool)
    (calls : List PoolCall) : Option PoolLife := do
  let (threadPool, workers) ← threadPoolCreate threadCount pthreadCreate shutdown
  calls.foldlM poolCall { threadPool, workers, shutdown }

/-- Tasks are added, the flag is set, and the pool is destroyed, behind shutdowns or not. -/
def Documented (calls : List PoolCall) : Prop :=
  ∃ before after, calls = before ++ .signal :: (after ++ [.destroy]) ∧
    (∀ call ∈ before, call = .addTask) ∧ ∀ call ∈ after, call = .addTask ∨ call = .shutdown

/-- Every thread has been joined once, and nothing else. -/
structure JoinedOnce (workers : Workers) : Prop where
  /-- Every thread that has been started has been joined once. -/
  once : ∀ i, i < workers.created → workers.joined.count (some i) = 1
  /-- Nothing else has been joined. -/
  created : ∀ handle ∈ workers.joined, ∃ i, i < workers.created ∧ handle = some i

end CmakeTemplate
