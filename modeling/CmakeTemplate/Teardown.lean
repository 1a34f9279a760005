/-
`start_tcp_server`, from the configuration to its two clean-up calls.

The pool is that of `thread_pool.c`, with the thread of the server as its one submitter
while it is in the server loop, and as the one that destroys it behind that.  The steps in
front of the loop may fail; the loop may end whenever the thread is not in
`thread_pool_add_task`.  `server.sock_mgr` and `server.thread_pool` are set together.

A task is a client request.  `process_client_request` closes its client, or puts it back
by `sock_fd_add`, which takes the mutex, and then writes into `fd_arr` and gives the mutex
back, if it could be written.  `touched` is kept for the statements only: a worker has
used the mutex or the array behind `close_all_sockets`.
-/
import CmakeTemplate.ThreadPool

namespace CmakeTemplate

open Lib

/-- What the thread in `start_tcp_server` is about to do. -/
inductive ServerPhase
  /-- Up to `validate_config`. -/
  | checking
  /-- `thread_pool_create`. -/
  | creating
  /-- `initialize_server`. -/
  | initializing
  | looping
  /-- `close_all_sockets`. -/
  | closing
  /-- `thread_pool_destroy`. -/
  | destroying
  | returned
  deriving DecidableEq

/-- Where a worker is in `process_client_request`. -/
inductive JobPc
  /-- In front of the decision between closing and putting back. -/
  | processing
  /-- In `sock_fd_add`, with the mutex. -/
  | locked
  | done
  deriving DecidableEq

structure TeardownState (W : Type) where
  /-- The pool, with its queue. -/
  pool : PoolState Unit W
  /-- What the thread of the server is about to do. -/
  phase : ServerPhase
  /-- `server.sock_mgr` and `server.thread_pool` are not NULL. -/
  isSet : Bool
  /-- Where each worker is in its request. -/
  job : W → JobPc
  /-- Whether `fd_mutex` is locked. -/
  fdLocked : Bool
  /-- `fd_arr` has been freed, and `fd_mutex` destroyed. -/
  freed : Bool
  /-- Whether it, or the array, has been used too late. -/
  touched : Bool

inductive TeardownEvent (W : Type)
  | configure (ok : Bool)
  | create (ok : Bool)
  | initializeServer (ok : Bool)
  /-- `run_server_loop` returns, with whatever code. -/
  | loopEnds
  | closeAll
  /-- `thread_pool_destroy` returns, and so does `start_tcp_server`. -/
  | returns
  | pool (ev : PoolEvent Unit W)
  | lockFds (w : W)
  /-- The rest of `sock_fd_add`; the mutex stays locked if there was no memory. -/
  | writeFds (w : W) (ok : Bool)
  | closeClient (w : W)

variable {W : Type} [DecidableEq W]

/-- The thread `t` may take a step in the queue. -/
def mayQueue (s : TeardownState W) : PThread Unit W → Bool
  | .submitter _ => s.phase = .looping
  | .worker _ => s.isSet
  | .main => s.phase = .destroying && s.isSet

/-- The step of the pool belongs to what its thread is doing. -/
def mayStep (s : TeardownState W) : PoolEvent Unit W → Bool
  | .addTask _ _ | .createTask _ _ | .enqueueTask _ _ | .taskAdded _ => s.phase = .looping
  | .lock t _ | .spurious t => mayQueue s t
  | .loop _ | .taskTaken _ | .execute _ | .argFree _ | .freeTask _ => s.isSet
  | .executed w => s.isSet && s.job w = .done
  | .signal => true
  | .shutdown => false
  | .destroy | .broadcast | .join | .clear | .cleared => s.phase = .destroying && s.isSet

/-- A task begins with its job to process. -/
def beginJob (job : W → JobPc) : PoolEvent Unit W → W → JobPc
  | .execute w => Function.update job w .processing
  | _ => job

/-- A use of the mutex or of the array by a worker. -/
def TeardownState.touch (s : TeardownState W) : TeardownState W :=
  { s with touched := s.touched || s.freed }

/-- One step of a worker in `process_client_request`. -/
def requestStep (s : TeardownState W) (w : W) : TeardownEvent W → Option (TeardownState W)
  | .lockFds _ =>
    match s.pool.worker w, s.job w with
    | .running _, .processing =>
      if s.fdLocked then none
      else some { s.touch with job := Function.update s.job w .locked, fdLocked := true }
    | _, _ => none
  | .writeFds _ ok =>
    match s.pool.worker w, s.job w with
    | .running _, .locked =>
      some { s.touch with job := Function.update s.job w .done, fdLocked := !ok }
    | _, _ => none
  | .closeClient _ =>
    match s.pool.worker w, s.job w with
    | .running _, .processing => some { s with job := Function.update s.job w .done }
    | _, _ => none
  | _ => none

def SubmitterPc.isIdle : SubmitterPc → Bool
  | idle => true
  | _ => false

/-- One step of the thread in `start_tcp_server` outside the pool. -/
def serverPhaseStep (s : TeardownState W) : TeardownEvent W → Option (TeardownState W)
  | .configure ok =>
    if s.phase = .checking then some { s with phase := if ok then .creating else .closing }
    else none
  | .create ok =>
    if s.phase = .creating then
      if ok then some { s with isSet := true, phase := .initializing }
      else some { s with phase := .closing }
    else none
  | .initializeServer ok =>
    if s.phase = .initializing then some { s with phase := if ok then .looping else .closing }
    else none
  | .loopEnds =>
    if s.phase = .looping ∧ (s.pool.submitter ()).isIdle then some { s with phase := .closing }
    else none
  | .closeAll =>
    if s.phase = .closing then some { s with freed := s.isSet, phase := .destroying } else none
  | .returns =>
    if s.phase = .destroying ∧ (s.isSet → s.pool.main.isDestroyed) then
      some { s with phase := .returned }
    else none
  | _ => none

variable [Fintype W]

def teardownStep (s : TeardownState W) (ev : TeardownEvent W) : Option (TeardownState W) :=
  match ev with
  | .pool pev =>
    if mayStep s pev then
      (poolStep s.pool pev).map fun pool => { s with pool, job := beginJob s.job pev }
    else none
  | .lockFds w | .writeFds w _ | .closeClient w => requestStep s w ev
  | _ => serverPhaseStep s ev

def teardownStart (W : Type) : TeardownState W :=
  { pool := poolStart Unit W, phase := .checking, isSet := false, job := fun _ => .done,
    fdLocked := false, freed := false, touched := false }

def teardownSystem (W : Type) [DecidableEq W] [Fintype W] :
    System (TeardownState W) (TeardownEvent W) where
  init s := s = teardownStart W
  step := teardownStep

/-! ### Nobody left to put a client back

`close_all_sockets` frees the array and destroys the mutex, so it has to come when no worker
can use them any more.
-/

omit [DecidableEq W] [Fintype W] in
/-- The worker has no request that it may still put back. -/
def NoRequest (s : TeardownState W) (w : W) : Prop :=
  match s.pool.worker w with
  | .dequeueing => ∀ task, s.pool.q.pc (.worker w) ≠ .returned (.data (some task))
  | .got _ => False
  | .running _ => s.job w = .done
  | _ => True

/-- No worker has a request, and none can get one: the queue is empty, or the flag is set and no
worker is in `queue_dequeue`. -/
structure Quiet (s : TeardownState W) : Prop where
  /-- No worker has a request to put back. -/
  request : ∀ w, NoRequest s w
  /-- None can get one. -/
  rest : s.pool.q.queue.currentSize = 0 ∨
    s.pool.q.shutdown = true ∧ ∀ w, s.pool.worker w ≠ .dequeueing

/-- `close_all_sockets` comes when nobody is left to put a client back. -/
def Harmless (s : TeardownState W) : TeardownEvent W → Prop
  | .closeAll => s.isSet = true → Quiet s
  | _ => True

end CmakeTemplate
