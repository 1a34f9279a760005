/-
The descriptors of the TCP server: `socket_manager.c`, the main loop of `tcp_server.c`,
and `event_handler.c` with the workers it hands its jobs to.

`fd_arr` is a function from slots; the first `allocated` of them may be accessed.  What
`realloc` leaves in new slots is part of its outcome.  `fd_mutex` is a flag that a
section without an unlock at its end leaves set: nobody takes the mutex again.

The main loop takes one step for each section it holds the mutex for, and for each call
to the system in between.  A worker takes one step for each job, to close the client or
to put it back.  Which descriptors are open belongs to the state: `accept4` answers with
one that is not, and only while the server's own descriptor is.

The line that `register_client` formats for the log is left out, with what it makes of
the length of it: a client that has entered the array stays.
-/
import CmakeTemplate.Core
import CmakeTemplate.Lib.Slots
import CmakeTemplate.Lib.System

namespace CmakeTemplate

open Lib

/-! ### Descriptors to poll

The functions of `socket_manager.c`, each under the mutex for its whole length.
-/

/-- `struct pollfd`. -/
structure PollFd where
  /-- The descriptor, or a negative number for a slot that `poll` leaves out. -/
  fd : Int
  /-- What `poll` is asked for. -/
  events : UInt16
  /-- What it has reported. -/
  revents : UInt16
  deriving DecidableEq

/-- `POLLIN`. -/
def pollIn : UInt16 := 0x1

/-- `POLL_ERROR_EVENTS`, which is `POLLERR | POLLHUP | POLLNVAL`. -/
def pollErrorEvents : UInt16 := 0x8 ||| 0x10 ||| 0x20

/-- `DEFAULT_FD_CAPACITY`. -/
def defaultFdCapacity : Nat := 5

/-- `socket_manager_t`. -/
structure SocketManager where
  /-- What is in a slot. -/
  fdArr : Nat → PollFd
  /-- How many slots may be accessed. -/
  allocated : Nat
  /-- `max_fds`, which nothing is compared with. -/
  maxFds : Int
  /-- `fd_count`. -/
  fdCount : Nat
  /-- `fd_capacity`. -/
  fdCapacity : Nat
  /-- `fd_mutex` was left locked. -/
  locked : Bool

/-- `sock_fd_arr_init`, once its allocation has succeeded. -/
def sockFdArrInit (m : SocketManager) (serverFd : Int) : SocketManager :=
  { m with
    allocated := defaultFdCapacity
    fdArr := fun idx =>
      if idx = 0 then ⟨serverFd, pollIn, 0⟩
      else if (idx : Int) < m.maxFds then ⟨-1, 0, 0⟩
      else ⟨0, 0, 0⟩ }

/-- `sock_mgr_init`, once its allocation has succeeded. -/
def sockMgrInit (m : SocketManager) (serverFd maxFds : Int) (fdCapacity : Nat) : SocketManager :=
  { sockFdArrInit m serverFd with fdCount := 1, fdCapacity, maxFds, locked := false }

/-- `sock_fd_increase_capacity`; `realloc` is what new slots hold, if there are any. -/
def sockFdIncreaseCapacity (m : SocketManager) (realloc : Option (Nat → PollFd)) :
    ExitCode × SocketManager :=
  match realloc with
  | none => (.failure, m)
  | some fresh =>
    (.success, { m with
      fdArr := fun idx => if idx < m.allocated then m.fdArr idx else fresh idx
      allocated := m.fdCapacity * 2
      fdCapacity := m.fdCapacity * 2 })

/-- The end of `sock_fd_add`. -/
def sockFdAppend (m : SocketManager) (newFd : Int) : Option (ExitCode × SocketManager) :=
  if m.fdCount < m.allocated then
    some (.success, { m with
      fdArr := Function.update m.fdArr m.fdCount
        { m.fdArr m.fdCount with fd := newFd, events := pollIn }
      fdCount := m.fdCount + 1 })
  else none

/-- `sock_fd_add`. -/
def sockFdAdd (m : SocketManager) (newFd : Int) (realloc : Option (Nat → PollFd)) :
    Option (ExitCode × SocketManager) :=
  if m.locked then none
  else if m.fdCount = m.fdCapacity then
    match sockFdIncreaseCapacity m realloc with
    | (.success, m) => sockFdAppend m newFd
    -- behind the unlock
    | (c, m) => some (c, { m with locked := true })
  else sockFdAppend m newFd

/-- `sock_fd_remove`. -/
def sockFdRemove (m : SocketManager) (index : Nat) : Option (ExitCode × SocketManager) :=
  if m.locked then none
  else if index ≥ m.fdCount then some (.failure, { m with locked := true })
  else
    let last := m.fdCount - 1
    let fdArr := if index ≠ last then Function.update m.fdArr index (m.fdArr last) else m.fdArr
    some (.success, { m with
      fdArr := Function.update fdArr last ⟨-1, 0, 0⟩
      fdCount := last })

/-! ### The server

The threads of the server take turns at the table, one section of the mutex at a time.
-/

/-- Where the main loop is, in `run_server_loop` and below.  `idx`, `count` and
`exitCode` are those of `handle_connections`. -/
inductive LoopPc
  | top
  /-- Behind the copy of `fd_arr` and `fd_count`, about to call `poll`. -/
  | copied (count : Nat)
  | polling (count : Nat)
  /-- About to call `handle_connections`. -/
  | ready
  /-- At the head of its loop. -/
  | scan (idx count : Nat) (exitCode : ExitCode)
  /-- Behind the unlock, with `fd_entry` at hand. -/
  | entry (idx count : Nat) (exitCode : ExitCode)
  /-- The descriptor of the entry has been closed. -/
  | erring (idx count : Nat) (exitCode : ExitCode) (fd : Int)
  /-- In `register_client`, about to accept. -/
  | registering (idx count : Nat)
  | accepted (idx count : Nat) (fd : Int)
  /-- In `handle_client_event`, about to make a job. -/
  | dispatching (idx count : Nat) (fd : Int)
  /-- About to take the entry out. -/
  | removing (idx count : Nat) (fd : Int)
  | stopped

structure ServerState where
  /-- The socket manager. -/
  mgr : SocketManager
  /-- The descriptor of the server socket. -/
  fd : Int
  /-- Whether a descriptor is open. -/
  isOpen : Int → Bool
  /-- Where the main loop is. -/
  main : LoopPc
  /-- The descriptors of the jobs that are queued or running. -/
  jobs : List Int

inductive PollResult
  | ready (revents : Nat → UInt16)
  | timeout
  | interrupted
  | failed

inductive ServerEvent
  /-- The copy in front of `poll`. -/
  | copy
  | callPoll
  | pollReturns (result : PollResult)
  /-- The copy of `fd_count` in `handle_connections`. -/
  | handleConnections
  /-- The head of its loop. -/
  | next
  /-- The tests on `fd_entry`, and the `close`. -/
  | look
  /-- `fd_entry->fd = -1`. -/
  | clearEntry
  /-- `accept4`, and the outcome of `set_fd_non_blocking`. -/
  | accept (client : Option (Int × Bool))
  | register (realloc : Option (Nat → PollFd))
  /-- `create_job_args` and `thread_pool_add_task`. -/
  | submit (calloc addTask : Bool)
  | remove
  /-- The job `k` closes its client. -/
  | closes (k : Nat)
  /-- The job `k` puts its client back. -/
  | putsBack (k : Nat) (realloc : Option (Nat → PollFd))

def ServerState.close (s : ServerState) (fd : Int) : ServerState :=
  { s with isOpen := Function.update s.isOpen fd false }

/-- What `poll` writes. -/
def setRevents (m : SocketManager) (count : Nat) (revents : Nat → UInt16) : SocketManager :=
  { m with fdArr := fun idx =>
      if idx < count then { m.fdArr idx with revents := revents idx } else m.fdArr idx }

/-- One step of the thread that runs the server loop. -/
def loopStep (s : ServerState) : ServerEvent → Option ServerState
  | .copy =>
    match s.main with
    | .top => if s.mgr.locked then none else some { s with main := .copied s.mgr.fdCount }
    | _ => none
  | .callPoll =>
    match s.main with
    | .copied count => some { s with main := .polling count }
    | _ => none
  | .pollReturns result =>
    match s.main with
    | .polling count =>
      match result with
      | .ready revents => some { s with mgr := setRevents s.mgr count revents, main := .ready }
      | .timeout => some { s with mgr := setRevents s.mgr count fun _ => 0, main := .top }
      | .interrupted => some { s with main := .top }
      | .failed => some { s with main := .stopped }
    | _ => none
  | .handleConnections =>
    match s.main with
    | .ready => if s.mgr.locked then none else some { s with main := .scan 0 s.mgr.fdCount .failure }
    | _ => none
  | .next =>
    match s.main with
    | .scan idx count exitCode =>
      if idx < count then
        if s.mgr.locked then none else some { s with main := .entry idx count exitCode }
      else if exitCode = .success then some { s with main := .top }
      else some { s with main := .stopped }
    | _ => none
  | .look =>
    match s.main with
    | .entry idx count exitCode =>
      if s.mgr.allocated ≤ idx then none
      else if (s.mgr.fdArr idx).revents &&& pollErrorEvents ≠ 0 then
        some { s.close (s.mgr.fdArr idx).fd with
          main := .erring idx count exitCode (s.mgr.fdArr idx).fd }
      else if (s.mgr.fdArr idx).revents &&& pollIn = 0 then
        some { s with main := .scan (idx + 1) count exitCode }
      else if (s.mgr.fdArr idx).fd = s.fd then some { s with main := .registering idx count }
      else some { s with main := .dispatching idx count (s.mgr.fdArr idx).fd }
    | _ => none
  | .clearEntry =>
    match s.main with
    | .erring idx count exitCode _ =>
      some { s with
        mgr := { s.mgr with
          fdArr := Function.update s.mgr.fdArr idx { s.mgr.fdArr idx with fd := -1 } }
        main := .scan (idx + 1) count exitCode }
    | _ => none
  | .accept client =>
    match s.main with
    | .registering idx count =>
      match client with
      | none => some { s with main := .scan (idx + 1) count .failure }
      | some (fd, nonBlocking) =>
        if s.isOpen s.fd ∧ 0 ≤ fd ∧ s.isOpen fd = false then
          if nonBlocking then
            some { s with isOpen := Function.update s.isOpen fd true, main := .accepted idx count fd }
          else some { s with main := .scan (idx + 1) count .failure }
        else none
    | _ => none
  | .register realloc =>
    match s.main with
    | .accepted idx count fd => do
      let (exitCode, mgr) ← sockFdAdd s.mgr fd realloc
      if exitCode = .success then
        some { s with mgr, main := .scan (idx + 1) count .success }
      else some { s.close fd with mgr, main := .scan (idx + 1) count exitCode }
    | _ => none
  | .submit calloc addTask =>
    match s.main with
    | .dispatching idx count fd =>
      if calloc && addTask then
        some { s with jobs := s.jobs ++ [fd], main := .removing idx count fd }
      else some { s with main := .scan (idx + 1) count .failure }
    | _ => none
  | .remove =>
    match s.main with
    | .removing idx count _ => do
      let (exitCode, mgr) ← sockFdRemove s.mgr idx
      some { s with mgr, main := .scan (idx + 1) count exitCode }
    | _ => none
  | _ => none

/-- One step of a worker in `process_client_request`. -/
def jobStep (s : ServerState) : ServerEvent → Option ServerState
  | .closes k => do
    let fd ← s.jobs[k]?
    some { s.close fd with jobs := s.jobs.eraseIdx k }
  | .putsBack k realloc => do
    let fd ← s.jobs[k]?
    let (_, mgr) ← sockFdAdd s.mgr fd realloc
    some { s with mgr, jobs := s.jobs.eraseIdx k }
  | _ => none

def serverStep (s : ServerState) (ev : ServerEvent) : Option ServerState :=
  match ev with
  | .closes _ | .putsBack _ _ => jobStep s ev
  | _ => loopStep s ev

/-- `socket_manager_t sock_mgr = { 0 }`. -/
def zeroManager : SocketManager :=
  { fdArr := fun _ => ⟨0, 0, 0⟩, allocated := 0, maxFds := 0, fdCount := 0, fdCapacity := 0,
    locked := false }

/-- The server behind `initialize_server`. -/
def serverStart (fd maxClients : Int) : ServerState :=
  { mgr := sockMgrInit zeroManager fd maxClients defaultFdCapacity, fd,
    isOpen := fun c => c = fd, main := .top, jobs := [] }

def serverSystem (fd maxClients : Int) : System ServerState ServerEvent where
  init s := s = serverStart fd maxClients
  step := serverStep

end CmakeTemplate
