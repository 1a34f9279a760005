/-
The main loop and the array it points into.

`realloc` may move `fd_arr`, so each array has a generation, one more than that of the
array it was made from.  The main loop takes a pointer into the array of the moment, the
copy for `poll` and `fd_entry` under the mutex and the array in `handle_client_event`
without, and uses it later; `held` is the generation it belongs to.  An access through a
pointer to an array that is gone has no result.

Every access of the main loop is a step of its own, and workers that call `sock_fd_add`
may take theirs in between.
-/
import CmakeTemplate.Server

namespace CmakeTemplate

open Lib

/-- Where the main loop is; `ok` says that `exit_code` of `handle_connections` is E_SUCCESS. -/
inductive ArrPc
  | top
  /-- Behind the copy of `fd_arr` and `fd_count`, about to call `poll`. -/
  | copied (count : Nat)
  | polling (count : Nat)
  /-- About to call `handle_connections`. -/
  | ready
  /-- At the head of its loop. -/
  | scan (idx count : Nat) (ok : Bool)
  /-- With `fd_entry`, in front of each of its uses. -/
  | testError (idx count : Nat) (ok : Bool)
  | closing (idx count : Nat) (ok : Bool)
  | clearing (idx count : Nat) (ok : Bool)
  | testIn (idx count : Nat) (ok : Bool)
  | testServer (idx count : Nat)
  /-- About to call `register_client`. -/
  | registering (idx count : Nat)
  /-- In `handle_client_event`, about to read `fd_arr`, and `fd_arr[index].fd`. -/
  | dispatching (idx count : Nat)
  | reading (idx count : Nat)
  | submitting (idx count : Nat)
  | removing (idx count : Nat)
  | stopped

/-- The next step of the main loop is an access through a pointer it has taken before. -/
def ArrPc.holds : ArrPc → Bool
  | copied _ | polling _ => true
  | testError _ _ _ | closing _ _ _ | clearing _ _ _ | testIn _ _ _ | testServer _ _ => true
  | reading _ _ => true
  | _ => false

structure ArrState where
  /-- The socket manager. -/
  mgr : SocketManager
  /-- The descriptor of the server socket. -/
  fd : Int
  /-- The generation of `fd_arr`. -/
  generation : Nat
  /-- The generation that the pointer of the main loop belongs to. -/
  held : Nat
  /-- Where the main loop is. -/
  main : ArrPc

inductive ArrEvent
  /-- The next step of the main loop, where nothing else has a say in it. -/
  | go
  | pollReturns (result : PollResult)
  /-- `register_client`, with the outcomes of `accept4`, of `set_fd_non_blocking`, of `realloc`
  and of `snprintf`. -/
  | register (client : Option (Int × Bool)) (realloc : Option (Nat → PollFd)) (printed : Int)
  /-- `create_job_args` and `thread_pool_add_task`. -/
  | submit (calloc addTask : Bool)
  /-- A worker calls `sock_fd_add`. -/
  | workerAdds (fd : Int) (realloc : Option (Nat → PollFd))

/-- `sock_fd_add` makes a larger array. -/
def grows (m : SocketManager) (realloc : Option (Nat → PollFd)) : Bool :=
  m.fdCount = m.fdCapacity && realloc.isSome

/-- `sock_fd_add`, and the generation of the array behind it. -/
def addFd (s : ArrState) (fd : Int) (realloc : Option (Nat → PollFd)) :
    Option (ExitCode × ArrState) := do
  let (exitCode, mgr) ← sockFdAdd s.mgr fd realloc
  some (exitCode, { s with mgr, generation := s.generation + (grows s.mgr realloc).toNat })

/-- An access through the pointer, with what follows from it. -/
def access (s : ArrState) (next : ArrState) : Option ArrState :=
  if s.held = s.generation then some next else none

/-- A step of the main loop that depends on the array only. -/
def goStep (s : ArrState) : Option ArrState :=
  match s.main with
  | .top =>
    if s.mgr.locked then none
    else some { s with held := s.generation, main := .copied s.mgr.fdCount }
  | .copied count => access s { s with main := .polling count }
  | .ready => if s.mgr.locked then none else some { s with main := .scan 0 s.mgr.fdCount false }
  | .scan idx count ok =>
    if idx < count then
      if s.mgr.locked then none
      else some { s with held := s.generation, main := .testError idx count ok }
    else if ok then some { s with main := .top }
    else some { s with main := .stopped }
  | .testError idx count ok =>
    access s { s with
      main := if (s.mgr.fdArr idx).revents &&& pollErrorEvents ≠ 0 then .closing idx count ok
        else .testIn idx count ok }
  | .closing idx count ok => access s { s with main := .clearing idx count ok }
  | .clearing idx count ok =>
    access s { s with
      mgr := { s.mgr with
        fdArr := Function.update s.mgr.fdArr idx { s.mgr.fdArr idx with fd := -1 } }
      main := .scan (idx + 1) count ok }
  | .testIn idx count ok =>
    access s { s with
      main := if (s.mgr.fdArr idx).revents &&& pollIn = 0 then .scan (idx + 1) count ok
        else .testServer idx count }
  | .testServer idx count =>
    access s { s with
      main := if (s.mgr.fdArr idx).fd = s.fd then .registering idx count
        else .dispatching idx count }
  | .dispatching idx count => some { s with held := s.generation, main := .reading idx count }
  | .reading idx count => access s { s with main := .submitting idx count }
  | .removing idx count => do
    let (exitCode, mgr) ← sockFdRemove s.mgr idx
    some { s with mgr, main := .scan (idx + 1) count (exitCode = .success) }
  | _ => none

def arrStep (s : ArrState) : ArrEvent → Option ArrState
  | .go => goStep s
  | .pollReturns result =>
    match s.main with
    | .polling count =>
      match result with
      | .ready revents => access s { s with mgr := setRevents s.mgr count revents, main := .ready }
      | .timeout => access s { s with mgr := setRevents s.mgr count fun _ => 0, main := .top }
      | .interrupted => some { s with main := .top }
      | .failed => some { s with main := .stopped }
    | _ => none
  | .register client realloc printed =>
    match s.main with
    | .registering idx count =>
      match client with
      | none => some { s with main := .scan (idx + 1) count false }
      | some (fd, nonBlocking) =>
        if nonBlocking then do
          let (exitCode, s) ← addFd s fd realloc
          some { s with main := .scan (idx + 1) count (exitCode = .success ∧ printed = 0) }
        else some { s with main := .scan (idx + 1) count false }
    | _ => none
  | .submit calloc addTask =>
    match s.main with
    | .submitting idx count =>
      if calloc && addTask then some { s with main := .removing idx count }
      else some { s with main := .scan (idx + 1) count false }
    | _ => none
  | .workerAdds fd realloc => (addFd s fd realloc).map Prod.snd

/-- The server behind `initialize_server`. -/
def arrStart (fd maxClients : Int) : ArrState :=
  { mgr := sockMgrInit zeroManager fd maxClients defaultFdCapacity, fd, generation := 0, held := 0,
    main := .top }

def arrSystem (fd maxClients : Int) : System ArrState ArrEvent where
  init s := s = arrStart fd maxClients
  step := arrStep

/-- A pointer that is about to be used points into the array of the moment. -/
def Current (s : ArrState) : Prop := s.main.holds = true → s.held = s.generation

/-- No worker makes a larger array while the main loop has a pointer to use. -/
def Steady (s : ArrState) : ArrEvent → Prop
  | .workerAdds _ realloc => s.main.holds = true → grows s.mgr realloc = false
  | _ => True

end CmakeTemplate
