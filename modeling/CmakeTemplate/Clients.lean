/-
The clients of the server, in the table and in the jobs.

Connections are accepted, requests handed to the workers, and clients put back or closed,
in any order: what `poll` reports, and when the server loop ends, is left open.  What a
function of `event_handler.c` does to the table between two looks at it by another thread
is one step.  `handle_client_event` is two of them, since a worker may be done with the
job before its entry is taken out; `leaving` is the index it will take out.

`printed` is what `snprintf` returns to `register_client`: the length of the log line.
-/
import CmakeTemplate.Server
import Mathlib.Data.Multiset.Count

namespace CmakeTemplate

open Lib

/-- `MIN_CLIENTS`. -/
def minClients : Int := 1

/-- `MAX_CLIENTS`. -/
def maxClientsLimit : Int := 100

/-- `validate_config` has nothing against `max_clients`. -/
def ValidMaxClients (maxClients : Int) : Prop :=
  ¬ (minClients > maxClients ∨ maxClientsLimit < maxClients)

instance (maxClients : Int) : Decidable (ValidMaxClients maxClients) :=
  inferInstanceAs (Decidable (¬ _))

structure ClientsState where
  /-- The socket manager. -/
  mgr : SocketManager
  /-- The descriptor of the server socket. -/
  fd : Int
  /-- Whether a descriptor is open. -/
  isOpen : Int → Bool
  /-- The descriptors of the jobs that are queued or running. -/
  jobs : List Int
  /-- The index that `handle_client_event` is about to take out. -/
  leaving : Option Nat

inductive ClientsEvent
  /-- `register_client`, with the outcomes of `accept4`, of `set_fd_non_blocking`, of `realloc`
  and of `snprintf`. -/
  | register (client : Option (Int × Bool)) (realloc : Option (Nat → PollFd)) (printed : Int)
  /-- An entry with an error: it is closed, and its `fd` is -1. -/
  | clearEntry (idx : Nat)
  /-- `handle_client_event` up to `thread_pool_add_task`. -/
  | submit (idx : Nat) (calloc addTask : Bool)
  /-- Its `sock_fd_remove`. -/
  | remove
  /-- The job `k` closes its client. -/
  | closes (k : Nat)
  /-- The job `k` puts its client back. -/
  | putsBack (k : Nat) (realloc : Option (Nat → PollFd))

/-- A descriptor of a client, in an entry or in a job. -/
def ClientsState.IsClient (s : ClientsState) (fd : Int) : Prop := fd ≠ s.fd ∧ fd ≠ -1

instance (s : ClientsState) : DecidablePred s.IsClient :=
  fun _ => inferInstanceAs (Decidable (_ ∧ _))

/-- `register_client`. -/
def registerClient (s : ClientsState) (client : Option (Int × Bool))
    (realloc : Option (Nat → PollFd)) (printed : Int) : Option (Int × ClientsState) :=
  match client with
  | none => some (-1, s)
  | some (fd, nonBlocking) =>
    if s.isOpen s.fd ∧ 0 ≤ fd ∧ s.isOpen fd = false then
      if nonBlocking then do
        let (exitCode, mgr) ← sockFdAdd s.mgr fd realloc
        if exitCode = .success then
          if printed ≠ 0 then
            -- the client is closed, and its entry stays
            some (printed, { s with mgr })
          else some (0, { s with mgr, isOpen := Function.update s.isOpen fd true })
        else some (-1, { s with mgr })
      else some (-1, s)
    else none

/-- `log_new_connection`, if the array is long enough; `ipAddr` is the text of `inet_ntop`. -/
def logNewConnection (ipAddr : String) (fd : Int) : String :=
  "new connection from port: [" ++ ipAddr ++ "] on socket: [" ++ toString fd ++ "]"

/-- What `snprintf` returns for it: the length of the whole text, or a negative number. -/
def printedNewConnection (ipAddr : Option String) (fd : Int) : Int :=
  match ipAddr with
  | none => -1
  | some ipAddr => (logNewConnection ipAddr fd).length

/-- `register_client`, with the outcome of the formatting in place of what `snprintf` returns. -/
def registerClientFormatting (s : ClientsState) (client : Option (Int × Bool))
    (realloc : Option (Nat → PollFd)) (ipAddr : Option String) : Option (Int × ClientsState) :=
  match client with
  | none => registerClient s none realloc 0
  | some (fd, nonBlocking) =>
    registerClient s (some (fd, nonBlocking)) realloc (printedNewConnection ipAddr fd)

/-- One step of the main loop or of a worker. -/
def clientsStep (s : ClientsState) : ClientsEvent → Option ClientsState
  | .register client realloc printed =>
    if s.leaving = none then (registerClient s client realloc printed).map Prod.snd else none
  | .clearEntry idx =>
    if s.leaving = none ∧ idx < s.mgr.fdCount then
      some { s with
        isOpen := Function.update s.isOpen (s.mgr.fdArr idx).fd false
        mgr := { s.mgr with
          fdArr := Function.update s.mgr.fdArr idx { s.mgr.fdArr idx with fd := -1 } } }
    else none
  | .submit idx calloc addTask =>
    if s.leaving = none ∧ idx < s.mgr.fdCount ∧ s.IsClient (s.mgr.fdArr idx).fd then
      if calloc && addTask then
        some { s with jobs := s.jobs ++ [(s.mgr.fdArr idx).fd], leaving := some idx }
      else some s
    else none
  | .remove => do
    let idx ← s.leaving
    let (_, mgr) ← sockFdRemove s.mgr idx
    some { s with mgr, leaving := none }
  | .closes k => do
    let fd ← s.jobs[k]?
    some { s with isOpen := Function.update s.isOpen fd false, jobs := s.jobs.eraseIdx k }
  | .putsBack k realloc => do
    let fd ← s.jobs[k]?
    let (_, mgr) ← sockFdAdd s.mgr fd realloc
    some { s with mgr, jobs := s.jobs.eraseIdx k }

/-- The server behind `initialize_server`. -/
def clientsStart (fd maxClients : Int) : ClientsState :=
  { mgr := sockMgrInit zeroManager fd maxClients defaultFdCapacity, fd, isOpen := fun c => c = fd,
    jobs := [], leaving := none }

def clientsSystem (fd maxClients : Int) : System ClientsState ClientsEvent where
  init s := s = clientsStart fd maxClients
  step := clientsStep

/-! ### The limit

What `max_clients` promises is a bound on the clients, and a client is in the table or in a
job.
-/

/-- The entries of clients, and the descriptors that jobs hold. -/
def ClientsState.clients (s : ClientsState) : Nat :=
  (slots (fun idx => (s.mgr.fdArr idx).fd) s.mgr.fdCount).countP s.IsClient + s.jobs.length

/-- There are no more clients than `max_fds`. -/
def Limit (s : ClientsState) : Prop := (s.clients : Int) ≤ s.mgr.maxFds

/-- A connection enters the table, or the client of an entry is given to a job. -/
def Takes (s : ClientsState) : ClientsEvent → Prop
  | .register (some (_, nonBlocking)) realloc _ =>
    nonBlocking = true ∧ (s.mgr.fdCount = s.mgr.fdCapacity → realloc.isSome)
  | .submit _ calloc addTask => (calloc && addTask) = true
  | _ => False

/-- There is room for one more client. -/
def HasRoom (s : ClientsState) (ev : ClientsEvent) : Prop :=
  Takes s ev → (s.clients : Int) < s.mgr.maxFds

end CmakeTemplate
