/-
`initialize_server`, and the sockets it makes.

`getaddrinfo` gives a list of addresses.  The loop makes a socket for one after the other
until `bind` succeeds, and closes those for which it does not; behind the loop the socket is
made non-blocking, and the server listens and gets its socket manager.  What the calls to the
system return is given, for each address of the list in its order.

An exit code that is not E_SUCCESS is E_FAILURE here, since `start_tcp_server` only tells the
two apart.  `opened` and `closed` are what `socket` has returned and what `close` has been
called on, so a socket that is left open shows as one that is in the first list and not in the
second.  `start_tcp_server` closes the sockets of its manager when it ends, which has none
until the manager has been set up.
-/
import CmakeTemplate.IntManager

namespace CmakeTemplate

open Lib

/-- What the calls for one address return; `socket` returns a descriptor or fails. -/
structure AddrCalls where
  /-- The descriptor that `socket` returns, if any. -/
  socket : Option Int
  /-- Whether `setsockopt` succeeds. -/
  setsockopt : Bool
  /-- Whether `bind` does. -/
  bind : Bool

structure ServerSockets where
  /-- `server->fd`. -/
  fd : Int
  /-- What `socket` has returned. -/
  opened : List Int
  /-- What `close` has been called on. -/
  closed : List Int

/-- `close`. -/
def ServerSockets.close (s : ServerSockets) (fd : Int) : ServerSockets :=
  { s with closed := s.closed ++ [fd] }

/-- `create_socket`. -/
def createSocket (s : ServerSockets) (calls : AddrCalls) : ExitCode × ServerSockets :=
  match calls.socket with
  | none => (.failure, s)
  | some sockFd =>
    let s := { s with opened := s.opened ++ [sockFd] }
    if calls.setsockopt then (.success, { s with fd := sockFd }) else (.failure, s.close sockFd)

/-- The loop over the addresses; it returns whether `current` is not NULL behind it. -/
def addressLoop : List AddrCalls → ServerSockets → Bool × ServerSockets
  | [], s => (false, s)
  | current :: rest, s =>
    let created := createSocket s current
    if .success ≠ created.1 then addressLoop rest created.2
    else if current.bind then (true, created.2)
    else addressLoop rest (created.2.close created.2.fd)

/-- What the calls of `initialize_server` return. -/
structure InitCalls where
  /-- Whether there is a list of addresses. -/
  getaddrinfo : Bool
  /-- What the calls for each address return. -/
  addrs : List AddrCalls
  /-- Both calls of `fcntl` in `set_fd_non_blocking`. -/
  nonBlocking : Bool
  /-- Whether `listen` succeeds. -/
  listen : Bool
  /-- The allocation of `sock_fd_arr_init`. -/
  calloc : Bool

/-- `initialize_server`. -/
def initializeServer (calls : InitCalls) (maxClients : Int) (m : IntManager) (s : ServerSockets) :
    ExitCode × IntManager × ServerSockets :=
  if !calls.getaddrinfo then (.failure, m, s)
  else
    let bound := addressLoop calls.addrs s
    if !bound.1 then (.failure, m, bound.2)
    else if !calls.nonBlocking then (.failure, m, bound.2.close bound.2.fd)
    else if !calls.listen then (.failure, m, bound.2)
    else
      let inited := m.sockMgrInit bound.2.fd maxClients defaultFdCapacity calls.calloc
      (inited.1, inited.2, bound.2)

/-- `close_all_sockets`. -/
def closeAllSockets (m : IntManager) (s : ServerSockets) : ServerSockets :=
  (List.range m.fdCount.toNat).foldl (fun s idx => s.close (m.fdArr idx).fd) s

/-- `sock_mgr` of `start_tcp_server`, before it is set up. -/
def zeroIntManager : IntManager :=
  { fdArr := fun _ => ⟨0, 0, 0⟩, allocated := 0, maxFds := 0, fdCount := 0, fdCapacity := 0,
    locked := false, outside := false }

/-- The call of `initialize_server` in `start_tcp_server`. -/
def startSockets (calls : InitCalls) (maxClients : Int) : ExitCode × IntManager × ServerSockets :=
  initializeServer calls maxClients zeroIntManager ⟨0, [], []⟩

/-! ### What the outcomes mean

When the call succeeds, and when it leaves a socket, in terms of what the system answers.
-/

/-- A socket is made for the address, and bound to it. -/
def AddrCalls.binds (calls : AddrCalls) : Bool :=
  calls.socket.isSome && calls.setsockopt && calls.bind

/-- Everything that is called succeeds. -/
structure InitCalls.Succeed (calls : InitCalls) (maxClients : Int) : Prop where
  /-- There is a list of addresses. -/
  getaddrinfo : calls.getaddrinfo = true
  /-- One of them can be bound to. -/
  bound : ∃ current ∈ calls.addrs, current.binds = true
  /-- The socket is made non-blocking. -/
  nonBlocking : calls.nonBlocking = true
  /-- The server listens. -/
  listen : calls.listen = true
  /-- There are clients to be had. -/
  clients : 0 < maxClients
  /-- There is memory for the table. -/
  calloc : calls.calloc = true

/-- A socket is bound, and something fails behind `set_fd_non_blocking`. -/
structure InitCalls.Leak (calls : InitCalls) (maxClients : Int) : Prop where
  /-- There is a list of addresses. -/
  getaddrinfo : calls.getaddrinfo = true
  /-- One of them can be bound to. -/
  bound : ∃ current ∈ calls.addrs, current.binds = true
  /-- The socket is made non-blocking. -/
  nonBlocking : calls.nonBlocking = true
  /-- The server does not listen, or gets no table. -/
  fails : calls.listen = false ∨ ¬ 0 < maxClients ∨ calls.calloc = false

end CmakeTemplate
