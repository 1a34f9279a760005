/-
The passes of `handle_connections` over the table, and what they leave in it.

The server is that of `Server.lean`, with the line that `register_client` prints for the log:
`printed` is what `snprintf` returns, which the caller compares with E_SUCCESS, so any other
number closes the client behind the entry it has just got.  The length of the line is never 0,
so as the line is printed now that happens to every client.  A code of `register_client` that
is not E_SUCCESS is E_FAILURE here, since `handle_connections` and `run_server_loop` only tell
the two apart.

A pass should leave a table of open descriptors, and no more of them than there are clients.
`Calm` are the passes in which nothing happens that leaves something else behind: no entry
that is looked at has an error, and a client that gets an entry keeps it open.
-/
import CmakeTemplate.Server
import Mathlib.Data.Set.Card

namespace CmakeTemplate

open Lib

inductive PassEvent
  | server (ev : ServerEvent)
  /-- `register_client` behind `accept4`, with the outcomes of `realloc` and of `snprintf`. -/
  | logged (realloc : Option (Nat → PollFd)) (printed : Int)

/-- `register_client` from `sock_fd_add` on. -/
def loggedStep (s : ServerState) (realloc : Option (Nat → PollFd)) (printed : Int) :
    Option ServerState :=
  match s.main with
  | .accepted idx count fd => do
    let (exitCode, mgr) ← sockFdAdd s.mgr fd realloc
    if exitCode = .success then
      if printed ≠ 0 then some { s.close fd with mgr, main := .scan (idx + 1) count .failure }
      else some { s with mgr, main := .scan (idx + 1) count .success }
    else some { s.close fd with mgr, main := .scan (idx + 1) count exitCode }
  | _ => none

def passStep (s : ServerState) : PassEvent → Option ServerState
  | .server (.register _) => none
  | .server ev => serverStep s ev
  | .logged realloc printed => loggedStep s realloc printed

def passSystem (fd maxClients : Int) : System ServerState PassEvent where
  init s := s = serverStart fd maxClients
  step := passStep

/-! ### The end of a pass

The table is judged when a pass is about to return, not on the way.
-/

/-- `handle_connections` is about to return. -/
def PassEnds (s : ServerState) : Prop :=
  ∃ idx count exitCode, s.main = .scan idx count exitCode ∧ count ≤ idx

/-- Every entry holds an open descriptor, and there are at most as many as there are clients
connected, and the server's own. -/
structure AllOpen (s : ServerState) : Prop where
  /-- The descriptor of every entry is open. -/
  isOpen : ∀ idx, idx < s.mgr.fdCount → s.isOpen (s.mgr.fdArr idx).fd = true
  /-- There are no more entries than clients, and the one of the server. -/
  fdCount : (s.mgr.fdCount : ℕ∞) ≤ 1 + {c | c ≠ s.fd ∧ s.isOpen c = true}.encard

/-- No entry that is looked at has an error, and a client that gets an entry keeps it open. -/
def Calm (s : ServerState) : PassEvent → Prop
  | .server .look => ∀ idx count exitCode, s.main = .entry idx count exitCode →
      (s.mgr.fdArr idx).revents &&& pollErrorEvents = 0
  | .logged realloc printed =>
    (s.mgr.fdCount = s.mgr.fdCapacity → realloc.isSome) → printed = 0
  | _ => True

end CmakeTemplate
