/-
One call of `handle_connections`, with no worker at the table meanwhile.

The loop takes one index after the other up to the `fd_count` it has read at its beginning,
whatever happens to the table on the way: `register_client` puts a descriptor behind the last,
and `handle_client_event` takes the entry out and moves the last into its place.  So an entry
may be moved from an index that is still ahead to the one that the loop is about to leave, and
an entry that is taken out makes the last indices point behind the table.

What the system answers while an entry is handled is an `EntryOutcome`: a connection or none,
with or without memory for a larger array, what `snprintf` returns, and whether the job could
be allocated and queued.  An outcome that the entry does not call for is not looked at.
-/
import CmakeTemplate.Clients
import Mathlib.Data.Nat.Count

namespace CmakeTemplate

open Lib

/-- The outcomes of the calls that may be made for one entry. -/
structure EntryOutcome where
  /-- What `accept` returns, and whether its descriptor could be made non-blocking. -/
  client : Option (Int × Bool)
  /-- What the new slots of a larger array hold, or nothing if there is no memory. -/
  realloc : Option (Nat → PollFd)
  /-- What `snprintf` returns. -/
  printed : Int
  /-- Whether there is memory for a job. -/
  calloc : Bool
  /-- Whether the job was queued. -/
  addTask : Bool

/-- `handle_client_event`. -/
def handleClientEvent (s : ClientsState) (index : Nat) (out : EntryOutcome) :
    Option (Int × ClientsState) :=
  let clientFd := (s.mgr.fdArr index).fd
  if out.calloc && out.addTask then do
    let (exitCode, mgr) ← sockFdRemove s.mgr index
    some (if exitCode = .success then 0 else -1, { s with mgr, jobs := s.jobs ++ [clientFd] })
  else some (-1, s)

/-- The body of the loop of `handle_connections`. -/
def handleEntry (s : ClientsState) (exitCode : Int) (idx : Nat) (out : EntryOutcome) :
    Option (Int × ClientsState) :=
  if s.mgr.locked then none
  else if s.mgr.allocated ≤ idx then none
  else if (s.mgr.fdArr idx).revents &&& pollErrorEvents ≠ 0 then
    some (exitCode, { s with
      isOpen := Function.update s.isOpen (s.mgr.fdArr idx).fd false
      mgr := { s.mgr with
        fdArr := Function.update s.mgr.fdArr idx { s.mgr.fdArr idx with fd := -1 } } })
  else if (s.mgr.fdArr idx).revents &&& pollIn = 0 then some (exitCode, s)
  else if (s.mgr.fdArr idx).fd = s.fd then registerClient s out.client out.realloc out.printed
  else handleClientEvent s idx out

/-- The loop, up to an index. -/
def handleUpTo (s : ClientsState) (outs : Nat → EntryOutcome) : Nat → Option (Int × ClientsState)
  | 0 => some (-1, s)
  | idx + 1 => do
    let (exitCode, s) ← handleUpTo s outs idx
    handleEntry s exitCode idx (outs idx)

/-- `handle_connections`. -/
def handleConnections (s : ClientsState) (outs : Nat → EntryOutcome) :
    Option (Int × ClientsState) :=
  if s.mgr.locked then none else handleUpTo s outs s.mgr.fdCount

/-! ### What is ready

`poll` has filled in `revents` before the call, and an entry is ready by what is in it then.
-/

/-- POLLIN, and no error. -/
def PollFd.ready (e : PollFd) : Bool :=
  e.revents &&& pollErrorEvents = 0 && e.revents &&& pollIn ≠ 0

/-- The entry of a client that is ready. -/
def readyClient (s : ClientsState) (idx : Nat) : Bool :=
  (s.mgr.fdArr idx).ready && (s.mgr.fdArr idx).fd ≠ s.fd

/-- How many of the first `n` entries are those of clients that are ready. -/
def readyBelow (s : ClientsState) (n : Nat) : Nat := Nat.count (fun idx => readyClient s idx) n

/-- The descriptors of the clients that are ready. -/
def readyFds (s : ClientsState) : List Int :=
  ((List.range s.mgr.fdCount).filter (readyClient s)).map fun idx => (s.mgr.fdArr idx).fd

/-- `register_client` is called at this entry, and gets as far as the table. -/
def takesIn (s : ClientsState) (outs : Nat → EntryOutcome) (idx : Nat) : Bool :=
  (s.mgr.fdArr idx).ready && (s.mgr.fdArr idx).fd = s.fd &&
    (outs idx).client.any fun client => client.2

end CmakeTemplate
