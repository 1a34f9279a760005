/-
`run_server_loop` and the signal handler.

The condition of the loop is on its local `signal`, which nothing in the loop writes; the
handler writes `signal_flag`, at any moment.  So the loop ends by what `poll` and
`handle_connections` return, or not at all.  A call of `poll` that was interrupted sends it
back to its head.

What `poll` and `handle_connections` return is not for the loop to decide: the answer of each
call is part of a step.  The sections under `fd_mutex` only copy, and so they are steps like
any other.  `late` counts the calls of `poll` that were made with the flag at SHUTDOWN; it is
kept for the statements only, and a server that shuts down when it is told to keeps it at 0.
-/
import CmakeTemplate.Lib.System

namespace CmakeTemplate

open Lib

/-- ACTIVE and SHUTDOWN. -/
inductive SignalFlag
  | active
  | shutdown
  deriving DecidableEq

/-- The signals the handler knows, and the others. -/
inductive Signal
  | sigint
  | sigterm
  | sighup
  | other
  deriving DecidableEq

/-- `signal_handler`, less what it writes to the terminal. -/
def signalHandler (sig : Signal) (signalFlag : SignalFlag) : SignalFlag :=
  match sig with
  | .sigint => .shutdown
  | .sigterm => .shutdown
  | .sighup | .other => signalFlag

/-- Where `run_server_loop` is. -/
inductive RunPc
  /-- In front of its NULL check. -/
  | entered
  /-- At the condition of the loop. -/
  | head
  /-- About to copy `fd_arr` and `fd_count`. -/
  | body
  /-- About to call `poll`. -/
  | copied
  | polling
  /-- In `handle_connections`. -/
  | handling
  | returned
  deriving DecidableEq

structure RunState where
  /-- `server`, or its `sock_mgr`, is NULL. -/
  isNull : Bool
  /-- The flag that the handler writes. -/
  signalFlag : SignalFlag
  /-- The local of that name. -/
  signal : SignalFlag
  /-- The local of that name. -/
  exitCode : Int
  /-- Where the loop is. -/
  main : RunPc
  /-- How many calls of `poll` came too late. -/
  late : Nat

/-- What `poll` returns, with `errno`. -/
inductive PollOutcome
  | ready
  | timeout
  | interrupted
  | failed
  deriving DecidableEq

inductive RunEvent
  | handler (sig : Signal)
  /-- The NULL check. -/
  | check
  /-- The condition of the loop, and the test behind it. -/
  | test
  | copy
  | callPoll
  | pollReturns (outcome : PollOutcome)
  | handled (exitCode : Int)

/-- One step of `run_server_loop`, or the handler. -/
def runStep (s : RunState) : RunEvent → Option RunState
  | .handler sig => some { s with signalFlag := signalHandler sig s.signalFlag }
  | .check =>
    match s.main with
    | .entered => some { s with main := if s.isNull then .returned else .head }
    | _ => none
  | .test =>
    match s.main with
    | .head =>
      if s.signal = .active then
        if s.signal = .shutdown then some { s with exitCode := 0, main := .returned }
        else some { s with main := .body }
      else some { s with exitCode := 0, main := .returned }
    | _ => none
  | .copy =>
    match s.main with
    | .body => some { s with main := .copied }
    | _ => none
  | .callPoll =>
    match s.main with
    | .copied =>
      some { s with
        main := .polling
        late := s.late + if s.signalFlag = .shutdown then 1 else 0 }
    | _ => none
  | .pollReturns outcome =>
    match s.main with
    | .polling =>
      match outcome with
      | .ready => some { s with main := .handling }
      | .timeout => some { s with main := .head }
      | .interrupted => some { s with main := .head }
      | .failed => some { s with main := .returned }
    | _ => none
  | .handled exitCode =>
    match s.main with
    | .handling =>
      if exitCode ≠ 0 then some { s with exitCode, main := .returned }
      else some { s with exitCode, main := .head }
    | _ => none

/-- A call of `run_server_loop`; `signal_flag` is ACTIVE until the handler sets it. -/
def runStart (isNull : Bool) : RunState :=
  { isNull, signalFlag := .active, signal := .active, exitCode := -1, main := .entered, late := 0 }

def runSystem (isNull : Bool) : System RunState RunEvent where
  init s := s = runStart isNull
  step := runStep

/-! ### Shutting down

The signal should end the loop before the next call of `poll`.  Whether it does depends on
where the loop is when the handler runs, and on what the call it is in returns.
-/

/-- The loop is on its way to a call of `poll`. -/
def RunState.heads (s : RunState) : Bool :=
  match s.main with
  | .entered => !s.isNull
  | .head | .body | .copied => true
  | .polling | .handling | .returned => false

/-- SHUTDOWN is not set on the way to a call of `poll`, but during one, in
`handle_connections` or behind the loop; and once it is set, what `poll` or
`handle_connections` returns ends the loop. -/
def Timely (s : RunState) : RunEvent → Prop
  | .handler sig => signalHandler sig s.signalFlag = .shutdown → s.heads = false
  | .pollReturns outcome => s.signalFlag = .shutdown → outcome ≠ .timeout ∧ outcome ≠ .interrupted
  | .handled exitCode => s.signalFlag = .shutdown → exitCode ≠ 0
  | _ => True

/-- The flag is at SHUTDOWN, and the loop is on its way to a call of `poll`. -/
def Missed (s : RunState) : Prop := s.signalFlag = .shutdown ∧ s.heads = true

end CmakeTemplate
