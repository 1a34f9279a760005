/-
`main` of the server, up to the configuration it starts the server with.

`main` counts its arguments, sets up the handler for signals, reads the options, and fills a
configuration from them and from constants: the port and the number of threads that were not
given have defaults.  It then calls `start_tcp_server`, which validates the configuration once
more.

`signal_action_setup` may fail, and `client_request`, which `main` still sets to NULL, is an
argument, so that what the source says of a server that can be started is not said of nothing.
What is logged is left out.  A call of `main` ends with its exit code, or comes to
`start_tcp_server` with a configuration, and which of the two it is depends on the command
line alone, where nothing fails.
-/
import CmakeTemplate.ServerConfig

namespace CmakeTemplate

open Lib

/-- `MIN_ARGS` and `MAX_ARGS`. -/
def minArgs : Nat := 1

def maxArgs : Nat := 6

/-- `DEFAULT_PORT_NUMBER`: `"31337"`. -/
def defaultPortNumber : CString := ⟨[51, 49, 51, 51, 55], by decide⟩

/-- `DEFAULT_THREAD_COUNT`. -/
def defaultThreadCount : Int32 := 4

/-- `BACKLOG_SIZE`. -/
def backlogSize : Int := 10

/-- `MAX_CLIENTS`. -/
def maxClients : Int := 10

/-- `POLL_TIMEOUT`. -/
def pollTimeout : Int := 10

/-- What `main` fills `config` with. -/
def configOf (clientRequest : Bool) (options : Options) : ServerConfig :=
  { backlogSize, clientRequest, maxClients, numThreads := options.nValue.toInt,
    port := options.pValue, timeout := pollTimeout }

/-- `main`: its exit code, if it does not get as far as `start_tcp_server`, or the configuration it
calls that with. -/
def serverMain (argv : List CString) (signalActionSetup : ExitCode) (clientRequest : Bool) :
    ExitCode ⊕ ServerConfig :=
  if minArgs > argv.length ∨ maxArgs < argv.length then .inl .failure
  else if .success ≠ signalActionSetup then .inl signalActionSetup
  else
    let processed := processDefaults argv defaultThreadCount (some defaultPortNumber)
    match processed.1, processed.2 with
    | .success, some options => .inr (configOf clientRequest options)
    | exitCode, _ => .inl exitCode

end CmakeTemplate
