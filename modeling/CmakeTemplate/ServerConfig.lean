/-
`validate_config` of `tcp_server.c`.

The configuration is checked field by field: the port, the length of the backlog, the time
that `poll` waits, the number of threads, the number of clients, and the function that handles
a request, of which only matters whether it is NULL.  The bounds are those of the source, and
the numbers are `int`s, so a field may be negative.

The port is a string.  It is read by `str_to_int32`, and refused if it is one of the
well-known ones, from 0 to 1023; no other number is.  The command line is checked by
`option_handler.c` on its own, which refuses what is below 1025 or above 65535.  So a port may
pass one check and not the other, and `PassesUsable` says how the two and the ports that a
socket can be bound to should be related.
-/
import CmakeTemplate.Clients
import CmakeTemplate.OptionHandler

namespace CmakeTemplate

open Lib

/-- `server_config_t`. -/
structure ServerConfig where
  /-- The port, or NULL. -/
  port : Option CString
  /-- The number of clients. -/
  maxClients : Int
  /-- The timeout of `poll`. -/
  timeout : Int
  /-- The number of workers. -/
  numThreads : Int
  /-- The length of the backlog. -/
  backlogSize : Int
  /-- Whether there is a function for requests. -/
  clientRequest : Bool

/-- `WELL_KNOWN_PORT_MAX`. -/
def wellKnownPortMax : Int := 1023

/-- `MIN_BACKLOG` and `MAX_BACKLOG`. -/
def minBacklog : Int := 1

def maxBacklog : Int := 128

/-- `MIN_TIMEOUT` and `MAX_TIMEOUT`. -/
def minTimeout : Int := 10

def maxTimeout : Int := 300

/-- `MIN_NUM_THREADS` and `MAX_NUM_THREADS` of `tcp_server.c`. -/
def minServerThreads : Int := 2

def maxServerThreads : Int := 24

/-- `validate_config`. -/
def validateConfig (config : Option ServerConfig) : ExitCode :=
  match config with
  | none => .failure
  | some config =>
    let conversion := strToInt32 config.port (some 0)
    let port := (conversion.2.getD 0).toInt
    if .success ≠ conversion.1 then conversion.1
    else if 0 ≤ port ∧ wellKnownPortMax ≥ port then .failure
    else if minBacklog > config.backlogSize ∨ maxBacklog < config.backlogSize then .failure
    else if -1 ≠ config.timeout ∧ (minTimeout > config.timeout ∨ maxTimeout < config.timeout) then
      .failure
    else if minServerThreads > config.numThreads ∨ maxServerThreads < config.numThreads then
      .failure
    else if minClients > config.maxClients ∨ maxClientsLimit < config.maxClients then .failure
    else if !config.clientRequest then .failure
    else .success

/-- `validate_config` has nothing against the fields but for the port. -/
structure ServerConfig.OthersValid (config : ServerConfig) : Prop where
  /-- The backlog is in its range. -/
  backlog : minBacklog ≤ config.backlogSize ∧ config.backlogSize ≤ maxBacklog
  /-- The timeout is in its range, or there is none. -/
  timeout : config.timeout = -1 ∨ minTimeout ≤ config.timeout ∧ config.timeout ≤ maxTimeout
  /-- So is the number of threads. -/
  threads : minServerThreads ≤ config.numThreads ∧ config.numThreads ≤ maxServerThreads
  /-- And the number of clients. -/
  clients : ValidMaxClients config.maxClients
  /-- There is a function for requests. -/
  request : config.clientRequest = true

/-- A port that is not well-known and that a socket can be bound to. -/
def IsUsablePort (s : CString) : Prop :=
  ∃ v : Int, IsDecimal s.chars v ∧ wellKnownPortMax + 1 ≤ v ∧ v ≤ maxPortValue

/-- Only usable ports pass, those of the command line among them. -/
structure PassesUsable (config : ServerConfig) (port : CString) : Prop where
  /-- The configuration is accepted exactly with a usable port. -/
  accepts : validateConfig (some { config with port := some port }) = .success ↔
    IsUsablePort port
  /-- What the command line accepts is accepted here. -/
  commandLine : ∀ options, (processPOption (some port) options).1 = .success →
    validateConfig (some { config with port := some port }) = .success
  /-- A number that is no port is not accepted. -/
  noOther : ∀ v : Int, IsDecimal port.chars v → v < 0 ∨ maxPortValue < v →
    validateConfig (some { config with port := some port }) ≠ .success

end CmakeTemplate
