/-
`message_log` of `runtime_log.c`.

A call builds a line from a time stamp, a label and a message, and writes it to the console,
to a file, or to both, while it holds a mutex.  The calls of the C library that can fail are
parameters, and so is the text that the format and its arguments stand for.  A call returns an
`int` and the state it leaves: the mutex, the file, and what was written.

The message is printed into a buffer of `MAX_MSG_SIZE` bytes and from there into the line by
`%s`, so what comes out is the message up to its first zero, as far as it fits.  The mutex has
to be given back on every way out, and the file closed on every way on which it was opened;
and the exit code has to say whether the line is where it should be.
-/
import CmakeTemplate.Lib.Printf

namespace CmakeTemplate

open Lib

/-- `E_SUCCESS`. -/
def eSuccess : Int := 0

/-- `E_FAILURE`. -/
def eFailure : Int := -1

/-- `MAX_MSG_SIZE`. -/
def maxMsgSize : Nat := 500

/-- `COLOR_CODE_SIZE`. -/
def colorCodeSize : Nat := 32

/-- `fg_color_t`. -/
inductive FgColor
  | default | red | green | yellow | blue | magenta | cyan | white
  | brightRed | brightGreen | brightYellow | brightBlue | brightMagenta | brightCyan | brightWhite

/-- `bg_color_t`. -/
inductive BgColor
  | none | red | green | yellow | blue | magenta | cyan | white
  | brightRed | brightGreen | brightYellow | brightBlue | brightMagenta | brightCyan | brightWhite

/-- `fg_ansi_codes`. -/
def fgAnsiCodes : FgColor → Nat
  | .default => 39
  | .red => 31 | .green => 32 | .yellow => 33 | .blue => 34 | .magenta => 35 | .cyan => 36
  | .white => 37
  | .brightRed => 91 | .brightGreen => 92 | .brightYellow => 93 | .brightBlue => 94
  | .brightMagenta => 95 | .brightCyan => 96 | .brightWhite => 97

/-- `bg_ansi_codes`. -/
def bgAnsiCodes : BgColor → Nat
  | .none => 49
  | .red => 41 | .green => 42 | .yellow => 43 | .blue => 44 | .magenta => 45 | .cyan => 46
  | .white => 47
  | .brightRed => 101 | .brightGreen => 102 | .brightYellow => 103 | .brightBlue => 104
  | .brightMagenta => 105 | .brightCyan => 106 | .brightWhite => 107

/-- `log_dest_t`. -/
inductive LogDest
  | console
  | file
  | both
  deriving DecidableEq

def LogDest.hasConsole (destination : LogDest) : Bool :=
  destination = .console ∨ destination = .both

def LogDest.hasFile (destination : LogDest) : Bool := destination = .file ∨ destination = .both

/-- The outcomes of the library calls.  `strftime` has the text it makes, `vsnprintf` the whole
message; `leftover` is what a failed `strftime` leaves in its buffer. -/
structure LogCalls where
  /-- Whether the colour code could be printed. -/
  snprintf : Bool
  /-- Whether `time` succeeds. -/
  time : Bool
  /-- Whether `localtime_r` does. -/
  localtime : Bool
  /-- The time stamp, if it fits its buffer. -/
  strftime : Option (List UInt8)
  /-- What is in the buffer otherwise. -/
  leftover : List UInt8
  /-- The whole message, if it could be printed. -/
  vsnprintf : Option (List UInt8)
  /-- Whether the file could be opened. -/
  fopen : Bool
  /-- Whether the console could be written. -/
  printf : Bool
  /-- Whether the file could be. -/
  fprintf : Bool
  /-- Whether it could be closed. -/
  fclose : Bool

/-- What a call leaves behind. -/
structure LogState where
  /-- Whether the mutex is locked. -/
  locked : Bool
  /-- Whether the file is open. -/
  opened : Bool
  /-- What has been written to the console. -/
  console : List UInt8
  /-- What has been written to the file. -/
  file : List UInt8
  deriving DecidableEq

/-- The mutex is free, no file is open, and nothing has been written. -/
def LogState.idle : LogState := ⟨false, false, [], []⟩

/-- `get_color_code`: `"\033[%d;%dm"`. -/
def getColorCode (foreground : FgColor) (background : BgColor) (snprintf : Bool) :
    Int × List UInt8 :=
  let text := [27, 91] ++ printUnsigned (fgAnsiCodes foreground) ++ [59] ++
    printUnsigned (bgAnsiCodes background) ++ [109]
  if !snprintf then (eFailure, []) else (eSuccess, text.take (colorCodeSize - 1))

/-- `get_timestamp`, into a buffer of zeroes. -/
def getTimestamp (calls : LogCalls) : Bool × List UInt8 :=
  if !calls.time then (false, [])
  else if !calls.localtime then (false, [])
  else
    match calls.strftime with
    | none => (false, calls.leftover)
    | some text => (true, text)

/-- `"[%s][%s]: %s"`, or without the first part. -/
def logLine (timestamp : Option (List UInt8)) (label message : List UInt8) : List UInt8 :=
  (timestamp.map fun time => 91 :: (printString time ++ [93])).getD [] ++
    91 :: (printString label ++ [93, 58, 32] ++ printString message)

/-- The line on the console: `"%s...\033[0m\n"`. -/
def consoleLine (colorCode line : List UInt8) : List UInt8 :=
  colorCode ++ line ++ [27, 91, 48, 109, 10]

/-- The line in the file. -/
def fileLine (line : List UInt8) : List UInt8 := line ++ [10]

/-- `message_log` from the opened file on. -/
def writeLine (destination : LogDest) (colorCode line : List UInt8) (exitCode : Int)
    (calls : LogCalls) : Int × LogState :=
  let console := if destination.hasConsole ∧ calls.printf then consoleLine colorCode line else []
  if destination.hasFile then
    -- without unlocking or closing the file
    if !calls.fprintf then (exitCode, ⟨true, true, console, []⟩)
    else if !calls.fclose then (eFailure, ⟨true, false, console, fileLine line⟩)
    else (eSuccess, ⟨false, false, console, fileLine line⟩)
  else (eSuccess, ⟨false, false, console, []⟩)

/-- `message_log`; `label` is its argument `prefix`. -/
def messageLog (label : Option (List UInt8)) (fgColor : FgColor) (bgColor : BgColor)
    (destination : LogDest) (showTime : Bool) (format : Option (List UInt8)) (calls : LogCalls) :
    Int × LogState :=
  match label, format with
  | some label, some _ =>
    let colorCode := getColorCode fgColor bgColor calls.snprintf
    if eSuccess ≠ colorCode.1 then (eFailure, .idle)
    else
      -- the result of `get_timestamp` is a `bool`
      let exitCode : Int := if showTime then (if (getTimestamp calls).1 then 1 else 0) else eSuccess
      if eSuccess ≠ exitCode then (exitCode, .idle)
      else
        match calls.vsnprintf with
        | none => (eFailure, .idle)
        | some text =>
          if destination.hasFile ∧ !calls.fopen then (exitCode, .idle)
          else
            let timestamp := if showTime then some (getTimestamp calls).2 else none
            let line := logLine timestamp label (text.take (maxMsgSize - 1))
            writeLine destination colorCode.2 line exitCode calls
  | _, _ => (eFailure, .idle)

/-! ### What a call should do

The line with the whole message is at every destination, or the call says that it is not.
What was locked and opened is given back in either case.
-/

/-- The timestamp of the line, if it is to have one. -/
def HasTimestamp (showTime : Bool) (calls : LogCalls) (timestamp : Option (List UInt8)) : Prop :=
  if showTime then ∃ text, getTimestamp calls = (true, text) ∧ timestamp = some text
  else timestamp = none

/-- The line with the whole message is at every destination. -/
def IsLogged (label : List UInt8) (fgColor : FgColor) (bgColor : BgColor) (destination : LogDest)
    (showTime : Bool) (calls : LogCalls) (state : LogState) : Prop :=
  ∃ timestamp message, HasTimestamp showTime calls timestamp ∧ calls.vsnprintf = some message ∧
    (destination.hasConsole →
      state.console = consoleLine (getColorCode fgColor bgColor true).2
        (logLine timestamp label message)) ∧
    (destination.hasFile → state.file = fileLine (logLine timestamp label message))

/-- The call says whether the line was logged, and gives back the mutex and the file. -/
structure ReportsLog (label : List UInt8) (fgColor : FgColor) (bgColor : BgColor)
    (destination : LogDest) (showTime : Bool) (calls : LogCalls) (result : Int × LogState) :
    Prop where
  /-- E_SUCCESS is returned for a line that was logged, and for no other. -/
  reported : result.1 = eSuccess ↔
    IsLogged label fgColor bgColor destination showTime calls result.2
  /-- The mutex is free. -/
  unlocked : result.2.locked = false
  /-- The file is closed. -/
  closed : result.2.opened = false

/-- All that a destination needs can be done. -/
def LogDest.Works (destination : LogDest) (calls : LogCalls) : Prop :=
  (destination.hasConsole → calls.printf) ∧
    (destination.hasFile → calls.fopen ∧ calls.fprintf ∧ calls.fclose)

end CmakeTemplate
