/-
When `message_log` reports what it did.

A call should return E_SUCCESS just in case the line is at its destinations, and give back the
mutex and the file.  There are many ways out of it, and each is judged on its own.  A
timestamp that was made ends the call, as its `true` is no exit code for success; one that was
not made goes unnoticed, and the line is written without it.  In front of the opened file the
call returns the success of an earlier step, with nothing written; the exits behind the opened
file keep the mutex.

So a call reports what it did if it gets nowhere and says so, or if nothing goes wrong from
the message on.  The condition is on the outcomes of the library's calls and on the length of
the message, and it is exact.
-/
import CmakeTemplate.RuntimeLog

namespace CmakeTemplate

open Lib

variable {label format message : List UInt8} {fgColor : FgColor} {bgColor : BgColor}
  {destination : LogDest} {showTime : Bool} {calls : LogCalls} {result : Int × LogState}

/-! ### The helpers

The color code always fits its buffer, and so does a line its destination.
-/

/-- `time`, `localtime` and `strftime` all succeed. -/
def MakesTimestamp (calls : LogCalls) : Prop :=
  calls.time = true ∧ calls.localtime = true ∧ ∃ text, calls.strftime = some text

theorem getTimestamp_iff : (getTimestamp calls).1 = true ↔ MakesTimestamp calls := by
  unfold getTimestamp MakesTimestamp
  cases calls.time with
  | false => simp
  | true =>
      cases calls.localtime with
      | false => simp
      | true =>
          cases calls.strftime with
          | none => simp
          | some text => simp

/-- The longest colour code has ten characters. -/
theorem getColorCode_fits (fgColor : FgColor) (bgColor : BgColor) :
    (getColorCode fgColor bgColor true).2.length ≤ 10 := by
  have hfg : (printUnsigned (fgAnsiCodes fgColor)).length ≤ 2 := by
    apply length_printUnsigned_le (by omega)
    cases fgColor <;> decide
  have hbg : (printUnsigned (bgAnsiCodes bgColor)).length ≤ 3 := by
    apply length_printUnsigned_le (by omega)
    cases bgColor <;> decide
  simp only [getColorCode, Bool.not_true, Bool.false_eq_true, if_false, List.length_take,
    List.length_append, List.length_cons, List.length_nil]
  omega

theorem getColorCode_success : (getColorCode fgColor bgColor true).1 = eSuccess := by
  unfold getColorCode
  rfl

theorem length_consoleLine (colorCode line : List UInt8) :
    (consoleLine colorCode line).length = colorCode.length + line.length + 5 := by
  simp only [consoleLine, List.length_append, List.length_cons, List.length_nil]

theorem length_fileLine (line : List UInt8) : (fileLine line).length = line.length + 1 := by
  simp [fileLine]

theorem length_logLine_none : (logLine none label message).length
    = (printString label).length + (printString message).length + 4 := by
  simp only [logLine, Option.map_none, Option.getD_none, List.nil_append, List.length_cons,
    List.length_append, List.length_nil]
  omega

/-! ### What is not logged

A line that is missing something at a destination is not logged.
-/

theorem LogDest.selected (destination : LogDest) :
    destination.hasConsole = true ∨ destination.hasFile = true := by
  cases destination
  · exact .inl rfl
  · exact .inr rfl
  · exact .inl rfl

/-- Where nothing was written nothing is logged. -/
theorem not_isLogged_of_nil {state : LogState}
    (h : destination.hasConsole = true ∧ state.console = [] ∨
      destination.hasFile = true ∧ state.file = []) :
    ¬ IsLogged label fgColor bgColor destination showTime calls state := by
  rintro ⟨timestamp, message, -, -, hconsole, hfile⟩
  rcases h with ⟨hselected, hnil⟩ | ⟨hselected, hnil⟩
  · have hlength := congrArg List.length (hconsole hselected)
    rw [hnil, length_consoleLine, List.length_nil] at hlength
    omega
  · have hlength := congrArg List.length (hfile hselected)
    rw [hnil, length_fileLine, List.length_nil] at hlength
    omega

theorem not_isLogged_idle :
    ¬ IsLogged label fgColor bgColor destination showTime calls LogState.idle := by
  apply not_isLogged_of_nil
  rcases destination.selected with h | h
  · exact .inl ⟨h, rfl⟩
  · exact .inr ⟨h, rfl⟩

/-- A line without the timestamp it should have is not the line. -/
theorem not_isLogged_of_timestamp {state : LogState} (h : ¬ MakesTimestamp calls) :
    ¬ IsLogged label fgColor bgColor destination true calls state := by
  rintro ⟨timestamp, message, htimestamp, -⟩
  unfold HasTimestamp at htimestamp
  rw [if_pos rfl] at htimestamp
  obtain ⟨text, hmade, -⟩ := htimestamp
  exact h (getTimestamp_iff.mp (congrArg Prod.fst hmade))

/-- An exit that gives everything back and does not claim a success. -/
theorem reportsLog_of_idle {exitCode : Int} (h : exitCode ≠ eSuccess) :
    ReportsLog label fgColor bgColor destination showTime calls (exitCode, .idle) :=
  ⟨iff_of_false h not_isLogged_idle, rfl, rfl⟩

theorem not_reportsLog (h : ¬ IsLogged label fgColor bgColor destination showTime calls result.2)
    (hexit : result.1 = eSuccess ∨ result.2.locked = true) :
    ¬ ReportsLog label fgColor bgColor destination showTime calls result := by
  intro hreports
  rcases hexit with hsuccess | hlocked
  · exact h (hreports.reported.mp hsuccess)
  · rw [hreports.unlocked] at hlocked
    cases hlocked

/-! ### The exits

In the order of the source, each with what it returns and leaves.
-/

theorem messageLog_color (h : calls.snprintf = false) :
    messageLog (some label) fgColor bgColor destination showTime (some format) calls
      = (eFailure, .idle) := by
  unfold messageLog getColorCode
  simp [h, eSuccess, eFailure]

/-- A timestamp is made, and the call returns 1. -/
theorem messageLog_timestamp (hcolor : calls.snprintf = true) (h : MakesTimestamp calls) :
    messageLog (some label) fgColor bgColor destination true (some format) calls = (1, .idle) := by
  unfold messageLog
  simp only [hcolor, getColorCode_success, getTimestamp_iff.mpr h]
  simp [eSuccess]

/-- The rest of the call, with a success as exit code so far. -/
def finishLog (fgColor : FgColor) (bgColor : BgColor) (destination : LogDest) (line : List UInt8)
    (calls : LogCalls) : Int × LogState :=
  if destination.hasFile ∧ !calls.fopen then (eSuccess, .idle)
  else writeLine destination (getColorCode fgColor bgColor true).2 line eSuccess calls

/-- Without a timestamp made the exit code is still a success. -/
theorem exitCode_of_no_timestamp (h : showTime = true → ¬ MakesTimestamp calls) :
    (if showTime then (if (getTimestamp calls).1 then 1 else 0) else eSuccess : Int)
      = eSuccess := by
  cases showTime with
  | false => rfl
  | true =>
      have hno : ¬ (getTimestamp calls).1 = true := fun hmade => h rfl (getTimestamp_iff.mp hmade)
      rw [if_pos rfl, if_neg hno]
      rfl

theorem messageLog_none (hcolor : calls.snprintf = true)
    (htimestamp : showTime = true → ¬ MakesTimestamp calls) (h : calls.vsnprintf = none) :
    messageLog (some label) fgColor bgColor destination showTime (some format) calls
      = (eFailure, .idle) := by
  unfold messageLog
  simp only [hcolor, getColorCode_success, exitCode_of_no_timestamp htimestamp, h]
  rfl

theorem messageLog_some (hcolor : calls.snprintf = true)
    (htimestamp : showTime = true → ¬ MakesTimestamp calls) (h : calls.vsnprintf = some message) :
    messageLog (some label) fgColor bgColor destination showTime (some format) calls
      = finishLog fgColor bgColor destination
          (logLine (if showTime then some (getTimestamp calls).2 else none) label
            (message.take (maxMsgSize - 1))) calls := by
  unfold messageLog finishLog
  simp only [hcolor, getColorCode_success, exitCode_of_no_timestamp htimestamp, h]
  rfl

/-- Whatever happens to the line, the rest of the call reports a success or keeps the mutex. -/
theorem finishLog_exit (line : List UInt8) :
    (finishLog fgColor bgColor destination line calls).1 = eSuccess ∨
      (finishLog fgColor bgColor destination line calls).2.locked = true := by
  unfold finishLog writeLine
  cases hfile : destination.hasFile with
  | false => simp
  | true =>
      by_cases hopen : calls.fopen = true
      · by_cases hprint : calls.fprintf = true
        · by_cases hclose : calls.fclose = true
          · simp [hopen, hprint, hclose]
          · simp [hopen, hprint, hclose]
        · simp [hopen, hprint]
      · simp [hopen]

/-- Everything works, and the line is at its destinations. -/
theorem finishLog_works (h : destination.Works calls) (line : List UInt8) :
    finishLog fgColor bgColor destination line calls = (eSuccess, ⟨false, false,
      if destination.hasConsole then consoleLine (getColorCode fgColor bgColor true).2 line else [],
      if destination.hasFile then fileLine line else []⟩) := by
  obtain ⟨hconsole, hfile⟩ := h
  have hprinted : (destination.hasConsole = true ∧ calls.printf = true) ↔
      destination.hasConsole = true := ⟨fun hc => hc.1, fun hc => ⟨hc, hconsole hc⟩⟩
  unfold finishLog writeLine
  simp only [hprinted]
  cases hselected : destination.hasFile with
  | false => simp
  | true =>
      obtain ⟨hopen, hprint, hclose⟩ := hfile hselected
      simp [hopen, hprint, hclose]

/-- At a destination there is the line or nothing. -/
theorem finishLog_written (fgColor : FgColor) (bgColor : BgColor) (destination : LogDest)
    (line : List UInt8) (calls : LogCalls) :
    ((finishLog fgColor bgColor destination line calls).2.console = [] ∨
      calls.printf = true ∧ (finishLog fgColor bgColor destination line calls).2.console
        = consoleLine (getColorCode fgColor bgColor true).2 line) ∧
    ((finishLog fgColor bgColor destination line calls).2.file = [] ∨
      (finishLog fgColor bgColor destination line calls).2.file = fileLine line) := by
  unfold finishLog writeLine
  by_cases hopen : destination.hasFile = true ∧ (!calls.fopen) = true
  · rw [if_pos hopen]
    exact ⟨.inl rfl, .inl rfl⟩
  · rw [if_neg hopen]
    by_cases hprint : destination.hasConsole = true ∧ calls.printf = true
    · simp only [if_pos hprint]
      split_ifs <;> simp [hprint.2]
    · simp only [if_neg hprint]
      split_ifs <;> simp

theorem finishLog_unopened (hfile : destination.hasFile = true) (h : ¬ calls.fopen = true)
    (line : List UInt8) :
    finishLog fgColor bgColor destination line calls = (eSuccess, .idle) := by
  unfold finishLog
  rw [if_pos ⟨hfile, by simpa using h⟩]

/-- The exits behind the opened file keep the mutex. -/
theorem finishLog_locked (hfile : destination.hasFile = true) (hopen : calls.fopen = true)
    (h : ¬ (calls.fprintf = true ∧ calls.fclose = true)) (line : List UInt8) :
    (finishLog fgColor bgColor destination line calls).2.locked = true := by
  unfold finishLog writeLine
  by_cases hprint : calls.fprintf = true
  · have hclose : ¬ calls.fclose = true := fun hc => h ⟨hprint, hc⟩
    simp [hfile, hopen, hprint, hclose]
  · simp [hfile, hopen, hprint]

/-- Where something does not work, something is missing at a destination or is not given back. -/
theorem finishLog_broken (h : ¬ destination.Works calls) (line : List UInt8) :
    ¬ ReportsLog label fgColor bgColor destination showTime calls
      (finishLog fgColor bgColor destination line calls) := by
  intro hreports
  refine h ⟨fun hconsole => ?_, fun hfile => ?_⟩
  · by_contra hprint
    rcases (finishLog_written fgColor bgColor destination line calls).1 with hnil | ⟨hc, -⟩
    · exact not_reportsLog (not_isLogged_of_nil (.inl ⟨hconsole, hnil⟩)) (finishLog_exit line)
        hreports
    · exact hprint hc
  · have hopen : calls.fopen = true := by
      by_contra hno
      rw [finishLog_unopened hfile hno] at hreports
      exact not_isLogged_idle (hreports.reported.mp rfl)
    by_contra hno
    have hlocked : (finishLog fgColor bgColor destination line calls).2.locked = true :=
      finishLog_locked hfile hopen (fun hc => hno ⟨hopen, hc⟩) line
    rw [hreports.unlocked] at hlocked
    cases hlocked

/-- A message that was cut off is not the message. -/
theorem not_isLogged_of_long (hmessage : calls.vsnprintf = some message)
    (hlong : maxMsgSize ≤ (printString message).length) :
    ¬ IsLogged label fgColor bgColor destination false calls
      (finishLog fgColor bgColor destination
        (logLine none label (message.take (maxMsgSize - 1))) calls).2 := by
  rintro ⟨timestamp, whole, htimestamp, hwhole, hconsole, hfile⟩
  have hnone : timestamp = none := htimestamp
  have hsame : message = whole := by
    rw [hmessage] at hwhole
    exact Option.some.inj hwhole
  subst hnone
  subst hsame
  have hcut : (printString (message.take (maxMsgSize - 1))).length
      < (printString message).length := by
    rw [printString_take, List.length_take]
    unfold maxMsgSize at hlong ⊢
    omega
  obtain ⟨hprinted, hlogged⟩ := finishLog_written fgColor bgColor destination
    (logLine none label (message.take (maxMsgSize - 1))) calls
  rcases destination.selected with hselected | hselected
  · have hline := congrArg List.length (hconsole hselected)
    rw [length_consoleLine, length_logLine_none] at hline
    rcases hprinted with hnil | ⟨-, hprinted⟩
    · rw [hnil, List.length_nil] at hline
      omega
    · rw [hprinted, length_consoleLine, length_logLine_none] at hline
      omega
  · have hline := congrArg List.length (hfile hselected)
    rw [length_fileLine, length_logLine_none] at hline
    rcases hlogged with hnil | hlogged
    · rw [hnil, List.length_nil] at hline
      omega
    · rw [hlogged, length_fileLine, length_logLine_none] at hline
      omega

/-! ### The whole call

The exits, put together.
-/

/-- Without a timestamp asked for: the message fits and everything works, or there is no message. -/
theorem reportsLog_plain_iff (hcolor : calls.snprintf = true)
    (hmessage : calls.vsnprintf = some message) :
    ReportsLog label fgColor bgColor destination false calls
        (messageLog (some label) fgColor bgColor destination false (some format) calls) ↔
      (printString message).length < maxMsgSize ∧ destination.Works calls := by
  rw [messageLog_some hcolor (fun hc => by cases hc) hmessage, if_neg (by decide)]
  constructor
  · intro hreports
    constructor
    · by_contra hlong
      exact not_reportsLog (not_isLogged_of_long hmessage (Nat.le_of_not_lt hlong))
        (finishLog_exit _) hreports
    · by_contra hbroken
      exact finishLog_broken hbroken _ hreports
  · rintro ⟨hshort, hworks⟩
    have hwhole : printString (message.take (maxMsgSize - 1)) = printString message := by
      rw [printString_take]
      exact List.take_of_length_le (by omega)
    have hline : logLine none label (message.take (maxMsgSize - 1)) = logLine none label message := by
      unfold logLine
      rw [hwhole]
    rw [finishLog_works hworks, hline]
    refine ⟨iff_of_true rfl ⟨none, message, rfl, hmessage, fun hconsole => ?_, fun hfile => ?_⟩,
      rfl, rfl⟩
    · exact if_pos hconsole
    · exact if_pos hfile

/-- A call reports what it did if and only if the colour code or the message cannot be made, or the
timestamp that it should have is, or there is none to be made, the message fits and everything
works. -/
theorem reportsLog_messageLog_iff (label format : List UInt8) (fgColor : FgColor)
    (bgColor : BgColor) (destination : LogDest) (showTime : Bool) (calls : LogCalls) :
    ReportsLog label fgColor bgColor destination showTime calls
        (messageLog (some label) fgColor bgColor destination showTime (some format) calls) ↔
      calls.snprintf = false ∨ calls.vsnprintf = none ∨
      showTime = true ∧ MakesTimestamp calls ∨
      showTime = false ∧ (∃ message, calls.vsnprintf = some message ∧
        (printString message).length < maxMsgSize) ∧ destination.Works calls := by
  cases hcolor : calls.snprintf with
  | false =>
      rw [messageLog_color hcolor]
      exact iff_of_true (reportsLog_of_idle (by decide)) (.inl rfl)
  | true =>
      by_cases hmade : showTime = true ∧ MakesTimestamp calls
      · obtain ⟨rfl, hmade⟩ := hmade
        rw [messageLog_timestamp hcolor hmade]
        exact iff_of_true (reportsLog_of_idle (by decide)) (.inr (.inr (.inl ⟨rfl, hmade⟩)))
      · have htimestamp : showTime = true → ¬ MakesTimestamp calls :=
          fun hshow hc => hmade ⟨hshow, hc⟩
        cases hmessage : calls.vsnprintf with
        | none =>
            rw [messageLog_none hcolor htimestamp hmessage]
            exact iff_of_true (reportsLog_of_idle (by decide)) (.inr (.inl rfl))
        | some message =>
            cases showTime with
            | true =>
                -- the line goes out without its timestamp
                rw [messageLog_some hcolor htimestamp hmessage]
                refine iff_of_false (not_reportsLog (not_isLogged_of_timestamp (htimestamp rfl))
                  (finishLog_exit _)) ?_
                simp [htimestamp rfl]
            | false =>
                rw [reportsLog_plain_iff hcolor hmessage]
                simp

/-- All calls of the library succeed. -/
def workingCalls : LogCalls where
  snprintf := true
  time := true
  localtime := true
  strftime := some [50, 48]
  leftover := []
  vsnprintf := some [72, 105]
  fopen := true
  printf := true
  fprintf := true
  fclose := true

/-- A log file that cannot be opened is a success with nothing written; one that cannot be written
to is a success that keeps the mutex and the file. -/
theorem messageLog_misreports :
    (messageLog (some [73]) .default .none .file false (some [72, 105])
        { workingCalls with fopen := false } = (eSuccess, .idle) ∧
      ¬ ReportsLog [73] .default .none .file false { workingCalls with fopen := false }
        (messageLog (some [73]) .default .none .file false (some [72, 105])
          { workingCalls with fopen := false })) ∧
    messageLog (some [73]) .default .none .file false (some [72, 105])
        { workingCalls with fprintf := false } = (eSuccess, ⟨true, true, [], []⟩) ∧
      ¬ ReportsLog [73] .default .none .file false { workingCalls with fprintf := false }
        (messageLog (some [73]) .default .none .file false (some [72, 105])
          { workingCalls with fprintf := false }) := by
  have hunopened : messageLog (some [73]) .default .none .file false (some [72, 105])
      { workingCalls with fopen := false } = (eSuccess, .idle) := by rfl
  have hunwritten : messageLog (some [73]) .default .none .file false (some [72, 105])
      { workingCalls with fprintf := false } = (eSuccess, ⟨true, true, [], []⟩) := by rfl
  refine ⟨⟨hunopened, fun hreports => ?_⟩, hunwritten, fun hreports => ?_⟩
  · rw [hunopened] at hreports
    exact not_isLogged_idle (hreports.reported.mp rfl)
  · rw [hunwritten] at hreports
    cases hreports.unlocked

end CmakeTemplate
