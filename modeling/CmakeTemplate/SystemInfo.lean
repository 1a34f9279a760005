/-
`get_operating_system` and `get_os_name` of `system_info.c`.

A file is its bytes.  `get_operating_system` reads `/etc/os-release` line by line into a
buffer and hands the line that begins with `PRETTY_NAME=` to `get_os_name`, which takes the
text between two double quotes.  The exit code of `safe_fclose` makes no difference to the
result, and is left out.

A line may lack a quote, or be longer than the buffer, and then it comes in pieces.  An
allocation may fail, too, and the line is then passed over, so each call has its outcomes.
What the file says is stated without a buffer: the first line that names the system, and the
text between its first two quotes.
-/
import CmakeTemplate.HashTable
import CmakeTemplate.Lib.Lines

namespace CmakeTemplate

open Lib

/-- `BUFFER_SIZE`. -/
def bufferSize : Nat := 1020

/-- `PRETTY_NAME_LEN`. -/
def prettyNameLen : Nat := 12

/-- `"PRETTY_NAME="`. -/
def prettyName : List UInt8 := [80, 82, 69, 84, 84, 89, 95, 78, 65, 77, 69, 61]

/-- `'"'`. -/
def quote : UInt8 := 34

/-- The string from the first `c` on. -/
def strchr : List UInt8 → UInt8 → Option (List UInt8)
  | [], _ => none
  | d :: ds, c => if d = c then some (d :: ds) else strchr ds c

/-- `ts_snprintf` of a string into a buffer. -/
def tsSnprintf (size : Nat) (text : List UInt8) : ExitCode × List UInt8 :=
  if text.length ≥ size then (.failure, text.take (size - 1)) else (.success, text)

/-- The string in a buffer. -/
def bufferString (buffer : List UInt8) : CString :=
  ⟨buffer.takeWhile (· ≠ 0), fun h => by simpa using List.mem_takeWhile_imp h⟩

/-- `get_os_name`, with the outcome of `calloc`; the string it returns is empty at first. -/
def getOsName (buffer : Option CString) (calloc : Bool) : Option (List UInt8) :=
  match buffer with
  | none => none
  | some buffer =>
    if !calloc then none
    else if 0 = strncmp buffer.chars prettyName prettyNameLen then
      match strchr buffer.chars quote with
      | none => some []
      | some found =>
        let name := found.tail
        match strchr name quote with
        | none => some []
        | some behind =>
          -- the second quote becomes the end of the string
          let printed := tsSnprintf bufferSize (name.take (name.length - behind.length))
          if .success ≠ printed.1 then none else some printed.2
    else some []

/-- The loop of `get_operating_system`; `calloc` has the outcomes of the calls to come. -/
def osLoop (calloc : Nat → Bool) (osRelease : List UInt8) : Option (List UInt8) :=
  if h : osRelease = [] then none
  else
    have hlt : (fgets (bufferSize - 1) osRelease).2.length < osRelease.length :=
      fgets_rest_lt (by decide) h
    let line := fgets (bufferSize - 1) osRelease
    match getOsName (some (bufferString line.1)) (calloc 0) with
    | some osName => some osName
    | none => osLoop (fun k => calloc (k + 1)) line.2
termination_by osRelease.length

/-- `get_operating_system`, with the content of the file if it could be opened. -/
def getOperatingSystem (osRelease : Option (List UInt8)) (calloc : Nat → Bool) :
    Option (List UInt8) :=
  match osRelease with
  | none => none
  | some osRelease => osLoop calloc osRelease

/-! ### Where the name is

The file as lines, whatever their length.
-/

/-- The text between the first two double quotes. -/
def Quoted (line text : List UInt8) : Prop :=
  ∃ before behind, line = before ++ quote :: (text ++ quote :: behind) ∧ quote ∉ before ∧
    quote ∉ text

def NamesSystem (line text : List UInt8) : Prop := prettyName <+: line ∧ Quoted line text

/-- The first line of the file that names the system has this name. -/
def NameIn (osRelease text : List UInt8) : Prop :=
  ∃ before line behind, osRelease.splitOn newline = before ++ line :: behind ∧
    (∀ other ∈ before, ∀ name, ¬ NamesSystem other name) ∧ NamesSystem line text

/-- The result is the name in the file, or NULL if there is none. -/
structure FindsName (osRelease : List UInt8) (result : Option (List UInt8)) : Prop where
  /-- The result is the name in the file. -/
  found : ∀ text, result = some text ↔ NameIn osRelease text
  /-- It is NULL where there is none. -/
  missing : result = none ↔ ∀ text, ¬ NameIn osRelease text

end CmakeTemplate
