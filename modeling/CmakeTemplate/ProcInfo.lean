/-
`get_cpu_info` and `get_memory_info` of `system_info.c`.

A file is its bytes.  Both functions read it line by line, look for the line that begins with
their key, and return what stands there behind the colon: the model name as it is, up to the
newline, and the memory as megabytes.  A line for which there is no memory is passed over like
one with another key.

There is no result where a call takes what is not there: what is behind NULL, where a line has
no colon, or behind the end that `fgets` has put to what it read.  The exit code of
`safe_fclose` makes no difference here either.

A line that does not fit the buffer is read in pieces, each of which is taken for a line.  A
file of whole lines is one where that does not happen.
-/
import CmakeTemplate.NumberConverter
import CmakeTemplate.SystemInfo

namespace CmakeTemplate

open Lib

/-- `MODEL_NAME_LEN`. -/
def modelNameLen : Nat := 10

/-- `"model name"`. -/
def modelName : List UInt8 := [109, 111, 100, 101, 108, 32, 110, 97, 109, 101]

/-- The length `parse_memory_info` compares. -/
def memTotalLen : Nat := 8

/-- `"MemTotal"`. -/
def memTotal : List UInt8 := [77, 101, 109, 84, 111, 116, 97, 108]

/-- `':'`. -/
def colon : UInt8 := 58

/-- `KILOBYTE`. -/
def kilobyte : Int := 1024

/-- `"%ld MB"`. -/
def megabytes (memMb : Int) : List UInt8 :=
  (if memMb < 0 then 45 :: printUnsigned memMb.natAbs else printUnsigned memMb.natAbs) ++ [32, 77, 66]

/-- What `fgets` has read, with the first newline as the end of the string. -/
def endAtNewline (line : List UInt8) : List UInt8 :=
  let string := (bufferString line).chars
  match strchr string newline with
  | none => line
  | some found => line.set (string.length - found.length) 0

/-- The string at `strchr(buffer, ':') + n`. -/
def behindColon (line : List UInt8) (n : Nat) : Option (List UInt8) :=
  let string := (bufferString line).chars
  match strchr string colon with
  | none => none
  | some found =>
    let place := string.length - found.length + n
    if line.length < place then none else some (bufferString (line.drop place)).chars

/-- `parse_cpu_model`, with the outcome of `calloc`. -/
def parseCpuModel (line : List UInt8) (calloc : Bool) : Option (Option (List UInt8)) :=
  if 0 = strncmp (bufferString line).chars modelName modelNameLen then
    if !calloc then some none
    -- a text that is cut off is returned all the same
    else (behindColon (endAtNewline line) 2).map fun text => some (tsSnprintf bufferSize text).2
  else some none

/-- `parse_memory_info`. -/
def parseMemoryInfo (line : List UInt8) (calloc : Bool) : Option (Option (List UInt8)) :=
  if 0 = strncmp (bufferString line).chars memTotal memTotalLen then
    if !calloc then some none
    else (behindColon line 1).map fun memKbStr =>
      let memKb := (strtol longMin longMax memKbStr).result
      let memMb := memKb.tdiv kilobyte
      let printed := tsSnprintf bufferSize (megabytes memMb)
      if .success ≠ printed.1 then none else some printed.2
  else some none

/-- The loop of both; `calloc` has the outcomes for the lines to come. -/
def procLoop (parse : List UInt8 → Bool → Option (Option (List UInt8))) (calloc : Nat → Bool)
    (file : List UInt8) : Option (Option (List UInt8)) :=
  if h : file = [] then some none
  else
    have hlt : (fgets (bufferSize - 1) file).2.length < file.length := fgets_rest_lt (by decide) h
    let line := fgets (bufferSize - 1) file
    match parse line.1 (calloc 0) with
    | none => none
    | some (some result) => some (some result)
    | some none => procLoop parse (fun k => calloc (k + 1)) line.2
termination_by file.length

/-- `get_cpu_info`, with the content of the file if it could be opened. -/
def getCpuInfo (cpuinfo : Option (List UInt8)) (calloc : Nat → Bool) :
    Option (Option (List UInt8)) :=
  match cpuinfo with
  | none => some none
  | some cpuinfo => procLoop parseCpuModel calloc cpuinfo

/-- `get_memory_info`. -/
def getMemoryInfo (meminfo : Option (List UInt8)) (calloc : Nat → Bool) :
    Option (Option (List UInt8)) :=
  match meminfo with
  | none => some none
  | some meminfo => procLoop parseMemoryInfo calloc meminfo

/-! ### What a file says

The field of a line, and the first line with the key.  None of it depends on how the file is
read.
-/

/-- What a line has behind its first colon. -/
def fieldOf (line : List UInt8) : Option (List UInt8) := (strchr line colon).map List.tail

/-- What `text` makes of the first line that begins with `key` and has memory for the result, if there
is one. -/
def firstField (key : List UInt8) (text : List UInt8 → List UInt8) (calloc : Nat → Bool)
    (lines : List (List UInt8 × Nat)) : Option (Option (List UInt8)) :=
  match lines.find? fun line => key <+: line.1 ∧ calloc line.2 = true with
  | none => some none
  | some line => (fieldOf line.1).map fun field => some (text field)

/-- The kilobytes in front of a field, as megabytes. -/
def memoryText (field : List UInt8) : List UInt8 :=
  megabytes ((strtol longMin longMax field).result.tdiv kilobyte)

/-- Lines that `fgets` reads as a whole, and as strings. -/
def WholeLines (lines : List (List UInt8)) : Prop :=
  ∀ line ∈ lines, newline ∉ line ∧ 0 ∉ line ∧ line.length < bufferSize - 1

end CmakeTemplate
