/-
`get_network_interfaces` of `system_info.c`.

The function opens `/proc/net/dev`, skips two header lines, and prints the name of each line
behind them into a buffer that it has allocated.  The position that is printed to moves on by
what `snprintf` returns, which is the length of the whole text, whether or not it was written,
and the size of the next print is what is left of the buffer, as a `size_t`.

Addresses count from the result on, and `heap` is the memory there before the call, so a write
behind the buffer is a change of memory that the function was not given.  The calls of
`snprintf` are recorded with the place and the size they were given.  What is inside is a
question to all of them: the writes, the sizes, the zero at the end and the memory behind it.
-/
import CmakeTemplate.SystemInfo
import CmakeTemplate.Lib.Printf

namespace CmakeTemplate

open Lib

/-- `"Network Interfaces:\n"`. -/
def heading : List UInt8 :=
  [78, 101, 116, 119, 111, 114, 107, 32, 73, 110, 116, 101, 114, 102, 97, 99, 101, 115, 58, newline]

/-- `" :"`. -/
def delimiters : List UInt8 := [32, 58]

/-- The first token of `strtok`. -/
def strtok (s delimiters : List UInt8) : Option (List UInt8) :=
  match s.dropWhile (· ∈ delimiters) with
  | [] => none
  | c :: cs => some ((c :: cs).takeWhile (· ∉ delimiters))

/-- `safe_fgets`: what it reads and what is left of the file, or `none` at the end. -/
def safeFgets (file : List UInt8) : Option (List UInt8 × List UInt8) :=
  if file = [] then none else some (fgets (bufferSize - 1) file)

/-- A call of `snprintf`. -/
structure Print where
  /-- Where it prints to. -/
  off : Nat
  /-- The size it is given. -/
  size : Nat
  /-- The whole text. -/
  text : List UInt8

/-- `"  %s\n"`. -/
def interfaceText (interface : List UInt8) : List UInt8 := 32 :: 32 :: (interface ++ [newline])

/-- `BUFFER_SIZE - (result_ptr - result)` as a `size_t`. -/
def sizeLeft (resultPtr : Nat) : Nat := (((bufferSize : Int) - resultPtr) % 2 ^ 64).toNat

/-- The loop, over the lines that it reads: the memory afterwards and the calls of `snprintf`.
There is no result if `%s` is to print a null pointer. -/
def interfaceLoop (mem : Nat → UInt8) (resultPtr : Nat) :
    List (List UInt8) → Option ((Nat → UInt8) × List Print)
  | [] => some (mem, [])
  | line :: lines =>
    match strtok (bufferString line).chars delimiters with
    | none => none
    | some interface =>
      let print : Print := ⟨resultPtr, sizeLeft resultPtr, interfaceText interface⟩
      let result := snprintf mem print.off print.size print.text
      (interfaceLoop result.1 (resultPtr + result.2) lines).map fun rest =>
        (rest.1, print :: rest.2)

/-- `get_network_interfaces` from the allocated buffer and the header lines on, with the outcome of
`safe_fclose`. -/
def printInterfaces (heap : Nat → UInt8) (lines : List (List UInt8)) (fclose : Bool) :
    Option (Option (Nat → UInt8) × List Print) :=
  let print : Print := ⟨0, bufferSize, heading⟩
  let result := (snprintf heap print.off print.size print.text).1
  if .success ≠ (tsSnprintf print.size print.text).1 then some (none, [print])
  else
    let resultPtr := (bufferString (read result 0 bufferSize)).chars.length
    (interfaceLoop result resultPtr lines).map fun rest =>
      (if fclose then some rest.1 else none, print :: rest.2)

/-- `get_network_interfaces`, with the content of the file if it could be opened and the outcomes of
`calloc` and `safe_fclose`: the memory if the result is not NULL, and the calls of `snprintf`. -/
def getNetworkInterfaces (heap : Nat → UInt8) (netdev : Option (List UInt8))
    (calloc fclose : Bool) : Option (Option (Nat → UInt8) × List Print) :=
  match netdev with
  | none => some (none, [])
  | some netdev =>
    if !calloc then some (none, [])
    else
      match safeFgets netdev with
      | none => some (none, [])
      | some (_, netdev) =>
        match safeFgets netdev with
        | none => some (none, [])
        | some (_, netdev) =>
          printInterfaces (write heap 0 bufferSize fun _ => 0)
            (readLines (bufferSize - 1) netdev) fclose

/-! ### What is on the lines

When the function stays inside its buffer is a matter of the names in the file alone.
-/

/-- The lines after the two header lines. -/
def interfaceLines (netdev : Option (List UInt8)) : List (List UInt8) :=
  match netdev with
  | none => []
  | some netdev =>
    readLines (bufferSize - 1) (fgets (bufferSize - 1) (fgets (bufferSize - 1) netdev).2).2

/-- The name on a line. -/
def interfaceName (line : List UInt8) : Option (List UInt8) :=
  strtok (bufferString line).chars delimiters

/-- The names on the lines after the two header lines. -/
def interfaceNames (netdev : Option (List UInt8)) : List (List UInt8) :=
  (interfaceLines netdev).filterMap interfaceName

/-- How much is printed for some names. -/
def printedLength (names : List (List UInt8)) : Nat := (names.map (·.length + 3)).sum

/-- The heading and all names but the last fit into the buffer. -/
def NamesFit (names : List (List UInt8)) : Prop :=
  heading.length + printedLength names.dropLast ≤ bufferSize

/-- All writes are inside the buffer, no size exceeds the space left, and the result is a string. -/
structure StaysInside (heap : Nat → UInt8) (result : Option (Nat → UInt8)) (prints : List Print) :
    Prop where
  /-- No byte is written behind the buffer. -/
  writes : ∀ print ∈ prints, ∀ a, print.off ≤ a → a < print.off + written print.size print.text →
    a < bufferSize
  /-- No print is given more space than is left. -/
  space : ∀ print ∈ prints, print.off + print.size ≤ bufferSize
  /-- The result is a string. -/
  terminated : ∀ buffer, result = some buffer → ∃ a, a < bufferSize ∧ buffer a = 0
  /-- The memory behind the buffer is what it was. -/
  unchanged : ∀ buffer, result = some buffer → ChangedWithin 0 bufferSize heap buffer

end CmakeTemplate
