/-
`string_operations.c`.

The module of the source has three functions.  `strip_newline` cuts a string off at its first
newline.  `strings_are_equal` says whether two strings are the same, by a pointer to the
answer, and its exit code only says whether it had two strings to compare.  `copy_string`
allocates a buffer and prints at most `limit` characters of a string into it.

A buffer is memory from its address on, and what is behind it is part of that memory, so a
copy that were too long would show.  `snprintf` returns an `int`; what it does with a text
that is too long for that is left out.  The limit is a `size_t`, and the buffer has one byte
more than that, which is none for the largest limit.
-/
import CmakeTemplate.HashTable
import CmakeTemplate.Lib.Lines
import CmakeTemplate.Lib.Printf

namespace CmakeTemplate

open Lib

/-- `strip_newline`, with the string it leaves. -/
def stripNewline (inputStr : Option CString) : ExitCode × Option CString :=
  match inputStr with
  | none => (.failure, none)
  | some inputStr =>
    let len := inputStr.chars.length
    -- `strcspn`
    let newlinePos := (inputStr.chars.takeWhile (· ≠ newline)).length
    if newlinePos < len then (.success, some (inputStr.take newlinePos))
    else (.success, some inputStr)

/-- `strings_are_equal`. -/
def stringsAreEqual (str1 str2 : Option CString) (result : Option Int) : ExitCode × Option Int :=
  match str1, str2, result with
  | some str1, some str2, some _ =>
    let len1 := str1.chars.length
    let len2 := str2.chars.length
    let maxLen := if len1 > len2 then len1 else len2
    let check := strncmp str1.chars str2.chars maxLen
    (.success, some (if 0 = check then 1 else 0))
  | _, _, _ => (.failure, result)

/-- `copy_string`, with the outcome of `calloc` and the memory from the address on that it returns. -/
def copyString (heap : Nat → UInt8) (calloc : Bool) (input : Option CString)
    (output : Option (Option (Nat → UInt8))) (characterLimit : UInt64) (allowTruncation : Bool) :
    ExitCode × Option (Option (Nat → UInt8)) :=
  match input, output with
  | some input, some _ =>
    let size := characterLimit + 1
    if !calloc then (.failure, output)
    else
      let zeroed := write heap 0 size.toNat fun _ => 0
      let printed := snprintf zeroed 0 size.toNat input.chars
      let numCharacters := UInt64.ofNat printed.2
      if numCharacters ≥ size ∧ allowTruncation = false then (.failure, output)
      else (.success, some (some printed.1))
  | _, _ => (.failure, output)

/-! ### What a copy is

A string that is terminated, as much of the text as the limit allows, and no other change of
memory.
-/

/-- `copy` is the memory behind `heap` with a copy of at most `limit` characters. -/
structure Copies (heap copy : Nat → UInt8) (input : CString) (limit : Nat) : Prop where
  /-- The first characters, and the zero behind them. -/
  text : read copy 0 ((input.take limit).chars.length + 1) = (input.take limit).chars ++ [0]
  /-- Nothing is written outside the buffer. -/
  changed : ChangedWithin 0 (limit + 1) heap copy
  /-- The copy is equal to the string exactly where nothing was cut off. -/
  equal : ∀ old, stringsAreEqual (some input) (some (input.take limit)) (some old)
    = (.success, some (if input.chars.length ≤ limit then 1 else 0))

end CmakeTemplate
