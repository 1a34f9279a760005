/-
The conversions of `number_converter.c` from strings to numbers and back.

The three conversions from a string call `strtol` or `strtoul` and then look at what was left
of the string, at `errno`, and at whether the number fits the type of the result.  A `long`
has 64 bits, so `strtol` itself does not overflow where the result could still fit.  `strtoul`
takes a minus sign for a negation modulo its range, which is no error of its own, so a string
with a minus sign may come out as any number.

`output` is what stands behind `output_p`, if that is not NULL; a call returns the exit code
and what stands there afterwards.  `uint32_to_str` prints a number into a buffer that it
allocates, and a call has the outcome of that allocation and returns the memory with the
string in it.
-/
import CmakeTemplate.HashTable
import CmakeTemplate.Lib.Printf

namespace CmakeTemplate

open Lib

/-- `LONG_MIN`. -/
def longMin : Int := -9223372036854775808

/-- `LONG_MAX`. -/
def longMax : Int := 9223372036854775807

/-- `ULONG_MAX`. -/
def ulongMax : Nat := 18446744073709551615

/-- `INT32_MIN`. -/
def int32Min : Int := -2147483648

/-- `INT32_MAX`. -/
def int32Max : Int := 2147483647

/-- `str_to_int32`. -/
def strToInt32 (input : Option CString) (output : Option Int32) : ExitCode × Option Int32 :=
  match input, output with
  | some input, some _ =>
    let conversion := strtol longMin longMax input.chars
    if 0 ≠ conversion.errno ∧ 0 = conversion.result then (.failure, output)
    else if erange = conversion.errno ∧ longMax = conversion.result then (.failure, output)
    else if int32Max < conversion.result then (.failure, output)
    else if int32Min > conversion.result then (.failure, output)
    else if conversion.endptr = input.chars then (.failure, output)
    else if conversion.endptr ≠ [] then (.failure, output)
    else (.success, some (Int32.ofInt conversion.result))
  | _, _ => (.failure, output)

/-- What `str_to_uint32` and `str_to_uint16` have in common, for numbers of `bits` bits. -/
def strToUint (bits : Nat) (input : Option CString) (output : Option (BitVec bits)) :
    ExitCode × Option (BitVec bits) :=
  match input, output with
  | some input, some _ =>
    let conversion := strtoul ulongMax input.chars
    if 0 ≠ conversion.errno ∧ 0 = conversion.result then (.failure, output)
    else if erange = conversion.errno ∧ ulongMax = conversion.result then (.failure, output)
    else if 2 ^ bits - 1 < conversion.result then (.failure, output)
    else if conversion.endptr = input.chars then (.failure, output)
    else if conversion.endptr ≠ [] then (.failure, output)
    else (.success, some (BitVec.ofNat bits conversion.result))
  | _, _ => (.failure, output)

/-- `str_to_uint32`; `UINT32_MAX` is the greatest number of 32 bits. -/
def strToUint32 : Option CString → Option (BitVec 32) → ExitCode × Option (BitVec 32) :=
  strToUint 32

/-- `str_to_uint16`. -/
def strToUint16 : Option CString → Option (BitVec 16) → ExitCode × Option (BitVec 16) :=
  strToUint 16

/-- `UINT32_LEN`. -/
def uint32Len : Nat := 11

/-- `uint32_to_str`, with the outcome of `calloc` and the memory from the address on that it
returns. -/
def uint32ToStr (heap : Nat → UInt8) (calloc : Bool) (input : BitVec 32)
    (output : Option (Option (Nat → UInt8))) : ExitCode × Option (Option (Nat → UInt8)) :=
  match output with
  | none => (.failure, none)
  | some _ =>
    if !calloc then (.failure, some none)
    else
      let zeroed := write heap 0 uint32Len fun _ => 0
      let result := snprintf zeroed 0 uint32Len (printUnsigned input.toNat)
      if 0 > (result.2 : Int) then (.failure, some none)
      else (.success, some (some result.1))

end CmakeTemplate
