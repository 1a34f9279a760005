/-
`random_number` of `number_generator.c`.

The first call that comes so far sets the seed, from `/dev/urandom` if it can be read, and
otherwise from the time and the process; a static variable remembers that it has been set.
What `random` returns is an argument of the call, as nothing in the source determines it.  The
call takes it for an `int`.

The number between the bounds is the lower bound and the remainder of what `random` returns by
the number of values between the bounds.  All of that is computed in `int`s of 32 bits, and an
operation on two of them that overflows is not defined: the call has no result then.  So a
call with bounds that are far apart, or with a divisor that is not positive, may have none, or
a number outside the bounds.
-/
import CmakeTemplate.NumberConverter
import CmakeTemplate.Lib.Checked

namespace CmakeTemplate

open Lib

/-- The static `is_seed_set`, and what `srandom` was last called with. -/
structure SeedState where
  /-- Whether the seed has been set. -/
  isSeedSet : Bool
  /-- The seed, if it has. -/
  seed : Option UInt32

/-- What a seed can be made of: whether `/dev/urandom` could be opened, what was read if it was a
whole seed, and `time(NULL) ^ getpid()`. -/
structure SeedSources where
  /-- Whether `/dev/urandom` could be opened. -/
  opened : Bool
  /-- What was read from it, if that was a whole seed. -/
  urandom : Option UInt32
  /-- `time(NULL) ^ getpid()`. -/
  timeAndPid : UInt32

/-- The part of `random_number` that sets the seed at the first call. -/
def setSeed (state : SeedState) (sources : SeedSources) : SeedState :=
  if state.isSeedSet then state
  else
    let seed := if sources.opened then sources.urandom.getD sources.timeAndPid
      else sources.timeAndPid
    ⟨true, some seed⟩

/-- `(upper_bound - lower_bound) + 1`. -/
def divisor (lowerBound upperBound : Int32) : Option Int := do
  let width ← checkedSub int32Min int32Max upperBound.toInt lowerBound.toInt
  checkedAdd int32Min int32Max width 1

/-- `random_number`; `result` is what is behind `result_p`, if that is not NULL. -/
def randomNumber (state : SeedState) (sources : SeedSources) (random : Int)
    (lowerBound upperBound : Int32) (result : Option Int32) :
    Option (ExitCode × Option Int32 × SeedState) :=
  match result with
  | none => some (.failure, none, state)
  | some result =>
    if int32Max < lowerBound.toInt ∨ int32Min > lowerBound.toInt then
      some (.failure, some result, state)
    else if int32Max < upperBound.toInt ∨ int32Min > upperBound.toInt then
      some (.failure, some result, state)
    else if lowerBound.toInt > upperBound.toInt then some (.failure, some result, state)
    else
      let state := setSeed state sources
      let randVal := (Int32.ofInt random).toInt
      if randVal > int32Max then some (.failure, some result, state)
      else do
        let offset ← (divisor lowerBound upperBound).bind
          (checkedRem int32Min int32Max randVal)
        let sum ← checkedAdd int32Min int32Max lowerBound.toInt offset
        some (.success, some (Int32.ofInt sum), state)

/-- Nothing overflows, the divisor is positive, and the call succeeds with a number between the
bounds. -/
structure StaysInRange (state : SeedState) (sources : SeedSources) (random : Int)
    (lowerBound upperBound result : Int32) : Prop where
  /-- The number of values is a positive `int`. -/
  divisor : ∃ d, divisor lowerBound upperBound = some d ∧ 0 < d
  /-- The call succeeds with one of them. -/
  succeeds : ∃ r state', randomNumber state sources random lowerBound upperBound (some result)
      = some (.success, some r, state') ∧
    lowerBound.toInt ≤ r.toInt ∧ r.toInt ≤ upperBound.toInt

end CmakeTemplate
