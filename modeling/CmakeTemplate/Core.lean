/-
Return values shared by the libraries.

They are the exit codes of `utilities.h` and the results of a comparison function,
`comp_rtns_t` of `comparisons.h`.  Both are enumerations, so they are inductive types here,
with the constants in the order of the source.

The functions that return an `int` return exit codes as well, 0 for E_SUCCESS; where a caller
only asks whether it is 0, the model has the exit code all the same.  A comparison that is
handed a NULL pointer returns the error of `comp_rtns_t`, which no search and no sort takes
for a result of its own: to a search it is not EQUAL, and to a sort not LESS_THAN.
-/

namespace CmakeTemplate

/-- `E_SUCCESS`, `E_FAILURE`, `E_EOF`, `E_NULL_POINTER` and `E_CONNECTION_CLOSED`. -/
inductive ExitCode
  | success
  | failure
  | eof
  | nullPointer
  | connectionClosed
  deriving DecidableEq, Repr

/-- `comp_rtns_t`. -/
inductive CompRtns
  | error
  | equal
  | greaterThan
  | lessThan
  | notEqual
  deriving DecidableEq, Repr

end CmakeTemplate
