/-
The command line of the server, as `option_handler.c` reads it.

`argv` is the array in front of its NULL, so `argc` is its length and `*argv` is NULL just in
case it is empty; `getopt` has not been called before.  `process_options` calls `getopt` until
it returns -1 and handles each option as it comes.  An option that was given before, a bad
argument and an invalid option end it with an error, `-h` ends it with what the options in
front have made of the exit code, and operands are reported behind the loop.  What is printed
is left out.

The values go into an `options_t` that the caller passes in with cleared flags.  Whether the
options were accepted is the exit code, and it is compared with what the options mean, in
which nothing depends on their order.
-/
import CmakeTemplate.NumberConverter
import CmakeTemplate.Lib.Getopt

namespace CmakeTemplate

open Lib

/-- `options_t`. -/
structure Options where
  /-- Whether `-n` was given. -/
  nFlag : Bool
  /-- The number of threads. -/
  nValue : Int32
  /-- Whether `-p` was given. -/
  pFlag : Bool
  /-- The port. -/
  pValue : Option CString

/-- `MIN_NUM_THREADS` of `option_handler.c`. -/
def minNumThreads : Int := 2

/-- `MAX_PORT_VALUE`. -/
def maxPortValue : Int := 65535

/-- `MIN_PORT_VALUE`. -/
def minPortValue : Int := 1025

instance : Argument CString where
  chars := CString.chars
  drop := fun n s => ⟨s.chars.drop n, fun h => s.noNul (List.mem_of_mem_drop h)⟩

/-- The characters `n`, `p` and `h`. -/
def charN : UInt8 := 110

def charP : UInt8 := 112

def charH : UInt8 := 104

/-- `"n:p:h"`. -/
def optstring : List UInt8 := [110, 58, 112, 58, 104]

/-- `process_n_option`. -/
def processNOption (optarg : Option CString) (options : Options) : ExitCode × Options :=
  match optarg with
  | none => (.failure, options)
  | some optarg =>
    if options.nFlag then (.failure, options)
    else
      let options := { options with nFlag := true }
      let conversion := strToInt32 (some optarg) (some 0)
      let numThreads := conversion.2.getD 0
      if .success ≠ conversion.1 then (conversion.1, options)
      else if minNumThreads > numThreads.toInt then (.failure, options)
      else (.success, { options with nValue := numThreads })

/-- `process_p_option`. -/
def processPOption (optarg : Option CString) (options : Options) : ExitCode × Options :=
  match optarg with
  | none => (.failure, options)
  | some optarg =>
    if options.pFlag then (.failure, options)
    else
      let options := { options with pFlag := true }
      let conversion := strToInt32 (some optarg) (some 0)
      let portNumber := conversion.2.getD 0
      if .success ≠ conversion.1 then (conversion.1, options)
      else if maxPortValue < portNumber.toInt ∨ minPortValue > portNumber.toInt then
        (.failure, options)
      else (.success, { options with pValue := some optarg })

/-- `report_extra_arguments`: the operands are what `optind` points to. -/
def reportExtraArguments (operands : List CString) : ExitCode :=
  if operands ≠ [] then .failure else .success

/-- The loop of `process_options`, over what the calls of `getopt` return, and what is behind it.
`exit_code` is carried along. -/
def optionLoop (operands : List CString) :
    List (Opt CString) → ExitCode → Options → ExitCode × Options
  | [], _, options => (reportExtraArguments operands, options)
  | .option c optarg :: behind, exitCode, options =>
    if c = charP then
      let processed := processPOption optarg options
      if .success ≠ processed.1 then processed
      else optionLoop operands behind processed.1 processed.2
    else if c = charN then
      let processed := processNOption optarg options
      if .success ≠ processed.1 then processed
      else optionLoop operands behind processed.1 processed.2
    -- `-h` leaves the exit code as the options in front of it have set it
    else if c = charH then (exitCode, options)
    else (.failure, options)
  | .invalid _ :: _, _, options => (.failure, options)

/-- `process_options`. -/
def processOptions (argv : Option (List CString)) (options : Option Options) :
    ExitCode × Option Options :=
  match argv, options with
  | some (_ :: args), some options =>
    let commandLine := getopt optstring false args
    let processed := optionLoop commandLine.2 commandLine.1 .failure options
    (processed.1, some processed.2)
  | _, _ => (.failure, options)

/-! ### What the options mean

An option is valid by its argument and by how often it is given, and a value that is not given
stays what it was.
-/

/-- The options and the operands of a command line. -/
def commandLine (argv : List CString) : List (Opt CString) × List CString :=
  getopt optstring false argv.tail

/-- The arguments of the option `c`, in their order. -/
def optArgs (c : UInt8) (opts : List (Opt CString)) : List CString :=
  opts.filterMap fun opt =>
    match opt with
    | .option c' (some optarg) => if c' = c then some optarg else none
    | _ => none

def IsPort (s : CString) : Prop :=
  ∃ v : Int, IsDecimal s.chars v ∧ minPortValue ≤ v ∧ v ≤ maxPortValue

def IsThreads (s : CString) (v : Int32) : Prop :=
  IsDecimal s.chars v.toInt ∧ minNumThreads ≤ v.toInt

/-- A command line that is accepted if options are accepted exactly when valid. -/
structure Acceptable (opts : List (Opt CString)) (operands : List CString) : Prop where
  /-- No help is asked for. -/
  noHelp : .option charH none ∉ opts
  /-- Every option is known and has its argument. -/
  noInvalid : ∀ c, .invalid c ∉ opts
  /-- There is nothing besides the options. -/
  noOperand : operands = []
  /-- There is one port at most. -/
  portOnce : (optArgs charP opts).length ≤ 1
  /-- It is one. -/
  port : ∀ s ∈ optArgs charP opts, IsPort s
  /-- There is one number of threads at most. -/
  threadsOnce : (optArgs charN opts).length ≤ 1
  /-- It is one. -/
  threads : ∀ s ∈ optArgs charN opts, ∃ v, IsThreads s v

/-- The values that were given, and the earlier ones of the options that were not. -/
structure Given (opts : List (Opt CString)) (old new : Options) : Prop where
  /-- The port that was given. -/
  port : ∀ s ∈ optArgs charP opts, new.pValue = some s
  /-- Or the earlier one. -/
  noPort : optArgs charP opts = [] → new.pValue = old.pValue
  /-- The number of threads that was given. -/
  threads : ∀ s ∈ optArgs charN opts, IsDecimal s.chars new.nValue.toInt
  /-- Or the earlier one. -/
  noThreads : optArgs charN opts = [] → new.nValue = old.nValue

/-- The same options and the same operands, in any order. -/
structure Reordered (argv argv' : List CString) : Prop where
  /-- The name of the program is the same. -/
  program : argv.head? = argv'.head?
  /-- The options are the same in some order. -/
  options : (commandLine argv).1.Perm (commandLine argv').1
  /-- So are the operands. -/
  operands : (commandLine argv).2.Perm (commandLine argv').2

/-- Options with cleared flags. -/
def defaultOptions (nValue : Int32) (pValue : Option CString) : Options :=
  ⟨false, nValue, false, pValue⟩

/-- `process_options` on options with cleared flags: its exit code, and the values it leaves. -/
def processDefaults (argv : List CString) (nValue : Int32) (pValue : Option CString) :
    ExitCode × Option Options :=
  processOptions (some argv) (some (defaultOptions nValue pValue))

/-- Options are accepted exactly when valid, the values are the given ones, and the order of the
options makes no difference. -/
structure OptionsHandled (argv : List CString) (nValue : Int32) (pValue : Option CString) :
    Prop where
  /-- Options are accepted exactly when they are valid. -/
  accepts : (processDefaults argv nValue pValue).1 = .success ↔
    Acceptable (commandLine argv).1 (commandLine argv).2
  /-- The values are the given ones. -/
  given : ∀ options, processDefaults argv nValue pValue = (.success, some options) →
    Given (commandLine argv).1 (defaultOptions nValue pValue) options
  /-- The order of the options makes no difference. -/
  order : ∀ argv', Reordered argv argv' →
    (processDefaults argv nValue pValue).1 = (processDefaults argv' nValue pValue).1 ∧
      ∀ options options', processDefaults argv nValue pValue = (.success, some options) →
        processDefaults argv' nValue pValue = (.success, some options') →
          options.nValue = options'.nValue ∧ options.pValue = options'.pValue

end CmakeTemplate
