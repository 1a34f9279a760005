/-
When the order of the options makes no difference to `process_options`.

Without a `-h` it makes none: a command line is accepted just in case its options can be
processed, which is a condition on them in any order.  With a `-h` that comes first nothing is
accepted, and with one right behind an option that is processed the exit code is a success.
So the order makes a difference as soon as there is a `-h` and an option that can be
processed.

For that two command lines have to be made of the options of any third one.  The options of
any command line can be set apart, each in an element of its own, and put in front in another
order; one that misses its argument has to stay at the end.  `-h` is put in front of the
others, or behind one of them.
-/
import CmakeTemplate.Proofs.OptionHandler.Options

namespace CmakeTemplate

open Lib

theorem hasArg_charP : hasArg optstring charP = some true := by decide

theorem hasArg_charN : hasArg optstring charN = some true := by decide

theorem hasArg_charH : hasArg optstring charH = some false := by decide

/-- There are no other options. -/
theorem hasArg_optstring {c : UInt8} {takes : Bool} (h : hasArg optstring c = some takes) :
    c = charP ∧ takes = true ∨ c = charN ∧ takes = true ∨ c = charH ∧ takes = false := by
  by_cases hp : c = charP
  · subst hp
    rw [hasArg_charP, Option.some.injEq] at h
    exact .inl ⟨rfl, h.symm⟩
  · by_cases hn : c = charN
    · subst hn
      rw [hasArg_charN, Option.some.injEq] at h
      exact .inr (.inl ⟨rfl, h.symm⟩)
    · by_cases hh : c = charH
      · subst hh
        rw [hasArg_charH, Option.some.injEq] at h
        exact .inr (.inr ⟨rfl, h.symm⟩)
      · by_cases hcolon : c = 58 ∨ c = 59
        · simp [hasArg, hcolon] at h
        · have hnone : hasArg optstring c = none := by
            unfold charP at hp
            unfold charN at hn
            unfold charH at hh
            obtain ⟨h58, h59⟩ := not_or.mp hcolon
            simp [hasArg, optstring, List.dropWhile, h58, h59, Ne.symm hp, Ne.symm hn,
              Ne.symm hh, Ne.symm h58]
          rw [hnone] at h
          cases h

theorem serverOption_of_fits {opt : Opt CString} (h : opt.Fits optstring) : ServerOption opt := by
  cases opt with
  | invalid c => exact .invalid c
  | option c optarg =>
      have hc : hasArg optstring c = some optarg.isSome := h
      rcases hasArg_optstring hc with ⟨rfl, hsome⟩ | ⟨rfl, hsome⟩ | ⟨rfl, hsome⟩
      · obtain ⟨s, rfl⟩ := Option.isSome_iff_exists.mp hsome
        exact .port s
      · obtain ⟨s, rfl⟩ := Option.isSome_iff_exists.mp hsome
        exact .threads s
      · rw [Option.isSome_eq_false_iff, Option.isNone_iff_eq_none] at hsome
        subst hsome
        exact .help

theorem commandLine_serverOption (argv : List CString) :
    ∀ opt ∈ (commandLine argv).1, ServerOption opt :=
  fun opt hopt => serverOption_of_fits (getopt_fits false argv.tail opt hopt)

/-! ### Elements for given options

An option with an argument is spelled in one element, and those without can share one.
-/

/-- An element that is a dash and these characters. -/
def dash (cs : List UInt8) (h : 0 ∉ cs) : CString := ⟨45 :: cs, by simp [h]⟩

/-- In front of any other elements these have these options. -/
def Spells (args : List CString) (opts : List (Opt CString)) : Prop :=
  ∀ behind, getopt optstring false (args ++ behind) =
    (opts ++ (getopt optstring false behind).1, (getopt optstring false behind).2)

theorem Spells.append {args args' : List CString} {opts opts' : List (Opt CString)}
    (h : Spells args opts) (h' : Spells args' opts') : Spells (args ++ args') (opts ++ opts') := by
  intro behind
  rw [List.append_assoc, h, h', List.append_assoc]

/-- A character that takes an argument can stand behind a dash. -/
theorem argument_char {c : UInt8} (hc : c = charP ∨ c = charN) :
    0 ∉ [c] ∧ [c] ≠ [45] ∧ hasArg optstring c = some true := by
  rcases hc with rfl | rfl
  · exact ⟨by decide, by decide, hasArg_charP⟩
  · exact ⟨by decide, by decide, hasArg_charN⟩

/-- An option with its argument in an element of its own. -/
theorem spells_argument {c : UInt8} (hc : c = charP ∨ c = charN) (s : CString) :
    ∃ element, Spells [element, s] [.option c (some s)] := by
  obtain ⟨hnul, hne, harg⟩ := argument_char hc
  refine ⟨dash [c] hnul, fun behind => ?_⟩
  rw [List.cons_append, List.cons_append, List.nil_append,
    getopt_element (show Argument.chars (dash [c] hnul) = 45 :: c :: [] from rfl) hne]
  simp [scanElement, harg, getopt]

theorem spells_arguments {opts : List (Opt CString)}
    (hopts : ∀ opt ∈ opts, ∃ c s, opt = .option c (some s) ∧ (c = charP ∨ c = charN)) :
    ∃ args, Spells args opts := by
  induction opts with
  | nil => exact ⟨[], fun behind => rfl⟩
  | cons opt opts ih =>
      obtain ⟨args, hargs⟩ := ih fun opt hopt => hopts opt (List.mem_cons_of_mem _ hopt)
      obtain ⟨c, s, rfl, hc⟩ := hopts opt List.mem_cons_self
      obtain ⟨element, helement⟩ := spells_argument hc s
      exact ⟨[element, s] ++ args, helement.append hargs⟩

/-- A `-h` and any options that stand alone, in one element. -/
theorem spells_help {opts : List (Opt CString)} (halone : ∀ opt ∈ opts, opt.Alone optstring)
    (hnul : ∀ opt ∈ opts, opt.char ≠ 0) :
    ∃ element, Spells [element] (.option charH none :: opts) := by
  have hcs : 0 ∉ charH :: opts.map Opt.char := by
    rw [List.mem_cons, List.mem_map]
    rintro (hc | ⟨opt, hopt, hc⟩)
    · exact absurd hc (by decide)
    · exact hnul opt hopt hc
  have hne : charH :: opts.map Opt.char ≠ [45] := fun hc =>
    absurd (List.cons.inj hc).1 (by decide)
  have hall : ∀ opt ∈ .option charH none :: opts, opt.Alone optstring :=
    List.forall_mem_cons.mpr ⟨⟨hasArg_charH, rfl⟩, halone⟩
  refine ⟨dash (charH :: opts.map Opt.char) hcs, fun behind => ?_⟩
  have hscan := scanElement_map_char (dash (charH :: opts.map Opt.char) hcs) behind.head? hall 1
  rw [List.map_cons, Opt.char] at hscan
  rw [List.cons_append, List.nil_append, getopt_element rfl hne, hscan]

/-! ### Options set apart

By induction on the elements of the command line.
-/

theorem dash_missing {c : UInt8} (hc : c = charP ∨ c = charN) :
    ∃ element : CString, getopt optstring false [element] = ([.invalid c], []) := by
  obtain ⟨hnul, hne, harg⟩ := argument_char hc
  refine ⟨dash [c] hnul, ?_⟩
  rw [getopt_element (show Argument.chars (dash [c] hnul) = 45 :: c :: [] from rfl) hne]
  simp [scanElement, harg, getopt]

theorem charP_or_charN {c : UInt8} (h : hasArg optstring c = some true) :
    c = charP ∨ c = charN := by
  rcases hasArg_optstring h with ⟨rfl, -⟩ | ⟨rfl, -⟩ | ⟨-, hc⟩
  · exact .inl rfl
  · exact .inr rfl
  · cases hc

/-- The options of a command line are those that stand alone, those with an argument and those of
a rest, which has the operands and at most an option that misses its argument. -/
theorem exists_apart (taken : Bool) (args : List CString) :
    ∃ alone argued rest,
      (getopt optstring taken args).1.Perm
          (alone ++ (argued ++ (getopt optstring false rest).1)) ∧
        (getopt optstring taken args).2 = (getopt optstring false rest).2 ∧
        (∀ opt ∈ alone, opt.Alone optstring) ∧
        (∀ opt ∈ argued, ∃ c s, opt = .option c (some s) ∧ (c = charP ∨ c = charN)) ∧
        ∀ opt ∈ (getopt optstring false rest).1, ∃ c, opt = .invalid c := by
  induction args generalizing taken with
  | nil => exact ⟨[], [], [], by cases taken <;> simp [getopt]⟩
  | cons element args ih =>
      cases taken with
      | true =>
          rw [getopt]
          exact ih false
      | false =>
          rcases element_cases element with hoperand | hterminator | ⟨c, cs, hchars, hne⟩
          · obtain ⟨alone, argued, rest, hperm, hoperands, halone, hargued, hrest⟩ := ih false
            refine ⟨alone, argued, element :: rest, ?_⟩
            rw [getopt_operand hoperand, getopt_operand hoperand]
            exact ⟨hperm, by rw [hoperands], halone, hargued, hrest⟩
          · refine ⟨[], [], element :: args, ?_⟩
            rw [getopt_terminator hterminator]
            simp
          · obtain ⟨here, last, heq, hhere, hlast⟩ :=
              scanElement_split element args.head? 1 (c :: cs)
            rw [getopt_element hchars hne, heq]
            generalize (scanElement optstring element args.head? 1 (c :: cs)).2 = taken at hlast
            obtain ⟨alone, argued, rest, hperm, hoperands, halone, hargued, hrest⟩ := ih taken
            have hhere' : ∀ opt ∈ here ++ alone, opt.Alone optstring :=
              List.forall_mem_append.mpr ⟨hhere, halone⟩
            cases hlast with
            | none =>
                refine ⟨here ++ alone, argued, rest, ?_, hoperands, hhere', hargued, hrest⟩
                rw [List.append_nil, List.append_assoc]
                exact hperm.append_left here
            | option c optarg taken hc =>
                refine ⟨here ++ alone, .option c (some optarg) :: argued, rest, ?_, hoperands,
                  hhere', ?_, hrest⟩
                · rw [List.append_assoc, List.append_assoc, List.cons_append]
                  refine List.Perm.append_left here ?_
                  exact (hperm.cons _).trans List.perm_middle.symm
                · exact List.forall_mem_cons.mpr ⟨⟨_, _, rfl, charP_or_charN hc⟩, hargued⟩
            | missing hc hnext =>
                -- the option that misses its argument is the end of the command line
                have hnil : args = [] := List.head?_eq_none_iff.mp hnext
                obtain ⟨element', helement'⟩ := dash_missing (charP_or_charN hc)
                refine ⟨here, [], [element'], ?_⟩
                rw [helement', hnil]
                exact ⟨by simp [getopt], by simp [getopt], hhere, by simp, by simp⟩

theorem mem_argued_of_argument {alone argued rest : List (Opt CString)} {c : UInt8} {s : CString}
    (hmem : .option c (some s) ∈ alone ++ (argued ++ rest))
    (halone : ∀ opt ∈ alone, opt.Alone optstring)
    (hrest : ∀ opt ∈ rest, ∃ d, opt = .invalid d) : .option c (some s) ∈ argued := by
  rcases List.mem_append.mp hmem with hmem | hmem
  · exact absurd (halone _ hmem).2 (by simp)
  · rcases List.mem_append.mp hmem with hmem | hmem
    · exact hmem
    · obtain ⟨d, hd⟩ := hrest _ hmem
      cases hd

theorem mem_alone_of_no_argument {alone argued rest : List (Opt CString)} {c : UInt8}
    (hmem : .option c none ∈ alone ++ (argued ++ rest))
    (hargued : ∀ opt ∈ argued, ∃ d s, opt = .option d (some s) ∧ (d = charP ∨ d = charN))
    (hrest : ∀ opt ∈ rest, ∃ d, opt = .invalid d) : .option c none ∈ alone := by
  rcases List.mem_append.mp hmem with hmem | hmem
  · exact hmem
  · rcases List.mem_append.mp hmem with hmem | hmem
    · obtain ⟨d, s, hd, -⟩ := hargued _ hmem
      cases hd
    · obtain ⟨d, hd⟩ := hrest _ hmem
      cases hd

theorem perm_front {α : Type} (x y : α) (as bs cs ds rest : List α) :
    ((as ++ x :: bs) ++ ((cs ++ y :: ds) ++ rest)).Perm
      (y :: x :: ((as ++ bs) ++ ((cs ++ ds) ++ rest))) := by
  have hfirst : ((as ++ x :: bs) ++ ((cs ++ y :: ds) ++ rest)).Perm
      ((x :: (as ++ bs)) ++ (y :: ((cs ++ ds) ++ rest))) :=
    List.perm_middle.append (List.perm_middle.append_right rest)
  exact hfirst.trans List.perm_middle

/-- An option with an argument and a `-h` can be put in front of all the others. -/
theorem exists_help_second {args : List CString} {c : UInt8} {s : CString}
    (hc : c = charP ∨ c = charN)
    (harg : .option c (some s) ∈ (getopt optstring false args).1)
    (hhelp : .option charH none ∈ (getopt optstring false args).1) :
    ∃ args' behind, (getopt optstring false args').1
        = .option c (some s) :: .option charH none :: behind ∧
      (getopt optstring false args).1.Perm (getopt optstring false args').1 ∧
      (getopt optstring false args).2 = (getopt optstring false args').2 := by
  obtain ⟨alone, argued, rest, hperm, hoperands, halone, hargued, hrest⟩ :=
    exists_apart false args
  have hmemArgued := mem_argued_of_argument (hperm.mem_iff.mp harg) halone hrest
  have hmemAlone := mem_alone_of_no_argument (hperm.mem_iff.mp hhelp) hargued hrest
  have hnul : ∀ opt ∈ alone, opt.char ≠ 0 := by
    intro opt hopt hc
    obtain ⟨element, -, hmem⟩ := getopt_char_mem false args opt
      (hperm.mem_iff.mpr (List.mem_append_left _ hopt))
    exact element.noNul (hc ▸ hmem)
  obtain ⟨alone₁, alone₂, rfl⟩ := List.append_of_mem hmemAlone
  obtain ⟨argued₁, argued₂, rfl⟩ := List.append_of_mem hmemArgued
  have hsub : ∀ opt ∈ alone₁ ++ alone₂, opt ∈ alone₁ ++ .option charH none :: alone₂ :=
    fun opt hopt => List.perm_middle.mem_iff.mpr (List.mem_cons_of_mem _ hopt)
  have hsub' : ∀ opt ∈ argued₁ ++ argued₂, opt ∈ argued₁ ++ .option c (some s) :: argued₂ :=
    fun opt hopt => List.perm_middle.mem_iff.mpr (List.mem_cons_of_mem _ hopt)
  obtain ⟨element, harg'⟩ := spells_argument hc s
  obtain ⟨element', hhelp'⟩ := spells_help (fun opt hopt => halone opt (hsub opt hopt))
    fun opt hopt => hnul opt (hsub opt hopt)
  obtain ⟨args', hargs'⟩ := spells_arguments fun opt hopt => hargued opt (hsub' opt hopt)
  have hspells := (harg'.append (hhelp'.append hargs')) rest
  refine ⟨[element, s] ++ ([element'] ++ args') ++ rest, _, by rw [hspells]; rfl, ?_, ?_⟩
  · rw [hspells]
    refine hperm.trans ((perm_front _ _ _ _ _ _ _).trans (List.Perm.of_eq ?_))
    simp
  · rw [hspells, hoperands]

/-! ### `process_options`

The condition, and the two command lines for where it does not hold.
-/

theorem processDefaults_cons (program : CString) (args : List CString) (nValue : Int32)
    (pValue : Option CString) :
    processDefaults (program :: args) nValue pValue =
      ((optionLoop (getopt optstring false args).2 (getopt optstring false args).1 .failure
          (defaultOptions nValue pValue)).1,
        some (optionLoop (getopt optstring false args).2 (getopt optstring false args).1 .failure
          (defaultOptions nValue pValue)).2) := rfl

theorem acceptable_iff {opts : List (Opt CString)} {operands : List CString} (nValue : Int32)
    (pValue : Option CString) : Acceptable opts operands ↔
      Processable opts (defaultOptions nValue pValue) ∧ operands = [] := by
  constructor
  · intro h
    exact ⟨⟨h.noHelp, h.noInvalid, h.portOnce, fun hc => absurd hc (by simp [defaultOptions]),
      h.port, h.threadsOnce, fun hc => absurd hc (by simp [defaultOptions]), h.threads⟩,
      h.noOperand⟩
  · rintro ⟨h, hoperands⟩
    exact ⟨h.noHelp, h.noInvalid, hoperands, h.portOnce, h.port, h.threadsOnce, h.threads⟩

theorem reportExtraArguments_success_iff {operands : List CString} :
    reportExtraArguments operands = .success ↔ operands = [] := by
  unfold reportExtraArguments
  split <;> simp_all

theorem reportExtraArguments_perm {operands operands' : List CString}
    (h : operands.Perm operands') :
    reportExtraArguments operands = reportExtraArguments operands' := by
  unfold reportExtraArguments
  have hnil : operands = [] ↔ operands' = [] := by
    rw [← List.length_eq_zero_iff, h.length_eq, List.length_eq_zero_iff]
  simp only [ne_eq, hnil]

/-- Without a `-h` the options are processed, or they cannot be and the call fails. -/
theorem processDefaults_cases {args : List CString}
    (hhelp : .option charH none ∉ (getopt optstring false args).1) (program : CString)
    (nValue : Int32) (pValue : Option CString) :
    (∃ o', Processed (getopt optstring false args).1 (defaultOptions nValue pValue) o' ∧
      processDefaults (program :: args) nValue pValue =
        (reportExtraArguments (getopt optstring false args).2, some o')) ∨
      ¬ Processable (getopt optstring false args).1 (defaultOptions nValue pValue) ∧
        (processDefaults (program :: args) nValue pValue).1 = .failure := by
  have hopts := commandLine_serverOption (program :: args)
  rw [processDefaults_cons]
  by_cases h : Processable (getopt optstring false args).1 (defaultOptions nValue pValue)
  · obtain ⟨o', ho'⟩ := h.processed hopts
    exact .inl ⟨o', ho', by rw [ho'.optionLoop]⟩
  · refine .inr ⟨h, ?_⟩
    rcases processed_or_failure hopts hhelp (getopt optstring false args).2 .failure
      (defaultOptions nValue pValue) with ⟨o', ho'⟩ | hfailure
    · exact absurd ho'.processable h
    · exact hfailure

/-- The same options and operands in another order come to the same end. -/
theorem processDefaults_reordered {program : CString} {args args' : List CString}
    (hhelp : .option charH none ∉ (getopt optstring false args).1)
    (hreordered : Reordered (program :: args) (program :: args')) (nValue : Int32)
    (pValue : Option CString) :
    (processDefaults (program :: args) nValue pValue).1 =
        (processDefaults (program :: args') nValue pValue).1 ∧
      ∀ options options',
        processDefaults (program :: args) nValue pValue = (.success, some options) →
          processDefaults (program :: args') nValue pValue = (.success, some options') →
            options.nValue = options'.nValue ∧ options.pValue = options'.pValue := by
  have hhelp' : .option charH none ∉ (getopt optstring false args').1 :=
    fun hc => hhelp (hreordered.options.mem_iff.mpr hc)
  rcases processDefaults_cases hhelp program nValue pValue with
    ⟨o, ho, hcall⟩ | ⟨hno, hcall⟩
  · rcases processDefaults_cases hhelp' program nValue pValue with
      ⟨o', ho', hcall'⟩ | ⟨hno', -⟩
    · rw [hcall, hcall']
      constructor
      · exact reportExtraArguments_perm hreordered.operands
      · intro options options' hsuccess hsuccess'
        rw [Prod.mk.injEq, Option.some.injEq] at hsuccess hsuccess'
        rw [← hsuccess.2, ← hsuccess'.2]
        exact ho.given.values_eq ho'.given hreordered.options
    · exact absurd (ho.processable.perm hreordered.options) hno'
  · rcases processDefaults_cases hhelp' program nValue pValue with
      ⟨o', ho', -⟩ | ⟨-, hcall'⟩
    · exact absurd (ho'.processable.perm hreordered.options.symm) hno
    · refine ⟨hcall.trans hcall'.symm, fun options options' hsuccess _ => ?_⟩
      rw [hsuccess] at hcall
      cases hcall

/-- Without a `-h` the options that can be processed decide, and so their order makes no
difference. -/
theorem optionsHandled_of_no_help {program : CString} {args : List CString}
    (hhelp : .option charH none ∉ (commandLine (program :: args)).1) (nValue : Int32)
    (pValue : Option CString) : OptionsHandled (program :: args) nValue pValue := by
  have hhelp' : .option charH none ∉ (getopt optstring false args).1 := hhelp
  have hcases := processDefaults_cases hhelp' program nValue pValue
  constructor
  · rw [acceptable_iff nValue pValue]
    rcases hcases with ⟨o', ho', hcall⟩ | ⟨hno, hcall⟩
    · rw [hcall, reportExtraArguments_success_iff]
      exact ⟨fun h => ⟨ho'.processable, h⟩, fun h => h.2⟩
    · rw [hcall]
      exact iff_of_false (by simp) fun h => hno h.1
  · intro options hsuccess
    rcases hcases with ⟨o', ho', hcall⟩ | ⟨-, hcall⟩
    · rw [hcall, Prod.mk.injEq, Option.some.injEq] at hsuccess
      exact hsuccess.2 ▸ ho'.given
    · rw [hsuccess] at hcall
      cases hcall
  · intro argv' hreordered
    cases argv' with
    | nil => cases hreordered.program
    | cons program' args' =>
        cases hreordered.program
        exact processDefaults_reordered hhelp' hreordered nValue pValue

/-- An argument that `process_p_option` or `process_n_option` takes. -/
def Usable (opts : List (Opt CString)) : Prop :=
  (∃ s ∈ optArgs charP opts, IsPort s) ∨ ∃ s ∈ optArgs charN opts, ∃ v, IsThreads s v

/-- With a `-h` and nothing that is any good every order fails. -/
theorem optionsHandled_of_not_usable {program : CString} {args : List CString}
    (hhelp : .option charH none ∈ (commandLine (program :: args)).1)
    (husable : ¬ Usable (commandLine (program :: args)).1) (nValue : Int32)
    (pValue : Option CString) : OptionsHandled (program :: args) nValue pValue := by
  obtain ⟨hport, hthreads⟩ := not_or.mp husable
  have hfailure : ∀ args', Reordered (program :: args) (program :: args') →
      (processDefaults (program :: args') nValue pValue).1 = .failure := by
    intro args' hreordered
    have hargs : ∀ c, (optArgs c (commandLine (program :: args)).1).Perm
        (optArgs c (commandLine (program :: args')).1) := fun c => hreordered.options.filterMap _
    rw [processDefaults_cons]
    apply optionLoop_failure_of_help (commandLine_serverOption (program :: args'))
      (hreordered.options.mem_iff.mp hhelp)
    · exact fun s hs hgood => hport ⟨s, (hargs charP).mem_iff.mpr hs, hgood⟩
    · exact fun s hs v hgood => hthreads ⟨s, (hargs charN).mem_iff.mpr hs, v, hgood⟩
  have hself := hfailure args ⟨rfl, .refl _, .refl _⟩
  constructor
  · rw [hself]
    exact iff_of_false (by simp) fun h => h.noHelp hhelp
  · intro options hsuccess
    rw [hsuccess] at hself
    cases hself
  · intro argv' hreordered
    cases argv' with
    | nil => cases hreordered.program
    | cons program' args' =>
        cases hreordered.program
        refine ⟨hself.trans (hfailure args' hreordered).symm, fun options _ hsuccess => ?_⟩
        rw [hsuccess] at hself
        cases hself

/-- Behind an option that is processed, `-h` leaves the loop with its success. -/
theorem success_of_help_second {program : CString} {args : List CString} {c : UInt8} {s : CString}
    {behind : List (Opt CString)}
    (hargs : (getopt optstring false args).1
      = .option c (some s) :: .option charH none :: behind)
    (hgood : c = charP ∧ IsPort s ∨ c = charN ∧ ∃ v, IsThreads s v) (nValue : Int32)
    (pValue : Option CString) :
    (processDefaults (program :: args) nValue pValue).1 = .success := by
  rw [processDefaults_cons, hargs]
  rcases hgood with ⟨rfl, hport⟩ | ⟨rfl, v, hthreads⟩
  · rw [optionLoop_port, processPOption_success rfl hport, if_neg (not_not.mpr rfl),
      optionLoop_help]
  · rw [optionLoop_threads, processNOption_success rfl hthreads, if_neg (not_not.mpr rfl),
      optionLoop_help]

theorem not_optionsHandled_of_usable {program : CString} {args : List CString}
    (hhelp : .option charH none ∈ (commandLine (program :: args)).1)
    (husable : Usable (commandLine (program :: args)).1) (nValue : Int32)
    (pValue : Option CString) : ¬ OptionsHandled (program :: args) nValue pValue := by
  intro handled
  have hgood : ∃ c s, .option c (some s) ∈ (commandLine (program :: args)).1 ∧
      (c = charP ∧ IsPort s ∨ c = charN ∧ ∃ v, IsThreads s v) := by
    rcases husable with ⟨s, hs, hport⟩ | ⟨s, hs, hthreads⟩
    · exact ⟨charP, s, mem_optArgs.mp hs, .inl ⟨rfl, hport⟩⟩
    · exact ⟨charN, s, mem_optArgs.mp hs, .inr ⟨rfl, hthreads⟩⟩
  obtain ⟨c, s, hmem, hgood⟩ := hgood
  obtain ⟨args', behind, hargs', hperm, hoperands⟩ :=
    exists_help_second (hgood.imp And.left And.left) hmem hhelp
  have hreordered : Reordered (program :: args) (program :: args') :=
    ⟨rfl, hperm, .of_eq hoperands⟩
  have hsuccess : (processDefaults (program :: args) nValue pValue).1 = .success :=
    (handled.order _ hreordered).1.trans (success_of_help_second hargs' hgood nValue pValue)
  exact (handled.accepts.mp hsuccess).noHelp hhelp

/-- `process_options` does what it should unless a `-h` is given together with an option that is
valid, or there is not even a program name. -/
theorem optionsHandled_iff (argv : List CString) (nValue : Int32) (pValue : Option CString) :
    OptionsHandled argv nValue pValue ↔
      argv ≠ [] ∧ ¬ (.option charH none ∈ (commandLine argv).1 ∧ Usable (commandLine argv).1) := by
  cases argv with
  | nil =>
      refine iff_of_false (fun handled => ?_) fun h => h.1 rfl
      have hacceptable : Acceptable [] [] := by constructor <;> simp
      have hcall : ExitCode.failure = .success := handled.accepts.mpr hacceptable
      cases hcall
  | cons program args =>
      by_cases hhelp : .option charH none ∈ (commandLine (program :: args)).1
      · by_cases husable : Usable (commandLine (program :: args)).1
        · refine iff_of_false (not_optionsHandled_of_usable hhelp husable nValue pValue) ?_
          exact fun h => h.2 ⟨hhelp, husable⟩
        · refine iff_of_true (optionsHandled_of_not_usable hhelp husable nValue pValue) ?_
          exact ⟨by simp, fun h => husable h.2⟩
      · refine iff_of_true (optionsHandled_of_no_help hhelp nValue pValue) ?_
        exact ⟨by simp, fun h => hhelp h.1⟩

/-- `-p 8080 -h` succeeds, and `-h -p 8080` fails. -/
theorem optionsHandled_help : ∃ program p port h : CString,
    (processDefaults [program, p, port, h] 4 none).1 = .success ∧
      (processDefaults [program, h, p, port] 4 none).1 = .failure ∧
      .option charH none ∈ (commandLine [program, p, port, h]).1 ∧
      Reordered [program, p, port, h] [program, h, p, port] ∧
      ¬ OptionsHandled [program, p, port, h] 4 none := by
  have hsuccess : (processDefaults [⟨[115], by decide⟩, ⟨[45, 112], by decide⟩,
      ⟨[56, 48, 56, 48], by decide⟩, ⟨[45, 104], by decide⟩] 4 none).1 = .success := by rfl
  have hhelp : .option charH none ∈ (commandLine [⟨[115], by decide⟩, ⟨[45, 112], by decide⟩,
      ⟨[56, 48, 56, 48], by decide⟩, ⟨[45, 104], by decide⟩]).1 :=
    List.mem_cons_of_mem _ List.mem_cons_self
  refine ⟨_, _, _, _, hsuccess, by rfl, hhelp, ⟨rfl, ?_, .refl _⟩, fun handled => ?_⟩
  · exact List.Perm.swap _ _ []
  · exact (handled.accepts.mp hsuccess).noHelp hhelp

end CmakeTemplate
