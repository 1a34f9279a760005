/-
What the loop of `process_options` makes of a list of options.

As long as no `-h` comes up the exit code of the last option decides whether the loop goes on,
so that the end is reached just in case every option could be processed.  What it takes to be
processed is stated of the list as a whole (`Processable`): no option twice, and each with an
argument that is right.  That does not depend on the order, and neither do the values that are
left.

A `-h` ends the loop with the exit code it finds: a success if an option in front of it was
processed, and a failure if it comes first.  So with a `-h` the order does matter, unless no
option could be processed at all.
-/
import CmakeTemplate.OptionHandler
import CmakeTemplate.Proofs.Math.NumberConverter

namespace CmakeTemplate

open Lib

/-! ### One option

An option is refused for its flag or for its argument.
-/

theorem processPOption_success {s : CString} {o : Options} (hflag : o.pFlag = false)
    (hport : IsPort s) :
    processPOption (some s) o = (.success, { o with pFlag := true, pValue := some s }) := by
  obtain ⟨v, hv, hmin, hmax⟩ := hport
  rcases strToInt32_cases s 0 with ⟨w, hcall, hw⟩ | ⟨-, hno⟩
  · have hvalue : w.toInt = v := isDecimal_unique hw hv
    have hrange : ¬ (maxPortValue < w.toInt ∨ minPortValue > w.toInt) := by omega
    simp only [processPOption, hflag, hcall, Option.getD_some]
    rw [if_neg Bool.false_ne_true, if_neg (not_not.mpr rfl), if_neg hrange]
  · have hint : (Int32.ofInt v).toInt = v := by
      unfold minPortValue at hmin
      unfold maxPortValue at hmax
      exact toInt_ofInt_of_range (by unfold int32Min; omega) (by unfold int32Max; omega)
    exact absurd (hint.symm ▸ hv) (hno (Int32.ofInt v))

theorem processPOption_failure {s : CString} {o : Options} (h : o.pFlag = true ∨ ¬ IsPort s) :
    (processPOption (some s) o).1 = .failure := by
  cases hflag : o.pFlag with
  | true => simp only [processPOption, hflag, if_true]
  | false =>
      have hport : ¬ IsPort s := h.resolve_left (by simp [hflag])
      simp only [processPOption, hflag]
      rcases strToInt32_cases s 0 with ⟨w, hcall, hw⟩ | ⟨hcall, -⟩
      · have hrange : maxPortValue < w.toInt ∨ minPortValue > w.toInt := by
          by_contra hc
          exact hport ⟨w.toInt, hw, by omega, by omega⟩
        simp only [hcall, Option.getD_some]
        rw [if_neg Bool.false_ne_true, if_neg (not_not.mpr rfl), if_pos hrange]
      · simp only [hcall]
        rw [if_neg Bool.false_ne_true, if_pos (by simp)]

theorem processNOption_success {s : CString} {o : Options} {v : Int32} (hflag : o.nFlag = false)
    (hthreads : IsThreads s v) :
    processNOption (some s) o = (.success, { o with nFlag := true, nValue := v }) := by
  obtain ⟨hv, hmin⟩ := hthreads
  rcases strToInt32_cases s 0 with ⟨w, hcall, hw⟩ | ⟨-, hno⟩
  · have hvalue : w = v := Int32.toInt_inj.mp (isDecimal_unique hw hv)
    subst hvalue
    simp only [processNOption, hflag, hcall, Option.getD_some]
    rw [if_neg Bool.false_ne_true, if_neg (not_not.mpr rfl), if_neg (by omega)]
  · exact absurd hv (hno v)

theorem processNOption_failure {s : CString} {o : Options}
    (h : o.nFlag = true ∨ ∀ v, ¬ IsThreads s v) : (processNOption (some s) o).1 = .failure := by
  cases hflag : o.nFlag with
  | true => simp only [processNOption, hflag, if_true]
  | false =>
      have hthreads : ∀ v, ¬ IsThreads s v := h.resolve_left (by simp [hflag])
      simp only [processNOption, hflag]
      rcases strToInt32_cases s 0 with ⟨w, hcall, hw⟩ | ⟨hcall, -⟩
      · have hlow : minNumThreads > w.toInt := by
          by_contra hc
          exact hthreads w ⟨hw, by omega⟩
        simp only [hcall, Option.getD_some]
        rw [if_neg Bool.false_ne_true, if_neg (not_not.mpr rfl), if_pos hlow]
      · simp only [hcall]
        rw [if_neg Bool.false_ne_true, if_pos (by simp)]

/-! ### The arguments of an option

Which arguments an option has in a list of options.
-/

@[simp] theorem optArgs_nil (c : UInt8) : optArgs c [] = [] := rfl

theorem optArgs_cons_self (c : UInt8) (s : CString) (opts : List (Opt CString)) :
    optArgs c (.option c (some s) :: opts) = s :: optArgs c opts := by
  simp [optArgs]

theorem optArgs_cons_of_ne {c c' : UInt8} (h : c' ≠ c) (s : CString) (opts : List (Opt CString)) :
    optArgs c (.option c' (some s) :: opts) = optArgs c opts := by
  simp [optArgs, h]

theorem charN_ne_charP : charN ≠ charP := by decide

theorem mem_optArgs {c : UInt8} {s : CString} {opts : List (Opt CString)} :
    s ∈ optArgs c opts ↔ .option c (some s) ∈ opts := by
  unfold optArgs
  rw [List.mem_filterMap]
  constructor
  · rintro ⟨opt, hopt, hs⟩
    split at hs
    · split at hs
      · rename_i hc
        cases hs
        exact hc ▸ hopt
      · cases hs
    · cases hs
  · intro hopt
    exact ⟨_, hopt, by simp⟩

/-! ### Options that can all be processed

The run of the loop, as a relation, against the condition on the list.
-/

/-- What `getopt` returns for the option string of the server. -/
inductive ServerOption : Opt CString → Prop
  | port (s : CString) : ServerOption (.option charP (some s))
  | threads (s : CString) : ServerOption (.option charN (some s))
  | help : ServerOption (.option charH none)
  | invalid (c : UInt8) : ServerOption (.invalid c)

/-- The options are processed one after the other, and the last one leaves `o'`. -/
inductive Processed : List (Opt CString) → Options → Options → Prop
  | nil (o : Options) : Processed [] o o
  | port {s : CString} {opts : List (Opt CString)} {o o' : Options} (hflag : o.pFlag = false)
      (hport : IsPort s) (h : Processed opts { o with pFlag := true, pValue := some s } o') :
      Processed (.option charP (some s) :: opts) o o'
  | threads {s : CString} {opts : List (Opt CString)} {o o' : Options} {v : Int32}
      (hflag : o.nFlag = false) (hthreads : IsThreads s v)
      (h : Processed opts { o with nFlag := true, nValue := v } o') :
      Processed (.option charN (some s) :: opts) o o'

/-- What it takes for that. -/
structure Processable (opts : List (Opt CString)) (o : Options) : Prop where
  /-- No help is asked for. -/
  noHelp : .option charH none ∉ opts
  /-- Every option is known and has its argument. -/
  noInvalid : ∀ c, .invalid c ∉ opts
  /-- There is one port at most. -/
  portOnce : (optArgs charP opts).length ≤ 1
  /-- There is none if one was given before. -/
  portFlag : o.pFlag = true → optArgs charP opts = []
  /-- It is one. -/
  port : ∀ s ∈ optArgs charP opts, IsPort s
  /-- There is one number of threads at most. -/
  threadsOnce : (optArgs charN opts).length ≤ 1
  /-- There is none if one was given before. -/
  threadsFlag : o.nFlag = true → optArgs charN opts = []
  /-- It is one. -/
  threads : ∀ s ∈ optArgs charN opts, ∃ v, IsThreads s v

theorem Processed.processable {opts : List (Opt CString)} {o o' : Options}
    (h : Processed opts o o') : Processable opts o := by
  induction h with
  | nil o =>
      constructor <;> simp
  | @port s opts o o' hflag hport _ ih =>
      have hone : optArgs charP opts = [] := ih.portFlag rfl
      constructor
      · simpa using ih.noHelp
      · simpa using ih.noInvalid
      · simp [optArgs_cons_self, hone]
      · simp [hflag]
      · simpa [optArgs_cons_self, hone] using hport
      · simpa [optArgs_cons_of_ne charN_ne_charP.symm] using ih.threadsOnce
      · simpa [optArgs_cons_of_ne charN_ne_charP.symm] using ih.threadsFlag
      · simpa [optArgs_cons_of_ne charN_ne_charP.symm] using ih.threads
  | @threads s opts o o' v hflag hthreads _ ih =>
      have hone : optArgs charN opts = [] := ih.threadsFlag rfl
      constructor
      · simpa using ih.noHelp
      · simpa using ih.noInvalid
      · simpa [optArgs_cons_of_ne charN_ne_charP] using ih.portOnce
      · simpa [optArgs_cons_of_ne charN_ne_charP] using ih.portFlag
      · simpa [optArgs_cons_of_ne charN_ne_charP] using ih.port
      · simp [optArgs_cons_self, hone]
      · simp [hflag]
      · simpa [optArgs_cons_self, hone] using ⟨v, hthreads⟩

/-- They leave the values that are given. -/
theorem Processed.given {opts : List (Opt CString)} {o o' : Options}
    (h : Processed opts o o') : Given opts o o' := by
  induction h with
  | nil o =>
      constructor <;> simp
  | @port s opts o o' hflag hport h ih =>
      have hone : optArgs charP opts = [] := h.processable.portFlag rfl
      constructor
      · simpa [optArgs_cons_self, hone] using ih.noPort hone
      · simp [optArgs_cons_self]
      · simpa [optArgs_cons_of_ne charN_ne_charP.symm] using ih.threads
      · simpa [optArgs_cons_of_ne charN_ne_charP.symm] using ih.noThreads
  | @threads s opts o o' v hflag hthreads h ih =>
      have hone : optArgs charN opts = [] := h.processable.threadsFlag rfl
      constructor
      · simpa [optArgs_cons_of_ne charN_ne_charP] using ih.port
      · simpa [optArgs_cons_of_ne charN_ne_charP] using ih.noPort
      · have hvalue : o'.nValue = v := ih.noThreads hone
        simpa [optArgs_cons_self, hone, hvalue] using hthreads.1
      · simp [optArgs_cons_self]

/-- Options that can be processed are. -/
theorem Processable.processed {opts : List (Opt CString)} {o : Options} (h : Processable opts o)
    (hopts : ∀ opt ∈ opts, ServerOption opt) : ∃ o', Processed opts o o' := by
  induction opts generalizing o with
  | nil => exact ⟨o, .nil o⟩
  | cons opt opts ih =>
      have hbehind : ∀ opt ∈ opts, ServerOption opt :=
        fun opt hopt => hopts opt (List.mem_cons_of_mem _ hopt)
      have hnoHelp : .option charH none ∉ opts := fun hc => h.noHelp (List.mem_cons_of_mem _ hc)
      have hnoInvalid : ∀ c, .invalid c ∉ opts :=
        fun c hc => h.noInvalid c (List.mem_cons_of_mem _ hc)
      cases hopts opt List.mem_cons_self with
      | port s =>
          obtain ⟨-, -, honce, hflag, hport, hnOnce, hnFlag, hthreads⟩ := h
          simp only [optArgs_cons_self, optArgs_cons_of_ne charN_ne_charP.symm,
            List.length_cons, List.forall_mem_cons, List.cons_ne_nil, imp_false,
            Bool.not_eq_true] at honce hflag hport hnOnce hnFlag hthreads
          have hone : optArgs charP opts = [] := List.length_eq_zero_iff.mp (by omega)
          obtain ⟨o', ho'⟩ := @ih { o with pFlag := true, pValue := some s }
            ⟨hnoHelp, hnoInvalid, by simp [hone], fun _ => hone, hport.2, hnOnce, hnFlag,
              hthreads⟩ hbehind
          exact ⟨o', .port hflag hport.1 ho'⟩
      | threads s =>
          obtain ⟨-, -, hpOnce, hpFlag, hport, honce, hflag, hthreads⟩ := h
          simp only [optArgs_cons_self, optArgs_cons_of_ne charN_ne_charP,
            List.length_cons, List.forall_mem_cons, List.cons_ne_nil, imp_false,
            Bool.not_eq_true] at hpOnce hpFlag hport honce hflag hthreads
          have hone : optArgs charN opts = [] := List.length_eq_zero_iff.mp (by omega)
          obtain ⟨v, hv⟩ := hthreads.1
          obtain ⟨o', ho'⟩ := @ih { o with nFlag := true, nValue := v }
            ⟨hnoHelp, hnoInvalid, hpOnce, hpFlag, hport, by simp [hone], fun _ => hone,
              hthreads.2⟩ hbehind
          exact ⟨o', .threads hflag hv ho'⟩
      | help => exact absurd List.mem_cons_self h.noHelp
      | invalid c => exact absurd List.mem_cons_self (h.noInvalid c)

/-! ### The loop

Either everything on the way was processed, or the loop ended there.
-/

section Loop

variable (operands : List CString) (opts : List (Opt CString)) (e : ExitCode) (o : Options)

theorem optionLoop_port (s : CString) :
    optionLoop operands (.option charP (some s) :: opts) e o =
      if .success ≠ (processPOption (some s) o).1 then processPOption (some s) o
      else optionLoop operands opts (processPOption (some s) o).1
        (processPOption (some s) o).2 := by
  rw [optionLoop, if_pos rfl]

theorem optionLoop_threads (s : CString) :
    optionLoop operands (.option charN (some s) :: opts) e o =
      if .success ≠ (processNOption (some s) o).1 then processNOption (some s) o
      else optionLoop operands opts (processNOption (some s) o).1
        (processNOption (some s) o).2 := by
  rw [optionLoop, if_neg charN_ne_charP, if_pos rfl]

theorem optionLoop_help :
    optionLoop operands (.option charH none :: opts) e o = (e, o) := by
  rw [optionLoop, if_neg (by decide), if_neg (by decide), if_pos rfl]

theorem optionLoop_invalid (c : UInt8) :
    optionLoop operands (.invalid c :: opts) e o = (.failure, o) := by
  rw [optionLoop]

end Loop

/-- The loop runs to its end if everything on its way is processed. -/
theorem Processed.optionLoop {opts : List (Opt CString)} {o o' : Options}
    (h : Processed opts o o') (operands : List CString) (e : ExitCode) :
    optionLoop operands opts e o = (reportExtraArguments operands, o') := by
  induction h generalizing e with
  | nil o => rfl
  | port hflag hport _ ih =>
      rw [optionLoop_port, processPOption_success hflag hport, if_neg (not_not.mpr rfl)]
      exact ih .success
  | threads hflag hthreads _ ih =>
      rw [optionLoop_threads, processNOption_success hflag hthreads, if_neg (not_not.mpr rfl)]
      exact ih .success

/-- Without a `-h` the loop runs to its end or fails. -/
theorem processed_or_failure {opts : List (Opt CString)}
    (hopts : ∀ opt ∈ opts, ServerOption opt) (hhelp : .option charH none ∉ opts)
    (operands : List CString) (e : ExitCode) (o : Options) :
    (∃ o', Processed opts o o') ∨ (optionLoop operands opts e o).1 = .failure := by
  induction opts generalizing e o with
  | nil => exact .inl ⟨o, .nil o⟩
  | cons opt opts ih =>
      have ih := ih (fun opt hopt => hopts opt (List.mem_cons_of_mem _ hopt))
        fun hc => hhelp (List.mem_cons_of_mem _ hc)
      cases hopts opt List.mem_cons_self with
      | port s =>
          rw [optionLoop_port]
          by_cases h : o.pFlag = false ∧ IsPort s
          · obtain ⟨hflag, hport⟩ := h
            rw [processPOption_success hflag hport, if_neg (not_not.mpr rfl)]
            exact (ih .success _).imp_left fun ⟨o', ho'⟩ => ⟨o', .port hflag hport ho'⟩
          · have hfailure : (processPOption (some s) o).1 = .failure :=
              processPOption_failure (by rwa [not_and_or, Bool.not_eq_false] at h)
            rw [hfailure, if_pos (by simp)]
            exact .inr hfailure
      | threads s =>
          rw [optionLoop_threads]
          by_cases h : o.nFlag = false ∧ ∃ v, IsThreads s v
          · obtain ⟨hflag, v, hthreads⟩ := h
            rw [processNOption_success hflag hthreads, if_neg (not_not.mpr rfl)]
            exact (ih .success _).imp_left fun ⟨o', ho'⟩ => ⟨o', .threads hflag hthreads ho'⟩
          · have hfailure : (processNOption (some s) o).1 = .failure :=
              processNOption_failure (by rwa [not_and_or, Bool.not_eq_false, not_exists] at h)
            rw [hfailure, if_pos (by simp)]
            exact .inr hfailure
      | help => exact absurd List.mem_cons_self hhelp
      | invalid c =>
          rw [optionLoop_invalid]
          exact .inr rfl

/-- If no argument is any good, no option in front of a `-h` makes the exit code a success. -/
theorem optionLoop_failure_of_help {opts : List (Opt CString)}
    (hopts : ∀ opt ∈ opts, ServerOption opt) (hhelp : .option charH none ∈ opts)
    (hport : ∀ s ∈ optArgs charP opts, ¬ IsPort s)
    (hthreads : ∀ s ∈ optArgs charN opts, ∀ v, ¬ IsThreads s v) (operands : List CString)
    (o : Options) : (optionLoop operands opts .failure o).1 = .failure := by
  cases opts with
  | nil => exact absurd hhelp List.not_mem_nil
  | cons opt opts =>
      cases hopts opt List.mem_cons_self with
      | port s =>
          have hfailure : (processPOption (some s) o).1 = .failure :=
            processPOption_failure (.inr (hport s (by simp [optArgs_cons_self])))
          rw [optionLoop_port, hfailure, if_pos (by simp)]
          exact hfailure
      | threads s =>
          have hfailure : (processNOption (some s) o).1 = .failure :=
            processNOption_failure (.inr (hthreads s (by simp [optArgs_cons_self])))
          rw [optionLoop_threads, hfailure, if_pos (by simp)]
          exact hfailure
      | help => rw [optionLoop_help]
      | invalid c => rw [optionLoop_invalid]

/-! ### The order of the options

The condition and the values are the same for a permutation.
-/

theorem Processable.perm {opts opts' : List (Opt CString)} {o : Options}
    (h : Processable opts o) (hperm : opts.Perm opts') : Processable opts' o := by
  have hargs : ∀ c, (optArgs c opts).Perm (optArgs c opts') := fun c => hperm.filterMap _
  constructor
  · exact fun hc => h.noHelp (hperm.mem_iff.mpr hc)
  · exact fun c hc => h.noInvalid c (hperm.mem_iff.mpr hc)
  · exact (hargs charP).length_eq ▸ h.portOnce
  · intro hflag
    have hperm' := hargs charP
    rw [h.portFlag hflag] at hperm'
    exact hperm'.nil_eq.symm
  · exact fun s hs => h.port s ((hargs charP).mem_iff.mpr hs)
  · exact (hargs charN).length_eq ▸ h.threadsOnce
  · intro hflag
    have hperm' := hargs charN
    rw [h.threadsFlag hflag] at hperm'
    exact hperm'.nil_eq.symm
  · exact fun s hs => h.threads s ((hargs charN).mem_iff.mpr hs)

/-- The values that are given do not depend on the order. -/
theorem Given.values_eq {opts opts' : List (Opt CString)} {o a b : Options} (ha : Given opts o a)
    (hb : Given opts' o b) (hperm : opts.Perm opts') :
    a.nValue = b.nValue ∧ a.pValue = b.pValue := by
  have hargs : ∀ c, (optArgs c opts).Perm (optArgs c opts') := fun c => hperm.filterMap _
  constructor
  · rcases List.eq_nil_or_concat (optArgs charN opts) with hnil | ⟨behind, s, hs⟩
    · have hperm' := hargs charN
      rw [hnil] at hperm'
      rw [ha.noThreads hnil, hb.noThreads hperm'.nil_eq.symm]
    · have hmem : s ∈ optArgs charN opts := by simp [hs]
      have hva := ha.threads s hmem
      have hvb := hb.threads s ((hargs charN).mem_iff.mp hmem)
      exact Int32.toInt_inj.mp (isDecimal_unique hva hvb)
  · rcases List.eq_nil_or_concat (optArgs charP opts) with hnil | ⟨behind, s, hs⟩
    · have hperm' := hargs charP
      rw [hnil] at hperm'
      rw [ha.noPort hnil, hb.noPort hperm'.nil_eq.symm]
    · have hmem : s ∈ optArgs charP opts := by simp [hs]
      rw [ha.port s hmem, hb.port s ((hargs charP).mem_iff.mp hmem)]

end CmakeTemplate
