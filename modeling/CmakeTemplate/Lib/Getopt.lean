/-
GNU `getopt`, called until it returns -1.

What the calls return depends on the elements of `argv` behind the program's name only, so it is a
list: one entry for each option character, in the order of the elements.  Operands, the elements
that are neither options nor their arguments, are passed over and end up behind all options, where
`optind` points to the first of them.  An option string has no `+`, `-` or `:` in front and no
optional arguments.
-/
import Mathlib.Data.List.Perm.Basic

namespace CmakeTemplate.Lib

/-- The elements of `argv`: the characters of one, and the string behind its first `n`. -/
class Argument (σ : Type) where
  chars : σ → List UInt8
  drop : Nat → σ → σ

/-- What a call returns: an option character with `optarg`, or `?` with `optopt`. -/
inductive Opt (σ : Type) where
  | option (c : UInt8) (optarg : Option σ)
  | invalid (optopt : UInt8)

open Argument

variable {σ : Type} [Argument σ]

/-- Whether an option takes an argument, or `none` if there is no such option. -/
def hasArg (optstring : List UInt8) (c : UInt8) : Option Bool :=
  if c = 58 ∨ c = 59 then none
  else
    match optstring.dropWhile (· ≠ c) with
    | [] => none
    | _ :: behind => some (behind.head? = some 58)

/-- An element without `-` in front, or `-` alone. -/
def IsOperand (element : σ) : Prop := (chars element).head? ≠ some 45 ∨ chars element = [45]

instance (element : σ) : Decidable (IsOperand element) := inferInstanceAs (Decidable (_ ∨ _))

/-- The options in an element, from its character `k` on, and whether the element behind it is the
argument of the last of them. -/
def scanElement (optstring : List UInt8) (element : σ) (next : Option σ) :
    Nat → List UInt8 → List (Opt σ) × Bool
  | _, [] => ([], false)
  | k, c :: cs =>
    match hasArg optstring c with
    | none =>
      let behind := scanElement optstring element next (k + 1) cs
      (.invalid c :: behind.1, behind.2)
    | some false =>
      let behind := scanElement optstring element next (k + 1) cs
      (.option c none :: behind.1, behind.2)
    | some true =>
      if cs ≠ [] then ([.option c (some (drop (k + 1) element))], false)
      else
        match next with
        | some arg => ([.option c (some arg)], true)
        | none => ([.invalid c], false)

/-- The options and the operands of a command line.  `taken` says that the first element is the
argument of an option already. -/
def getopt (optstring : List UInt8) : Bool → List σ → List (Opt σ) × List σ
  | _, [] => ([], [])
  | true, _ :: args => getopt optstring false args
  | false, element :: args =>
    if IsOperand element then
      let behind := getopt optstring false args
      (behind.1, element :: behind.2)
    else if chars element = [45, 45] then ([], args)
    else
      let here := scanElement optstring element args.head? 1 (chars element).tail
      let behind := getopt optstring here.2 args
      (here.1 ++ behind.1, behind.2)

/-! ### What the calls can return

Whatever the command line, an option that comes back belongs to the option string, has an
argument if it takes one, and is made of characters of the elements that were scanned.
-/

/-- The option character of a call, whether it is returned or in `optopt`. -/
def Opt.char : Opt σ → UInt8
  | .option c _ => c
  | .invalid c => c

/-- An option has an argument if it takes one, and the others are invalid: the unknown ones, and
those that take an argument but have none. -/
def Opt.Fits (optstring : List UInt8) : Opt σ → Prop
  | .option c optarg => hasArg optstring c = some optarg.isSome
  | .invalid c => hasArg optstring c ≠ some false

/-- What is read without a look at what is behind its character. -/
def Opt.Alone (optstring : List UInt8) : Opt σ → Prop
  | .option c optarg => hasArg optstring c = some false ∧ optarg = none
  | .invalid c => hasArg optstring c = none

omit [Argument σ] in
theorem Opt.Alone.fits {optstring : List UInt8} {opt : Opt σ} (h : opt.Alone optstring) :
    opt.Fits optstring := by
  cases opt with
  | option c optarg =>
      obtain ⟨hc, rfl⟩ := h
      exact hc
  | invalid c =>
      have hc : hasArg optstring c = none := h
      simp [Opt.Fits, hc]

section Scan

variable {optstring : List UInt8} {element : σ} {next : Option σ}

theorem scanElement_alone {opt : Opt σ} (h : opt.Alone optstring) (k : Nat) (cs : List UInt8) :
    scanElement optstring element next k (opt.char :: cs) =
      (opt :: (scanElement optstring element next (k + 1) cs).1,
        (scanElement optstring element next (k + 1) cs).2) := by
  cases opt with
  | option c optarg =>
      obtain ⟨hc, rfl⟩ := h
      simp [scanElement, Opt.char, hc]
  | invalid c =>
      have hc : hasArg optstring c = none := h
      simp [scanElement, Opt.char, hc]

/-- Options that stand alone can be put together in one element. -/
theorem scanElement_map_char (element : σ) (next : Option σ) {opts : List (Opt σ)}
    (h : ∀ opt ∈ opts, opt.Alone optstring) (k : Nat) :
    scanElement optstring element next k (opts.map Opt.char) = (opts, false) := by
  induction opts generalizing k with
  | nil => rfl
  | cons opt opts ih =>
      rw [List.map_cons, scanElement_alone (h opt List.mem_cons_self),
        ih fun opt hopt => h opt (List.mem_cons_of_mem _ hopt)]

/-- The last option in an element, after those that stand alone. -/
inductive LastOpt (optstring : List UInt8) (next : Option σ) : List (Opt σ) → Bool → Prop
  | none : LastOpt optstring next [] false
  | option (c : UInt8) (optarg : σ) (taken : Bool) (hc : hasArg optstring c = some true) :
      LastOpt optstring next [.option c (some optarg)] taken
  | missing {c : UInt8} (hc : hasArg optstring c = some true) (hnext : next = Option.none) :
      LastOpt optstring next [.invalid c] false

theorem scanElement_split (element : σ) (next : Option σ) (k : Nat) (cs : List UInt8) :
    ∃ alone last, (scanElement optstring element next k cs).1 = alone ++ last ∧
      (∀ opt ∈ alone, opt.Alone optstring) ∧
      LastOpt optstring next last (scanElement optstring element next k cs).2 := by
  induction cs generalizing k with
  | nil => exact ⟨[], [], rfl, by simp, .none⟩
  | cons c cs ih =>
      have hstep : ∀ opt : Opt σ, opt.char = c → opt.Alone optstring →
          ∃ alone last, (scanElement optstring element next k (c :: cs)).1 = alone ++ last ∧
            (∀ opt ∈ alone, opt.Alone optstring) ∧
            LastOpt optstring next last (scanElement optstring element next k (c :: cs)).2 := by
        rintro opt rfl hopt
        obtain ⟨alone, last, heq, halone, hlast⟩ := ih (k + 1)
        rw [scanElement_alone hopt]
        exact ⟨opt :: alone, last, by rw [heq, List.cons_append],
          List.forall_mem_cons.mpr ⟨hopt, halone⟩, hlast⟩
      cases hc : hasArg optstring c with
      | none => exact hstep (.invalid c) rfl hc
      | some takes =>
          cases takes with
          | false => exact hstep (.option c none) rfl ⟨hc, rfl⟩
          | true =>
              by_cases hcs : cs = []
              · cases hnext : next with
                | none =>
                    refine ⟨[], [.invalid c], ?_, by simp, ?_⟩
                    · simp [scanElement, hc, hcs]
                    · simpa [scanElement, hc, hcs] using LastOpt.missing hc rfl
                | some arg =>
                    refine ⟨[], [.option c (some arg)], ?_, by simp, ?_⟩
                    · simp [scanElement, hc, hcs]
                    · exact .option c arg _ hc
              · refine ⟨[], [.option c (some (drop (k + 1) element))], ?_, by simp, ?_⟩
                · simp [scanElement, hc, hcs]
                · exact .option c _ _ hc

omit [Argument σ] in
theorem LastOpt.fits {last : List (Opt σ)} {taken : Bool} (h : LastOpt optstring next last taken) :
    ∀ opt ∈ last, opt.Fits optstring := by
  cases h with
  | none => simp
  | option c optarg taken hc => simpa [Opt.Fits] using hc
  | missing hc hnext => simp [Opt.Fits, hc]

theorem scanElement_char_mem (k : Nat) (cs : List UInt8) :
    ∀ opt ∈ (scanElement optstring element next k cs).1, opt.char ∈ cs := by
  fun_induction scanElement optstring element next k cs with
  | case1 => simp
  | case2 k c cs hc behind ih =>
      simp only [List.forall_mem_cons]
      exact ⟨List.mem_cons_self, fun opt hopt => List.mem_cons_of_mem _ (ih opt hopt)⟩
  | case3 k c cs hc behind ih =>
      simp only [List.forall_mem_cons]
      exact ⟨List.mem_cons_self, fun opt hopt => List.mem_cons_of_mem _ (ih opt hopt)⟩
  | case4 | case5 | case6 => simp [Opt.char]

end Scan

section CommandLine

variable {optstring : List UInt8}

theorem getopt_operand {element : σ} (h : IsOperand element) (args : List σ) :
    getopt optstring false (element :: args) =
      ((getopt optstring false args).1, element :: (getopt optstring false args).2) := by
  rw [getopt, if_pos h]

theorem getopt_terminator {element : σ} (h : chars element = [45, 45]) (args : List σ) :
    getopt optstring false (element :: args) = ([], args) := by
  have hoperand : ¬ IsOperand element := by
    rintro (hc | hc) <;> simp [h] at hc
  rw [getopt, if_neg hoperand, if_pos h]

theorem getopt_element {element : σ} {c : UInt8} {cs : List UInt8}
    (h : chars element = 45 :: c :: cs) (hne : c :: cs ≠ [45]) (args : List σ) :
    getopt optstring false (element :: args) =
      ((scanElement optstring element args.head? 1 (c :: cs)).1 ++
          (getopt optstring (scanElement optstring element args.head? 1 (c :: cs)).2 args).1,
        (getopt optstring (scanElement optstring element args.head? 1 (c :: cs)).2 args).2) := by
  have hoperand : ¬ IsOperand element := by
    rintro (hc | hc) <;> simp [h] at hc
  have hterminator : chars element ≠ [45, 45] := by
    rw [h]
    exact fun hc => hne (List.cons.inj hc).2
  rw [getopt, if_neg hoperand, if_neg hterminator]
  simp [h]

/-- An element is an operand, the terminator, or has option characters. -/
theorem element_cases (element : σ) :
    IsOperand element ∨ chars element = [45, 45] ∨
      ∃ c cs, chars element = 45 :: c :: cs ∧ c :: cs ≠ [45] := by
  by_cases hoperand : IsOperand element
  · exact .inl hoperand
  · by_cases hterminator : chars element = [45, 45]
    · exact .inr (.inl hterminator)
    · obtain ⟨hhead, hdash⟩ := not_or.mp hoperand
      refine .inr (.inr ?_)
      cases hchars : chars element with
      | nil => simp [hchars] at hhead
      | cons d cs =>
          cases cs with
          | nil => simp_all
          | cons c cs => exact ⟨c, cs, by simp_all, by simp_all⟩

/-- The calls return options that fit the option string. -/
theorem getopt_fits (taken : Bool) (args : List σ) :
    ∀ opt ∈ (getopt optstring taken args).1, opt.Fits optstring := by
  induction args generalizing taken with
  | nil => cases taken <;> simp [getopt]
  | cons element args ih =>
      cases taken with
      | true =>
          rw [getopt]
          exact ih false
      | false =>
          rcases element_cases element with hoperand | hterminator | ⟨c, cs, hchars, hne⟩
          · rw [getopt_operand hoperand]
            exact ih false
          · rw [getopt_terminator hterminator]
            simp
          · rw [getopt_element hchars hne]
            obtain ⟨alone, last, heq, halone, hlast⟩ :=
              scanElement_split element args.head? 1 (c :: cs)
            intro opt hopt
            rw [heq, List.mem_append, List.mem_append] at hopt
            rcases hopt with (hopt | hopt) | hopt
            · exact (halone opt hopt).fits
            · exact hlast.fits opt hopt
            · exact ih _ opt hopt

/-- Option characters are characters of the command line. -/
theorem getopt_char_mem (taken : Bool) (args : List σ) :
    ∀ opt ∈ (getopt optstring taken args).1, ∃ element ∈ args, opt.char ∈ chars element := by
  induction args generalizing taken with
  | nil => cases taken <;> simp [getopt]
  | cons element args ih =>
      have ih : ∀ taken, ∀ opt ∈ (getopt optstring taken args).1,
          ∃ element' ∈ element :: args, opt.char ∈ chars element' := by
        intro taken opt hopt
        obtain ⟨element', hmem, hchar⟩ := ih taken opt hopt
        exact ⟨element', List.mem_cons_of_mem _ hmem, hchar⟩
      cases taken with
      | true =>
          rw [getopt]
          exact ih false
      | false =>
          rcases element_cases element with hoperand | hterminator | ⟨c, cs, hchars, hne⟩
          · rw [getopt_operand hoperand]
            exact ih false
          · rw [getopt_terminator hterminator]
            simp
          · rw [getopt_element hchars hne]
            intro opt hopt
            rcases List.mem_append.mp hopt with hopt | hopt
            · have hchar := scanElement_char_mem 1 (c :: cs) opt hopt
              exact ⟨element, List.mem_cons_self, hchars ▸ List.mem_cons_of_mem _ hchar⟩
            · exact ih _ opt hopt

end CommandLine

end CmakeTemplate.Lib
