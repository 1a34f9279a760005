/-
Decimal numerals in C strings, and the conversions of the C library.

A numeral is white space, a sign and digits.  `readNumeral` scans for one in front of a string the
way `strtol` and `strtoul` do, and `IsNumeral` says what a string is that holds nothing else.  The
conversions differ in what they make of a number that does not fit: `strtol` saturates, `strtoul`
saturates too but takes a minus sign for a negation modulo its range.
-/
import Mathlib.Data.Nat.Digits.Defs

namespace CmakeTemplate.Lib

/-- `isspace` in the C locale. -/
def isSpace (c : UInt8) : Bool := c = 32 ∨ 9 ≤ c ∧ c ≤ 13

def isDigit (c : UInt8) : Bool := 48 ≤ c ∧ c ≤ 57

def digitValue (c : UInt8) : Nat := c.toNat - 48

/-- The digits in front of a string, read behind a number `n`. -/
def readDigits (n : Nat) : List UInt8 → Nat × List UInt8
  | [] => (n, [])
  | c :: cs => if isDigit c then readDigits (10 * n + digitValue c) cs else (n, c :: cs)

/-- Whether there is a minus sign, and what is behind the sign. -/
def readSign : List UInt8 → Bool × List UInt8
  | [] => (false, [])
  | c :: cs => if c = 45 then (true, cs) else if c = 43 then (false, cs) else (false, c :: cs)

structure Numeral where
  /-- Whether there is a minus sign in front. -/
  negative : Bool
  /-- The number that the digits stand for. -/
  magnitude : Nat
  /-- What is behind the digits. -/
  rest : List UInt8

def readNumeral (s : List UInt8) : Option Numeral :=
  let unsigned := readSign (s.dropWhile isSpace)
  match unsigned.2 with
  | [] => none
  | c :: cs =>
    if isDigit c then
      let digits := readDigits 0 (c :: cs)
      some ⟨unsigned.1, digits.1, digits.2⟩
    else none

/-! ### The conversions

A string without a numeral converts to 0 and is left whole.  `errno` is taken to be 0 before
the call.
-/

/-- What a conversion returns, what is left of the string at `endptr`, and `errno`. -/
structure Conversion (β : Type) where
  /-- The number that is returned. -/
  result : β
  /-- What is left of the string, all of it if there was no numeral. -/
  endptr : List UInt8
  /-- `ERANGE` if the number does not fit, and 0 otherwise. -/
  errno : Nat

/-- `ERANGE`. -/
def erange : Nat := 34

/-- The number that a sign and digits stand for. -/
def signed (negative : Bool) (magnitude : Nat) : Int := if negative then - magnitude else magnitude

/-- `strtol` in base 10. -/
def strtol (longMin longMax : Int) (s : List UInt8) : Conversion Int :=
  match readNumeral s with
  | none => ⟨0, s, 0⟩
  | some ⟨negative, magnitude, rest⟩ =>
    if longMax < signed negative magnitude then ⟨longMax, rest, erange⟩
    else if signed negative magnitude < longMin then ⟨longMin, rest, erange⟩
    else ⟨signed negative magnitude, rest, 0⟩

/-- `strtoul` in base 10. -/
def strtoul (ulongMax : Nat) (s : List UInt8) : Conversion Nat :=
  match readNumeral s with
  | none => ⟨0, s, 0⟩
  | some ⟨negative, magnitude, rest⟩ =>
    if ulongMax < magnitude then ⟨ulongMax, rest, erange⟩
    else if negative then ⟨(ulongMax + 1 - magnitude) % (ulongMax + 1), rest, 0⟩
    else ⟨magnitude, rest, 0⟩

theorem strtol_of_none {longMin longMax : Int} {s : List UInt8} (h : readNumeral s = none) :
    strtol longMin longMax s = ⟨0, s, 0⟩ := by
  unfold strtol
  rw [h]

theorem strtol_of_some {longMin longMax : Int} {s rest : List UInt8} {negative : Bool}
    {magnitude : Nat} (h : readNumeral s = some ⟨negative, magnitude, rest⟩) :
    strtol longMin longMax s =
      if longMax < signed negative magnitude then ⟨longMax, rest, erange⟩
      else if signed negative magnitude < longMin then ⟨longMin, rest, erange⟩
      else ⟨signed negative magnitude, rest, 0⟩ := by
  unfold strtol
  rw [h]

theorem strtoul_of_none {ulongMax : Nat} {s : List UInt8} (h : readNumeral s = none) :
    strtoul ulongMax s = ⟨0, s, 0⟩ := by
  unfold strtoul
  rw [h]

theorem strtoul_of_some {ulongMax : Nat} {s rest : List UInt8} {negative : Bool} {magnitude : Nat}
    (h : readNumeral s = some ⟨negative, magnitude, rest⟩) :
    strtoul ulongMax s =
      if ulongMax < magnitude then ⟨ulongMax, rest, erange⟩
      else if negative then ⟨(ulongMax + 1 - magnitude) % (ulongMax + 1), rest, 0⟩
      else ⟨magnitude, rest, 0⟩ := by
  unfold strtoul
  rw [h]

/-! ### What a numeral is

This is a statement about the characters of a string, with no scanner in it.
-/

/-- The sign is there or not. -/
def IsSign (sign : List UInt8) (negative : Bool) : Prop :=
  sign = [45] ∧ negative = true ∨ (sign = [] ∨ sign = [43]) ∧ negative = false

/-- White space, a sign if there is one, and digits up to the end. -/
def IsNumeral (s : List UInt8) (negative : Bool) (magnitude : Nat) : Prop :=
  ∃ spaces sign digits, s = spaces ++ (sign ++ digits) ∧ (∀ c ∈ spaces, isSpace c) ∧
    IsSign sign negative ∧ digits ≠ [] ∧ (∀ c ∈ digits, isDigit c) ∧
    magnitude = Nat.ofDigits 10 (digits.reverse.map digitValue)

/-- A numeral with the mathematical value `v`. -/
def IsDecimal (s : List UInt8) (v : Int) : Prop :=
  ∃ negative magnitude, IsNumeral s negative magnitude ∧ v = signed negative magnitude

/-! ### Reading one

The scanner accepts the numerals and nothing else.
-/

theorem readDigits_all {ds : List UInt8} (hds : ∀ c ∈ ds, isDigit c) (n : Nat) :
    readDigits n ds = (10 ^ ds.length * n + Nat.ofDigits 10 (ds.reverse.map digitValue), []) := by
  induction ds generalizing n with
  | nil => simp [readDigits]
  | cons c cs ih =>
      have hc : isDigit c = true := hds c List.mem_cons_self
      rw [readDigits, if_pos hc, ih fun d hd => hds d (List.mem_cons_of_mem _ hd)]
      rw [List.reverse_cons, List.map_append, Nat.ofDigits_append, List.length_map,
        List.length_reverse, List.map_singleton, Nat.ofDigits_singleton, List.length_cons, pow_succ]
      congr 1
      ring

/-- Digits that are read to the end are all digits. -/
theorem isDigit_of_readDigits {ds : List UInt8} {n m : Nat} (h : readDigits n ds = (m, [])) :
    ∀ c ∈ ds, isDigit c := by
  induction ds generalizing n with
  | nil => exact fun c hc => absurd hc List.not_mem_nil
  | cons d ds ih =>
      unfold readDigits at h
      split at h
      · rename_i hd
        intro c hc
        rcases List.mem_cons.mp hc with rfl | hc
        · exact hd
        · exact ih h c hc
      · cases h

theorem isSpace_of_isDigit {c : UInt8} (h : isDigit c = true) :
    isSpace c = false ∧ c ≠ 45 ∧ c ≠ 43 := by
  simp only [isDigit, isSpace, decide_eq_true_eq, decide_eq_false_iff_not] at h ⊢
  obtain ⟨hlow, -⟩ := h
  have hlow' : 48 ≤ c.toNat := hlow
  refine ⟨?_, ?_, ?_⟩
  · rintro (rfl | ⟨-, hle⟩)
    · exact absurd hlow (by decide)
    · have hle' : c.toNat ≤ 13 := hle
      omega
  · rintro rfl
    exact absurd hlow (by decide)
  · rintro rfl
    exact absurd hlow (by decide)

/-- A sign in front of digits is read, and the digits are what is left. -/
theorem readSign_append {sign ds : List UInt8} {negative : Bool} (hsign : IsSign sign negative)
    (hne : ds ≠ []) (hds : ∀ c ∈ ds, isDigit c) : readSign (sign ++ ds) = (negative, ds) := by
  obtain ⟨d, ds, rfl⟩ := List.exists_cons_of_ne_nil hne
  obtain ⟨-, h45, h43⟩ := isSpace_of_isDigit (hds d List.mem_cons_self)
  rcases hsign with ⟨rfl, rfl⟩ | ⟨rfl | rfl, rfl⟩
  · rfl
  · simp [readSign, h45, h43]
  · rfl

theorem dropWhile_isSpace {spaces sign ds : List UInt8} {negative : Bool}
    (hspaces : ∀ c ∈ spaces, isSpace c) (hsign : IsSign sign negative)
    (hne : ds ≠ []) (hds : ∀ c ∈ ds, isDigit c) :
    (spaces ++ (sign ++ ds)).dropWhile isSpace = sign ++ ds := by
  obtain ⟨d, ds, rfl⟩ := List.exists_cons_of_ne_nil hne
  obtain ⟨hspace, -, -⟩ := isSpace_of_isDigit (hds d List.mem_cons_self)
  rw [List.dropWhile_append_of_pos hspaces]
  rcases hsign with ⟨rfl, -⟩ | ⟨rfl | rfl, -⟩
  · rfl
  · simp [hspace]
  · rfl

theorem readNumeral_of_isNumeral {s : List UInt8} {negative : Bool} {magnitude : Nat}
    (h : IsNumeral s negative magnitude) : readNumeral s = some ⟨negative, magnitude, []⟩ := by
  obtain ⟨spaces, sign, digits, rfl, hspaces, hsign, hne, hdigits, rfl⟩ := h
  obtain ⟨d, ds, rfl⟩ := List.exists_cons_of_ne_nil hne
  have hd : isDigit d = true := hdigits d List.mem_cons_self
  unfold readNumeral
  rw [dropWhile_isSpace hspaces hsign hne hdigits]
  simp only [readSign_append hsign hne hdigits, hd, if_true, readDigits_all hdigits]
  simp

/-- What `readSign` takes away is a sign. -/
theorem readSign_isSign (s : List UInt8) :
    ∃ sign, IsSign sign (readSign s).1 ∧ s = sign ++ (readSign s).2 := by
  cases s with
  | nil => exact ⟨[], .inr ⟨.inl rfl, rfl⟩, rfl⟩
  | cons c cs =>
      by_cases h45 : c = 45
      · refine ⟨[45], .inl ⟨rfl, ?_⟩, ?_⟩ <;> simp [readSign, h45]
      · by_cases h43 : c = 43
        · refine ⟨[43], .inr ⟨.inr rfl, ?_⟩, ?_⟩ <;> simp [readSign, h43]
        · refine ⟨[], .inr ⟨.inl rfl, ?_⟩, ?_⟩ <;> simp [readSign, h45, h43]

/-- A string is a numeral just in case one is read and nothing is left of it. -/
theorem isNumeral_iff {s : List UInt8} {negative : Bool} {magnitude : Nat} :
    IsNumeral s negative magnitude ↔ readNumeral s = some ⟨negative, magnitude, []⟩ := by
  refine ⟨readNumeral_of_isNumeral, fun h => ?_⟩
  obtain ⟨sign, hsign, hsplit⟩ := readSign_isSign (s.dropWhile isSpace)
  unfold readNumeral at h
  cases hds : (readSign (s.dropWhile isSpace)).2 with
  | nil =>
      simp only [hds] at h
      cases h
  | cons c cs =>
      simp only [hds] at h
      split at h
      · simp only [Option.some.injEq, Numeral.mk.injEq] at h
        obtain ⟨hnegative, hmagnitude, hrest⟩ := h
        have hread : readDigits 0 (c :: cs) = (magnitude, []) := Prod.ext hmagnitude hrest
        have hdigits := isDigit_of_readDigits hread
        rw [readDigits_all hdigits, Prod.mk.injEq, Nat.mul_zero, Nat.zero_add] at hread
        refine ⟨s.takeWhile isSpace, sign, c :: cs, ?_, ?_, hnegative ▸ hsign, by simp, hdigits,
          hread.1.symm⟩
        · rw [← hds, ← hsplit, List.takeWhile_append_dropWhile]
        · intro d hd
          exact List.all_eq_true.mp List.all_takeWhile d hd
      · cases h

/-! ### A byte behind a numeral

White space behind a numeral is left unread, so a conversion that looks at its result alone
does not notice it.
-/

section Behind

variable {s : List UInt8} {d : UInt8}

theorem readDigits_concat (hdigit : isDigit d = false) (n : Nat) :
    readDigits n (s ++ [d]) = ((readDigits n s).1, (readDigits n s).2 ++ [d]) := by
  induction s generalizing n with
  | nil =>
      show (if isDigit d then _ else _) = _
      rw [hdigit]
      rfl
  | cons e s ih =>
      rw [List.cons_append, readDigits, readDigits]
      split
      · exact ih _
      · rfl

theorem readSign_concat (hs : s ≠ []) : readSign (s ++ [d]) = ((readSign s).1, (readSign s).2 ++ [d]) := by
  obtain ⟨e, s, rfl⟩ := List.exists_cons_of_ne_nil hs
  rw [List.cons_append, readSign, readSign]
  split
  · rfl
  · split
    · rfl
    · rfl

/-- White space behind a numeral changes nothing about it. -/
theorem readNumeral_concat (hspace : isSpace d = true) (hdigit : isDigit d = false) :
    readNumeral (s ++ [d])
      = (readNumeral s).map fun numeral => { numeral with rest := numeral.rest ++ [d] } := by
  unfold readNumeral
  rw [List.dropWhile_append]
  cases hdrop : s.dropWhile isSpace with
  | nil =>
      rw [if_pos List.isEmpty_nil, List.dropWhile_cons_of_pos hspace]
      rfl
  | cons e t =>
      rw [if_neg (by simp), readSign_concat (List.cons_ne_nil e t)]
      cases hsign : (readSign (e :: t)).2 with
      | nil => simp [hsign, hdigit]
      | cons f u =>
          cases hf : isDigit f with
          | true =>
              have hread := readDigits_concat (s := f :: u) hdigit 0
              simp only [hsign, List.cons_append, hf, if_true, Option.map_some] at hread ⊢
              rw [hread]
          | false => simp [hsign, hf]

theorem strtol_concat (lo hi : Int) (hspace : isSpace d = true) (hdigit : isDigit d = false) :
    (strtol lo hi (s ++ [d])).result = (strtol lo hi s).result := by
  have hconcat := readNumeral_concat (s := s) hspace hdigit
  cases hs : readNumeral s with
  | none =>
      rw [hs] at hconcat
      rw [strtol_of_none hs, strtol_of_none hconcat]
  | some numeral =>
      rw [hs] at hconcat
      obtain ⟨negative, magnitude, rest⟩ := numeral
      rw [strtol_of_some hs, strtol_of_some hconcat]
      split_ifs
      · rfl
      · rfl
      · rfl

end Behind

end CmakeTemplate.Lib
