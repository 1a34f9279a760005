/-
Printing into a buffer.

`snprintf` writes no more than the size it is given, with the terminating zero, and returns
the length of the whole text, whether it was written or not.  The text is what the format
makes of its arguments, and is a list of bytes here: `%s` prints a buffer up to its first
zero, and `%u` prints the decimal digits of a number.

Two things follow that callers get wrong.  A text that is cut off is cut off in front of the
last byte of the size, so the buffer always holds a string, except for the size 0, where
nothing is written at all.  And the value returned may be larger than the size: a program that
moves its end of the text on by it may stand outside the buffer afterwards.  Neither is an
error of `snprintf`, so both are part of what it does.
-/
import CmakeTemplate.Lib.Memory
import CmakeTemplate.Lib.Numeral
import Mathlib.Data.Nat.Digits.Lemmas

namespace CmakeTemplate.Lib

/-- How many bytes `snprintf` writes. -/
def written (size : Nat) (text : List UInt8) : Nat :=
  if size = 0 then 0 else min text.length (size - 1) + 1

/-- `snprintf` of a text to the address `off`: the memory afterwards and what is returned. -/
def snprintf (mem : Nat → UInt8) (off size : Nat) (text : List UInt8) : (Nat → UInt8) × Nat :=
  (write mem off (written size text) fun j => (text.take (size - 1)).getD j 0, text.length)

/-- `%s`: a buffer up to its first zero. -/
def printString (buffer : List UInt8) : List UInt8 := buffer.takeWhile (· ≠ 0)

/-- `%u`. -/
def printUnsigned (n : Nat) : List UInt8 :=
  if n = 0 then [48] else (Nat.digits 10 n).reverse.map fun d => 48 + UInt8.ofNat d

variable {mem : Nat → UInt8} {off size : Nat} {text : List UInt8}

/-- What is printed of a text that was cut off. -/
theorem printString_take (k : Nat) (text : List UInt8) :
    printString (text.take k) = (printString text).take k :=
  List.take_takeWhile.symm

theorem written_le : written size text ≤ size := by
  unfold written
  split <;> omega

/-- A text that fits is written with its zero. -/
theorem written_of_lt (h : text.length < size) : written size text = text.length + 1 := by
  unfold written
  rw [if_neg (by omega)]
  omega

theorem snprintf_fst : (snprintf mem off size text).1
    = write mem off (written size text) fun j => (text.take (size - 1)).getD j 0 := by
  unfold snprintf
  rfl

/-- Nothing is written outside the size. -/
theorem snprintf_changed : ChangedWithin off size mem (snprintf mem off size text).1 := by
  intro a ha
  have hle : written size text ≤ size := written_le
  rw [snprintf_fst]
  apply write_changed
  omega

/-- Printing with the size 0 writes nothing at all. -/
theorem snprintf_zero : (snprintf mem off 0 text).1 = mem := by
  funext a
  apply snprintf_changed
  omega

/-- The last byte written is a zero. -/
theorem snprintf_terminates (h : 0 < size) :
    (snprintf mem off size text).1 (off + (written size text - 1)) = 0 := by
  have hwritten : written size text = min text.length (size - 1) + 1 := by
    unfold written
    rw [if_neg (Nat.ne_of_gt h)]
  have hlen : (text.take (size - 1)).length ≤ written size text - 1 := by
    rw [List.length_take]
    omega
  rw [snprintf_fst, write_at (by omega), List.getD_eq_getElem?_getD,
    List.getElem?_eq_none hlen]
  rfl

theorem read_snprintf (h : text.length < size) :
    read (snprintf mem off size text).1 off (text.length + 1) = text ++ [0] := by
  have hwritten := written_of_lt h
  have htake : text.take (size - 1) = text := List.take_of_length_le (by omega)
  rw [snprintf_fst, hwritten, htake, read_write_at (Nat.le_refl _)]
  apply List.ext_getElem
  · simp
  · intro j hj _
    rw [length_read] at hj
    by_cases hlt : j < text.length
    · simp [read, hlt, List.getElem_append_left]
    · have heq : j = text.length := by omega
      subst heq
      simp [read]

/-- Only what fits makes a difference to what is written. -/
theorem snprintf_take (h : 0 < size) :
    (snprintf mem off size text).1 = (snprintf mem off size (text.take (size - 1))).1 := by
  have hwritten : written size (text.take (size - 1)) = written size text := by
    unfold written
    rw [List.length_take]
    split <;> omega
  rw [snprintf_fst, snprintf_fst, hwritten, List.take_take, Nat.min_self]

/-! ### Decimal digits

What `%u` prints is read back as the number it was made from, and has no more digits than the
bound on the number allows.
-/

theorem digit_toNat {d : Nat} (h : d < 10) : (48 + UInt8.ofNat d).toNat = 48 + d := by
  rw [UInt8.toNat_add, UInt8.toNat_ofNat']
  have hsmall : d % 2 ^ 8 = d := Nat.mod_eq_of_lt (by omega)
  rw [hsmall]
  exact Nat.mod_eq_of_lt (by simp; omega)

theorem isDigit_digit {d : Nat} (h : d < 10) : isDigit (48 + UInt8.ofNat d) = true := by
  have hvalue := digit_toNat h
  simp only [isDigit, decide_eq_true_eq, UInt8.le_iff_toNat_le]
  rw [hvalue]
  constructor
  · exact Nat.le_add_right 48 d
  · show 48 + d ≤ 57
    omega

theorem digitValue_digit {d : Nat} (h : d < 10) : digitValue (48 + UInt8.ofNat d) = d := by
  unfold digitValue
  rw [digit_toNat h]
  omega

theorem isDigit_printUnsigned (n : Nat) : ∀ c ∈ printUnsigned n, isDigit c = true := by
  intro c hc
  unfold printUnsigned at hc
  split at hc
  · rw [List.mem_singleton.mp hc]
    decide
  · obtain ⟨d, hd, rfl⟩ := List.mem_map.mp hc
    exact isDigit_digit (Nat.digits_lt_base (by omega) (List.mem_reverse.mp hd))

theorem printUnsigned_ne_nil (n : Nat) : printUnsigned n ≠ [] := by
  unfold printUnsigned
  split
  · exact List.cons_ne_nil _ _
  · rename_i hn
    rw [Ne, List.map_eq_nil_iff, List.reverse_eq_nil_iff]
    exact Nat.digits_ne_nil_iff_ne_zero.mpr hn

/-- The digits have the value they were made from. -/
theorem ofDigits_printUnsigned (n : Nat) :
    Nat.ofDigits 10 ((printUnsigned n).reverse.map digitValue) = n := by
  unfold printUnsigned
  split
  · rename_i hn
    rw [hn]
    rfl
  · rw [← List.map_reverse, List.reverse_reverse, List.map_map]
    have hvalues : (Nat.digits 10 n).map (digitValue ∘ fun d => 48 + UInt8.ofNat d)
        = Nat.digits 10 n := by
      refine (List.map_congr_left fun d hd => ?_).trans (List.map_id _)
      exact digitValue_digit (Nat.digits_lt_base (by omega) hd)
    rw [hvalues, Nat.ofDigits_digits]

/-- What `%u` prints is a numeral. -/
theorem isNumeral_printUnsigned (n : Nat) : IsNumeral (printUnsigned n) false n := by
  refine ⟨[], [], printUnsigned n, rfl, ?_, .inr ⟨.inl rfl, rfl⟩, printUnsigned_ne_nil n,
    isDigit_printUnsigned n, (ofDigits_printUnsigned n).symm⟩
  intro c hc
  exact absurd hc List.not_mem_nil

/-- A number below `10 ^ k` has no more than `k` digits. -/
theorem length_printUnsigned_le {n k : Nat} (hk : 0 < k) (h : n < 10 ^ k) :
    (printUnsigned n).length ≤ k := by
  unfold printUnsigned
  split
  · exact hk
  · rw [List.length_map, List.length_reverse]
    exact (Nat.digits_length_le_iff (by omega) n).mpr h

theorem printUnsigned_noNul (n : Nat) : 0 ∉ printUnsigned n := by
  intro hmem
  have hdigit := isDigit_printUnsigned n 0 hmem
  exact absurd hdigit (by decide)

end CmakeTemplate.Lib
