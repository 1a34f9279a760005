/-
Printing a number and reading it back.

`uint32_to_str` prints a number with `%u` into a buffer that it allocates, and `str_to_uint32`
and `str_to_uint16` read such a string with `strtoul`.  A number of 32 bits has ten digits at
most, and the buffer has room for them and for the zero behind them, so nothing is cut off and
nothing is written outside.

The digits are a numeral with the value of the number, without a sign, so they are read as
that value by either conversion, if it is in its range: by `str_to_uint32` always, and by
`str_to_uint16` just in case the number has 16 bits.  The round trip is stated for every
number, with what the memory around the buffer held before.
-/
import CmakeTemplate.Proofs.Math.NumberConverter

namespace CmakeTemplate

open Lib

/-- `UINT16_MAX`. -/
def uint16Max : Nat := 65535

/-- The string of a number. -/
def decimalString (n : BitVec 32) : CString := ⟨printUnsigned n.toNat, printUnsigned_noNul n.toNat⟩

theorem readNumeral_decimalString (n : BitVec 32) :
    readNumeral (decimalString n).chars = some ⟨false, n.toNat, []⟩ :=
  isNumeral_iff.mp (isNumeral_printUnsigned n.toNat)

/-- Ten digits are enough, so the buffer is. -/
theorem decimalString_fits (n : BitVec 32) : (decimalString n).chars.length < uint32Len := by
  have hn : n.toNat < 10 ^ 10 := by
    have hlt := n.isLt
    omega
  have hle : (printUnsigned n.toNat).length ≤ 10 := length_printUnsigned_le (by omega) hn
  exact Nat.lt_succ_of_le hle

/-- The buffer afterwards: a string in front of its zero, and nothing changed behind the buffer. -/
structure HoldsString (heap buffer : Nat → UInt8) (size : Nat) (s : CString) : Prop where
  /-- The string is shorter than the buffer. -/
  fits : s.chars.length < size
  /-- It is there, with its zero. -/
  terminated : read buffer 0 (s.chars.length + 1) = s.chars ++ [0]
  /-- Nothing else has changed. -/
  inside : ChangedWithin 0 size heap buffer

theorem uint32ToStr_holds (heap : Nat → UInt8) (n : BitVec 32) (old : Option (Nat → UInt8)) :
    ∃ buffer, uint32ToStr heap true n (some old) = (.success, some (some buffer)) ∧
      HoldsString heap buffer uint32Len (decimalString n) := by
  have hfits := decimalString_fits n
  refine ⟨(snprintf (write heap 0 uint32Len fun _ => 0) 0 uint32Len (printUnsigned n.toNat)).1, ?_,
    hfits, read_snprintf hfits, ?_⟩
  · unfold uint32ToStr
    simp only [Bool.not_true, Bool.false_eq_true, if_false]
    rw [if_neg (by omega)]
  · intro a ha
    rw [snprintf_changed a ha]
    exact write_changed a ha

/-- `str_to_uint32` and `str_to_uint16` accept the string for what it stands for. -/
theorem strToUint_decimalString {bits : Nat} (hbits : bits < 64) (n : BitVec 32)
    (old v : BitVec bits) :
    strToUint bits (some (decimalString n)) (some old) = (.success, some v) ↔
      v.toNat = n.toNat := by
  have hread := readNumeral_decimalString n
  rw [(acceptsNaturals_of_positive hbits old hread).accepts v, isDecimal_of_read hread]
  exact Int.natCast_inj

theorem strToUint16_decimalString (n : BitVec 32) (old : BitVec 16) :
    (strToUint16 (some (decimalString n)) (some old)).1 = .success ↔ n.toNat ≤ uint16Max := by
  have hread := readNumeral_decimalString n
  unfold strToUint16 uint16Max
  constructor
  · intro hsuccess
    by_contra hlarge
    have hfailure : strToUint 16 (some (decimalString n)) (some old) = (.failure, some old) := by
      refine (acceptsNaturals_of_positive (by omega) old hread).rejects.mpr fun v hv => ?_
      have hvalue : (v.toNat : Int) = n.toNat := (isDecimal_of_read hread _).mp hv
      have hlt := v.isLt
      omega
    rw [hfailure] at hsuccess
    cases hsuccess
  · intro hle
    have hv : (BitVec.ofNat 16 n.toNat).toNat = n.toNat := by
      rw [BitVec.toNat_ofNat, Nat.mod_eq_of_lt (by omega)]
    rw [(strToUint_decimalString (by omega) n old (BitVec.ofNat 16 n.toNat)).mpr hv]

/-- Every number is printed without loss, is read back by `str_to_uint32`, and by `str_to_uint16`
just in case it has 16 bits. -/
theorem uint32ToStr_roundTrip (heap : Nat → UInt8) (n : BitVec 32) (old : Option (Nat → UInt8))
    (old₃₂ : BitVec 32) (old₁₆ : BitVec 16) :
    ∃ buffer s, uint32ToStr heap true n (some old) = (.success, some (some buffer)) ∧
      HoldsString heap buffer uint32Len s ∧
      (∀ c ∈ s.chars, isDigit c) ∧ IsDecimal s.chars n.toNat ∧
      strToUint32 (some s) (some old₃₂) = (.success, some n) ∧
      ((strToUint16 (some s) (some old₁₆)).1 = .success ↔ n.toNat ≤ uint16Max) ∧
      ∀ v : BitVec 16, strToUint16 (some s) (some old₁₆) = (.success, some v) ↔
        v.toNat = n.toNat := by
  obtain ⟨buffer, hcall, hholds⟩ := uint32ToStr_holds heap n old
  refine ⟨buffer, decimalString n, hcall, hholds, isDigit_printUnsigned n.toNat, ?_, ?_,
    strToUint16_decimalString n old₁₆, strToUint_decimalString (by omega) n old₁₆⟩
  · exact (isDecimal_of_read (readNumeral_decimalString n) _).mpr rfl
  · exact (strToUint_decimalString (by omega) n old₃₂ n).mpr rfl

end CmakeTemplate
