/-
Which strings the conversions accept.

A string is accepted as it should be if it is a decimal numeral whose value is one of the
type, with white space and a sign in front or not, and nothing behind; the result is that
value.  Every other string is to be refused, and the output left alone.

`str_to_int32` does just that: its checks leave nothing else through, and what they stop is no
such numeral.  The unsigned conversions accept some strings that are none, as `strtoul` takes
a minus sign for a negation modulo `2 ^ 64`.  A number just below a multiple of that, with a
minus sign, is negated into the range.  Every string but those is accepted or refused rightly,
so the condition is exact.
-/
import CmakeTemplate.NumberConverter

namespace CmakeTemplate

open Lib

theorem isDecimal_iff {s : List UInt8} {v : Int} :
    IsDecimal s v ↔ ∃ negative magnitude, readNumeral s = some ⟨negative, magnitude, []⟩ ∧
      v = signed negative magnitude := by
  unfold IsDecimal
  simp only [isNumeral_iff]

/-- The value of a numeral that has been read. -/
theorem isDecimal_of_read {s : List UInt8} {negative : Bool} {magnitude : Nat}
    (h : readNumeral s = some ⟨negative, magnitude, []⟩) (v : Int) :
    IsDecimal s v ↔ v = signed negative magnitude := by
  rw [isDecimal_iff, h]
  constructor
  · rintro ⟨_, _, heq, rfl⟩
    simp only [Option.some.injEq, Numeral.mk.injEq, and_true] at heq
    rw [heq.1, heq.2]
  · intro hv
    exact ⟨negative, magnitude, rfl, hv⟩

/-- A string has one value. -/
theorem isDecimal_unique {s : List UInt8} {v w : Int} (hv : IsDecimal s v) (hw : IsDecimal s w) :
    v = w := by
  obtain ⟨negative, magnitude, hread, rfl⟩ := isDecimal_iff.mp hv
  exact ((isDecimal_of_read hread w).mp hw).symm

/-- There is no numeral in the empty string. -/
theorem ne_nil_of_readNumeral {s : List UInt8} {numeral : Numeral}
    (h : readNumeral s = some numeral) : s ≠ [] := by
  rintro rfl
  cases h

/-! ### `str_to_int32`

The checks of the source in their order, against the value of the numeral.
-/

theorem strToInt32_success {input : CString} {negative : Bool} {magnitude : Nat} (old : Int32)
    (h : readNumeral input.chars = some ⟨negative, magnitude, []⟩)
    (hmin : int32Min ≤ signed negative magnitude) (hmax : signed negative magnitude ≤ int32Max) :
    strToInt32 (some input) (some old)
      = (.success, some (Int32.ofInt (signed negative magnitude))) := by
  have hlow : ¬ signed negative magnitude < longMin := by
    unfold longMin
    unfold int32Min at hmin
    omega
  have hhigh : ¬ longMax < signed negative magnitude := by
    unfold longMax
    unfold int32Max at hmax
    omega
  have hne : ¬ [] = input.chars := fun hc => ne_nil_of_readNumeral h hc.symm
  simp only [strToInt32, strtol, h, if_neg hlow, if_neg hhigh]
  rw [if_neg (by simp), if_neg (by simp [erange]), if_neg (by omega), if_neg (by omega),
    if_neg hne, if_neg (by simp)]

theorem strToInt32_failure {input : CString} (old : Int32)
    (h : ∀ negative magnitude, readNumeral input.chars = some ⟨negative, magnitude, []⟩ →
      ¬ (int32Min ≤ signed negative magnitude ∧ signed negative magnitude ≤ int32Max)) :
    strToInt32 (some input) (some old) = (.failure, some old) := by
  unfold strToInt32
  cases hread : readNumeral input.chars with
  | none =>
      dsimp only
      rw [strtol_of_none hread]
      simp [longMax, int32Max, int32Min]
  | some numeral =>
      obtain ⟨negative, magnitude, rest⟩ := numeral
      dsimp only
      rw [strtol_of_some hread]
      by_cases hhigh : longMax < signed negative magnitude
      · rw [if_pos hhigh]
        simp [erange, longMax]
      · rw [if_neg hhigh]
        by_cases hlow : signed negative magnitude < longMin
        · -- the least `long` is below the range as well
          rw [if_pos hlow]
          simp [longMin, longMax, int32Max, int32Min]
        · rw [if_neg hlow]
          by_cases hrest : rest = []
          · subst hrest
            have hrange := h negative magnitude hread
            split_ifs with h₁ h₂ h₃ h₄ h₅ h₆
            · rfl
            · rfl
            · rfl
            · rfl
            · rfl
            · rfl
            · exact absurd ⟨not_lt.mp h₄, not_lt.mp h₃⟩ hrange
          · simp [hrest]

theorem int32_range (v : Int32) : int32Min ≤ v.toInt ∧ v.toInt ≤ int32Max := by
  have hle := v.le_toInt
  have hlt := v.toInt_lt
  unfold int32Min int32Max
  omega

theorem toInt_ofInt_of_range {v : Int} (hmin : int32Min ≤ v) (hmax : v ≤ int32Max) :
    (Int32.ofInt v).toInt = v := by
  unfold int32Min at hmin
  unfold int32Max at hmax
  exact Int32.toInt_ofInt_of_le (by omega) (by omega)

/-- The string has a value that an `int32_t` can hold and is converted to it, or it has none. -/
theorem strToInt32_cases (input : CString) (old : Int32) :
    (∃ v : Int32, strToInt32 (some input) (some old) = (.success, some v) ∧
        IsDecimal input.chars v.toInt) ∨
      strToInt32 (some input) (some old) = (.failure, some old) ∧
        ∀ v : Int32, ¬ IsDecimal input.chars v.toInt := by
  by_cases h : ∃ negative magnitude,
      readNumeral input.chars = some ⟨negative, magnitude, []⟩ ∧
        int32Min ≤ signed negative magnitude ∧ signed negative magnitude ≤ int32Max
  · obtain ⟨negative, magnitude, hread, hmin, hmax⟩ := h
    refine .inl ⟨_, strToInt32_success old hread hmin hmax, ?_⟩
    rw [isDecimal_of_read hread, toInt_ofInt_of_range hmin hmax]
  · have hfailure := strToInt32_failure old fun negative magnitude hread hrange =>
      h ⟨negative, magnitude, hread, hrange⟩
    refine .inr ⟨hfailure, fun v hv => ?_⟩
    obtain ⟨negative, magnitude, hread, hvalue⟩ := isDecimal_iff.mp hv
    have hrange := int32_range v
    rw [hvalue] at hrange
    exact h ⟨negative, magnitude, hread, hrange⟩

/-- `str_to_int32` accepts the decimal numerals whose value is an `int32_t`, with that value, and
fails on every other string without touching its output. -/
theorem strToInt32_iff (input : CString) (old : Int32) :
    (∀ v : Int32, strToInt32 (some input) (some old) = (.success, some v) ↔
        IsDecimal input.chars v.toInt) ∧
      (strToInt32 (some input) (some old) = (.failure, some old) ↔
        ∀ v : Int32, ¬ IsDecimal input.chars v.toInt) := by
  rcases strToInt32_cases input old with ⟨w, hcall, hw⟩ | ⟨hcall, hno⟩
  · rw [hcall]
    constructor
    · intro v
      rw [Prod.mk.injEq, Option.some.injEq]
      constructor
      · rintro ⟨-, rfl⟩
        exact hw
      · intro hv
        exact ⟨rfl, Int32.toInt_inj.mp (isDecimal_unique hw hv)⟩
    · refine iff_of_false (fun hc => ?_) fun hno => hno w hw
      cases hc
  · rw [hcall]
    refine ⟨fun v => iff_of_false (fun hc => ?_) (hno v), iff_of_true rfl hno⟩
    cases hc

/-! ### The unsigned conversions

With a minus sign, zero is the only natural number.
-/

/-- What `strtoul` makes of a numeral that is not too long for it. -/
def modulo (negative : Bool) (magnitude : Nat) : Nat :=
  if negative then (ulongMax + 1 - magnitude) % (ulongMax + 1) else magnitude

theorem strtoul_of_le {s rest : List UInt8} {negative : Bool} {magnitude : Nat}
    (h : readNumeral s = some ⟨negative, magnitude, rest⟩) (hle : magnitude ≤ ulongMax) :
    strtoul ulongMax s = ⟨modulo negative magnitude, rest, 0⟩ := by
  rw [strtoul_of_some h, if_neg (Nat.not_lt.mpr hle), modulo]
  cases negative <;> rfl

theorem lt_two_pow_iff {bits r : Nat} : ¬ 2 ^ bits - 1 < r ↔ r < 2 ^ bits := by
  have hpos : 0 < 2 ^ bits := Nat.two_pow_pos bits
  omega

theorem strToUint_success {bits : Nat} {input : CString} {negative : Bool} {magnitude : Nat}
    (old : BitVec bits) (h : readNumeral input.chars = some ⟨negative, magnitude, []⟩)
    (hle : magnitude ≤ ulongMax) (hlt : modulo negative magnitude < 2 ^ bits) :
    strToUint bits (some input) (some old)
      = (.success, some (BitVec.ofNat bits (modulo negative magnitude))) := by
  have hne : ¬ [] = input.chars := fun hc => ne_nil_of_readNumeral h hc.symm
  simp only [strToUint, strtoul_of_le h hle]
  rw [if_neg (by simp), if_neg (by simp [erange]), if_neg (lt_two_pow_iff.mpr hlt), if_neg hne,
    if_neg (by simp)]

theorem strToUint_failure {bits : Nat} {input : CString} (old : BitVec bits)
    (h : ∀ negative magnitude, readNumeral input.chars = some ⟨negative, magnitude, []⟩ →
      magnitude ≤ ulongMax → ¬ modulo negative magnitude < 2 ^ bits) :
    strToUint bits (some input) (some old) = (.failure, some old) := by
  unfold strToUint
  cases hread : readNumeral input.chars with
  | none =>
      dsimp only
      rw [strtoul_of_none hread]
      simp
  | some numeral =>
      obtain ⟨negative, magnitude, rest⟩ := numeral
      dsimp only
      by_cases hle : magnitude ≤ ulongMax
      · rw [strtoul_of_le hread hle]
        by_cases hrest : rest = []
        · subst hrest
          have hbig := h negative magnitude hread hle
          rw [← lt_two_pow_iff, not_not] at hbig
          simp [hbig]
        · simp [hrest]
      · rw [strtoul_of_some hread, if_pos (Nat.lt_of_not_le hle)]
        simp [erange]

/-- A minus sign, and a number that its negation modulo `2 ^ 64` brings into the range. -/
def WrapsIntoRange (bits : Nat) (s : List UInt8) : Prop :=
  ∃ magnitude, IsNumeral s true magnitude ∧ ulongMax + 1 - 2 ^ bits < magnitude ∧
    magnitude ≤ ulongMax

/-- The string is accepted if and only if it is a decimal numeral whose value has `bits` bits, with
that value; otherwise the call fails without touching its output. -/
structure AcceptsNaturals {bits : Nat}
    (convert : Option CString → Option (BitVec bits) → ExitCode × Option (BitVec bits))
    (input : CString) (old : BitVec bits) : Prop where
  /-- A string is accepted for its value. -/
  accepts : ∀ v : BitVec bits, convert (some input) (some old) = (.success, some v) ↔
    IsDecimal input.chars v.toNat
  /-- Every other string is refused. -/
  rejects : convert (some input) (some old) = (.failure, some old) ↔
    ∀ v : BitVec bits, ¬ IsDecimal input.chars v.toNat

/-- A call that fails, on a string that should not be accepted. -/
theorem AcceptsNaturals.of_failure {bits : Nat} {input : CString} {old : BitVec bits}
    (h : strToUint bits (some input) (some old) = (.failure, some old))
    (hno : ∀ v : BitVec bits, ¬ IsDecimal input.chars v.toNat) :
    AcceptsNaturals (strToUint bits) input old := by
  refine ⟨fun v => iff_of_false (fun hc => ?_) (hno v), iff_of_true h hno⟩
  rw [h] at hc
  cases hc

/-- A call that succeeds with the value of its string. -/
theorem AcceptsNaturals.of_success {bits n : Nat} {input : CString} {old : BitVec bits}
    (h : strToUint bits (some input) (some old) = (.success, some (BitVec.ofNat bits n)))
    (hlt : n < 2 ^ bits) (hvalue : ∀ v : Int, IsDecimal input.chars v ↔ v = n) :
    AcceptsNaturals (strToUint bits) input old := by
  have hn : (BitVec.ofNat bits n).toNat = n := by
    rw [BitVec.toNat_ofNat, Nat.mod_eq_of_lt hlt]
  have hdecimal : ∀ v : BitVec bits, IsDecimal input.chars v.toNat ↔ v = BitVec.ofNat bits n := by
    intro v
    rw [hvalue, Int.natCast_inj, ← BitVec.toNat_inj, hn]
  constructor
  · intro v
    rw [h, hdecimal v, Prod.mk.injEq, Option.some.injEq]
    exact ⟨fun hv => hv.2.symm, fun hv => ⟨rfl, hv.symm⟩⟩
  · rw [h]
    refine iff_of_false (fun hc => ?_) fun hno => hno _ ((hdecimal _).mpr rfl)
    cases hc

/-- What is no numeral at all is rejected, as it should be. -/
theorem AcceptsNaturals.of_no_numeral {bits : Nat} {input : CString} (old : BitVec bits)
    (h : ∀ negative magnitude, readNumeral input.chars ≠ some ⟨negative, magnitude, []⟩) :
    AcceptsNaturals (strToUint bits) input old := by
  apply AcceptsNaturals.of_failure
  · exact strToUint_failure old fun negative magnitude hread _ =>
      absurd hread (h negative magnitude)
  · intro v hv
    obtain ⟨negative, magnitude, hread, -⟩ := isDecimal_iff.mp hv
    exact h negative magnitude hread

/-- A numeral without a minus sign is converted as it should be. -/
theorem acceptsNaturals_of_positive {bits magnitude : Nat} (hbits : bits < 64) {input : CString}
    (old : BitVec bits) (h : readNumeral input.chars = some ⟨false, magnitude, []⟩) :
    AcceptsNaturals (strToUint bits) input old := by
  have hpow : 2 ^ bits < 2 ^ 64 := Nat.pow_lt_pow_right (by omega) hbits
  by_cases hlt : magnitude < 2 ^ bits
  · have hle : magnitude ≤ ulongMax := by
      unfold ulongMax
      omega
    exact .of_success (strToUint_success old h hle hlt) hlt (isDecimal_of_read h)
  · apply AcceptsNaturals.of_failure
    · apply strToUint_failure
      intro negative magnitude' hread _
      rw [h, Option.some.injEq, Numeral.mk.injEq] at hread
      obtain ⟨rfl, rfl, -⟩ := hread
      exact hlt
    · intro v hv
      have hvalue : (v.toNat : Int) = magnitude := (isDecimal_of_read h _).mp hv
      have hv' := v.isLt
      omega

/-- A negative number is no natural. -/
theorem not_isDecimal_of_negative {bits magnitude : Nat} {s : List UInt8} (hpos : 0 < magnitude)
    (h : readNumeral s = some ⟨true, magnitude, []⟩) (v : BitVec bits) :
    ¬ IsDecimal s v.toNat := by
  intro hv
  have hvalue : (v.toNat : Int) = - magnitude := (isDecimal_of_read h _).mp hv
  omega

/-- The negation of a number brings it into the range, or not. -/
theorem modulo_lt_iff {bits magnitude : Nat} (hbits : bits < 64) (hpos : 0 < magnitude)
    (hle : magnitude ≤ ulongMax) :
    modulo true magnitude < 2 ^ bits ↔ ulongMax + 1 - 2 ^ bits < magnitude := by
  have hpow : 2 ^ bits < 2 ^ 64 := Nat.pow_lt_pow_right (by omega) hbits
  have hmodulo : modulo true magnitude = ulongMax + 1 - magnitude := by
    rw [modulo, if_pos rfl, Nat.mod_eq_of_lt (by omega)]
  rw [hmodulo]
  unfold ulongMax at *
  omega

theorem acceptsNaturals_of_negative {bits magnitude : Nat} (hbits : bits < 64) {input : CString}
    (old : BitVec bits) (hpos : 0 < magnitude)
    (h : readNumeral input.chars = some ⟨true, magnitude, []⟩) :
    AcceptsNaturals (strToUint bits) input old ↔
      ¬ (ulongMax + 1 - 2 ^ bits < magnitude ∧ magnitude ≤ ulongMax) := by
  constructor
  · rintro haccepts ⟨hlow, hle⟩
    have hlt := (modulo_lt_iff hbits hpos hle).mpr hlow
    have hvalue := (haccepts.accepts _).mp (strToUint_success old h hle hlt)
    exact not_isDecimal_of_negative hpos h _ hvalue
  · intro hno
    apply AcceptsNaturals.of_failure
    · apply strToUint_failure
      intro negative magnitude' hread hle hlt
      rw [h, Option.some.injEq, Numeral.mk.injEq] at hread
      obtain ⟨rfl, rfl, -⟩ := hread
      exact hno ⟨(modulo_lt_iff hbits hpos hle).mp hlt, hle⟩
    · exact not_isDecimal_of_negative hpos h

theorem wrapsIntoRange_iff {bits : Nat} {s : List UInt8} {negative : Bool} {magnitude : Nat}
    (h : readNumeral s = some ⟨negative, magnitude, []⟩) :
    WrapsIntoRange bits s ↔
      negative = true ∧ ulongMax + 1 - 2 ^ bits < magnitude ∧ magnitude ≤ ulongMax := by
  unfold WrapsIntoRange
  simp only [isNumeral_iff, h, Option.some.injEq, Numeral.mk.injEq, and_true]
  constructor
  · rintro ⟨_, ⟨hnegative, rfl⟩, hrange⟩
    exact ⟨hnegative, hrange⟩
  · rintro ⟨hnegative, hrange⟩
    exact ⟨magnitude, ⟨hnegative, rfl⟩, hrange⟩

theorem strToUint_iff {bits : Nat} (hbits : bits < 64) (input : CString) (old : BitVec bits) :
    AcceptsNaturals (strToUint bits) input old ↔ ¬ WrapsIntoRange bits input.chars := by
  by_cases h : ∃ negative magnitude, readNumeral input.chars = some ⟨negative, magnitude, []⟩
  · obtain ⟨negative, magnitude, hread⟩ := h
    rw [wrapsIntoRange_iff hread]
    cases negative with
    | false =>
        exact iff_of_true (acceptsNaturals_of_positive hbits old hread) fun hc => by cases hc.1
    | true =>
        rcases Nat.eq_zero_or_pos magnitude with rfl | hpos
        · -- a minus sign makes no difference to zero
          have hpow : 2 ^ bits < 2 ^ 64 := Nat.pow_lt_pow_right (by omega) hbits
          have hzero : modulo true 0 = 0 := by
            rw [modulo, if_pos rfl, Nat.sub_zero, Nat.mod_self]
          refine iff_of_true ?_ fun hc => ?_
          · have hlt : modulo true 0 < 2 ^ bits := hzero ▸ Nat.two_pow_pos bits
            refine .of_success (strToUint_success old hread (Nat.zero_le _) hlt) hlt fun v => ?_
            rw [isDecimal_of_read hread, hzero]
            rfl
          · exact absurd hc.2.1 (Nat.not_lt_zero _)
        · rw [acceptsNaturals_of_negative hbits old hpos hread, eq_self, true_and]
  · have hnone : ∀ negative magnitude,
        readNumeral input.chars ≠ some ⟨negative, magnitude, []⟩ :=
      fun negative magnitude hread => h ⟨negative, magnitude, hread⟩
    refine iff_of_true (AcceptsNaturals.of_no_numeral old hnone) ?_
    rintro ⟨magnitude, hnumeral, -⟩
    exact hnone true magnitude (isNumeral_iff.mp hnumeral)

/-- The unsigned conversions accept the decimal numerals in their range and nothing else, but for
the negative numbers that the modulus of `unsigned long` wraps into the range. -/
theorem strToUnsigned_iff (input : CString) (old₃₂ : BitVec 32) (old₁₆ : BitVec 16) :
    (AcceptsNaturals strToUint32 input old₃₂ ↔ ¬ WrapsIntoRange 32 input.chars) ∧
      (AcceptsNaturals strToUint16 input old₁₆ ↔ ¬ WrapsIntoRange 16 input.chars) :=
  ⟨strToUint_iff (by omega) input old₃₂, strToUint_iff (by omega) input old₁₆⟩

/-- The string `-18446744073709551615`. -/
def minusUlongMax : CString :=
  ⟨[45, 49, 56, 52, 52, 54, 55, 52, 52, 48, 55, 51, 55, 48, 57, 53, 53, 49, 54, 49, 53], by decide⟩

theorem readNumeral_minusUlongMax :
    readNumeral minusUlongMax.chars = some ⟨true, ulongMax, []⟩ := by rfl

/-- A negative number far from every range is converted to one. -/
theorem strToUint_accepts_negative : ∃ input : CString,
    (∃ v : Int, IsDecimal input.chars v ∧ v < 0) ∧
      strToUint32 (some input) (some 0) = (.success, some 1) ∧
      strToUint16 (some input) (some 0) = (.success, some 1) ∧
      ¬ AcceptsNaturals strToUint32 input 0 ∧ ¬ AcceptsNaturals strToUint16 input 0 := by
  have hone : modulo true ulongMax = 1 := by decide
  have hread := readNumeral_minusUlongMax
  have h₃₂ : strToUint32 (some minusUlongMax) (some 0) = (.success, some 1) := by
    have h := strToUint_success (0 : BitVec 32) hread (Nat.le_refl _) (by rw [hone]; decide)
    rw [hone] at h
    exact h
  have h₁₆ : strToUint16 (some minusUlongMax) (some 0) = (.success, some 1) := by
    have h := strToUint_success (0 : BitVec 16) hread (Nat.le_refl _) (by rw [hone]; decide)
    rw [hone] at h
    exact h
  have hpos : 0 < ulongMax := by decide
  refine ⟨minusUlongMax, ⟨- ulongMax, (isDecimal_of_read hread _).mpr rfl, by decide⟩, h₃₂, h₁₆,
    fun haccepts => ?_, fun haccepts => ?_⟩
  · exact not_isDecimal_of_negative hpos hread _ ((haccepts.accepts 1).mp h₃₂)
  · exact not_isDecimal_of_negative hpos hread _ ((haccepts.accepts 1).mp h₁₆)

end CmakeTemplate
