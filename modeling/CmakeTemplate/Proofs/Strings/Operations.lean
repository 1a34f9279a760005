/-
What `copy_string` copies, and what `strings_are_equal` says of it.

`copy_string` prints at most `limit` characters into a buffer of one byte more, with a zero at
the end, so the copy is the string as far as the limit goes.  Where it may not cut off, a
string that is longer is refused.  `strings_are_equal` takes the copy for the string if and
only if nothing was cut off.

The size of the buffer is the limit and one more, modulo `2 ^ 64`.  With the greatest limit it
is zero: the text is taken for one that is cut off, and where that is allowed the buffer holds
nothing, not even an end.  The statement is for every string, limit and state of the memory,
as far as an `int` can hold the length of the string, which is what `snprintf` returns.
-/
import CmakeTemplate.StringOperations
import CmakeTemplate.Proofs.HashTable.Refines

namespace CmakeTemplate

open Lib

/-- The greatest `size_t`. -/
def sizeMax : Nat := 2 ^ 64 - 1

theorem stripNewline_eq (s : CString) :
    stripNewline (some s) = (.success, some (s.take (firstLine s.chars).length)) := by
  unfold stripNewline firstLine
  dsimp only
  split
  · rfl
  · rename_i hlength
    rw [CString.take_of_le (Nat.not_lt.mp hlength)]

/-- Two strings are told apart in front of the end of the longer one. -/
theorem stringsAreEqual_eq (s t : CString) (old : Int) :
    stringsAreEqual (some s) (some t) (some old) = (.success, some (if s = t then 1 else 0)) := by
  have hequal : 0 = strncmp s.chars t.chars
      (if s.chars.length > t.chars.length then s.chars.length else t.chars.length) ↔ s = t := by
    rw [eq_comm, strncmp_eq_zero s.noNul t.noNul]
    refine ⟨fun htake => ?_, fun hst => hst ▸ rfl⟩
    rw [List.take_of_length_le, List.take_of_length_le] at htake
    · exact CString.ext htake
    · split
      · omega
      · exact Nat.le_refl _
    · split
      · exact Nat.le_refl _
      · omega
  unfold stringsAreEqual
  dsimp only
  by_cases hst : s = t
  · rw [if_pos (hequal.mpr hst), if_pos hst]
  · rw [if_neg fun hc => hst (hequal.mp hc), if_neg hst]

theorem take_eq_self_iff {s : CString} {n : Nat} : s = s.take n ↔ s.chars.length ≤ n := by
  refine ⟨fun h => ?_, fun h => (CString.take_of_le h).symm⟩
  have hlength : s.chars.length = (s.take n).chars.length := congrArg (fun t => t.chars.length) h
  rw [CString.take, List.length_take] at hlength
  omega

/-- What is printed into a buffer of `limit + 1` bytes is a copy. -/
theorem copies_snprintf (heap : Nat → UInt8) (input : CString) (limit : Nat) :
    Copies heap (snprintf (write heap 0 (limit + 1) fun _ => 0) 0 (limit + 1) input.chars).1
      input limit := by
  constructor
  · rw [snprintf_take (Nat.succ_pos limit)]
    exact read_snprintf (Nat.lt_succ_of_le (List.length_take_le limit input.chars))
  · intro a ha
    rw [snprintf_changed a ha, write_changed a ha]
  · intro old
    rw [stringsAreEqual_eq]
    by_cases hfits : input.chars.length ≤ limit
    · rw [if_pos (take_eq_self_iff.mpr hfits), if_pos hfits]
    · rw [if_neg fun hc => hfits (take_eq_self_iff.mp hc), if_neg hfits]

/-- For every string, limit and state of the memory, as far as an `int` can hold the length of the
string: with memory `copy_string` succeeds just in case it may cut off or the string is within a limit
below the greatest, and makes a copy of what fits, which `strings_are_equal` takes for the string if and
only if all of it does.  With the greatest limit it writes nothing at all. -/
theorem copyString_copies {input : CString} (h : input.chars.length < 2 ^ 31) (heap : Nat → UInt8)
    (old : Option (Nat → UInt8)) (limit : UInt64) (allowTruncation : Bool) :
    ((copyString heap true (some input) (some old) limit allowTruncation).1 = .success ↔
        allowTruncation = true ∨ input.chars.length ≤ limit.toNat ∧ limit.toNat ≠ sizeMax) ∧
      ∀ copy, copyString heap true (some input) (some old) limit allowTruncation
          = (.success, some (some copy)) →
        (limit.toNat ≠ sizeMax → Copies heap copy input limit.toNat) ∧
          (limit.toNat = sizeMax → copy = heap) := by
  have hlimit : limit.toNat < 2 ^ 64 := limit.toNat_lt
  have hsize : (limit + 1).toNat = if limit.toNat = sizeMax then 0 else limit.toNat + 1 := by
    rw [UInt64.toNat_add]
    unfold sizeMax
    show (limit.toNat + 1) % 2 ^ 64 = _
    split <;> omega
  have hsmall : input.chars.length < UInt64.size := Nat.lt_trans h (by decide)
  have hcut : UInt64.ofNat input.chars.length ≥ limit + 1 ↔
      ¬ (input.chars.length ≤ limit.toNat ∧ limit.toNat ≠ sizeMax) := by
    rw [ge_iff_le, UInt64.le_iff_toNat_le, UInt64.toNat_ofNat_of_lt' hsmall, hsize]
    split
    · rename_i hmax
      simp [hmax]
    · rename_i hmax
      simp only [hmax, ne_eq, not_false_iff, and_true, Nat.not_le]
      omega
  have hcall : copyString heap true (some input) (some old) limit allowTruncation =
      if UInt64.ofNat input.chars.length ≥ limit + 1 ∧ allowTruncation = false then
        (.failure, some old)
      else (.success, some (some (snprintf (write heap 0 (limit + 1).toNat fun _ => 0) 0
        (limit + 1).toNat input.chars).1)) := by
    rfl
  rw [hcall]
  constructor
  · by_cases hrefused : UInt64.ofNat input.chars.length ≥ limit + 1 ∧ allowTruncation = false
    · rw [if_pos hrefused]
      obtain ⟨hlong, hallow⟩ := hrefused
      refine iff_of_false (by simp) ?_
      rintro (hc | hfits)
      · exact Bool.noConfusion (hallow.symm.trans hc)
      · exact hcut.mp hlong hfits
    · rw [if_neg hrefused]
      refine iff_of_true rfl ?_
      cases hallow : allowTruncation with
      | true => exact .inl rfl
      | false => exact .inr (not_not.mp fun hc => hrefused ⟨hcut.mpr hc, hallow⟩)
  · intro copy hcopy
    split at hcopy
    · cases hcopy
    · cases hcopy
      constructor
      · intro hmax
        rw [hsize, if_neg hmax]
        exact copies_snprintf heap input limit.toNat
      · intro hmax
        rw [hsize, if_pos hmax, snprintf_zero, write_length_zero]

/-- `"ab"`, cut off behind one character. -/
theorem copyString_copies_run :
    ∃ copy, copyString (fun _ => 7) true (some ⟨[97, 98], by decide⟩) (some none) 1 true
        = (.success, some (some copy)) ∧
      Copies (fun _ => 7) copy ⟨[97, 98], by decide⟩ 1 := by
  have hlength : (⟨[97, 98], by decide⟩ : CString).chars.length < 2 ^ 31 := by decide
  have hlimit : (1 : UInt64).toNat ≠ sizeMax := by decide
  exact ⟨_, rfl, ((copyString_copies hlength (fun _ => 7) none 1 true).2 _ rfl).1 hlimit⟩

end CmakeTemplate
