/-
Which ports pass `validate_config`.

The port is read as an `int`, and refused if it is not a number or one of those from 0 to
1023.  No other number is refused, so the negative ones and those above 65535 pass as well,
which no socket can be bound to.  What the command line accepts is a usable port, and passes
here.

Only usable ports pass, then, except for strings that stand for such a number.  The condition
is on the string alone, as the other fields of the configuration are checked on their own and
are right here.  The run has the configuration that `main` builds.
-/
import CmakeTemplate.ServerConfig
import CmakeTemplate.Proofs.OptionHandler.Options

namespace CmakeTemplate

open Lib

theorem validateConfig_success {config : ServerConfig} (hvalid : config.OthersValid)
    {port : CString} {w : Int32} (hw : IsDecimal port.chars w.toInt)
    (hrange : ¬ (0 ≤ w.toInt ∧ wellKnownPortMax ≥ w.toInt)) :
    validateConfig (some { config with port := some port }) = .success := by
  obtain ⟨hbacklog, htimeout, hthreads, hclients, hrequest⟩ := hvalid
  rcases strToInt32_cases port 0 with ⟨w', hcall, hw'⟩ | ⟨-, hno⟩
  · have heq : w' = w := Int32.toInt_inj.mp (isDecimal_unique hw' hw)
    subst heq
    unfold validateConfig
    simp only [hcall, Option.getD_some]
    rw [if_neg (not_not.mpr rfl), if_neg hrange, if_neg (by omega), if_neg (by omega),
      if_neg (by omega), if_neg hclients, if_neg (by simp [hrequest])]
  · exact absurd hw (hno w)

theorem validateConfig_failure (config : ServerConfig) {port : CString}
    (h : ∀ w : Int32, IsDecimal port.chars w.toInt →
      0 ≤ w.toInt ∧ wellKnownPortMax ≥ w.toInt) :
    validateConfig (some { config with port := some port }) = .failure := by
  unfold validateConfig
  rcases strToInt32_cases port 0 with ⟨w, hcall, hw⟩ | ⟨hcall, -⟩
  · simp only [hcall, Option.getD_some]
    rw [if_neg (not_not.mpr rfl), if_pos (h w hw)]
  · simp only [hcall]
    rw [if_pos (by simp)]

/-- A port passes just in case it is a number outside the well-known ones. -/
theorem validateConfig_success_iff {config : ServerConfig} (hvalid : config.OthersValid)
    (port : CString) :
    validateConfig (some { config with port := some port }) = .success ↔
      ∃ w : Int32, IsDecimal port.chars w.toInt ∧
        ¬ (0 ≤ w.toInt ∧ wellKnownPortMax ≥ w.toInt) := by
  constructor
  · intro hsuccess
    by_contra hno
    have hfailure := validateConfig_failure config fun w hw =>
      not_not.mp fun hrange => hno ⟨w, hw, hrange⟩
    rw [hsuccess] at hfailure
    cases hfailure
  · rintro ⟨w, hw, hrange⟩
    exact validateConfig_success hvalid hw hrange

theorem isUsablePort_iff {port : CString} :
    IsUsablePort port ↔ ∃ w : Int32, IsDecimal port.chars w.toInt ∧
      wellKnownPortMax + 1 ≤ w.toInt ∧ w.toInt ≤ maxPortValue := by
  constructor
  · rintro ⟨v, hv, hmin, hmax⟩
    have hint : (Int32.ofInt v).toInt = v := by
      unfold wellKnownPortMax at hmin
      unfold maxPortValue at hmax
      exact toInt_ofInt_of_range (by unfold int32Min; omega) (by unfold int32Max; omega)
    exact ⟨Int32.ofInt v, by rwa [hint], by rwa [hint], by rwa [hint]⟩
  · rintro ⟨w, hw, hrange⟩
    exact ⟨w.toInt, hw, hrange⟩

/-- What `-p` accepts is a usable port. -/
theorem isUsablePort_of_processPOption {port : CString} {options : Options}
    (h : (processPOption (some port) options).1 = .success) : IsUsablePort port := by
  by_cases hport : IsPort port
  · obtain ⟨v, hv, hmin, hmax⟩ := hport
    unfold minPortValue at hmin
    exact ⟨v, hv, by unfold wellKnownPortMax; omega, hmax⟩
  · rw [processPOption_failure (.inr hport)] at h
    cases h

/-- Only usable ports pass, unless the port is a number that is negative or too large. -/
theorem passesUsable_iff {config : ServerConfig} (hvalid : config.OthersValid) (port : CString) :
    PassesUsable config port ↔
      ¬ ∃ w : Int32, IsDecimal port.chars w.toInt ∧ (w.toInt < 0 ∨ maxPortValue < w.toInt) := by
  constructor
  · rintro hpasses ⟨w, hw, hrange⟩
    refine hpasses.noOther _ hw hrange (validateConfig_success hvalid hw ?_)
    unfold wellKnownPortMax
    unfold maxPortValue at hrange
    omega
  · intro hno
    have haccepts : validateConfig (some { config with port := some port }) = .success ↔
        IsUsablePort port := by
      rw [validateConfig_success_iff hvalid, isUsablePort_iff]
      constructor
      · rintro ⟨w, hw, hrange⟩
        have hrange' : ¬ (w.toInt < 0 ∨ maxPortValue < w.toInt) := fun hc => hno ⟨w, hw, hc⟩
        exact ⟨w, hw, by omega, by omega⟩
      · rintro ⟨w, hw, hmin, -⟩
        exact ⟨w, hw, by omega⟩
    refine ⟨haccepts, fun options h => ?_, fun v hv hrange hsuccess => ?_⟩
    · exact haccepts.mpr (isUsablePort_of_processPOption h)
    · obtain ⟨w, hw, hmin, hmax⟩ := isUsablePort_iff.mp (haccepts.mp hsuccess)
      have heq : w.toInt = v := isDecimal_unique hw hv
      unfold wellKnownPortMax at hmin
      omega

/-- The configuration that `main` builds, with a request function. -/
def mainConfig : ServerConfig := ⟨none, 10, 10, 4, 10, true⟩

theorem mainConfig_othersValid : mainConfig.OthersValid := by
  constructor <;> decide

theorem passesUsable_8080 : mainConfig.OthersValid ∧
    ∃ port : CString, port.chars = [56, 48, 56, 48] ∧ PassesUsable mainConfig port := by
  refine ⟨mainConfig_othersValid, ⟨[56, 48, 56, 48], by decide⟩, rfl, ?_⟩
  refine (passesUsable_iff mainConfig_othersValid _).mpr ?_
  rintro ⟨w, hw, hrange⟩
  have hvalue : IsDecimal [56, 48, 56, 48] 8080 :=
    isDecimal_iff.mpr ⟨false, 8080, by rfl, rfl⟩
  have heq : w.toInt = 8080 := isDecimal_unique hw hvalue
  unfold maxPortValue at hrange
  omega

/-- The ports -1 and 70000 pass. -/
theorem validateConfig_wrapping : ∃ negative large : CString,
    (∃ v, IsDecimal negative.chars v ∧ v < 0) ∧
      (∃ v, IsDecimal large.chars v ∧ maxPortValue < v) ∧
      validateConfig (some { mainConfig with port := some negative }) = .success ∧
      validateConfig (some { mainConfig with port := some large }) = .success ∧
      ¬ PassesUsable mainConfig negative ∧ ¬ PassesUsable mainConfig large := by
  have hnegative : IsDecimal [45, 49] (-1) := isDecimal_iff.mpr ⟨true, 1, by rfl, rfl⟩
  have hlarge : IsDecimal [55, 48, 48, 48, 48] 70000 :=
    isDecimal_iff.mpr ⟨false, 70000, by rfl, rfl⟩
  have hpassNegative : validateConfig
      (some { mainConfig with port := some ⟨[45, 49], by decide⟩ }) = .success := by rfl
  have hpassLarge : validateConfig
      (some { mainConfig with port := some ⟨[55, 48, 48, 48, 48], by decide⟩ }) = .success := by
    rfl
  refine ⟨_, _, ⟨-1, hnegative, by decide⟩, ⟨70000, hlarge, by decide⟩, hpassNegative, hpassLarge,
    fun hpasses => ?_, fun hpasses => ?_⟩
  · exact hpasses.noOther _ hnegative (by decide) hpassNegative
  · exact hpasses.noOther _ hlarge (by decide) hpassLarge

end CmakeTemplate
