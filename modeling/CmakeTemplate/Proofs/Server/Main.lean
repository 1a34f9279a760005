/-
What the command line lets through, the server takes.

Both check the port and the number of threads, each in a way of its own.  `process_options`
stops what is no port and what is less than the least number of threads; `validate_config`
checks them again, with bounds of its own.  Every value that `process_options` leaves is one
that `validate_config` accepts, but for a number of threads above `MAX_NUM_THREADS`, which
only the server knows of.

The other fields of the configuration are constants of `main` and are within their bounds,
except for the function that handles a request, without which the server does not start.  So
whether the server takes what `main` makes of a command line is a condition on that function
and on the number of threads.
-/
import CmakeTemplate.ServerMain
import CmakeTemplate.Proofs.Server.Config

namespace CmakeTemplate

open Lib

/-- The server would take the port, and has threads enough. -/
structure Options.Usable (options : Options) : Prop where
  /-- The port is one that the server takes. -/
  port : ∃ port, options.pValue = some port ∧ IsUsablePort port
  /-- There are threads enough. -/
  threads : minNumThreads ≤ options.nValue.toInt

variable {options options' : Options}

/-! ### The options

What an option leaves has been checked, and so have the defaults.
-/

theorem processPOption_usable {optarg : Option CString} (h : options.Usable)
    (hp : (processPOption optarg options).1 = .success) :
    (processPOption optarg options).2.Usable := by
  cases optarg with
  | none => cases hp
  | some s =>
      have husable := isUsablePort_of_processPOption hp
      by_cases hok : options.pFlag = false ∧ IsPort s
      · obtain ⟨hflag, hport⟩ := hok
        rw [processPOption_success hflag hport]
        exact ⟨⟨s, rfl, husable⟩, h.threads⟩
      · have hfailure : (processPOption (some s) options).1 = .failure :=
          processPOption_failure (by rwa [not_and_or, Bool.not_eq_false] at hok)
        rw [hfailure] at hp
        cases hp

theorem processNOption_usable {optarg : Option CString} (h : options.Usable)
    (hn : (processNOption optarg options).1 = .success) :
    (processNOption optarg options).2.Usable := by
  cases optarg with
  | none => cases hn
  | some s =>
      by_cases hok : options.nFlag = false ∧ ∃ v, IsThreads s v
      · obtain ⟨hflag, v, hthreads⟩ := hok
        rw [processNOption_success hflag hthreads]
        exact ⟨h.port, hthreads.2⟩
      · have hfailure : (processNOption (some s) options).1 = .failure :=
          processNOption_failure (by rwa [not_and_or, Bool.not_eq_false, not_exists] at hok)
        rw [hfailure] at hn
        cases hn

/-- Every option on the way has been checked. -/
theorem optionLoop_usable {operands : List CString} {opts : List (Opt CString)} {exitCode : ExitCode}
    (h : options.Usable) (hloop : optionLoop operands opts exitCode options = (.success, options')) :
    options'.Usable := by
  induction opts generalizing exitCode options with
  | nil =>
      cases congrArg Prod.snd hloop
      exact h
  | cons opt opts ih =>
      -- the loop goes on behind an option only if it has been processed
      have hgoes : ∀ processed : ExitCode × Options,
          (processed.1 = .success → processed.2.Usable) →
          (if .success ≠ processed.1 then processed
            else optionLoop operands opts processed.1 processed.2) = (.success, options') →
          options'.Usable := by
        intro processed husable hrest
        by_cases hcode : .success ≠ processed.1
        · rw [if_pos hcode] at hrest
          exact absurd (congrArg Prod.fst hrest).symm hcode
        · rw [if_neg hcode] at hrest
          exact ih (husable (not_not.mp hcode).symm) hrest
      cases opt with
      | invalid c => cases hloop
      | option c optarg =>
          rw [optionLoop] at hloop
          split at hloop
          · exact hgoes _ (processPOption_usable h) hloop
          · split at hloop
            · exact hgoes _ (processNOption_usable h) hloop
            · split at hloop
              · cases congrArg Prod.snd hloop
                exact h
              · cases hloop

/-- The defaults of `main` pass the checks on what is given. -/
theorem defaultOptions_usable : (defaultOptions defaultThreadCount (some defaultPortNumber)).Usable := by
  refine ⟨⟨defaultPortNumber, rfl, 31337, ?_, by decide, by decide⟩, by decide⟩
  exact isDecimal_iff.mpr ⟨false, 31337, by rfl, rfl⟩

theorem serverMain_config {argv : List CString} {signalActionSetup : ExitCode} {clientRequest : Bool}
    {config : ServerConfig} (h : serverMain argv signalActionSetup clientRequest = .inr config) :
    ∃ options : Options, options.Usable ∧ config = configOf clientRequest options := by
  unfold serverMain at h
  split at h
  · cases h
  · split at h
    · cases h
    · dsimp only at h
      split at h
      · rename_i options hcode hoptions
        cases h
        refine ⟨options, ?_, rfl⟩
        unfold processDefaults processOptions at hcode hoptions
        cases argv with
        | nil => cases hcode
        | cons name args =>
            exact optionLoop_usable defaultOptions_usable
              (Prod.ext hcode (Option.some.inj hoptions))
      · cases h

/-! ### The configuration

The checks of `validate_config`, one after the other.
-/

theorem validateConfig_needs {config : ServerConfig} (h : validateConfig (some config) = .success) :
    config.numThreads ≤ maxServerThreads ∧ config.clientRequest = true := by
  unfold validateConfig at h
  dsimp only at h
  split_ifs at h with hconvert _ _ _ hthreads _ hrequest
  · exact absurd h.symm hconvert
  · have hmax : ¬ maxServerThreads < config.numThreads := fun hc => hthreads (.inr hc)
    exact ⟨Int.not_lt.mp hmax, by simpa using hrequest⟩

/-- Whatever the arguments are, the server takes the configuration that `main` makes of them if and
only if it has a request function and is not asked for more threads than it allows. -/
theorem serverMain_starts_iff {argv : List CString} {signalActionSetup : ExitCode}
    {clientRequest : Bool} {config : ServerConfig}
    (h : serverMain argv signalActionSetup clientRequest = .inr config) :
    validateConfig (some config) = .success ↔
      config.numThreads ≤ maxServerThreads ∧ clientRequest = true := by
  obtain ⟨options, ⟨⟨port, hport, husable⟩, hthreads⟩, rfl⟩ := serverMain_config h
  constructor
  · exact validateConfig_needs
  · rintro ⟨hmax, hrequest⟩
    -- what `main` fills in itself is within the bounds of the server
    have hbacklog : minBacklog ≤ backlogSize ∧ backlogSize ≤ maxBacklog := by decide
    have htimeout : minTimeout ≤ pollTimeout ∧ pollTimeout ≤ maxTimeout := by decide
    have hclients : ValidMaxClients maxClients := by decide
    have hothers : (configOf clientRequest options).OthersValid :=
      ⟨hbacklog, .inr htimeout, ⟨hthreads, hmax⟩, hclients, hrequest⟩
    obtain ⟨w, hw, hmin, -⟩ := isUsablePort_iff.mp husable
    have hconfig : configOf clientRequest options
        = { configOf clientRequest options with port := some port } := by
      rw [configOf, hport]
    rw [hconfig]
    exact validateConfig_success hothers hw fun hc => absurd hc.2 (by omega)

/-- `-n 25` gets past the command line, but not past the server. -/
theorem serverMain_starts_iff_run :
    ∃ config, serverMain [⟨[115], by decide⟩, ⟨[45, 110], by decide⟩, ⟨[50, 53], by decide⟩]
        .success true = .inr config ∧ validateConfig (some config) ≠ .success := by
  have hmain : ∃ config, serverMain [⟨[115], by decide⟩, ⟨[45, 110], by decide⟩,
      ⟨[50, 53], by decide⟩] .success true = .inr config ∧ config.numThreads = 25 :=
    ⟨_, rfl, by decide⟩
  obtain ⟨config, hconfig, hthreads⟩ := hmain
  refine ⟨config, hconfig, ?_⟩
  intro h
  have hmax := ((serverMain_starts_iff hconfig).mp h).1
  rw [hthreads] at hmax
  exact absurd hmax (by decide)

end CmakeTemplate
