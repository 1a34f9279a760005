/-
When the server loop honours a shutdown.

Its local `signal` is ACTIVE from the first step to the last, so the condition of the loop
never ends it: whatever is at the head of the loop calls `poll`.  Only an error of `poll` or
of `handle_connections` ends the loop, and a flag that is set anywhere else is missed.

So the handler has to run where the loop is about to end: during a call of `poll` that fails,
in `handle_connections` when that fails, or behind the loop.  `Timely` is the condition that
every step is of this kind.  As long as it is met no call of `poll` is made with the flag set;
and behind the first step that does not meet it the loop does not end before it has made such
a call.
-/
import CmakeTemplate.ServerLoop

namespace CmakeTemplate

open Lib

/-! ### What a step may do

The steps by what they do to the place of the loop.
-/

/-- The steps of a loop whose `signal` is ACTIVE. -/
inductive RunMove (s : RunState) : RunEvent → RunState → Prop
  | handler (sig : Signal) :
      RunMove s (.handler sig) { s with signalFlag := signalHandler sig s.signalFlag }
  | refuses (hfrom : s.main = .entered) (hnull : s.isNull = true) :
      RunMove s .check { s with main := .returned }
  | enters (hfrom : s.main = .entered) (hnull : s.isNull = false) :
      RunMove s .check { s with main := .head }
  | tests (hfrom : s.main = .head) : RunMove s .test { s with main := .body }
  | copies (hfrom : s.main = .body) : RunMove s .copy { s with main := .copied }
  | polls (hfrom : s.main = .copied) :
      RunMove s .callPoll { s with
        main := .polling
        late := s.late + if s.signalFlag = .shutdown then 1 else 0 }
  | handles (hfrom : s.main = .polling) :
      RunMove s (.pollReturns .ready) { s with main := .handling }
  | again (outcome : PollOutcome) (hfrom : s.main = .polling)
      (hagain : outcome = .timeout ∨ outcome = .interrupted) :
      RunMove s (.pollReturns outcome) { s with main := .head }
  | fails (hfrom : s.main = .polling) :
      RunMove s (.pollReturns .failed) { s with main := .returned }
  | handled (hfrom : s.main = .handling) :
      RunMove s (.handled 0) { s with exitCode := 0, main := .head }
  | ends (exitCode : Int) (hfrom : s.main = .handling) (hne : exitCode ≠ 0) :
      RunMove s (.handled exitCode) { s with exitCode, main := .returned }

variable {s s' t : RunState} {ev : RunEvent}

theorem runStep_move (hsig : s.signal = .active) (hs : runStep s ev = some s') :
    RunMove s ev s' := by
  cases ev with
  | handler sig =>
      cases hs
      exact .handler sig
  | check =>
      simp only [runStep] at hs
      split at hs
      · rename_i hm
        cases hs
        by_cases hnull : s.isNull = true
        · rw [if_pos hnull]
          exact .refuses hm hnull
        · rw [if_neg hnull]
          exact .enters hm (Bool.not_eq_true _ ▸ hnull)
      · simp at hs
  | test =>
      simp only [runStep] at hs
      split at hs
      · rename_i hm
        rw [if_pos hsig, if_neg (by rw [hsig]; exact SignalFlag.noConfusion)] at hs
        cases hs
        exact .tests hm
      · simp at hs
  | copy =>
      simp only [runStep] at hs
      split at hs
      · rename_i hm
        cases hs
        exact .copies hm
      · simp at hs
  | callPoll =>
      simp only [runStep] at hs
      split at hs
      · rename_i hm
        cases hs
        exact .polls hm
      · simp at hs
  | pollReturns outcome =>
      simp only [runStep] at hs
      split at hs
      · rename_i hm
        cases outcome with
        | ready =>
            cases hs
            exact .handles hm
        | timeout =>
            cases hs
            exact .again _ hm (.inl rfl)
        | interrupted =>
            cases hs
            exact .again _ hm (.inr rfl)
        | failed =>
            cases hs
            exact .fails hm
      · simp at hs
  | handled exitCode =>
      simp only [runStep] at hs
      split at hs
      · rename_i hm
        by_cases hne : exitCode = 0
        · rw [if_neg (not_not_intro hne)] at hs
          cases hs
          rw [hne]
          exact .handled hm
        · rw [if_pos hne] at hs
          cases hs
          exact .ends exitCode hm hne
      · simp at hs

/-! ### The flag on the way to a call

Once the flag has been missed, each way goes through a call of `poll`.
-/

/-- A step that no flag has been missed in front of. -/
theorem RunMove.timely (hm : RunMove s ev s') (h : ¬ Missed s) :
    s'.signal = s.signal ∧ s'.late = s.late ∧ (Timely s ev ↔ ¬ Missed s') := by
  have hflag : s.heads = true → s.signalFlag ≠ .shutdown := fun hheads hset => h ⟨hset, hheads⟩
  cases hm with
  | handler sig =>
      refine ⟨rfl, rfl, ?_⟩
      show (signalHandler sig s.signalFlag = .shutdown → s.heads = false) ↔
        ¬ (signalHandler sig s.signalFlag = .shutdown ∧ s.heads = true)
      rw [not_and, Bool.not_eq_true]
  | refuses hfrom hnull => exact ⟨rfl, rfl, iff_of_true trivial fun hc => nomatch hc.2⟩
  | enters hfrom hnull =>
      have hheads : s.heads = true := by
        rw [RunState.heads, hfrom]
        simp [hnull]
      exact ⟨rfl, rfl, iff_of_true trivial fun hc => hflag hheads hc.1⟩
  | tests hfrom =>
      have hheads : s.heads = true := by rw [RunState.heads, hfrom]
      exact ⟨rfl, rfl, iff_of_true trivial fun hc => hflag hheads hc.1⟩
  | copies hfrom =>
      have hheads : s.heads = true := by rw [RunState.heads, hfrom]
      exact ⟨rfl, rfl, iff_of_true trivial fun hc => hflag hheads hc.1⟩
  | polls hfrom =>
      have hheads : s.heads = true := by rw [RunState.heads, hfrom]
      refine ⟨rfl, ?_, iff_of_true trivial fun hc => nomatch hc.2⟩
      show s.late + (if s.signalFlag = .shutdown then 1 else 0) = s.late
      rw [if_neg (hflag hheads)]
      rfl
  | handles hfrom =>
      exact ⟨rfl, rfl, iff_of_true (fun _ => ⟨by simp, by simp⟩) fun hc => nomatch hc.2⟩
  | again outcome hfrom hagain =>
      refine ⟨rfl, rfl, ?_⟩
      have hfails : ¬ (outcome ≠ .timeout ∧ outcome ≠ .interrupted) := by
        rw [← not_or]
        exact not_not_intro hagain
      constructor
      · intro htimely hc
        exact hfails (htimely hc.1)
      · intro hmissed hset
        exact absurd ⟨hset, rfl⟩ hmissed
  | fails hfrom =>
      exact ⟨rfl, rfl, iff_of_true (fun _ => ⟨by simp, by simp⟩) fun hc => nomatch hc.2⟩
  | handled hfrom =>
      refine ⟨rfl, rfl, ?_⟩
      constructor
      · intro htimely hc
        exact htimely hc.1 rfl
      · intro hmissed hset
        exact absurd ⟨hset, rfl⟩ hmissed
  | ends exitCode hfrom hne => exact ⟨rfl, rfl, iff_of_true (fun _ => hne) fun hc => nomatch hc.2⟩

/-- A flag that has been missed is not seen before the next call. -/
theorem RunMove.late (hm : RunMove s ev s') (h : Missed s) :
    s'.signal = s.signal ∧ (Missed s' ∨ 0 < s'.late) := by
  obtain ⟨hset, hheads⟩ := h
  cases hm with
  | handler sig =>
      refine ⟨rfl, .inl ⟨?_, hheads⟩⟩
      show signalHandler sig s.signalFlag = .shutdown
      rw [hset]
      cases sig <;> rfl
  | refuses hfrom hnull =>
      rw [RunState.heads, hfrom] at hheads
      simp [hnull] at hheads
  | enters hfrom hnull => exact ⟨rfl, .inl ⟨hset, rfl⟩⟩
  | tests hfrom => exact ⟨rfl, .inl ⟨hset, rfl⟩⟩
  | copies hfrom => exact ⟨rfl, .inl ⟨hset, rfl⟩⟩
  | polls hfrom =>
      refine ⟨rfl, .inr ?_⟩
      show 0 < s.late + if s.signalFlag = .shutdown then 1 else 0
      rw [if_pos hset]
      exact Nat.succ_pos _
  | handles hfrom | again outcome hfrom hagain | fails hfrom | handled hfrom
  | ends exitCode hfrom hne =>
      rw [RunState.heads, hfrom] at hheads
      exact absurd hheads Bool.false_ne_true

theorem RunMove.late_le (hm : RunMove s ev s') : s'.signal = s.signal ∧ s.late ≤ s'.late := by
  cases hm with
  | polls hfrom => exact ⟨rfl, Nat.le_add_right _ _⟩
  | _ => exact ⟨rfl, Nat.le_refl _⟩

/-! ### Runs

The two directions, each by induction on the run.
-/

/-- A flag that is missed is late for good. -/
theorem runStep_late {isNull : Bool} (hsig : s.signal = .active) (h : Missed s)
    {evs : List RunEvent} (hr : (runSystem isNull).run s evs = some t) :
    Missed t ∨ 0 < t.late := by
  have hinv := System.run_invariant (I := fun s => s.signal = .active ∧ (Missed s ∨ 0 < s.late))
    ?_ hr ⟨hsig, .inl h⟩
  · exact hinv.2
  · intro s ev s' hinv hs
    obtain ⟨hsig, hlate⟩ := hinv
    have hm := runStep_move hsig hs
    rcases hlate with hmissed | hpos
    · obtain ⟨hsig', hlate'⟩ := hm.late hmissed
      exact ⟨hsig'.trans hsig, hlate'⟩
    · obtain ⟨hsig', hle⟩ := hm.late_le
      exact ⟨hsig'.trans hsig, .inr (Nat.lt_of_lt_of_le hpos hle)⟩

/-- As long as SHUTDOWN is set where the loop is about to end, no call of `poll` is late; and
behind any other step the loop does not end before a call that is. -/
theorem runSystem_honours {isNull : Bool} (h : (runSystem isNull).ReachIf Timely s) :
    s.late = 0 ∧ ∀ ev s', runStep s ev = some s' → ¬ Timely s ev →
      ∀ evs t, (runSystem isNull).run s' evs = some t → Missed t ∨ 0 < t.late := by
  have hinv : s.signal = .active ∧ s.late = 0 ∧ ¬ Missed s := by
    apply h.invariant (I := fun s => s.signal = .active ∧ s.late = 0 ∧ ¬ Missed s)
    · intro s hs
      rw [hs]
      exact ⟨rfl, rfl, fun hc => nomatch hc.1⟩
    · intro s ev s' hinv htimely hs
      obtain ⟨hsig, hzero, hmissed⟩ := hinv
      obtain ⟨hsig', hlate, hiff⟩ := (runStep_move hsig hs).timely hmissed
      exact ⟨hsig'.trans hsig, hlate.trans hzero, hiff.mp htimely⟩
  obtain ⟨hsig, hzero, hmissed⟩ := hinv
  refine ⟨hzero, ?_⟩
  intro ev s' hs huntimely evs t hr
  obtain ⟨hsig', -, hiff⟩ := (runStep_move hsig hs).timely hmissed
  exact runStep_late (hsig'.trans hsig) (not_not.mp (mt hiff.mpr huntimely)) hr

/-- A signal arrives while `poll` waits for a request, and `handle_connections` fails on it. -/
theorem runSystem_honours_run :
    ∃ s, (runSystem false).run (runStart false) [.check, .test, .copy, .callPoll,
        .handler .sigint, .pollReturns .ready, .handled (-1)] = some s ∧
      s.main = .returned ∧ s.signalFlag = .shutdown ∧ s.late = 0 ∧
      ∀ ev s', runStep s ev = some s' → ¬ Timely s ev →
        ∀ evs t, (runSystem false).run s' evs = some t → Missed t ∨ 0 < t.late := by
  have h0 : (runSystem false).ReachIf Timely (runStart false) := .init rfl
  have h1 := h0.step (l := RunEvent.check) trivial rfl
  have h2 := h1.step (l := RunEvent.test) trivial rfl
  have h3 := h2.step (l := RunEvent.copy) trivial rfl
  have h4 := h3.step (l := RunEvent.callPoll) trivial rfl
  have h5 := h4.step (l := RunEvent.handler .sigint) (fun _ => rfl) rfl
  have h6 := h5.step (l := RunEvent.pollReturns .ready) (fun _ => ⟨by simp, by simp⟩) rfl
  have h7 := h6.step (l := RunEvent.handled (-1)) (fun _ => by decide) rfl
  exact ⟨_, rfl, rfl, rfl, runSystem_honours h7⟩

/-- A signal interrupts `poll`, and `poll` is called again. -/
theorem polls_after_shutdown : ¬ ∀ isNull s, (runSystem isNull).Reach s → s.late = 0 := by
  intro hall
  obtain ⟨s, hrun, hlate⟩ : ∃ s, (runSystem false).run (runStart false) [.check, .test, .copy,
      .callPoll, .handler .sigint, .pollReturns .interrupted, .test, .copy, .callPoll] = some s ∧
      s.late = 1 := ⟨_, rfl, rfl⟩
  have hzero := hall false s ((System.Reach.init rfl).run hrun)
  rw [hlate] at hzero
  exact absurd hzero (by decide)

end CmakeTemplate
