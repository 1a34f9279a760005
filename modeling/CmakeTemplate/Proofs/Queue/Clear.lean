/-
What `queue_clear` meets when other threads use the queue.

Between its read of `current_size` and its lock the queue may have been emptied.  The clearing
thread is in the middle of `queue_dequeue` then, and sleeps on `not_empty`, or leaves with
NULL once the flag is set, and hands that to `customfree`.  It is safe exactly as long as it
finds an element each time it gets the mutex.

The condition is on the state in front of the step that takes the mutex, and what other
threads do to the queue is not restricted in any way.  As long as it is met, the invariant
says that the clearing thread is at the lock or idle, and that nothing freed was NULL; the
first time it is not met, one of the two is lost.
-/
import CmakeTemplate.QueueClear
import CmakeTemplate.Proofs.Queue.Step

namespace CmakeTemplate

open Lib

variable {T α : Type}

/-- The clearing thread is not blocked on `not_empty`, and `customfree` has not been
called with NULL. -/
def ClearSafe (s : ClearState T α) : Prop :=
  (s.queue.pc none).waits .notEmpty = false ∧ none ∉ s.freed

/-- The clearing thread finds an element when it gets the mutex. -/
def FindsElement (s : ClearState T α) : ClearEvent T α → Prop
  | .dequeue _ => queueIsEmpty s.queue.queue = false
  | _ => True

/-- What holds of the clearing thread while it has found an element each time. -/
structure ClearInv (s : ClearState T α) : Prop where
  /-- Outside its dequeue the clearing thread is idle. -/
  outside : s.clear ≠ .dequeue → s.queue.pc none = .idle
  /-- Inside, it is about to take the mutex. -/
  inside : s.clear = .dequeue → s.queue.pc none = .dequeueLock
  /-- NULL has not been freed. -/
  freed : none ∉ s.freed

theorem ClearInv.safe {s : ClearState T α} (h : ClearInv s) : ClearSafe s := by
  refine ⟨?_, h.freed⟩
  by_cases hc : s.clear = .dequeue
  · rw [h.inside hc]
    rfl
  · rw [h.outside hc]
    rfl

variable [DecidableEq T] [Fintype T]

/-- A step of one thread leaves another where it is, or wakes it. -/
theorem queueStep_others {s s' : QState T α} {ev : QEvent T α} {u : T}
    (h : queueStep s ev = some s') (hu : ev.thread ≠ some u) :
    s'.pc u = s.pc u ∨ s'.pc u = (s.pc u).wake := by
  have hupdate : ∀ t (p : QPc α), some t ≠ some u → Function.update s.pc t p u = s.pc u :=
    fun t p ht => Function.update_of_ne (fun hc => ht (congrArg some hc.symm)) _ _
  cases ev with
  | callEnqueue t data calloc =>
      simp only [queueStep] at h
      split at h
      · split at h
        · cases h
          exact .inl (hupdate t _ hu)
        · split at h
          · cases h
            exact .inl (hupdate t _ hu)
          · cases h
            exact .inl (hupdate t _ hu)
      · simp at h
  | callDequeue t =>
      simp only [queueStep] at h
      split at h
      · cases h
        exact .inl (hupdate t _ hu)
      · simp at h
  | lock t woken => exact (queueStep_lock h).others u fun hc => hu (congrArg some hc.symm)
  | peek t =>
      simp only [queueStep] at h
      split at h
      · obtain ⟨d, -, hs⟩ := Option.bind_eq_some_iff.mp h
        cases hs
        exact .inl (hupdate t _ hu)
      · simp at h
  | spurious t =>
      simp only [queueStep] at h
      split at h
      · cases h
        by_cases ht : u = t
        · subst ht
          exact .inr (Function.update_self ..)
        · exact .inl (Function.update_of_ne ht _ _)
      · simp at h
  | signal =>
      cases h
      exact .inl rfl
  | broadcast =>
      cases h
      simp only
      split
      · exact .inr rfl
      · exact .inl rfl
  | ret t =>
      simp only [queueStep] at h
      split at h
      · cases h
        exact .inl (hupdate t _ hu)
      · simp at h

/-- What the clearing thread's dequeue does, from the lock. -/
inductive ClearDequeue (s : ClearState T α) : ClearState T α → Prop
  | takes (queue : QState (Option T) α) (data : α) (hempty : queueIsEmpty s.queue.queue = false)
      (hpc : queue.pc none = .idle) :
      ClearDequeue s { queue, clear := .test, freed := s.freed ++ [some data] }
  | leaves (queue : QState (Option T) α) (hempty : queueIsEmpty s.queue.queue = true)
      (hpc : queue.pc none = .idle) :
      ClearDequeue s { queue, clear := .test, freed := s.freed ++ [none] }
  | sleeps (queue : QState (Option T) α) (hempty : queueIsEmpty s.queue.queue = true)
      (hpc : queue.pc none = .dequeueWait) : ClearDequeue s { s with queue }

/-- A returned call is over. -/
theorem queueStep_ret {s : QState T α} {t : T} {r : QRet α} (hr : s.pc t = .returned r) :
    queueStep s (.ret t) = some { s with pc := Function.update s.pc t .idle } := by
  simp only [queueStep, hr]

theorem clearStep_dequeue {s s' : ClearState T α} {woken : List (Option T)}
    (hpc : s.queue.pc none = .dequeueLock) (h : clearStep s (.dequeue woken) = some s') :
    ClearDequeue s s' := by
  simp only [clearStep] at h
  split at h
  · obtain ⟨q, hq, hrest⟩ := Option.bind_eq_some_iff.mp h
    -- whatever it returns, its call ends
    have hdone : ∀ r : QRet α, q.pc none = .returned r →
        queueStep q (.ret none) = some { q with pc := Function.update q.pc none .idle } :=
      fun r hr => queueStep_ret hr
    have hmove : LockMove s.queue none woken q := queueStep_lock hq
    cases hmove with
    | sleepsFull n d hfrom => rcases hfrom with hf | hf <;> rw [hpc] at hf <;> cases hf
    | appends n d queue hfrom => rcases hfrom with hf | hf <;> rw [hpc] at hf <;> cases hf
    | leaves hfrom hempty hdown =>
        rw [hdone (.data none) (by simp)] at hrest
        simp only [Function.update_self] at hrest
        cases hrest
        exact .leaves _ hempty (by simp)
    | sleepsEmpty hfrom hempty hdown =>
        simp only [Function.update_self] at hrest
        cases hrest
        exact .sleeps _ hempty (by simp)
    | takes queue d hfrom hempty hsig htake =>
        rw [hdone (.data (some d)) (by simp)] at hrest
        simp only [Function.update_self] at hrest
        cases hrest
        exact .takes _ d hempty (by simp)
  · simp at h

/-- A step that is not the clearing thread's dequeue. -/
theorem ClearInv.step {s s' : ClearState T α} {ev : ClearEvent T α} (h : ClearInv s)
    (hfind : FindsElement s ev) (hs : clearStep s ev = some s') : ClearInv s' := by
  cases ev with
  | call =>
      simp only [clearStep] at hs
      split at hs
      · rename_i hidle
        cases hs
        exact ⟨fun _ => h.outside (by rw [hidle]; simp), fun hc => by simp at hc, h.freed⟩
      · simp at hs
  | test =>
      simp only [clearStep] at hs
      split at hs
      · rename_i htest
        have hidle := h.outside (by rw [htest]; simp)
        split at hs
        · obtain ⟨q, hq, hrest⟩ := Option.bind_eq_some_iff.mp hs
          simp only [queueStep, hidle, QPc.isIdle, if_true] at hq
          cases hq
          cases hrest
          exact ⟨fun hc => absurd rfl hc, fun _ => by simp, h.freed⟩
        · cases hs
          exact ⟨fun _ => hidle, fun hc => by simp at hc, h.freed⟩
      · simp at hs
  | dequeue woken =>
      have hin : s.clear = .dequeue := by
        by_contra hc
        simp [clearStep, hc] at hs
      cases clearStep_dequeue (h.inside hin) hs with
      | takes queue data hempty hpc =>
          exact ⟨fun _ => hpc, fun hc => by simp at hc, by simpa using h.freed⟩
      | leaves queue hempty hpc => exact absurd (hfind.symm.trans hempty) (by simp)
      | sleeps queue hempty hpc => exact absurd (hfind.symm.trans hempty) (by simp)
  | other ev =>
      simp only [clearStep] at hs
      split at hs
      · simp at hs
      · rename_i hother
        obtain ⟨q, hq, hrest⟩ := Option.bind_eq_some_iff.mp hs
        cases hrest
        -- the clearing thread is not blocked, so nothing can wake it
        have hstays : ∀ p : QPc α, p.wake = p → s.queue.pc none = p → q.pc none = p := by
          intro p hwake hp
          rcases queueStep_others hq hother with hsame | hwoken
          · rw [hsame, hp]
          · rw [hwoken, hp, hwake]
        exact ⟨fun hc => hstays _ rfl (h.outside hc), fun hc => hstays _ rfl (h.inside hc),
          h.freed⟩

theorem clearSystem_inv {maxSize : UInt32} {s : ClearState T α}
    (h : (clearSystem T α maxSize).ReachIf FindsElement s) : ClearInv s := by
  refine h.invariant (I := ClearInv) ?_ ?_
  · rintro s rfl
    exact ⟨fun _ => rfl, fun hc => by simp at hc, by simp⟩
  · intro s ev s' hinv hfind hs
    exact hinv.step hfind hs

/-- Not finding an element is not safe. -/
theorem ClearInv.findsElement_of_safe {s s' : ClearState T α} {ev : ClearEvent T α} (h : ClearInv s)
    (hs : clearStep s ev = some s') (hsafe : ClearSafe s') : FindsElement s ev := by
  cases ev with
  | dequeue woken =>
      have hin : s.clear = .dequeue := by
        by_contra hc
        simp [clearStep, hc] at hs
      cases clearStep_dequeue (h.inside hin) hs with
      | takes queue data hempty hpc => exact hempty
      | leaves queue hempty hpc => exact absurd (by simp) hsafe.2
      | sleeps queue hempty hpc =>
          have hwait := hsafe.1
          simp only [hpc] at hwait
          exact absurd hwait (by simp [QPc.waits])
  | call => exact trivial
  | test => exact trivial
  | other ev => exact trivial

/-- While the clearing thread finds an element each time, it is safe, and it is no longer
safe after the first time it does not. -/
theorem clearSystem_safe_iff {maxSize : UInt32} {s : ClearState T α}
    (h : (clearSystem T α maxSize).ReachIf FindsElement s) :
    ClearSafe s ∧ ∀ ev s', clearStep s ev = some s' → (ClearSafe s' ↔ FindsElement s ev) := by
  have hinv := clearSystem_inv h
  refine ⟨hinv.safe, fun ev s' hs => ⟨hinv.findsElement_of_safe hs, fun hfind => ?_⟩⟩
  exact (hinv.step hfind hs).safe

/-- One element, taken out by the clearing thread. -/
theorem clearSystem_safe_iff_run :
    ∃ s, (clearSystem Unit Nat 0).ReachIf FindsElement s ∧ s.freed = [some 7] ∧ ClearSafe s ∧
      ∀ ev s', clearStep s ev = some s' → (ClearSafe s' ↔ FindsElement s ev) := by
  have h0 : (clearSystem Unit Nat 0).ReachIf FindsElement
      { queue := queueStart (Option Unit) 0, clear := .idle, freed := [] } := .init rfl
  have h1 := h0.step (l := ClearEvent.other (.callEnqueue (some ()) (some 7) true)) trivial rfl
  have h2 := h1.step (l := ClearEvent.other (.lock (some ()) [])) trivial rfl
  have h3 := h2.step (l := ClearEvent.call) trivial rfl
  have h4 := h3.step (l := ClearEvent.test) trivial rfl
  have h5 := h4.step (l := ClearEvent.dequeue []) rfl rfl
  exact ⟨_, h5, rfl, clearSystem_safe_iff h5⟩

/-- One element, which another thread takes between the read of the size and the lock. -/
def takenBefore : List (ClearEvent Unit Nat) :=
  [.other (.callEnqueue (some ()) (some 7) true), .other (.lock (some ()) []),
    .other (.ret (some ())), .call, .test, .other (.callDequeue (some ())),
    .other (.lock (some ()) [])]

/-- The clearing thread blocks, and behind a shutdown it hands NULL to `customfree`. -/
theorem queue_clear_unsafe :
    (∃ s, (clearSystem Unit Nat 0).Reach s ∧ (s.queue.pc none).waits .notEmpty = true) ∧
    ∃ s, (clearSystem Unit Nat 0).Reach s ∧ none ∈ s.freed := by
  have h0 : (clearSystem Unit Nat 0).Reach
      { queue := queueStart (Option Unit) 0, clear := .idle, freed := [] } := .init rfl
  constructor
  · have hrun := h0.run (show (clearSystem Unit Nat 0).run _ (takenBefore ++ [.dequeue []]) = _ from
      rfl)
    exact ⟨_, hrun, rfl⟩
  · have hrun := h0.run (show (clearSystem Unit Nat 0).run _
      (takenBefore ++ [.other .signal, .dequeue []]) = _ from rfl)
    exact ⟨_, hrun, List.mem_cons_self⟩

end CmakeTemplate
