/-
What one step of the queue's threads can do.

Everything later needs to know about a step is said here once: a thread moves on without
touching the queue, makes a node, goes to sleep in front of a full or an empty queue, links
its node in, takes the head out, or is woken; or the flag is set.  `QMove` has a constructor
for each, with what is known before it and what the state is behind it.

A proof about the queue is then a case for each move, and never unfolds the step.  The
invariants of the queue, the wake-ups, and the pool with its workers on top of it all go
through the same moves.  What a move does to the threads that do not take it is said once too:
they stay where they are, or are woken.
-/
import CmakeTemplate.Queue

namespace CmakeTemplate

open Lib

variable {T α : Type} [DecidableEq T] {s s' : QState T α}

/-- Neither asleep nor just woken. -/
def QPc.quiet (p : QPc α) : Prop :=
  ∀ c, p.waits c = false ∧ p.woken c = false

theorem QPc.quiet_idle : (idle : QPc α).quiet := fun c => by cases c <;> exact ⟨rfl, rfl⟩

theorem QPc.quiet_dequeueLock : (dequeueLock : QPc α).quiet := fun c => by
  cases c <;> exact ⟨rfl, rfl⟩

theorem QPc.quiet_returned (r : QRet α) : (returned r).quiet := fun c => by
  cases c <;> exact ⟨rfl, rfl⟩

theorem QPc.quiet_of_isIdle {p : QPc α} (h : p.isIdle = true) : p.quiet := by
  cases p with
  | idle => exact quiet_idle
  | _ => simp [isIdle] at h

/-- In `queue_enqueue` with the node `n`, and about to look at the queue. -/
def QPc.enqueues (p : QPc α) (n : Nat) (d : α) : Prop :=
  p = .enqueueLock n d ∨ p = .enqueueWoken n d

theorem QPc.enqueues.pending {p : QPc α} {n : Nat} {d : α} (h : p.enqueues n d) :
    p.pending = some (n, d) := by
  rcases h with rfl | rfl <;> rfl

/-- In `queue_dequeue`, and about to look at the queue. -/
def QPc.dequeues (p : QPc α) : Prop :=
  p = .dequeueLock ∨ p = .dequeueWoken

/-- What a thread does with the mutex. -/
inductive LockMove (s : QState T α) (t : T) (woken : List T) : QState T α → Prop
  | sleepsFull (n : Nat) (d : α) (hfrom : (s.pc t).enqueues n d)
      (hfull : queueIsFull s.queue = true) :
      LockMove s t woken { s with pc := Function.update s.pc t (.enqueueWait n d) }
  | appends (n : Nat) (d : α) (q : QueueT α) (hfrom : (s.pc t).enqueues n d)
      (hfull : queueIsFull s.queue = false) (hsig : Signals s.pc .notEmpty woken)
      (hq : queueAppend s.queue n = some q) :
      LockMove s t woken { s with
        queue := q
        inserted := s.inserted ++ [d]
        pc := Function.update (wakeThreads s.pc woken) t (.returned (.code .success)) }
  | leaves (hfrom : (s.pc t).dequeues) (hempty : queueIsEmpty s.queue = true)
      (hdown : s.shutdown = true) :
      LockMove s t woken { s with pc := Function.update s.pc t (.returned (.data none)) }
  | sleepsEmpty (hfrom : (s.pc t).dequeues) (hempty : queueIsEmpty s.queue = true)
      (hdown : s.shutdown = false) :
      LockMove s t woken { s with pc := Function.update s.pc t .dequeueWait }
  | takes (q : QueueT α) (d : α) (hfrom : (s.pc t).dequeues)
      (hempty : queueIsEmpty s.queue = false) (hsig : Signals s.pc .notFull woken)
      (hq : queueTakeHead s.queue = some (q, d)) :
      LockMove s t woken { s with
        queue := q
        removed := s.removed ++ [d]
        pc := Function.update (wakeThreads s.pc woken) t (.returned (.data (some d))) }

/-- What a step does. -/
inductive QMove (s : QState T α) : QEvent T α → QState T α → Prop
  | locks {s' : QState T α} (t : T) (woken : List T) (h : LockMove s t woken s') :
      QMove s (.lock t woken) s'
  | goes {ev : QEvent T α} (t : T) (p : QPc α) (hp : p.pending = none) (hq : p.quiet)
      (hfrom : (s.pc t).quiet) : QMove s ev { s with pc := Function.update s.pc t p }
  | allocates {ev : QEvent T α} (t : T) (d : α) (hfrom : (s.pc t).isIdle = true) :
      QMove s ev { s with
        queue := (queueNodeNew s.queue d).1
        pc := Function.update s.pc t (.enqueueLock (queueNodeNew s.queue d).2 d) }
  | wakes {ev : QEvent T α} (wakes : T → Prop) [DecidablePred wakes] :
      QMove s ev { s with pc := fun u => if wakes u then (s.pc u).wake else s.pc u }
  | signals {ev : QEvent T α} : QMove s ev { s with shutdown := true }

/-! ### The critical sections

What a thread does between taking the mutex and giving it back.
-/

section Steps

variable [Fintype T]

theorem enqueueSection_move {t : T} {n : Nat} {d : α} {woken : List T}
    (hfrom : (s.pc t).enqueues n d) (h : enqueueSection s t n d woken = some s') :
    LockMove s t woken s' := by
  unfold enqueueSection at h
  split at h
  · rename_i hfull
    cases h
    exact .sleepsFull n d hfrom hfull
  · rename_i hfull
    split at h
    · rename_i hsig
      obtain ⟨q, hq, hs⟩ := Option.bind_eq_some_iff.mp h
      cases hs
      exact .appends n d q hfrom (by simpa using hfull) hsig hq
    · simp at h

theorem dequeueSection_move {t : T} {woken : List T} (hfrom : (s.pc t).dequeues)
    (h : dequeueSection s t woken = some s') : LockMove s t woken s' := by
  unfold dequeueSection at h
  split at h
  · rename_i hempty
    split at h
    · rename_i hdown
      cases h
      exact .leaves hfrom hempty hdown
    · rename_i hdown
      cases h
      exact .sleepsEmpty hfrom hempty (by simpa using hdown)
  · rename_i hempty
    split at h
    · rename_i hsig
      obtain ⟨⟨q, d⟩, hq, hs⟩ := Option.bind_eq_some_iff.mp h
      cases hs
      exact .takes q d hfrom (by simpa using hempty) hsig hq
    · simp at h

theorem queueStep_lock {t : T} {woken : List T} (h : queueStep s (.lock t woken) = some s') :
    LockMove s t woken s' := by
  simp only [queueStep] at h
  split at h
  · rename_i n d hp
    exact enqueueSection_move (.inl hp) h
  · rename_i n d hp
    exact enqueueSection_move (.inr hp) h
  · rename_i hp
    exact dequeueSection_move (.inl hp) h
  · rename_i hp
    exact dequeueSection_move (.inr hp) h
  · simp at h

omit [Fintype T] in
/-- Waking one thread. -/
theorem update_wake (pc : T → QPc α) (t : T) :
    Function.update pc t (pc t).wake = fun u => if u = t then (pc u).wake else pc u := by
  funext u
  by_cases hu : u = t
  · subst hu
    simp
  · simp [hu]

/-- Every step is one of the moves. -/
theorem queueStep_move {ev : QEvent T α} (h : queueStep s ev = some s') : QMove s ev s' := by
  cases ev with
  | callEnqueue t data calloc =>
      simp only [queueStep] at h
      split at h
      · rename_i hidle
        have hfrom : (s.pc t).quiet := QPc.quiet_of_isIdle hidle
        split at h
        · cases h
          exact .goes t _ rfl (QPc.quiet_returned _) hfrom
        · rename_i d
          split at h
          · cases h
            exact .allocates t d hidle
          · cases h
            exact .goes t _ rfl (QPc.quiet_returned _) hfrom
      · simp at h
  | callDequeue t =>
      simp only [queueStep] at h
      split at h
      · rename_i hidle
        cases h
        exact .goes t _ rfl QPc.quiet_dequeueLock (QPc.quiet_of_isIdle hidle)
      · simp at h
  | lock t woken => exact .locks t woken (queueStep_lock h)
  | peek t =>
      simp only [queueStep] at h
      split at h
      · rename_i hidle
        obtain ⟨d, -, hs⟩ := Option.bind_eq_some_iff.mp h
        cases hs
        exact .goes t _ rfl (QPc.quiet_returned _) (QPc.quiet_of_isIdle hidle)
      · simp at h
  | spurious t =>
      simp only [queueStep] at h
      split at h
      · cases h
        rw [update_wake]
        exact .wakes fun u => u = t
      · simp at h
  | signal =>
      cases h
      exact .signals
  | broadcast =>
      cases h
      exact .wakes fun u => (s.pc u).waits .notEmpty = true
  | ret t =>
      simp only [queueStep] at h
      split at h
      · rename_i r hp
        cases h
        refine .goes t _ rfl QPc.quiet_idle ?_
        rw [hp]
        exact QPc.quiet_returned _
      · simp at h

end Steps

/-! ### Waking

A thread that is woken is in the same call still, with the same node.
-/

@[simp] theorem QPc.pending_wake (p : QPc α) : p.wake.pending = p.pending := by
  cases p <;> rfl

theorem pending_wakeThreads (pc : T → QPc α) (woken : List T) (u : T) :
    (wakeThreads pc woken u).pending = (pc u).pending := by
  unfold wakeThreads
  split
  · exact QPc.pending_wake _
  · rfl

/-! ### The other threads

What a step does to a thread that does not take it.
-/

omit [DecidableEq T] in
/-- Every thread but `t` stays where it is or is woken. -/
def Others (pc pc' : T → QPc α) (t : T) : Prop :=
  ∀ u, u ≠ t → pc' u = pc u ∨ pc' u = (pc u).wake

namespace Others

theorem update (pc : T → QPc α) (t : T) (p : QPc α) : Others pc (Function.update pc t p) t :=
  fun _ hu => .inl (Function.update_of_ne hu _ _)

theorem update_wake (pc : T → QPc α) (woken : List T) (t : T) (p : QPc α) :
    Others pc (Function.update (wakeThreads pc woken) t p) t := by
  intro u hu
  rw [Function.update_of_ne hu, wakeThreads]
  split
  · exact .inr rfl
  · exact .inl rfl

omit [DecidableEq T] in
theorem broadcast (pc : T → QPc α) (t : T) :
    Others pc (fun u => if (pc u).waits .notEmpty then (pc u).wake else pc u) t := by
  intro u _
  by_cases hw : (pc u).waits .notEmpty = true
  · exact .inr (if_pos hw)
  · exact .inl (if_neg hw)

end Others

namespace LockMove

variable {t : T} {woken : List T}

/-- What a thread does with the mutex only wakes the others. -/
theorem others (h : LockMove s t woken s') : Others s.pc s'.pc t := by
  cases h with
  | sleepsFull => exact .update _ _ _
  | appends => exact .update_wake _ _ _ _
  | leaves => exact .update _ _ _
  | sleepsEmpty => exact .update _ _ _
  | takes => exact .update_wake _ _ _ _

/-- An enqueuer goes to sleep, or returns with its element in the queue. -/
theorem of_enqueues (h : LockMove s t woken s') {n : Nat} {d : α} (ht : (s.pc t).enqueues n d) :
    s'.removed = s.removed ∧
      (s'.pc t = .enqueueWait n d ∧ s'.inserted = s.inserted ∨
        s'.pc t = .returned (.code .success) ∧ s'.inserted = s.inserted ++ [d]) := by
  have hnot : ¬ (s.pc t).dequeues := by
    rintro (hp | hp) <;> rcases ht with ht | ht <;> rw [hp] at ht <;> simp at ht
  cases h with
  | sleepsFull n' d' hfrom =>
      obtain ⟨rfl, rfl⟩ := Prod.mk.inj (Option.some.inj (hfrom.pending.symm.trans ht.pending))
      exact ⟨rfl, .inl ⟨Function.update_self .., rfl⟩⟩
  | appends n' d' q hfrom =>
      obtain ⟨rfl, rfl⟩ := Prod.mk.inj (Option.some.inj (hfrom.pending.symm.trans ht.pending))
      exact ⟨rfl, .inr ⟨Function.update_self .., rfl⟩⟩
  | leaves hfrom => exact absurd hfrom hnot
  | sleepsEmpty hfrom => exact absurd hfrom hnot
  | takes q d hfrom => exact absurd hfrom hnot

/-- A dequeuer goes to sleep, or returns with or without an element. -/
theorem of_dequeues (h : LockMove s t woken s') (ht : (s.pc t).dequeues) :
    s'.inserted = s.inserted ∧
      (s'.pc t = .dequeueWait ∧ s'.removed = s.removed ∨
        s'.pc t = .returned (.data none) ∧ s'.removed = s.removed ∨
        ∃ d, s'.pc t = .returned (.data (some d)) ∧ s'.removed = s.removed ++ [d]) := by
  have hnot : ∀ n d, ¬ (s.pc t).enqueues n d := by
    rintro n d (hp | hp) <;> rcases ht with ht | ht <;> rw [hp] at ht <;> simp at ht
  cases h with
  | sleepsFull n d hfrom => exact absurd hfrom (hnot n d)
  | appends n d q hfrom => exact absurd hfrom (hnot n d)
  | leaves hfrom => exact ⟨rfl, .inr (.inl ⟨Function.update_self .., rfl⟩)⟩
  | sleepsEmpty hfrom => exact ⟨rfl, .inl ⟨Function.update_self .., rfl⟩⟩
  | takes q d hfrom => exact ⟨rfl, .inr (.inr ⟨d, Function.update_self .., rfl⟩)⟩

theorem from_cases (h : LockMove s t woken s') :
    (∃ n d, (s.pc t).enqueues n d) ∨ (s.pc t).dequeues := by
  cases h with
  | sleepsFull n d hfrom => exact .inl ⟨n, d, hfrom⟩
  | appends n d q hfrom => exact .inl ⟨n, d, hfrom⟩
  | leaves hfrom => exact .inr hfrom
  | sleepsEmpty hfrom => exact .inr hfrom
  | takes q d hfrom => exact .inr hfrom

theorem inserted_subset (h : LockMove s t woken s') : s.inserted ⊆ s'.inserted := by
  cases h with
  | appends => exact List.subset_append_left _ _
  | sleepsFull => exact List.Subset.refl _
  | leaves => exact List.Subset.refl _
  | sleepsEmpty => exact List.Subset.refl _
  | takes => exact List.Subset.refl _

end LockMove

end CmakeTemplate
