/-
No wake-up of the queue is lost.

While some consumer is asleep on `not_empty`, at least as many consumers have been
woken and not yet resumed as there are elements; while some producer is asleep on
`not_full`, at least as many producers as there are free places.  A thread goes to
sleep only when there is nothing to wait for, each new element and each new place
wakes one more sleeper, and a thread that takes one without having been woken leaves
one fewer to be taken.
-/
import CmakeTemplate.Proofs.Queue.Step
import CmakeTemplate.Lib.Count
import CmakeTemplate.Lib.Word

namespace CmakeTemplate

open Lib

variable {T α : Type}

/-- How many threads have been woken on `cond` and have not resumed. -/
def wokenCount [Fintype T] (pc : T → QPc α) (cond : QCond) : Nat :=
  count pc fun p => p.woken cond

/-- Some thread is asleep on `cond`. -/
def Asleep (pc : T → QPc α) (cond : QCond) : Prop := ∃ u, (pc u).waits cond = true

/-- Woken threads answer for the elements, and for the free places of a bounded queue. -/
structure WakeInv [Fintype T] (s : QState T α) : Prop where
  /-- With a consumer asleep, there is a woken one for every element. -/
  notEmpty : Asleep s.pc .notEmpty → s.queue.currentSize.toNat ≤ wokenCount s.pc .notEmpty
  /-- With a producer asleep, there is a woken one for every free place. -/
  notFull : s.queue.maxSize ≠ 0 → Asleep s.pc .notFull →
    s.queue.maxSize.toNat - s.queue.currentSize.toNat ≤ wokenCount s.pc .notFull

/-! ### Waking one thread

A thread is asleep on a condition, woken on it, or neither.
-/

theorem QPc.waits_wake (p : QPc α) (cond : QCond) : p.wake.waits cond = false := by
  cases p <;> cases cond <;> rfl

theorem QPc.woken_wake {p : QPc α} {cond : QCond} (h : p.woken cond = true) :
    p.wake.woken cond = true := by
  cases p <;> cases cond <;> simp_all [wake, woken]

theorem QPc.woken_of_waits {p : QPc α} {cond : QCond} (h : p.waits cond = true) :
    p.wake.woken cond = true ∧ p.woken cond = false := by
  cases p <;> cases cond <;> simp_all [wake, waits, woken]

/-! ### Threads that stay where they are or are woken

The count of those woken on a condition, behind a step of one thread.
-/

namespace Others

variable {pc pc' : T → QPc α} {t : T} {cond : QCond}

/-- Only `t` can have gone to sleep. -/
theorem asleep (h : Others pc pc' t) (ht : (pc' t).waits cond = false) (hex : Asleep pc' cond) :
    Asleep pc cond := by
  obtain ⟨u, hu⟩ := hex
  by_cases hut : u = t
  · rw [hut, ht] at hu
    simp at hu
  · rcases h u hut with he | he
    · exact ⟨u, he ▸ hu⟩
    · rw [he, QPc.waits_wake] at hu
      simp at hu

theorem woken (h : Others pc pc' t) (u : T) (hu : u ≠ t) (hw : (pc u).woken cond = true) :
    (pc' u).woken cond = true := by
  rcases h u hu with he | he <;> rw [he]
  · exact hw
  · exact QPc.woken_wake hw

/-- A thread that was not woken itself leaves the woken ones alone. -/
theorem wokenCount_le [Fintype T] (h : Others pc pc' t) (ht : (pc t).woken cond = false) :
    wokenCount pc cond ≤ wokenCount pc' cond := by
  refine count_le fun u hw => h.woken u ?_ hw
  rintro rfl
  simp [ht] at hw

end Others

variable [DecidableEq T] [Fintype T] {s s' : QState T α}

/-- The condition variable was signalled: if anybody was asleep, one more is woken now. -/
theorem wokenCount_signalled {pc : T → QPc α} {cond : QCond} {woken : List T} {t : T} {p : QPc α}
    (hsig : Signals pc cond woken) (hex : Asleep pc cond) (ht : (pc t).waits cond = false)
    (htw : (pc t).woken cond = false) :
    wokenCount pc cond + 1
      ≤ wokenCount (Function.update (wakeThreads pc woken) t p) cond := by
  obtain ⟨v, hv⟩ := List.exists_mem_of_ne_nil woken (hsig.2 hex)
  have hwait := hsig.1 v hv
  have hvt : v ≠ t := by
    rintro rfl
    simp [ht] at hwait
  refine count_lt (fun u hw => (Others.update_wake pc woken t p).woken u ?_ hw) v ?_ ?_
  · rintro rfl
    simp [htw] at hw
  · exact (QPc.woken_of_waits hwait).2
  · rw [Function.update_of_ne hvt, wakeThreads, if_pos hv]
    exact (QPc.woken_of_waits hwait).1

/-! ### One step

Each move keeps the two inequalities.
-/

theorem QPc.enqueues_awake {p : QPc α} {n : Nat} {d : α} (h : p.enqueues n d) (cond : QCond) :
    p.waits cond = false ∧ p.woken .notEmpty = false := by
  rcases h with rfl | rfl <;> cases cond <;> exact ⟨rfl, rfl⟩

theorem QPc.dequeues_awake {p : QPc α} (h : p.dequeues) (cond : QCond) :
    p.waits cond = false ∧ p.woken .notFull = false := by
  rcases h with rfl | rfl <;> cases cond <;> exact ⟨rfl, rfl⟩

theorem queueAppend_sizes {q q' : QueueT α} {n : Nat} (h : queueAppend q n = some q') :
    q'.currentSize = q.currentSize + 1 ∧ q'.maxSize = q.maxSize := by
  unfold queueAppend at h
  split at h
  · cases h
    exact ⟨rfl, rfl⟩
  · obtain ⟨nodes, -, hs⟩ := Option.bind_eq_some_iff.mp h
    cases hs
    exact ⟨rfl, rfl⟩

theorem queueTakeHead_sizes {q q' : QueueT α} {d : α} (h : queueTakeHead q = some (q', d)) :
    q'.currentSize = q.currentSize - 1 ∧ q'.maxSize = q.maxSize := by
  unfold queueTakeHead at h
  obtain ⟨c, -, h⟩ := Option.bind_eq_some_iff.mp h
  obtain ⟨nodes, -, hs⟩ := Option.bind_eq_some_iff.mp h
  cases hs
  exact ⟨rfl, rfl⟩

namespace WakeInv

/-- A thread that only changes its own place, and is not asleep there, keeps what it was
not woken for. -/
theorem inv_update (h : WakeInv s) {t : T} {p : QPc α} (hp : ∀ c, p.waits c = false)
    (hne : (s.pc t).woken .notEmpty = false ∨ s.queue.currentSize = 0)
    (hnf : (s.pc t).woken .notFull = false) :
    WakeInv { s with pc := Function.update s.pc t p } := by
  have hoth := Others.update s.pc t p
  have hself : ∀ c, (Function.update s.pc t p t).waits c = false := by simpa using hp
  refine ⟨fun hex => ?_, fun hmax hex => ?_⟩
  · rcases hne with hne | hzero
    · exact (h.notEmpty (hoth.asleep (hself _) hex)).trans (hoth.wokenCount_le hne)
    · simp [hzero]
  · exact (h.notFull hmax (hoth.asleep (hself _) hex)).trans (hoth.wokenCount_le hnf)

/-- Going to sleep in front of a full queue. -/
theorem sleepsFull (h : WakeInv s) {t : T} {n : Nat} {d : α} (hfrom : (s.pc t).enqueues n d)
    (hfull : queueIsFull s.queue = true) :
    WakeInv { s with pc := Function.update s.pc t (.enqueueWait n d) } := by
  have hoth := Others.update s.pc t (.enqueueWait n d)
  refine ⟨fun hex => ?_, fun _ _ => ?_⟩
  · exact (h.notEmpty (hoth.asleep (by simp [QPc.waits]) hex)).trans
      (hoth.wokenCount_le (QPc.enqueues_awake hfrom .notEmpty).2)
  · have hge : s.queue.maxSize.toNat ≤ s.queue.currentSize.toNat := by
      simp only [queueIsFull, Bool.and_eq_true, decide_eq_true_eq] at hfull
      exact UInt32.le_iff_toNat_le.mp hfull.2
    show s.queue.maxSize.toNat - s.queue.currentSize.toNat ≤ _
    omega

/-- Going to sleep in front of an empty queue. -/
theorem sleepsEmpty (h : WakeInv s) {t : T} (hfrom : (s.pc t).dequeues)
    (hempty : queueIsEmpty s.queue = true) :
    WakeInv { s with pc := Function.update s.pc t .dequeueWait } := by
  have hoth := Others.update s.pc t .dequeueWait
  refine ⟨fun _ => ?_, fun hmax hex => ?_⟩
  · have hzero : s.queue.currentSize = 0 := by simpa [queueIsEmpty] using hempty
    simp [hzero]
  · exact (h.notFull hmax (hoth.asleep (by simp [QPc.waits]) hex)).trans
      (hoth.wokenCount_le (QPc.dequeues_awake hfrom .notFull).2)

/-- One more element, and one more woken consumer if any is asleep; one place fewer, and
perhaps one woken producer fewer. -/
theorem inv_append (h : WakeInv s) {t : T} {n : Nat} {d : α} {woken : List T} {q : QueueT α}
    (hfrom : (s.pc t).enqueues n d) (hfull : queueIsFull s.queue = false)
    (hsig : Signals s.pc .notEmpty woken) (hq : queueAppend s.queue n = some q) :
    WakeInv { s with
      queue := q
      inserted := s.inserted ++ [d]
      pc := Function.update (wakeThreads s.pc woken) t (.returned (.code .success)) } := by
  obtain ⟨hsize, hmaxq⟩ := queueAppend_sizes hq
  have hoth := Others.update_wake s.pc woken t (.returned (.code .success))
  obtain ⟨hwt, hnw⟩ := QPc.enqueues_awake hfrom .notEmpty
  refine ⟨fun hex => ?_, fun hmax hex => ?_⟩
  · have hexold := hoth.asleep (by simp [QPc.waits]) hex
    have hone := wokenCount_signalled (p := .returned (.code .success)) hsig hexold hwt hnw
    show q.currentSize.toNat ≤ _
    rw [hsize]
    exact (toNat_succ_le _).trans ((Nat.succ_le_succ (h.notEmpty hexold)).trans hone)
  · have hmax' : s.queue.maxSize ≠ 0 := by rwa [← hmaxq]
    have hold := h.notFull hmax' (hoth.asleep (by simp [QPc.waits]) hex)
    have hle : wokenCount s.pc .notFull ≤ wokenCount _ .notFull + 1 := count_le_succ t hoth.woken
    have hlt : s.queue.currentSize.toNat < s.queue.maxSize.toNat := by
      have hb : s.queue.maxSize ≠ queueUnbounded := hmax'
      rw [← UInt32.lt_iff_toNat_lt]
      simpa [queueIsFull, hb] using hfull
    have hcur : q.currentSize.toNat = s.queue.currentSize.toNat + 1 := by
      have := s.queue.maxSize.toNat_lt
      rw [hsize, toNat_succ (by omega)]
    show q.maxSize.toNat - q.currentSize.toNat
      ≤ wokenCount (Function.update (wakeThreads s.pc woken) t _) .notFull
    rw [hmaxq, hcur]
    omega

/-- One element fewer, and perhaps one woken consumer fewer; one more place, and one
more woken producer if any is asleep. -/
theorem inv_takeHead (h : WakeInv s) {t : T} {d : α} {woken : List T} {q : QueueT α}
    (hfrom : (s.pc t).dequeues) (hempty : queueIsEmpty s.queue = false)
    (hsig : Signals s.pc .notFull woken) (hq : queueTakeHead s.queue = some (q, d)) :
    WakeInv { s with
      queue := q
      removed := s.removed ++ [d]
      pc := Function.update (wakeThreads s.pc woken) t (.returned (.data (some d))) } := by
  obtain ⟨hsize, hmaxq⟩ := queueTakeHead_sizes hq
  have hoth := Others.update_wake s.pc woken t (.returned (.data (some d)))
  obtain ⟨hwt, hnw⟩ := QPc.dequeues_awake hfrom .notFull
  have hpos : 0 < s.queue.currentSize.toNat := by
    refine Nat.pos_of_ne_zero fun hc => ?_
    simp [queueIsEmpty, eq_zero_iff.mpr hc] at hempty
  have hcur : q.currentSize.toNat = s.queue.currentSize.toNat - 1 := by
    rw [hsize, toNat_pred hpos]
  refine ⟨fun hex => ?_, fun hmax hex => ?_⟩
  · have hold := h.notEmpty (hoth.asleep (by simp [QPc.waits]) hex)
    have hle : wokenCount s.pc .notEmpty ≤ wokenCount _ .notEmpty + 1 := count_le_succ t hoth.woken
    show q.currentSize.toNat
      ≤ wokenCount (Function.update (wakeThreads s.pc woken) t _) .notEmpty
    rw [hcur]
    omega
  · have hmax' : s.queue.maxSize ≠ 0 := by rwa [← hmaxq]
    have hexold := hoth.asleep (by simp [QPc.waits]) hex
    have hold := h.notFull hmax' hexold
    have hone := wokenCount_signalled (p := .returned (.data (some d))) hsig hexold hwt hnw
    show q.maxSize.toNat - q.currentSize.toNat
      ≤ wokenCount (Function.update (wakeThreads s.pc woken) t _) .notFull
    rw [hmaxq, hcur]
    omega

omit [DecidableEq T] in
/-- Waking threads for no reason only helps. -/
theorem inv_wake (h : WakeInv s) (wakes : T → Prop) [DecidablePred wakes] :
    WakeInv { s with pc := fun u => if wakes u then (s.pc u).wake else s.pc u } := by
  have hoth : ∀ t, Others s.pc (fun u => if wakes u then (s.pc u).wake else s.pc u) t := by
    intro t u _
    by_cases hu : wakes u
    · exact .inr (if_pos hu)
    · exact .inl (if_neg hu)
  -- a sleeper was asleep before, and was not one of the woken
  have hsleeper : ∀ {cond u}, (if wakes u then (s.pc u).wake else s.pc u).waits cond = true →
      (s.pc u).waits cond = true := by
    intro cond u hu
    split at hu
    · rw [QPc.waits_wake] at hu
      simp at hu
    · exact hu
  refine ⟨fun ⟨u, hu⟩ => ?_, fun hmax ⟨u, hu⟩ => ?_⟩
  · exact (h.notEmpty ⟨u, hsleeper hu⟩).trans
      ((hoth u).wokenCount_le (QPc.woken_of_waits (hsleeper hu)).2)
  · exact (h.notFull hmax ⟨u, hsleeper hu⟩).trans
      ((hoth u).wokenCount_le (QPc.woken_of_waits (hsleeper hu)).2)

end WakeInv

theorem QMove.wakeInv {ev : QEvent T α} (hm : QMove s ev s') (h : WakeInv s) : WakeInv s' := by
  cases hm with
  | goes t p hp hq hfrom =>
      exact h.inv_update (fun c => (hq c).1) (.inl (hfrom .notEmpty).2) (hfrom .notFull).2
  | allocates t d hfrom =>
      have hquiet := QPc.quiet_of_isIdle hfrom
      have hmoved := h.inv_update (p := .enqueueLock (queueNodeNew s.queue d).2 d)
        (fun c => by cases c <;> rfl) (.inl (hquiet .notEmpty).2) (hquiet .notFull).2
      exact ⟨hmoved.notEmpty, hmoved.notFull⟩
  | wakes wakes => exact h.inv_wake wakes
  | signals => exact ⟨h.notEmpty, h.notFull⟩
  | locks t woken hlock =>
      cases hlock with
      | sleepsFull n d hfrom hfull => exact h.sleepsFull hfrom hfull
      | appends n d q hfrom hfull hsig hq => exact h.inv_append hfrom hfull hsig hq
      | leaves hfrom hempty hdown =>
          refine h.inv_update (fun c => by cases c <;> rfl) (.inr ?_)
            (QPc.dequeues_awake hfrom .notFull).2
          simpa [queueIsEmpty] using hempty
      | sleepsEmpty hfrom hempty hdown => exact h.sleepsEmpty hfrom hempty
      | takes q d hfrom hempty hsig hq => exact h.inv_takeHead hfrom hempty hsig hq

/-! ### Every run

No condition on the run is needed, not even for the counter.
-/

/-- No wake-up is lost, on any run. -/
theorem queueSystem_wakeInv {maxSize : UInt32} (h : (queueSystem T α maxSize).Reach s) :
    WakeInv s := by
  refine h.invariant (I := WakeInv) ?_ ?_
  · rintro s rfl
    refine ⟨fun ⟨u, hu⟩ => ?_, fun _ ⟨u, hu⟩ => ?_⟩
    · simp [queueStart, QPc.waits] at hu
    · simp [queueStart, QPc.waits] at hu
  · intro s ev s' hinv hs
    exact (queueStep_move hs).wakeInv hinv

/-- Two consumers asleep, and an enqueue that wakes the first. -/
theorem queueSystem_wakeInv_run :
    ∃ s, (queueSystem (Fin 3) Nat 1).run (queueStart (Fin 3) 1) [.callDequeue 0, .lock 0 [],
        .callDequeue 1, .lock 1 [], .callEnqueue 2 (some 7) true, .lock 2 [0]] = some s ∧
      (s.pc 1).waits .notEmpty = true ∧ WakeInv s := by
  obtain ⟨s, hs, hw⟩ : ∃ s, (queueSystem (Fin 3) Nat 1).run (queueStart (Fin 3) 1)
      [.callDequeue 0, .lock 0 [], .callDequeue 1, .lock 1 [], .callEnqueue 2 (some 7) true,
        .lock 2 [0]] = some s ∧ (s.pc 1).waits .notEmpty = true := ⟨_, rfl, rfl⟩
  exact ⟨s, hs, hw, queueSystem_wakeInv ((System.Reach.init rfl).run hs)⟩

omit [DecidableEq T] in
/-- The queue is never non-empty with every consumer asleep, nor bounded and not full
with every producer asleep. -/
theorem WakeInv.not_all_asleep (h : WakeInv s) :
    (Asleep s.pc .notEmpty → wokenCount s.pc .notEmpty = 0 → s.queue.currentSize = 0) ∧
    (s.queue.maxSize ≠ 0 → Asleep s.pc .notFull → wokenCount s.pc .notFull = 0 →
      s.queue.maxSize ≤ s.queue.currentSize) := by
  refine ⟨fun hex hno => ?_, fun hmax hex hno => ?_⟩
  · have := h.notEmpty hex
    rw [eq_zero_iff]
    omega
  · have := h.notFull hmax hex
    rw [UInt32.le_iff_toNat_le]
    omega

end CmakeTemplate
