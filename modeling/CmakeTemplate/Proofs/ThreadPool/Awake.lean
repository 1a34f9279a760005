/-
Nobody sleeps behind a broadcast that finds the flag set.

`queue_dequeue` looks at `signal_flag` under the mutex and before each wait, so a worker that
read ACTIVE in its loop reads SHUTDOWN there and does not go to sleep.  `Awake`, that the flag
is set and nobody is blocked on `not_empty`, is what the broadcast leaves and every step
keeps; a thread that waits for room in a bounded queue is another matter and does not occur in
a pool.

A worker then has at most the one dequeue left that it is in.  If it comes back with a task,
it executes that, looks at the flag and leaves.  So behind the broadcast each worker begins
one task at most, whatever the threads do and however many tasks there are.  The state before
the broadcast is any with the flag set.
-/
import CmakeTemplate.Proofs.ThreadPool.Conserve
import CmakeTemplate.Proofs.Queue.Wakeup

namespace CmakeTemplate

open Lib

/-- The flag is set, and nobody is blocked on `not_empty`. -/
structure Awake {T α : Type} (q : QState T α) : Prop where
  /-- The flag is set. -/
  down : q.shutdown = true
  /-- Nobody sleeps in front of an empty queue. -/
  nobody : ∀ t, (q.pc t).waits .notEmpty = false

section Queue

variable {T α : Type} [DecidableEq T] {q q' : QState T α}

theorem Awake.awake_update (h : Awake q) (queue : QueueT α) (inserted removed : List α) (t : T)
    {p : QPc α} (hp : p.waits .notEmpty = false) :
    Awake { q with queue, inserted, removed, pc := Function.update q.pc t p } := by
  refine ⟨h.down, ?_⟩
  intro u
  show (Function.update q.pc t p u).waits .notEmpty = false
  by_cases hu : u = t
  · rw [hu, Function.update_self]
    exact hp
  · rw [Function.update_of_ne hu]
    exact h.nobody u

omit [DecidableEq T] in
theorem Awake.awake_wake (h : Awake q) (wakes : T → Prop) [DecidablePred wakes] :
    Awake { q with pc := fun u => if wakes u then (q.pc u).wake else q.pc u } := by
  refine ⟨h.down, ?_⟩
  intro u
  show (if wakes u then (q.pc u).wake else q.pc u).waits .notEmpty = false
  split
  · exact QPc.waits_wake _ _
  · exact h.nobody u

theorem Awake.wakeThreads (h : Awake q) (woken : List T) :
    Awake { q with pc := CmakeTemplate.wakeThreads q.pc woken } :=
  h.awake_wake fun u => u ∈ woken

/-- With the mutex and the flag a thread does not go to sleep on an empty queue. -/
theorem LockMove.awake {t : T} {woken : List T} (hm : LockMove q t woken q') (h : Awake q) :
    Awake q' := by
  cases hm with
  | sleepsFull n d => exact h.awake_update _ _ _ t rfl
  | appends n d queue => exact (h.wakeThreads woken).awake_update _ _ _ t rfl
  | leaves => exact h.awake_update _ _ _ t rfl
  | sleepsEmpty hfrom hempty hdown => exact absurd (h.down.symm.trans hdown) Bool.noConfusion
  | takes queue d => exact (h.wakeThreads woken).awake_update _ _ _ t rfl

theorem QMove.awake {ev : QEvent T α} (hm : QMove q ev q') (h : Awake q) : Awake q' := by
  cases hm with
  | locks t woken hl => exact hl.awake h
  | goes t p hp hquiet => exact h.awake_update _ _ _ t (hquiet .notEmpty).1
  | allocates t d => exact h.awake_update _ _ _ t rfl
  | wakes wakes => exact h.awake_wake wakes
  | signals => exact ⟨rfl, h.nobody⟩

omit [DecidableEq T] in
/-- What the broadcast leaves. -/
theorem awake_broadcast (hdown : q.shutdown = true) :
    Awake { q with pc := fun u => if (q.pc u).waits .notEmpty then (q.pc u).wake else q.pc u } := by
  refine ⟨hdown, ?_⟩
  intro u
  show (if (q.pc u).waits .notEmpty then (q.pc u).wake else q.pc u).waits .notEmpty = false
  by_cases hw : (q.pc u).waits .notEmpty = true
  · rw [if_pos hw]
    exact QPc.waits_wake _ _
  · rw [if_neg hw]
    exact Bool.not_eq_true _ ▸ hw

end Queue

/-! ### The pool

How many tasks a worker can still begin, from the place where it is.
-/

variable {S W : Type} [DecidableEq S] [DecidableEq W]

/-- The task function is called by `w`. -/
def PoolEvent.executes (w : W) : PoolEvent S W → Bool
  | execute v => v = w
  | _ => false

/-- How many tasks a worker can still begin, with the flag set. -/
def WorkerPc.toBegin : WorkerPc → Nat
  | dequeueing => 1
  | got _ => 1
  | _ => 0

theorem WorkerPc.toBegin_le (o : WorkerPc) : o.toBegin ≤ 1 := by
  cases o with
  | dequeueing => exact Nat.le_refl 1
  | got task => exact Nat.le_refl 1
  | _ => exact Nat.zero_le 1

variable [Fintype S] [Fintype W] {s s' t : PoolState S W}

theorem queueDo_worker {ev : QEvent (PThread S W) TaskT} {f : PoolState S W → PoolState S W}
    (h : queueDo s ev f = some s') : ∃ q, s' = f { s with q } := by
  obtain ⟨q, -, hq⟩ := Option.map_eq_some_iff.mp h
  exact ⟨q, hq.symm⟩

/-- With the flag set a worker gives up one of the tasks it can begin for each it begins. -/
theorem workerStep_toBegin (hdown : s.q.shutdown = true) {v : W} {ev : PoolEvent S W}
    (h : workerStep s v ev = some s') :
    ∃ o, s'.worker = Function.update s.worker v o ∧
      (ev.executes v).toNat + o.toBegin ≤ (s.worker v).toBegin := by
  cases ev with
  | loop _ =>
      simp only [workerStep] at h
      split at h
      · rw [if_pos hdown] at h
        cases h
        exact ⟨.exited, rfl, Nat.zero_le _⟩
      · simp at h
  | taskTaken _ =>
      simp only [workerStep] at h
      split at h
      · rename_i task hw _
        obtain ⟨q, rfl⟩ := queueDo_worker h
        refine ⟨.got task, rfl, ?_⟩
        rw [hw]
        exact Nat.le_refl 1
      · obtain ⟨q, rfl⟩ := queueDo_worker h
        exact ⟨.loop, rfl, Nat.zero_le _⟩
      · simp at h
  | execute u =>
      simp only [workerStep] at h
      split at h
      · rename_i task hw
        cases h
        refine ⟨.running task, rfl, ?_⟩
        rw [hw]
        exact Bool.toNat_le _
      · simp at h
  | executed _ =>
      simp only [workerStep] at h
      split at h
      · rename_i task _
        cases h
        exact ⟨.ran task, rfl, Nat.zero_le _⟩
      · simp at h
  | argFree _ =>
      simp only [workerStep] at h
      split at h
      · rename_i task _
        cases h
        exact ⟨.processed task, rfl, Nat.zero_le _⟩
      · simp at h
  | freeTask _ =>
      simp only [workerStep] at h
      split at h
      · cases h
        exact ⟨.loop, rfl, Nat.zero_le _⟩
      · simp at h
  | _ => simp [workerStep] at h

theorem submitterStep_worker {i : S} {ev : PoolEvent S W} (h : submitterStep s i ev = some s') :
    s'.worker = s.worker := by
  unfold submitterStep at h
  split at h
  · split at h
    · split at h
      · cases h
        rfl
      · cases h
        rfl
    · simp at h
  · split at h
    · split at h
      · cases h
        rfl
      · cases h
        rfl
    · simp at h
  · split at h
    · obtain ⟨q, rfl⟩ := queueDo_worker h
      rfl
    · simp at h
  · split at h
    · obtain ⟨q, rfl⟩ := queueDo_worker h
      rfl
    · obtain ⟨q, rfl⟩ := queueDo_worker h
      rfl
    · simp at h
  · simp at h

/-- The main thread moves no other thread. -/
theorem mainStep_others {ev : PoolEvent S W} (h : mainStep s ev = some s') :
    s'.worker = s.worker ∧ s'.submitter = s.submitter := by
  unfold mainStep at h
  split at h
  · split at h
    · cases h
      exact ⟨rfl, rfl⟩
    · simp at h
  · split at h
    · cases h
      exact ⟨rfl, rfl⟩
    · simp at h
  · split at h
    · obtain ⟨q, rfl⟩ := queueDo_worker h
      exact ⟨rfl, rfl⟩
    · simp at h
  · split at h
    · split at h
      · cases h
        exact ⟨rfl, rfl⟩
      · simp at h
    · simp at h
  · split at h
    · split at h
      · obtain ⟨q, rfl⟩ := queueDo_worker h
        exact ⟨rfl, rfl⟩
      · cases h
        exact ⟨rfl, rfl⟩
    · simp at h
  · split at h
    · obtain ⟨q, rfl⟩ := queueDo_worker h
      exact ⟨rfl, rfl⟩
    · obtain ⟨q, rfl⟩ := queueDo_worker h
      exact ⟨rfl, rfl⟩
    · simp at h
  · simp at h

theorem poolStep_toBegin (hdown : s.q.shutdown = true) {ev : PoolEvent S W}
    (h : poolStep s ev = some s') (w : W) :
    (ev.executes w).toNat + (s'.worker w).toBegin ≤ (s.worker w).toBegin := by
  have hsame : s'.worker = s.worker → ev.executes w = false →
      (ev.executes w).toNat + (s'.worker w).toBegin ≤ (s.worker w).toBegin := by
    intro hs hev
    rw [hs, hev]
    exact Nat.le_of_eq (Nat.zero_add _)
  have hworker : ∀ v, workerStep s v ev = some s' → (ev.executes w = true → v = w) →
      (ev.executes w).toNat + (s'.worker w).toBegin ≤ (s.worker w).toBegin := by
    intro v hs hev
    obtain ⟨o, ho, hle⟩ := workerStep_toBegin hdown hs
    by_cases hv : w = v
    · rw [ho, hv, Function.update_self]
      exact hle
    · have hnot : ev.executes w = false :=
        Bool.eq_false_iff.mpr fun hc => hv (hev hc).symm
      rw [ho, Function.update_of_ne hv, hnot]
      exact Nat.le_of_eq (Nat.zero_add _)
  unfold poolStep at h
  split at h
  · simp at h
  · cases ev with
    | lock t woken =>
        obtain ⟨q, rfl⟩ := queueDo_worker h
        exact hsame rfl rfl
    | spurious t =>
        obtain ⟨q, rfl⟩ := queueDo_worker h
        exact hsame rfl rfl
    | signal =>
        obtain ⟨q, rfl⟩ := queueDo_worker h
        exact hsame rfl rfl
    | addTask => exact hsame (submitterStep_worker h) rfl
    | createTask => exact hsame (submitterStep_worker h) rfl
    | enqueueTask => exact hsame (submitterStep_worker h) rfl
    | taskAdded => exact hsame (submitterStep_worker h) rfl
    | loop v => exact hworker v h Bool.noConfusion
    | taskTaken v => exact hworker v h Bool.noConfusion
    | execute v => exact hworker v h of_decide_eq_true
    | executed v => exact hworker v h Bool.noConfusion
    | argFree v => exact hworker v h Bool.noConfusion
    | freeTask v => exact hworker v h Bool.noConfusion
    | shutdown => exact hsame (mainStep_others h).1 rfl
    | destroy => exact hsame (mainStep_others h).1 rfl
    | broadcast => exact hsame (mainStep_others h).1 rfl
    | join => exact hsame (mainStep_others h).1 rfl
    | clear => exact hsame (mainStep_others h).1 rfl
    | cleared => exact hsame (mainStep_others h).1 rfl

/-! ### Runs behind the broadcast

Each task that is begun is one less to begin.
-/

theorem poolStep_awake {ev : PoolEvent S W} (h : poolStep s ev = some s') (ha : Awake s.q) :
    Awake s'.q := by
  rcases (poolStep_move h).queue with hq | ⟨qev, hq, -⟩
  · rw [hq]
    exact ha
  · exact hq.awake ha

/-- Whatever the threads do behind a broadcast that finds the flag set, no thread sleeps on
`not_empty`, and each worker begins one task at most, the one it holds or the one it gets. -/
theorem broadcast_wakes_all (hdown : s.q.shutdown = true) (hb : poolStep s .broadcast = some s')
    {evs : List (PoolEvent S W)} (hr : (poolSystem S W).run s' evs = some t) :
    (∀ u, (t.q.pc u).waits .notEmpty = false) ∧
      ∀ w, evs.countP (PoolEvent.executes w) ≤ 1 := by
  have hawake : Awake s'.q := by
    unfold poolStep at hb
    split at hb
    · simp at hb
    · simp only [mainStep] at hb
      split at hb
      · obtain ⟨q, hq, rfl⟩ := Option.map_eq_some_iff.mp hb
        cases hq
        exact awake_broadcast hdown
      · simp at hb
  have hkeeps : ∀ s₁ ev s₂, Awake s₁.q → (poolSystem S W).step s₁ ev = some s₂ → Awake s₂.q :=
    fun _ _ _ ha hs => poolStep_awake hs ha
  constructor
  · exact (System.run_invariant hkeeps hr hawake).nobody
  · intro w
    have hbegin : ∀ s₁ ev s₂, Awake s₁.q → (poolSystem S W).step s₁ ev = some s₂ →
        Awake s₂.q ∧ (ev.executes w).toNat + (s₂.worker w).toBegin ≤ (s₁.worker w).toBegin :=
      fun s₁ ev s₂ ha hs => ⟨hkeeps s₁ ev s₂ ha hs, poolStep_toBegin ha.down hs w⟩
    have hcount := System.run_countP hbegin hr hawake
    exact Nat.le_trans (Nat.le_add_right _ _) (Nat.le_trans hcount (s'.worker w).toBegin_le)

/-- A worker that sleeps when the flag is set, and one that takes a task. -/
theorem broadcast_wakes_all_run :
    ∃ s s' t, (poolSystem Unit Bool).run (poolStart Unit Bool) [.loop true, .lock (.worker true) [],
        .loop false, .addTask () true, .createTask () true, .enqueueTask () true, .signal,
        .shutdown] = some s ∧
      (s.q.pc (.worker true)).waits .notEmpty = true ∧ poolStep s .broadcast = some s' ∧
      (poolSystem Unit Bool).run s' [.lock (.worker true) [], .taskTaken true, .loop true,
        .lock (.submitter ()) [], .lock (.worker false) [], .taskTaken false, .execute false] =
          some t ∧
      (∀ u, (t.q.pc u).waits .notEmpty = false) ∧
      ∀ w, [PoolEvent.lock (.worker true) [], .taskTaken true, .loop true,
        .lock (.submitter ()) [], .lock (.worker false) [], .taskTaken false, .execute false].countP
          (PoolEvent.executes w) ≤ 1 := by
  obtain ⟨s, s', t, hs, hdown, hasleep, hb, hr⟩ : ∃ s s' t, (poolSystem Unit Bool).run
        (poolStart Unit Bool) [.loop true, .lock (.worker true) [], .loop false, .addTask () true,
          .createTask () true, .enqueueTask () true, .signal, .shutdown] = some s ∧
      s.q.shutdown = true ∧ (s.q.pc (.worker true)).waits .notEmpty = true ∧
      poolStep s .broadcast = some s' ∧
      (poolSystem Unit Bool).run s' [.lock (.worker true) [], .taskTaken true, .loop true,
        .lock (.submitter ()) [], .lock (.worker false) [], .taskTaken false, .execute false] =
          some t :=
    ⟨_, _, _, rfl, rfl, rfl, rfl, rfl⟩
  exact ⟨s, s', t, hs, hasleep, hb, hr, broadcast_wakes_all hdown hb hr⟩

end CmakeTemplate
