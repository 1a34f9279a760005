/-
While the flag is not set, every accepted task is executed.

The measure is what is left to do for the workers: each has some steps to go before it sleeps on an
empty queue, and each task in the queue is worth a whole round of one of them.  A worker's own step
lowers it by one.  A task put in the queue raises it, and so does whoever wakes a sleeping worker.

When no worker can move, all of them sleep without having been woken; no wake-up is lost, so the
queue is empty then, and no worker has a task at hand.
-/
import CmakeTemplate.Proofs.ThreadPool.Shutdown
import CmakeTemplate.Proofs.Queue.Wakeup
import CmakeTemplate.Lib.Progress

namespace CmakeTemplate

open Lib

/-! ### What is left for a worker

How many steps each place of a worker is from the next sleep, or from the end of a round.
-/

/-- The steps of a worker in `queue_dequeue` before it sleeps there or has its next round behind it. -/
def QPc.dequeueWork : QPc TaskT → Nat
  | dequeueLock => 1
  | dequeueWoken => 1
  | returned (.data (some _)) => 7
  | returned _ => 3
  | _ => 0

def WorkerPc.work (p : QPc TaskT) : WorkerPc → Nat
  | loop => 2
  | dequeueing => p.dequeueWork
  | got _ => 6
  | running _ => 5
  | ran _ => 4
  | processed _ => 3
  | exited => 0

theorem QPc.dequeueWork_wake (p : QPc TaskT) : p.wake.dequeueWork ≤ p.dequeueWork + 1 := by
  cases p with
  | dequeueWait => exact Nat.le_refl 1
  | _ => exact Nat.le_succ _

theorem WorkerPc.work_wake (p : QPc TaskT) (o : WorkerPc) : o.work p.wake ≤ o.work p + 1 := by
  cases o with
  | dequeueing => exact p.dequeueWork_wake
  | _ => exact Nat.le_succ _

/-- A thread in `queue_dequeue` waits for an element and for nothing else. -/
theorem QPc.inDequeue.waits_notFull {α : Type} {p : QPc α} (h : p.inDequeue) :
    p.waits .notFull = false := by
  rcases h with (rfl | rfl) | rfl | ⟨d, rfl⟩ <;> rfl

theorem QPc.inDequeue.not_enqueues {α : Type} {p : QPc α} (h : p.inDequeue) (n : Nat) (d : α) :
    ¬ p.enqueues n d := by
  intro he
  rcases h with (rfl | rfl) | rfl | ⟨e, rfl⟩ <;> rcases he with he | he <;> cases he

theorem WorkerPc.Agrees.inDequeue_or_idle {p : QPc TaskT} {o : WorkerPc} (h : o.Agrees p) :
    o = .dequeueing ∧ p.inDequeue ∨ o ≠ .dequeueing ∧ p = .idle := by
  cases o with
  | dequeueing => exact .inl ⟨rfl, h⟩
  | _ => exact .inr ⟨nofun, h⟩

theorem WorkerPc.Agrees.waits_notFull {p : QPc TaskT} {o : WorkerPc} (h : o.Agrees p) :
    p.waits .notFull = false := by
  rcases h.inDequeue_or_idle with ⟨-, hp⟩ | ⟨-, rfl⟩
  · exact hp.waits_notFull
  · rfl

theorem WorkerPc.Agrees.not_enqueues {p : QPc TaskT} {o : WorkerPc} (h : o.Agrees p) (n : Nat)
    (d : TaskT) : ¬ p.enqueues n d := by
  rcases h.inDequeue_or_idle with ⟨-, hp⟩ | ⟨-, rfl⟩
  · exact hp.not_enqueues n d
  · rintro (he | he) <;> cases he

theorem WorkerPc.Agrees.of_dequeues {p : QPc TaskT} {o : WorkerPc} (h : o.Agrees p)
    (hp : p.dequeues) : o = .dequeueing := by
  rcases h.inDequeue_or_idle with ⟨ho, -⟩ | ⟨-, rfl⟩
  · exact ho
  · rcases hp with hp | hp <;> cases hp

theorem QPc.dequeues.work {p : QPc TaskT} (h : p.dequeues) : p.dequeueWork = 1 := by
  rcases h with rfl | rfl <;> rfl

/-! ### What is left for all of them

The sum over the workers, and the tasks in the queue.
-/

variable {S W : Type} [Fintype W] {s s' t : PoolState S W}

namespace PoolState

def workOf (s : PoolState S W) (w : W) : Nat := (s.worker w).work (s.q.pc (.worker w))

def work (s : PoolState S W) : Nat := ∑ w, s.workOf w + 7 * s.q.queue.currentSize.toNat

end PoolState

/-- The other threads wake workers at most. -/
theorem work_woken {k : Nat} (hworker : s'.worker = s.worker)
    (hpc : ∀ w, s'.q.pc (.worker w) = s.q.pc (.worker w) ∨
      s'.q.pc (.worker w) = (s.q.pc (.worker w)).wake)
    (hqueue : s'.q.queue.currentSize.toNat ≤ s.q.queue.currentSize.toNat + k) :
    s'.work ≤ s.work + (Fintype.card W + 7 * k) := by
  have hsum : ∑ w, s'.workOf w ≤ ∑ w, s.workOf w + Fintype.card W * 1 := by
    refine sum_le_add_card 1 fun w => ?_
    rw [PoolState.workOf, PoolState.workOf, hworker]
    rcases hpc w with hp | hp <;> rw [hp]
    · exact Nat.le_succ _
    · exact WorkerPc.work_wake _ _
  rw [PoolState.work, PoolState.work]
  omega

/-- Nothing changes for the workers. -/
theorem work_same (hworker : s'.worker = s.worker)
    (hpc : ∀ w, s'.q.pc (.worker w) = s.q.pc (.worker w))
    (hqueue : s'.q.queue.currentSize = s.q.queue.currentSize) : s'.work = s.work := by
  have hof : s'.workOf = s.workOf := by
    funext w
    rw [PoolState.workOf, PoolState.workOf, hworker, hpc]
  rw [PoolState.work, PoolState.work, hof, hqueue]

/-! ### One step

What each move does to the sum, at the thread that takes it.
-/

variable [DecidableEq S] [DecidableEq W]

omit [Fintype W] in
theorem workOf_ne {w v : W} {o : WorkerPc} {p : QPc TaskT}
    (hworker : s'.worker = Function.update s.worker w o)
    (hpc : s'.q.pc = Function.update s.q.pc (.worker w) p) (hv : v ≠ w) :
    s'.workOf v = s.workOf v := by
  have hne : (.worker v : PThread S W) ≠ .worker w := fun hc => hv (PThread.worker.inj hc)
  rw [PoolState.workOf, hworker, hpc, Function.update_of_ne hv, Function.update_of_ne hne,
    PoolState.workOf]

omit [DecidableEq S] in
/-- One worker has moved, and what it gave up and the queue are worth more than what it got. -/
theorem work_lt (w : W) (hothers : ∀ v, v ≠ w → s'.workOf v = s.workOf v)
    (hown : s'.workOf w + 7 * s'.q.queue.currentSize.toNat + 1
      ≤ s.workOf w + 7 * s.q.queue.currentSize.toNat) : s'.work + 1 ≤ s.work := by
  have hsum := sum_add_le_of_others w fun v hv => Nat.le_of_eq (hothers v hv)
  rw [PoolState.work, PoolState.work]
  omega

/-- A worker that leaves the queue alone. -/
theorem work_goes {w : W} {o : WorkerPc} {p : QPc TaskT}
    (hworker : s'.worker = Function.update s.worker w o)
    (hpc : s'.q.pc = Function.update s.q.pc (.worker w) p) (hqueue : s'.q.queue = s.q.queue)
    (hown : o.work p + 1 ≤ s.workOf w) : s'.work + 1 ≤ s.work := by
  have hself : s'.workOf w = o.work p := by
    rw [PoolState.workOf, hworker, hpc, Function.update_self, Function.update_self]
  refine work_lt w (fun v hv => workOf_ne hworker hpc hv) ?_
  rw [hself, hqueue]
  omega

/-- A worker that moves outside the queue. -/
theorem work_moves {w : W} {o : WorkerPc} (hworker : s'.worker = Function.update s.worker w o)
    (hq : s'.q = s.q) (hown : o.work (s.q.pc (.worker w)) + 1 ≤ s.workOf w) :
    s'.work + 1 ≤ s.work := by
  have hpc : s'.q.pc = Function.update s.q.pc (.worker w) (s.q.pc (.worker w)) := by
    rw [hq, Function.update_eq_self]
  exact work_goes hworker hpc (by rw [hq]) hown

variable [Fintype S]

/-- A worker's own step outside the critical sections. -/
theorem workerStep_work (hup : s.q.shutdown = false) {w : W} {ev : PoolEvent S W}
    (h : workerStep s w ev = some s') : s'.work + 1 ≤ s.work := by
  have hof : ∀ {o}, s.worker w = o → s.workOf w = o.work (s.q.pc (.worker w)) := by
    intro o ho
    rw [PoolState.workOf, ho]
  cases ev with
  | loop _ =>
      simp only [workerStep] at h
      split at h
      · rename_i hw
        rw [if_neg (by rw [hup]; exact Bool.noConfusion)] at h
        obtain ⟨-, rfl⟩ := queueDo_callDequeue h
        exact work_goes rfl rfl rfl (Nat.le_of_eq (hof hw).symm)
      · simp at h
  | taskTaken _ =>
      simp only [workerStep] at h
      split at h
      · rename_i task hw hp
        rw [queueDo_ret h]
        refine work_goes rfl rfl rfl (Nat.le_of_eq ?_)
        rw [hof hw, hp]
        rfl
      · rename_i hw hp
        rw [queueDo_ret h]
        refine work_goes rfl rfl rfl (Nat.le_of_eq ?_)
        rw [hof hw, hp]
        rfl
      · simp at h
  | execute _ =>
      simp only [workerStep] at h
      split at h
      · rename_i task hw
        cases h
        exact work_moves rfl rfl (Nat.le_of_eq (hof hw).symm)
      · simp at h
  | executed _ =>
      simp only [workerStep] at h
      split at h
      · rename_i task hw
        cases h
        exact work_moves rfl rfl (Nat.le_of_eq (hof hw).symm)
      · simp at h
  | argFree _ =>
      simp only [workerStep] at h
      split at h
      · rename_i task hw
        cases h
        exact work_moves rfl rfl (Nat.le_of_eq (hof hw).symm)
      · simp at h
  | freeTask _ =>
      simp only [workerStep] at h
      split at h
      · rename_i task hw
        cases h
        exact work_moves rfl rfl (Nat.le_of_eq (hof hw).symm)
      · simp at h
  | _ => simp [workerStep] at h

omit [Fintype S] in
/-- A worker with the mutex takes a task, which is worth its next round, or goes to sleep. -/
theorem LockMove.work_worker {w : W} {woken : List (PThread S W)}
    {q : QState (PThread S W) TaskT} (hm : LockMove s.q (.worker w) woken q)
    (hagree : ∀ u, Agrees s u) (hup : s.q.shutdown = false) :
    ({ s with q } : PoolState S W).work + 1 ≤ s.work := by
  have hw : ∀ v, (s.worker v).Agrees (s.q.pc (.worker v)) := fun v => hagree (.worker v)
  have hof : (s.q.pc (.worker w)).dequeues → s.worker w = .dequeueing ∧ s.workOf w = 1 := by
    intro hfrom
    have ho := (hw w).of_dequeues hfrom
    rw [PoolState.workOf, ho]
    exact ⟨rfl, hfrom.work⟩
  cases hm with
  | sleepsFull n d hfrom => exact absurd hfrom ((hw w).not_enqueues n d)
  | appends n d queue hfrom => exact absurd hfrom ((hw w).not_enqueues n d)
  | leaves hfrom hempty hdown => exact absurd (hup.symm.trans hdown) Bool.noConfusion
  | sleepsEmpty hfrom hempty hdown =>
      obtain ⟨ho, hone⟩ := hof hfrom
      have hself : s.worker = Function.update s.worker w .dequeueing := by
        rw [← ho, Function.update_eq_self]
      refine work_goes (p := .dequeueWait) hself rfl rfl ?_
      rw [hone]
      exact Nat.le_refl 1
  | takes queue d hfrom hempty hsig hq =>
      obtain ⟨ho, hone⟩ := hof hfrom
      have hpos : 0 < s.q.queue.currentSize.toNat := by
        refine Nat.pos_of_ne_zero fun hc => ?_
        simp [queueIsEmpty, eq_zero_iff.mpr hc] at hempty
      have hsize : queue.currentSize.toNat = s.q.queue.currentSize.toNat - 1 := by
        rw [(queueTakeHead_sizes hq).1, toNat_pred hpos]
      refine work_lt w (fun v hv => ?_) ?_
      · -- nobody but submitters waits for a place in the queue
        have hne : (.worker v : PThread S W) ≠ .worker w := fun hc => hv (PThread.worker.inj hc)
        have hwoken : (.worker v : PThread S W) ∉ woken := by
          intro hc
          exact absurd ((hsig.1 _ hc).symm.trans (hw v).waits_notFull) Bool.noConfusion
        show (s.worker v).work (Function.update (wakeThreads s.q.pc woken) _ _ _) = _
        rw [Function.update_of_ne hne, wakeThreads, if_neg hwoken]
        rfl
      · rw [hone]
        show (s.worker w).work (Function.update (wakeThreads s.q.pc woken) (PThread.worker w)
          (QPc.returned (.data (some d))) (PThread.worker w)) + 7 * queue.currentSize.toNat + 1 ≤ _
        rw [Function.update_self, ho, hsize]
        show 7 + _ + 1 ≤ _
        omega

omit [Fintype S] in
/-- Another thread with the mutex puts in one task, and wakes whom it wakes. -/
theorem LockMove.work_other {t : PThread S W} (ht : ∀ w, t ≠ .worker w)
    {woken : List (PThread S W)} {q : QState (PThread S W) TaskT} (hm : LockMove s.q t woken q) :
    ({ s with q } : PoolState S W).work ≤ s.work + (Fintype.card W + 7) := by
  have hothers : ∀ {p} w, Function.update s.q.pc t p (.worker w) = s.q.pc (.worker w) :=
    fun w => Function.update_of_ne (fun hc => ht w hc.symm) _ _
  have hwoken : ∀ {p} w, Function.update (wakeThreads s.q.pc woken) t p (.worker w)
      = s.q.pc (.worker w) ∨ Function.update (wakeThreads s.q.pc woken) t p (.worker w)
      = (s.q.pc (.worker w)).wake := by
    intro p w
    rw [Function.update_of_ne fun hc => ht w hc.symm, wakeThreads]
    split
    · exact .inr rfl
    · exact .inl rfl
  cases hm with
  | sleepsFull n d hfrom hfull =>
      refine Nat.le_add_right_of_le (Nat.le_of_eq ?_)
      exact work_same rfl hothers rfl
  | appends n d queue hfrom hfull hsig hq =>
      refine work_woken (k := 1) rfl hwoken ?_
      show queue.currentSize.toNat ≤ _
      rw [(queueAppend_sizes hq).1, UInt32.toNat_add]
      exact Nat.mod_le _ _
  | leaves hfrom hempty hdown =>
      refine Nat.le_add_right_of_le (Nat.le_of_eq ?_)
      exact work_same rfl hothers rfl
  | sleepsEmpty hfrom hempty hdown =>
      refine Nat.le_add_right_of_le (Nat.le_of_eq ?_)
      exact work_same rfl hothers rfl
  | takes queue d hfrom hempty hsig hq =>
      have hpos : 0 < s.q.queue.currentSize.toNat := by
        refine Nat.pos_of_ne_zero fun hc => ?_
        simp [queueIsEmpty, eq_zero_iff.mpr hc] at hempty
      refine Nat.le_trans (m := s.work + (Fintype.card W + 7 * 0)) ?_ (by omega)
      refine work_woken rfl hwoken ?_
      show queue.currentSize.toNat ≤ _
      rw [(queueTakeHead_sizes hq).1, toNat_pred hpos]
      exact Nat.sub_le _ _

/-- A thread that calls a function of the queue, or returns from it. -/
inductive QEvent.Calls {T α : Type} (t : T) : QEvent T α → Prop
  | enqueue (data : Option α) (calloc : Bool) : Calls t (.callEnqueue t data calloc)
  | dequeue : Calls t (.callDequeue t)
  | ret : Calls t (.ret t)

/-- It concerns the thread alone. -/
theorem queueDo_calls {t : PThread S W} {ev : QEvent (PThread S W) TaskT} (hev : ev.Calls t)
    {f : PoolState S W → PoolState S W} (h : queueDo s ev f = some s') :
    ∃ q, s' = f { s with q } ∧ q.queue.currentSize = s.q.queue.currentSize ∧
      ∀ u, u ≠ t → q.pc u = s.q.pc u := by
  have hother : ∀ p u, u ≠ t → Function.update s.q.pc t p u = s.q.pc u :=
    fun p u hu => Function.update_of_ne hu _ _
  obtain ⟨q, hq, rfl⟩ := Option.map_eq_some_iff.mp h
  refine ⟨q, rfl, ?_⟩
  cases hev with
  | enqueue data calloc =>
      simp only [queueStep] at hq
      split at hq
      · split at hq
        · cases hq
          exact ⟨rfl, hother _⟩
        · split at hq
          · cases hq
            exact ⟨rfl, hother _⟩
          · cases hq
            exact ⟨rfl, hother _⟩
      · simp at hq
  | dequeue =>
      simp only [queueStep] at hq
      split at hq
      · cases hq
        exact ⟨rfl, hother _⟩
      · simp at hq
  | ret =>
      simp only [queueStep] at hq
      split at hq
      · cases hq
        exact ⟨rfl, hother _⟩
      · simp at hq

theorem submitterStep_work {i : S} {ev : PoolEvent S W} (h : submitterStep s i ev = some s') :
    s'.work = s.work := by
  have hsubmitter : ∀ w, (.worker w : PThread S W) ≠ .submitter i := fun _ => nofun
  cases ev with
  | addTask _ argFree =>
      simp only [submitterStep] at h
      split at h
      · split at h
        · cases h
          rfl
        · cases h
          rfl
      · simp at h
  | createTask _ calloc =>
      simp only [submitterStep] at h
      split at h
      · split at h
        · cases h
          rfl
        · cases h
          rfl
      · simp at h
  | enqueueTask _ calloc =>
      simp only [submitterStep] at h
      split at h
      · obtain ⟨q, rfl, hsize, hpc⟩ := queueDo_calls (.enqueue _ _) h
        exact work_same rfl (fun w => hpc _ (hsubmitter w)) hsize
      · simp at h
  | taskAdded _ =>
      simp only [submitterStep] at h
      split at h
      · obtain ⟨q, rfl, hsize, hpc⟩ := queueDo_calls .ret h
        exact work_same rfl (fun w => hpc _ (hsubmitter w)) hsize
      · obtain ⟨q, rfl, hsize, hpc⟩ := queueDo_calls .ret h
        exact work_same rfl (fun w => hpc _ (hsubmitter w)) hsize
      · simp at h
  | _ => simp [submitterStep] at h

/-- A step of a worker in `thread_routine`. -/
def PoolEvent.isWork : PoolEvent S W → Bool
  | lock (.worker _) _ => true
  | loop _ | taskTaken _ | execute _ | executed _ | argFree _ | freeTask _ => true
  | _ => false

/-- What a step of another thread gives the workers to do at most. -/
def PoolEvent.workCost : PoolEvent S W → Nat
  | lock (.worker _) _ => 0
  | lock _ _ => Fintype.card W + 7
  | spurious _ => 1
  | broadcast => Fintype.card W
  | _ => 0

theorem mainStep_work {ev : PoolEvent S W} (h : mainStep s ev = some s') :
    s'.work ≤ s.work + ev.workCost := by
  have hmain : ∀ w, (.worker w : PThread S W) ≠ .main := fun _ => nofun
  cases ev with
  | broadcast =>
      simp only [mainStep] at h
      split at h
      · obtain ⟨q, hq, rfl⟩ := Option.map_eq_some_iff.mp h
        cases hq
        refine work_woken (k := 0) rfl (fun w => ?_) (Nat.le_refl _)
        show (if _ then _ else _) = _ ∨ (if _ then _ else _) = _
        split
        · exact .inr rfl
        · exact .inl rfl
      · simp at h
  | shutdown =>
      simp only [mainStep] at h
      split at h
      · cases h
        exact Nat.le_refl _
      · simp at h
  | destroy =>
      simp only [mainStep] at h
      split at h
      · cases h
        exact Nat.le_refl _
      · simp at h
  | join =>
      simp only [mainStep] at h
      split at h
      · split at h
        · cases h
          exact Nat.le_refl _
        · simp at h
      · simp at h
  | clear =>
      simp only [mainStep] at h
      split at h
      · split at h
        · obtain ⟨q, rfl, hsize, hpc⟩ := queueDo_calls .dequeue h
          exact Nat.le_of_eq (work_same rfl (fun w => hpc _ (hmain w)) hsize)
        · cases h
          exact Nat.le_refl _
      · simp at h
  | cleared =>
      simp only [mainStep] at h
      split at h
      · obtain ⟨q, rfl, hsize, hpc⟩ := queueDo_calls .ret h
        exact Nat.le_of_eq (work_same rfl (fun w => hpc _ (hmain w)) hsize)
      · obtain ⟨q, rfl, hsize, hpc⟩ := queueDo_calls .ret h
        exact Nat.le_of_eq (work_same rfl (fun w => hpc _ (hmain w)) hsize)
      · simp at h
  | _ => simp [mainStep] at h

omit [Fintype S] in
/-- A woken thread. -/
theorem work_wake (t : PThread S W) :
    ({ s with q := s.q.place t (s.q.pc t).wake } : PoolState S W).work ≤ s.work + 1 := by
  have hother : ∀ u, u ≠ t → (s.q.place t (s.q.pc t).wake).pc u = s.q.pc u :=
    fun u hu => Function.update_of_ne hu _ _
  cases t with
  | submitter i => exact Nat.le_succ_of_le (Nat.le_of_eq (work_same rfl (fun w => hother _ nofun) rfl))
  | main => exact Nat.le_succ_of_le (Nat.le_of_eq (work_same rfl (fun w => hother _ nofun) rfl))
  | worker w =>
      have hsum := sum_add_le_of_others (f := s.workOf)
        (g := ({ s with q := s.q.place (.worker w) (s.q.pc (.worker w)).wake } : PoolState S W).workOf)
        w fun v hv => Nat.le_of_eq (by
          rw [PoolState.workOf, PoolState.workOf]
          exact congrArg (fun p => (s.worker v).work p) (hother _ fun hc => hv (PThread.worker.inj hc)))
      have hself : ({ s with q := s.q.place (.worker w) (s.q.pc (.worker w)).wake } :
          PoolState S W).workOf w ≤ s.workOf w + 1 := by
        show (s.worker w).work ((s.q.place _ _).pc _) ≤ _
        rw [QState.place_self]
        exact WorkerPc.work_wake _ _
      show ∑ v, _ + 7 * s.q.queue.currentSize.toNat ≤ ∑ v, _ + 7 * s.q.queue.currentSize.toNat + 1
      omega

/-- A worker's step lowers what is left to do; any other raises it by its cost at most. -/
theorem poolStep_work (hagree : ∀ u, Agrees s u) (hup : s.q.shutdown = false) {ev : PoolEvent S W}
    (h : poolStep s ev = some s') : ev.isWork.toNat + s'.work ≤ s.work + ev.workCost := by
  have hworker : ∀ {w}, workerStep s w ev = some s' → 1 + s'.work ≤ s.work + 0 := by
    intro w hs
    rw [Nat.add_comm]
    exact workerStep_work hup hs
  have hrest : ∀ {n}, s'.work ≤ s.work + n → 0 + s'.work ≤ s.work + n := by
    intro n hle
    rw [Nat.zero_add]
    exact hle
  have hsame : s'.work = s.work → 0 + s'.work ≤ s.work + 0 := fun he => hrest (Nat.le_of_eq he)
  unfold poolStep at h
  split at h
  · simp at h
  · cases ev with
    | addTask => exact hsame (submitterStep_work h)
    | createTask => exact hsame (submitterStep_work h)
    | enqueueTask => exact hsame (submitterStep_work h)
    | taskAdded => exact hsame (submitterStep_work h)
    | lock t woken =>
        obtain ⟨q, hq, rfl⟩ := Option.map_eq_some_iff.mp h
        have hm := queueStep_lock hq
        cases t with
        | worker w =>
            show 1 + _ ≤ s.work + 0
            rw [Nat.add_comm]
            exact hm.work_worker hagree hup
        | submitter i => exact hrest (hm.work_other (t := .submitter i) fun _ => nofun)
        | main => exact hrest (hm.work_other (t := .main) fun _ => nofun)
    | spurious t =>
        obtain ⟨q, hq, rfl⟩ := Option.map_eq_some_iff.mp h
        simp only [queueStep] at hq
        split at hq
        · cases hq
          exact hrest (work_wake t)
        · simp at hq
    | signal =>
        obtain ⟨q, hq, rfl⟩ := Option.map_eq_some_iff.mp h
        cases hq
        exact hsame rfl
    | loop => exact hworker h
    | taskTaken => exact hworker h
    | execute => exact hworker h
    | executed => exact hworker h
    | argFree => exact hworker h
    | freeTask => exact hworker h
    | shutdown => exact hrest (mainStep_work h)
    | destroy => exact hrest (mainStep_work h)
    | broadcast => exact hrest (mainStep_work h)
    | join => exact hrest (mainStep_work h)
    | clear => exact hrest (mainStep_work h)
    | cleared => exact hrest (mainStep_work h)

/-! ### The flag

The steps of the pool do not write the flag, so it is set by the signal handler or not at all.
-/

/-- The queue is as it was, or it has taken a step; the signal is one of the pool's own. -/
def QueueSteps (s s' : PoolState S W) (ev : PoolEvent S W) : Prop :=
  s'.q = s.q ∨ ∃ qev, queueStep s.q qev = some s'.q ∧ (qev = .signal → ev = .signal)

/-- A step of the pool that makes one of the queue. -/
theorem queueDo_steps {qev : QEvent (PThread S W) TaskT} {f : PoolState S W → PoolState S W}
    {ev : PoolEvent S W} (h : queueDo s qev f = some s') (hf : ∀ s, (f s).q = s.q)
    (hev : qev = .signal → ev = .signal) : QueueSteps s s' ev := by
  obtain ⟨q, hq, rfl⟩ := Option.map_eq_some_iff.mp h
  exact .inr ⟨qev, by rw [hf, hq], hev⟩

theorem submitterStep_queue {i : S} {ev ev' : PoolEvent S W} (h : submitterStep s i ev = some s') :
    QueueSteps s s' ev' := by
  unfold submitterStep at h
  split at h
  · split at h
    · split at h
      · cases h
        exact .inl rfl
      · cases h
        exact .inl rfl
    · simp at h
  · split at h
    · split at h
      · cases h
        exact .inl rfl
      · cases h
        exact .inl rfl
    · simp at h
  · split at h
    · exact queueDo_steps h (fun _ => rfl) nofun
    · simp at h
  · split at h
    · exact queueDo_steps h (fun _ => rfl) nofun
    · exact queueDo_steps h (fun _ => rfl) nofun
    · simp at h
  · simp at h

theorem workerStep_queue {w : W} {ev ev' : PoolEvent S W} (h : workerStep s w ev = some s') :
    QueueSteps s s' ev' := by
  unfold workerStep at h
  split at h
  · split at h
    · split at h
      · cases h
        exact .inl rfl
      · exact queueDo_steps h (fun _ => rfl) nofun
    · simp at h
  · split at h
    · exact queueDo_steps h (fun _ => rfl) nofun
    · exact queueDo_steps h (fun _ => rfl) nofun
    · simp at h
  · split at h
    · cases h
      exact .inl rfl
    · simp at h
  · split at h
    · cases h
      exact .inl rfl
    · simp at h
  · split at h
    · cases h
      exact .inl rfl
    · simp at h
  · split at h
    · cases h
      exact .inl rfl
    · simp at h
  · simp at h

theorem mainStep_queue {ev ev' : PoolEvent S W} (h : mainStep s ev = some s') :
    QueueSteps s s' ev' := by
  unfold mainStep at h
  split at h
  · split at h
    · cases h
      exact .inl rfl
    · simp at h
  · split at h
    · cases h
      exact .inl rfl
    · simp at h
  · split at h
    · exact queueDo_steps h (fun _ => rfl) nofun
    · simp at h
  · split at h
    · split at h
      · cases h
        exact .inl rfl
      · simp at h
    · simp at h
  · split at h
    · split at h
      · exact queueDo_steps h (fun _ => rfl) nofun
      · cases h
        exact .inl rfl
    · simp at h
  · split at h
    · exact queueDo_steps h (fun _ => rfl) nofun
    · exact queueDo_steps h (fun _ => rfl) nofun
    · simp at h
  · simp at h

theorem poolStep_queue {ev : PoolEvent S W} (h : poolStep s ev = some s') : QueueSteps s s' ev := by
  unfold poolStep at h
  split at h
  · simp at h
  · cases ev with
    | lock t woken => exact queueDo_steps h (fun _ => rfl) nofun
    | spurious t => exact queueDo_steps h (fun _ => rfl) nofun
    | signal => exact queueDo_steps h (fun _ => rfl) fun _ => rfl
    | addTask => exact submitterStep_queue h
    | createTask => exact submitterStep_queue h
    | enqueueTask => exact submitterStep_queue h
    | taskAdded => exact submitterStep_queue h
    | loop => exact workerStep_queue h
    | taskTaken => exact workerStep_queue h
    | execute => exact workerStep_queue h
    | executed => exact workerStep_queue h
    | argFree => exact workerStep_queue h
    | freeTask => exact workerStep_queue h
    | shutdown => exact mainStep_queue h
    | destroy => exact mainStep_queue h
    | broadcast => exact mainStep_queue h
    | join => exact mainStep_queue h
    | clear => exact mainStep_queue h
    | cleared => exact mainStep_queue h

omit [Fintype W] [Fintype S] [DecidableEq S] [DecidableEq W] in
/-- Only the signal handler writes the flag. -/
theorem queueStep_flag {T α : Type} [DecidableEq T] [Fintype T] {q q' : QState T α}
    {ev : QEvent T α} (h : queueStep q ev = some q') (hev : ev ≠ .signal) :
    q'.shutdown = q.shutdown := by
  cases ev with
  | lock t woken => cases queueStep_lock h <;> rfl
  | signal => exact absurd rfl hev
  | callEnqueue t data calloc =>
      simp only [queueStep] at h
      split at h
      · split at h
        · cases h
          rfl
        · split at h
          · cases h
            rfl
          · cases h
            rfl
      · simp at h
  | callDequeue t =>
      simp only [queueStep] at h
      split at h
      · cases h
        rfl
      · simp at h
  | peek t =>
      simp only [queueStep] at h
      split at h
      · obtain ⟨d, -, hs⟩ := Option.bind_eq_some_iff.mp h
        cases hs
        rfl
      · simp at h
  | spurious t =>
      simp only [queueStep] at h
      split at h
      · cases h
        rfl
      · simp at h
  | broadcast =>
      cases h
      rfl
  | ret t =>
      simp only [queueStep] at h
      split at h
      · cases h
        rfl
      · simp at h

theorem poolStep_flag {ev : PoolEvent S W} (h : poolStep s ev = some s') (hev : ev ≠ .signal) :
    s'.q.shutdown = s.q.shutdown := by
  rcases poolStep_queue h with hq | ⟨qev, hq, hsignal⟩
  · rw [hq]
  · exact queueStep_flag hq fun hc => hev (hsignal hc)

/-! ### While the flag is not set

No worker leaves, and nothing is discarded.
-/

/-- A worker leaves with the flag set, and `queue_clear` runs behind the last of them. -/
structure Staffed (s : PoolState S W) : Prop where
  /-- No worker has left. -/
  stays : s.q.shutdown = false → ∀ w, s.worker w ≠ .exited
  /-- Nothing has been discarded in front of the joins. -/
  keeps : s.main.joined ∨ s.discarded = []

omit [Fintype W] [Fintype S] in
theorem PoolMove.staffed {ev : PoolEvent S W} (hm : PoolMove s ev s') (h : Staffed s) :
    Staffed s' := by
  -- the flag is as it was, and the worker that moved has not left
  have hstays : ∀ {w o}, o ≠ .exited → s.q.shutdown = false →
      ∀ v, Function.update s.worker w o v ≠ .exited := by
    intro w o ho hup v
    by_cases hv : v = w
    · rw [hv, Function.update_self]
      exact ho
    · rw [Function.update_of_ne hv]
      exact h.stays hup v
  cases hm with
  | signals => exact ⟨nofun, h.keeps⟩
  | exits w hfrom hdown => exact ⟨fun hup => absurd (hup.symm.trans hdown) Bool.noConfusion, h.keeps⟩
  | dequeues w hfrom hidle => exact ⟨hstays nofun, h.keeps⟩
  | gets w task hfrom hret => exact ⟨hstays nofun, h.keeps⟩
  | misses w hfrom hret => exact ⟨hstays nofun, h.keeps⟩
  | executes w task hfrom => exact ⟨hstays nofun, h.keeps⟩
  | executed w task hfrom => exact ⟨hstays nofun, h.keeps⟩
  | frees w task hfrom => exact ⟨hstays nofun, h.keeps⟩
  | returns w task hfrom => exact ⟨hstays nofun, h.keeps⟩
  | locks t woken q hl =>
      refine ⟨fun hup => h.stays ?_, h.keeps⟩
      cases hl <;> exact hup
  | calls destroying hfrom => exact ⟨h.stays, .inr (h.keeps.resolve_left (hfrom ▸ id))⟩
  | broadcasts destroying hfrom => exact ⟨h.stays, .inr (h.keeps.resolve_left (hfrom ▸ id))⟩
  | joins destroying hfrom hall => exact ⟨h.stays, .inr (h.keeps.resolve_left (hfrom ▸ id))⟩
  | clears hfrom hsize hidle => exact ⟨h.stays, .inl trivial⟩
  | discards task hfrom hret => exact ⟨h.stays, .inl trivial⟩
  | skips hfrom hret => exact ⟨h.stays, .inl trivial⟩
  | destroys hfrom hsize => exact ⟨h.stays, .inl trivial⟩
  | _ => exact ⟨h.stays, h.keeps⟩

theorem poolSystem_staffed (h : (poolSystem S W).Reach s) : Staffed s := by
  refine h.invariant ?_ ?_
  · rintro s rfl
    exact ⟨fun _ _ => nofun, .inr rfl⟩
  · intro s ev s' hi hs
    exact (poolStep_move hs).staffed hi

/-- No wake-up is lost in the queue of a pool. -/
theorem poolSystem_wakeInv (h : (poolSystem S W).Reach s) : WakeInv s.q := by
  refine h.invariant (I := fun s => WakeInv s.q) ?_ ?_
  · rintro s rfl
    exact ⟨fun ⟨u, hu⟩ => absurd hu Bool.noConfusion, fun _ ⟨u, hu⟩ => absurd hu Bool.noConfusion⟩
  · intro s ev s' hi hs
    rcases (poolStep_move hs).queue with hq | ⟨qev, hq, -⟩
    · exact hq ▸ hi
    · exact hq.wakeInv hi

/-! ### A worker that has something to do

Where something is left to do, somebody can do it.
-/

omit [Fintype W] [Fintype S] [DecidableEq S] [DecidableEq W] in
/-- A condition variable can be signalled. -/
theorem exists_signals {T α : Type} (pc : T → QPc α) (cond : QCond) :
    ∃ woken, Signals pc cond woken := by
  by_cases hex : ∃ u, (pc u).waits cond = true
  · obtain ⟨u, hu⟩ := hex
    exact ⟨[u], fun v hv => List.mem_singleton.mp hv ▸ hu, fun _ => List.cons_ne_nil _ _⟩
  · exact ⟨[], fun v hv => absurd hv List.not_mem_nil, fun hc => absurd hc hex⟩

/-- A thread in `queue_dequeue` that does not sleep can go on with the mutex. -/
theorem QInv.lock_enabled {q : QState (PThread S W) TaskT} {ns : List (Nat × TaskT)}
    (h : QInv q ns) {t : PThread S W} (hp : (q.pc t).dequeues) :
    ∃ woken q', queueStep q (.lock t woken) = some q' := by
  obtain ⟨woken, hsig⟩ := exists_signals q.pc .notFull
  have hsection : ∃ q', dequeueSection q t woken = some q' := by
    rw [dequeueSection, if_pos hsig]
    split
    · split
      · exact ⟨_, rfl⟩
      · exact ⟨_, rfl⟩
    · rename_i hempty
      cases ns with
      | nil => exact absurd (by simp [queueIsEmpty, eq_zero_iff, h.rep.size]) hempty
      | cons n ns =>
          obtain ⟨q', hq', -⟩ := queueTakeHead_spec h.rep
          rw [hq']
          exact ⟨_, rfl⟩
  obtain ⟨q', hq'⟩ := hsection
  refine ⟨woken, q', ?_⟩
  rcases hp with hp | hp
  · simpa only [queueStep, hp] using hq'
  · simpa only [queueStep, hp] using hq'

/-- A worker that has not left and does not sleep can take a step. -/
theorem worker_enabled {ns : List (Nat × TaskT)} (hinv : QInv s.q ns) (hagree : ∀ u, Agrees s u)
    (halive : ¬ s.main.isDestroyed = true) {w : W} (hstays : s.worker w ≠ .exited)
    (hawake : s.q.pc (.worker w) ≠ .dequeueWait) :
    ∃ ev s', ev.isWork = true ∧ PoolNoWrap s ev ∧ poolStep s ev = some s' := by
  have hgo : ∀ ev : PoolEvent S W, ev.isWork = true → PoolNoWrap s ev → poolStep s ev ≠ none →
      ∃ ev s', ev.isWork = true ∧ PoolNoWrap s ev ∧ poolStep s ev = some s' := by
    intro ev hev hwrap hsome
    obtain ⟨s', hs'⟩ := Option.ne_none_iff_exists'.mp hsome
    exact ⟨ev, s', hev, hwrap, hs'⟩
  have ha : (s.worker w).Agrees (s.q.pc (.worker w)) := hagree (.worker w)
  cases ho : s.worker w with
  | loop =>
      rw [ho] at ha
      have hidle : s.q.pc (.worker w) = .idle := ha
      refine hgo (.loop w) rfl trivial ?_
      rw [show poolStep s (.loop w) = workerStep s w (.loop w) from if_neg halive]
      by_cases hdown : s.q.shutdown = true
      · simp [workerStep, ho, hdown]
      · simp [workerStep, ho, hdown, queueDo, queueStep, hidle, QPc.isIdle]
  | dequeueing =>
      rw [ho] at ha
      rcases ha with hp | hp | ⟨d, hp⟩
      · obtain ⟨woken, q', hq'⟩ := hinv.lock_enabled hp
        have hpending : (s.q.pc (.worker w)).pending = none := by
          rcases hp with hp | hp <;> rw [hp] <;> rfl
        refine hgo (.lock (.worker w) woken) rfl (fun hc => absurd hpending hc) ?_
        rw [show poolStep s (.lock (.worker w) woken) = queueDo s (.lock (.worker w) woken) id
          from if_neg halive, queueDo, hq']
        exact Option.some_ne_none _
      · exact absurd hp hawake
      · refine hgo (.taskTaken w) rfl trivial ?_
        rw [show poolStep s (.taskTaken w) = workerStep s w (.taskTaken w) from if_neg halive]
        cases d with
        | none => simp [workerStep, ho, hp, queueDo, queueStep]
        | some task => simp [workerStep, ho, hp, queueDo, queueStep]
  | got task =>
      refine hgo (.execute w) rfl trivial ?_
      rw [show poolStep s (.execute w) = workerStep s w (.execute w) from if_neg halive]
      simp [workerStep, ho]
  | running task =>
      refine hgo (.executed w) rfl trivial ?_
      rw [show poolStep s (.executed w) = workerStep s w (.executed w) from if_neg halive]
      simp [workerStep, ho]
  | ran task =>
      refine hgo (.argFree w) rfl trivial ?_
      rw [show poolStep s (.argFree w) = workerStep s w (.argFree w) from if_neg halive]
      simp [workerStep, ho]
  | processed task =>
      refine hgo (.freeTask w) rfl trivial ?_
      rw [show poolStep s (.freeTask w) = workerStep s w (.freeTask w) from if_neg halive]
      simp [workerStep, ho]
  | exited => exact absurd ho hstays

omit [Fintype W] [Fintype S] [DecidableEq S] [DecidableEq W] in
/-- A worker that sleeps has nothing to do. -/
theorem workOf_asleep {w : W} (ha : Agrees s (.worker w))
    (hp : s.q.pc (.worker w) = .dequeueWait) : s.workOf w = 0 := by
  have hw : (s.worker w).Agrees (s.q.pc (.worker w)) := ha
  rcases hw.inDequeue_or_idle with ⟨ho, -⟩ | ⟨-, hidle⟩
  · rw [PoolState.workOf, ho, hp]
    rfl
  · rw [hp] at hidle
    cases hidle

/-! ### Workers that all sleep

With everybody asleep, the wake-ups that were not lost leave no element in the queue.
-/

/-- `add_task` has accepted nothing that has not been executed, and cleaned up behind. -/
def PoolState.AllExecuted (s : PoolState S W) : Prop :=
  ∀ task ∈ s.returned, s.executed.count task = 1 ∧
    (task.argFree = true → s.argFreed.count task = 1)

omit [Fintype W] [Fintype S] [DecidableEq S] [DecidableEq W] in
/-- A worker with nothing to do sleeps. -/
theorem asleep_of_workOf {w : W} (ha : Agrees s (.worker w)) (hstays : s.worker w ≠ .exited)
    (hw : s.workOf w = 0) : s.worker w = .dequeueing ∧ s.q.pc (.worker w) = .dequeueWait := by
  have hp : (s.worker w).Agrees (s.q.pc (.worker w)) := ha
  rw [PoolState.workOf] at hw
  cases ho : s.worker w with
  | exited => exact absurd ho hstays
  | dequeueing =>
      rw [ho] at hp hw
      refine ⟨rfl, ?_⟩
      rcases hp with (hp | hp) | hp | ⟨d, hp⟩
      · rw [hp] at hw
        exact absurd hw (Nat.succ_ne_zero _)
      · rw [hp] at hw
        exact absurd hw (Nat.succ_ne_zero _)
      · exact hp
      · rw [hp] at hw
        cases d with
        | none => exact absurd hw (Nat.succ_ne_zero _)
        | some task => exact absurd hw (Nat.succ_ne_zero _)
  | _ =>
      rw [ho] at hw
      exact absurd hw (Nat.succ_ne_zero _)

omit [DecidableEq S] [DecidableEq W] in
/-- The tasks put in the queue are all different. -/
theorem Ledger.inserted_nodup (h : Ledger s) : s.q.inserted.Nodup := by
  have hids : (s.q.inserted.map TaskT.id).Nodup :=
    Multiset.nodup_of_le (le_trans le_self_add h.made) (Multiset.nodup_range s.nextTask)
  exact hids.of_map _

omit [Fintype W] [Fintype S] [DecidableEq S] [DecidableEq W] in
/-- A submitter has never been woken on `not_empty`. -/
theorem Agrees.submitter_not_woken {i : S} (h : Agrees s (.submitter i)) :
    (s.q.pc (.submitter i)).woken .notEmpty = false := by
  have hi : (s.submitter i).Agrees s.q.inserted (s.q.pc (.submitter i)) := h
  cases ho : s.submitter i with
  | enqueueing task =>
      rw [ho] at hi
      rcases hi with ⟨n, hn⟩ | hp | ⟨hp, -⟩
      · cases hp : s.q.pc (.submitter i) with
        | dequeueWoken => rw [hp] at hn; simp [QPc.pending] at hn
        | _ => rfl
      · rw [hp]
        rfl
      · rw [hp]
        rfl
  | _ =>
      rw [ho] at hi
      rw [show s.q.pc (.submitter i) = .idle from hi]
      rfl

/-- The joins of a pool that has workers wait for the flag. -/
theorem not_joined [Nonempty W] (h : (poolSystem S W).Reach s) (hup : s.q.shutdown = false) :
    ¬ s.main.joined := by
  intro hj
  obtain ⟨w⟩ := ‹Nonempty W›
  have hexited := (poolSystem_joined h).exited hj w
  cases ho : s.worker w with
  | exited => exact (poolSystem_staffed h).stays hup w ho
  | _ => rw [ho] at hexited; exact Bool.noConfusion hexited

theorem not_destroyed [Nonempty W] (h : (poolSystem S W).Reach s) (hup : s.q.shutdown = false) :
    ¬ s.main.isDestroyed = true := by
  intro hd
  cases hm : s.main with
  | destroyed => exact not_joined h hup (hm ▸ trivial)
  | _ => rw [hm] at hd; exact Bool.noConfusion hd

/-- When all workers sleep, the queue is empty, and so are all hands. -/
theorem allExecuted_of_asleep [Nonempty W] (h : (poolSystem S W).ReachIf PoolNoWrap s)
    (hup : s.q.shutdown = false) (hzero : ∀ w, s.workOf w = 0) : s.AllExecuted := by
  have hagree := poolSystem_agrees h.reach
  have hstaffed := poolSystem_staffed h.reach
  have hled := poolSystem_ledger h.reach
  obtain ⟨ns, hinv⟩ := poolSystem_queue h
  have hasleep : ∀ w, s.worker w = .dequeueing ∧ s.q.pc (.worker w) = .dequeueWait :=
    fun w => asleep_of_workOf (hagree _) (hstaffed.stays hup w) (hzero w)
  have hmain : ¬ s.main.joined := not_joined h.reach hup
  have hidle : s.q.pc .main = .idle := by
    have hm : s.main.Agrees (s.q.pc .main) := hagree .main
    cases ho : s.main with
    | clearing => exact absurd (ho ▸ trivial) hmain
    | _ => rw [ho] at hm; exact hm
  have hwoken : wokenCount s.q.pc .notEmpty = 0 := by
    refine Finset.card_eq_zero.mpr (Finset.filter_eq_empty_iff.mpr fun t _ => ?_)
    cases t with
    | submitter i =>
        exact fun hc => Bool.noConfusion ((hagree (.submitter i)).submitter_not_woken.symm.trans hc)
    | worker w =>
        show ¬ (s.q.pc (.worker w)).woken .notEmpty = true
        rw [(hasleep w).2]
        exact Bool.noConfusion
    | main =>
        show ¬ (s.q.pc .main).woken .notEmpty = true
        rw [hidle]
        exact Bool.noConfusion
  have hsome : Asleep s.q.pc .notEmpty := by
    obtain ⟨w⟩ := ‹Nonempty W›
    exact ⟨.worker w, by rw [(hasleep w).2]; rfl⟩
  have hnil : ns = [] := by
    have hsize := (poolSystem_wakeInv h.reach).notEmpty hsome
    rw [hwoken, hinv.rep.size] at hsize
    exact List.eq_nil_of_length_eq_zero (Nat.le_zero.mp hsize)
  have hhand : ∀ t, s.hand t = 0 := by
    intro t
    cases t with
    | submitter i => exact (hagree (.submitter i)).submitter_hand
    | worker w => rw [PoolState.hand, PoolState.holds, (hasleep w).1, (hasleep w).2]; rfl
    | main => rw [PoolState.hand, hidle]; rfl
  have howes : ∀ t, s.owes t = 0 := by
    intro t
    cases t with
    | worker w => rw [PoolState.owes, (hasleep w).1]; rfl
    | submitter i => rfl
    | main => rfl
  have hperm : s.q.inserted.Perm s.executed := by
    have htaken := hled.taken
    rw [Finset.sum_eq_zero fun t _ => hhand t, hstaffed.keeps.resolve_left hmain,
      Multiset.coe_nil, add_zero, zero_add] at htaken
    rw [← hinv.history, hnil, List.map_nil, List.append_nil]
    exact Quotient.exact htaken
  have hfreed : (s.executed.filter fun task => task.argFree).Perm s.argFreed := by
    have hfree := hled.freed
    rw [Finset.sum_eq_zero fun t _ => howes t, zero_add] at hfree
    exact Quotient.exact hfree
  intro task htask
  have hone : s.executed.count task = 1 := by
    rw [← hperm.count_eq]
    exact List.count_eq_one_of_mem hled.inserted_nodup (poolSystem_returned h.reach htask)
  refine ⟨hone, fun harg => ?_⟩
  rw [← hfreed.count_eq, List.count_filter harg, hone]

/-! ### Every run

The measure and the invariants, put together.
-/

/-- The enqueues find room to count one more, and the flag is not set. -/
def StaysUp (s : PoolState S W) (ev : PoolEvent S W) : Prop :=
  PoolNoWrap s ev ∧ ev ≠ .signal

/-- Reached by such steps. -/
def Up (s : PoolState S W) : Prop :=
  (poolSystem S W).ReachIf PoolNoWrap s ∧ s.q.shutdown = false

theorem Up.step (h : Up s) {ev : PoolEvent S W} (hc : StaysUp s ev) (hs : poolStep s ev = some s') :
    Up s' :=
  ⟨h.1.step hc.1 hs, (poolStep_flag hs hc.2).trans h.2⟩

/-- The workers come to rest. -/
theorem Up.rests [Nonempty W] (h : Up s) :
    (poolSystem S W).Settles StaysUp PoolEvent.isWork PoolEvent.workCost (fun t => ∀ w, t.workOf w = 0)
      s s.work := by
  refine System.settles (I := Up) (fun s ev s' hs hc hstep => hs.step hc hstep) ?_ ?_ h
  · intro s ev s' hs hc hstep
    exact poolStep_work (poolSystem_agrees hs.1.reach) hs.2 hstep
  · intro s hs hnot
    obtain ⟨w, hw⟩ := not_forall.mp hnot
    obtain ⟨ns, hinv⟩ := poolSystem_queue hs.1
    have hagree := poolSystem_agrees hs.1.reach
    have hstays := (poolSystem_staffed hs.1.reach).stays hs.2 w
    obtain ⟨ev, s', hev, hwrap, hstep⟩ := worker_enabled hinv hagree
      (not_destroyed hs.1.reach hs.2) hstays fun hp => hw (workOf_asleep (hagree _) hp)
    refine ⟨ev, s', hev, ⟨hwrap, ?_⟩, hstep⟩
    rintro rfl
    exact Bool.noConfusion hev

/-- While the flag is not set, the workers of a pool execute every task that was accepted: they take
no more steps than there is to do, and as long as an accepted task is not executed, or its argument
is not freed, one of them can take another step. -/
theorem poolSystem_drains [Nonempty W] (h : (poolSystem S W).ReachIf PoolNoWrap s)
    (hup : s.q.shutdown = false) :
    (poolSystem S W).Settles StaysUp PoolEvent.isWork PoolEvent.workCost PoolState.AllExecuted s
      s.work := by
  have hs : Up s := ⟨h, hup⟩
  refine hs.rests.imp fun ls t hr hzero => ?_
  obtain ⟨hreach, hflag⟩ := hr.invariant (fun s ev s' hs hc hstep => Up.step hs hc hstep) hs
  exact allExecuted_of_asleep hreach hflag hzero

/-- A pool of two workers, and a task that it was given. -/
theorem poolSystem_drains_run :
    ∃ s, (poolSystem Unit Bool).run (poolStart Unit Bool) [.addTask () true, .createTask () true,
        .enqueueTask () true, .lock (.submitter ()) [], .taskAdded ()] = some s ∧
      s.returned = [⟨0, true⟩] ∧ s.work = 11 ∧
      (poolSystem Unit Bool).Settles StaysUp PoolEvent.isWork PoolEvent.workCost
        PoolState.AllExecuted s s.work := by
  have h0 : (poolSystem Unit Bool).ReachIf PoolNoWrap (poolStart Unit Bool) := .init rfl
  have h1 := h0.step (l := PoolEvent.addTask () true) trivial rfl
  have h2 := h1.step (l := PoolEvent.createTask () true) trivial rfl
  have h3 := h2.step (l := PoolEvent.enqueueTask () true) trivial rfl
  have h4 := h3.step (l := PoolEvent.lock (.submitter ()) []) (fun _ _ => by decide) rfl
  have h5 := h4.step (l := PoolEvent.taskAdded ()) trivial rfl
  exact ⟨_, rfl, rfl, rfl, poolSystem_drains h5 rfl⟩

end CmakeTemplate
