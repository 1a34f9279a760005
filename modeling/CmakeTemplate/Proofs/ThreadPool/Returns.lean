/-
`thread_pool_shutdown` and `thread_pool_destroy` return, if the flag is set when they broadcast.

Behind such a broadcast nobody sleeps any more.  What every thread has ahead of it is bounded then: a
submitter is on its last task, a worker leaves as soon as it is behind its own, and the thread that
waits for them has each task that is left in the queue to discard.

A broadcast in front of the signal is lost on the workers: they look at the flag, and sleep again.
The signal wakes none of them, and the joins wait for good.
-/
import CmakeTemplate.Proofs.ThreadPool.Awake
import CmakeTemplate.Proofs.ThreadPool.Drains

namespace CmakeTemplate

open Lib

/-! ### What a thread has ahead of it

Steps up to the end of what it is in, by the place where it is.
-/

/-- In `queue_enqueue`, up to the return from it. -/
def QPc.enqueueAhead (p : QPc TaskT) : Nat := if p.pending.isSome then 6 else 1

/-- In `queue_dequeue`, and what a worker does with the result. -/
def QPc.dequeueAhead : QPc TaskT → Nat
  | returned (.data (some _)) => 6
  | returned _ => 2
  | _ => 3

/-- In `queue_dequeue` for `queue_clear`. -/
def QPc.clearAhead : QPc TaskT → Nat
  | returned _ => 2
  | _ => 0

def SubmitterPc.ahead (p : QPc TaskT) : SubmitterPc → Nat
  | idle => 0
  | checked _ => 8
  | created _ => 7
  | enqueueing _ => p.enqueueAhead

def WorkerPc.ahead (p : QPc TaskT) : WorkerPc → Nat
  | loop => 1
  | dequeueing => p.dequeueAhead
  | got _ => 5
  | running _ => 4
  | ran _ => 3
  | processed _ => 2
  | exited => 0

def MainPc.ahead (p : QPc TaskT) : MainPc → Nat
  | idle => 0
  | broadcast destroying => if destroying then 3 else 2
  | join destroying => if destroying then 2 else 1
  | clear => 1
  | clearing => p.clearAhead
  | destroyed => 0

/-! Being woken makes no difference. -/

theorem SubmitterPc.ahead_wake (p : QPc TaskT) (o : SubmitterPc) : o.ahead p.wake = o.ahead p := by
  cases o with
  | enqueueing task =>
      show p.wake.enqueueAhead = p.enqueueAhead
      rw [QPc.enqueueAhead, QPc.pending_wake, QPc.enqueueAhead]
  | _ => rfl

theorem WorkerPc.ahead_wake (p : QPc TaskT) (o : WorkerPc) : o.ahead p.wake = o.ahead p := by
  cases o with
  | dequeueing => cases p <;> rfl
  | _ => rfl

theorem MainPc.ahead_wake (p : QPc TaskT) (o : MainPc) : o.ahead p.wake = o.ahead p := by
  cases o with
  | clearing => cases p <;> rfl
  | _ => rfl

variable {S W : Type} {s s' : PoolState S W} {t : PThread S W}

namespace PoolState

def aheadOf (s : PoolState S W) : PThread S W → Nat
  | .submitter i => (s.submitter i).ahead (s.q.pc (.submitter i))
  | .worker w => (s.worker w).ahead (s.q.pc (.worker w))
  | .main => s.main.ahead (s.q.pc .main)

/-- What all the threads have ahead of them, with the tasks in the queue. -/
def ahead [Fintype S] [Fintype W] (s : PoolState S W) : Nat :=
  ∑ t, s.aheadOf t + 4 * s.q.queue.currentSize.toNat

end PoolState

theorem SameBut.aheadOf (h : SameBut s s' t) {u : PThread S W} (hu : u ≠ t) :
    s'.aheadOf u = s.aheadOf u := by
  cases u with
  | submitter i =>
      rw [PoolState.aheadOf, PoolState.aheadOf, h.submitter i hu]
      rcases h.pc _ hu with hp | hp <;> rw [hp]
      exact SubmitterPc.ahead_wake _ _
  | worker w =>
      rw [PoolState.aheadOf, PoolState.aheadOf, h.worker w hu]
      rcases h.pc _ hu with hp | hp <;> rw [hp]
      exact WorkerPc.ahead_wake _ _
  | main =>
      rw [PoolState.aheadOf, PoolState.aheadOf, h.main hu]
      rcases h.pc _ hu with hp | hp <;> rw [hp]
      exact MainPc.ahead_wake _ _

/-- A thread that is woken. -/
theorem aheadOf_wake [DecidableEq S] [DecidableEq W] (t : PThread S W) :
    ({ s with q := s.q.place t (s.q.pc t).wake } : PoolState S W).aheadOf t = s.aheadOf t := by
  have hself := QState.place_self s.q t (s.q.pc t).wake
  cases t with
  | submitter i =>
      show (s.submitter i).ahead ((s.q.place _ _).pc _) = _
      rw [hself, SubmitterPc.ahead_wake]
      rfl
  | worker w =>
      show (s.worker w).ahead ((s.q.place _ _).pc _) = _
      rw [hself, WorkerPc.ahead_wake]
      rfl
  | main =>
      show s.main.ahead ((s.q.place _ _).pc _) = _
      rw [hself, MainPc.ahead_wake]
      rfl

section Sum

variable [Fintype S] [Fintype W]

/-- One thread has moved. -/
theorem SameBut.ahead_le (h : SameBut s s' t) {m n : Nat}
    (hown : s'.aheadOf t + 4 * s'.q.queue.currentSize.toNat + m
      ≤ s.aheadOf t + 4 * s.q.queue.currentSize.toNat + n) : m + s'.ahead ≤ s.ahead + n := by
  have hsum := sum_change t fun u hu => h.aheadOf hu
  rw [PoolState.ahead, PoolState.ahead]
  omega

/-- It has left the queue as long as it was. -/
theorem SameBut.ahead_le_of_size (h : SameBut s s' t) {m n : Nat}
    (hsize : s'.q.queue.currentSize = s.q.queue.currentSize)
    (hown : s'.aheadOf t + m ≤ s.aheadOf t + n) : m + s'.ahead ≤ s.ahead + n := by
  refine h.ahead_le ?_
  rw [hsize]
  omega

end Sum

/-- A step towards the return of a call: any that a thread takes by itself in what it has begun. -/
def PoolEvent.endsCall : PoolEvent S W → Bool
  | addTask _ _ | spurious _ | signal | shutdown | destroy => false
  | _ => true

/-! ### With the mutex

A step under the mutex takes a task or puts one in, and is one less in either case.
-/

/-- Who puts a task in the queue. -/
theorem Agrees.of_enqueues (h : Agrees s t) {n : Nat} {d : TaskT} (hp : (s.q.pc t).enqueues n d) :
    ∃ i task, t = .submitter i ∧ s.submitter i = .enqueueing task := by
  cases t with
  | submitter i =>
      have hi : (s.submitter i).Agrees s.q.inserted (s.q.pc (.submitter i)) := h
      cases ho : s.submitter i with
      | enqueueing task => exact ⟨i, task, rfl, ho⟩
      | _ =>
          rw [ho] at hi
          rw [show s.q.pc (.submitter i) = .idle from hi] at hp
          rcases hp with hp | hp <;> cases hp
  | worker w => exact absurd hp (WorkerPc.Agrees.not_enqueues h n d)
  | main =>
      have hm : s.main.Agrees (s.q.pc .main) := h
      cases ho : s.main with
      | clearing =>
          rw [ho] at hm
          exact absurd hp (QPc.inDequeue.not_enqueues hm n d)
      | _ =>
          rw [ho] at hm
          rw [show s.q.pc .main = .idle from hm] at hp
          rcases hp with hp | hp <;> cases hp

/-- Who takes one out. -/
theorem Agrees.of_dequeues (h : Agrees s t) (hp : (s.q.pc t).dequeues) :
    (∃ w, t = .worker w ∧ s.worker w = .dequeueing) ∨ t = .main ∧ s.main = .clearing := by
  cases t with
  | submitter i =>
      have hi : (s.submitter i).Agrees s.q.inserted (s.q.pc (.submitter i)) := h
      cases ho : s.submitter i with
      | enqueueing task =>
          rw [ho] at hi
          rcases hi with ⟨n, hn⟩ | hc | ⟨hc, -⟩
          · rcases hp with hp | hp <;> rw [hp] at hn <;> cases hn
          · rcases hp with hp | hp <;> rw [hp] at hc <;> cases hc
          · rcases hp with hp | hp <;> rw [hp] at hc <;> cases hc
      | _ =>
          rw [ho] at hi
          rw [show s.q.pc (.submitter i) = .idle from hi] at hp
          rcases hp with hp | hp <;> cases hp
  | worker w => exact .inl ⟨w, rfl, WorkerPc.Agrees.of_dequeues h hp⟩
  | main =>
      have hm : s.main.Agrees (s.q.pc .main) := h
      cases ho : s.main with
      | clearing => exact .inr ⟨rfl, rfl⟩
      | _ =>
          rw [ho] at hm
          rw [show s.q.pc .main = .idle from hm] at hp
          rcases hp with hp | hp <;> cases hp

theorem QPc.dequeues.ahead {p : QPc TaskT} (h : p.dequeues) :
    p.dequeueAhead = 3 ∧ p.clearAhead = 0 := by
  rcases h with rfl | rfl <;> exact ⟨rfl, rfl⟩

/-- `queue_clear` is in `queue_dequeue` for a task that is there. -/
def ClearsTask (s : PoolState S W) : Prop :=
  s.main = .clearing → s.q.queue.currentSize ≠ 0 ∨ ∃ d, s.q.pc .main = .returned (.data d)

section Locks

variable [DecidableEq S] [DecidableEq W] [Fintype S] [Fintype W]

/-- Behind the broadcast, a thread with the mutex gets on. -/
theorem LockMove.ahead_lt {woken : List (PThread S W)} {q : QState (PThread S W) TaskT}
    (hm : LockMove s.q t woken q) (hagree : ∀ u, Agrees s u) (ha : Awake s.q)
    (hmax : s.q.queue.maxSize = 0) (hclear : ClearsTask s) :
    1 + ({ s with q } : PoolState S W).ahead ≤ s.ahead := by
  have hb : SameBut s { s with q } t := .queue_moves q hm.others hm.inserted_subset
  refine hb.ahead_le (n := 0) ?_
  cases hm with
  | sleepsFull n d hfrom hfull =>
      exact absurd ((not_full_unbounded hmax).symm.trans hfull) Bool.noConfusion
  | appends n d queue hfrom hfull hsig hq =>
      obtain ⟨i, task, rfl, ho⟩ := (hagree t).of_enqueues hfrom
      have hbefore : s.aheadOf (.submitter i) = 6 := by
        rw [PoolState.aheadOf, ho]
        show QPc.enqueueAhead _ = 6
        rw [QPc.enqueueAhead, hfrom.pending]
        rfl
      have hsize : queue.currentSize.toNat ≤ s.q.queue.currentSize.toNat + 1 := by
        rw [(queueAppend_sizes hq).1, UInt32.toNat_add]
        exact Nat.mod_le _ _
      show (s.submitter i).ahead (Function.update (wakeThreads s.q.pc woken)
        (PThread.submitter i) (QPc.returned (.code .success)) (PThread.submitter i))
          + 4 * queue.currentSize.toNat + 1 ≤ _
      rw [Function.update_self, ho, hbefore]
      show 1 + _ + 1 ≤ _
      omega
  | leaves hfrom hempty hdown =>
      rcases (hagree t).of_dequeues hfrom with ⟨w, rfl, ho⟩ | ⟨rfl, ho⟩
      · have hbefore : s.aheadOf (.worker w) = 3 := by
          rw [PoolState.aheadOf, ho]
          exact hfrom.ahead.1
        show (s.worker w).ahead (Function.update s.q.pc (PThread.worker w)
          (QPc.returned (.data none)) (PThread.worker w)) + 4 * s.q.queue.currentSize.toNat + 1 ≤ _
        rw [Function.update_self, ho, hbefore]
        show 2 + _ + 1 ≤ _
        omega
      · rcases hclear ho with hsize | ⟨d, hd⟩
        · exact absurd (of_decide_eq_true hempty) hsize
        · rcases hfrom with hp | hp <;> rw [hp] at hd <;> cases hd
  | sleepsEmpty hfrom hempty hdown => exact absurd (ha.down.symm.trans hdown) Bool.noConfusion
  | takes queue d hfrom hempty hsig hq =>
      have hpos : 0 < s.q.queue.currentSize.toNat := by
        refine Nat.pos_of_ne_zero fun hc => ?_
        simp [queueIsEmpty, eq_zero_iff.mpr hc] at hempty
      have hsize : queue.currentSize.toNat = s.q.queue.currentSize.toNat - 1 := by
        rw [(queueTakeHead_sizes hq).1, toNat_pred hpos]
      rcases (hagree t).of_dequeues hfrom with ⟨w, rfl, ho⟩ | ⟨rfl, ho⟩
      · have hbefore : s.aheadOf (.worker w) = 3 := by
          rw [PoolState.aheadOf, ho]
          exact hfrom.ahead.1
        show (s.worker w).ahead (Function.update (wakeThreads s.q.pc woken) (PThread.worker w)
          (QPc.returned (.data (some d))) (PThread.worker w)) + 4 * queue.currentSize.toNat + 1 ≤ _
        rw [Function.update_self, ho, hbefore, hsize]
        show 6 + _ + 1 ≤ _
        omega
      · show s.main.ahead (Function.update (wakeThreads s.q.pc woken) PThread.main
          (QPc.returned (.data (some d))) PThread.main) + 4 * queue.currentSize.toNat + 1 ≤ _
        rw [Function.update_self, ho, hsize]
        show 2 + _ + 1 ≤ _
        omega

/-! ### Without it

A step of a thread in the functions of the pool.
-/

omit [Fintype S] [Fintype W] [DecidableEq S] [DecidableEq W] in
theorem place_inserted {T α : Type} [DecidableEq T] (q : QState T α) (t : T) (p : QPc α) :
    q.inserted ⊆ (q.place t p).inserted := List.Subset.refl _

omit [DecidableEq W] in
theorem ahead_submitter {i : S} {o : SubmitterPc} {q : QState (PThread S W) TaskT} {n : Nat}
    {r : List TaskT} (hq : Others s.q.pc q.pc (.submitter i)) (hins : s.q.inserted ⊆ q.inserted)
    (hsize : q.queue.currentSize = s.q.queue.currentSize)
    (hown : o.ahead (q.pc (.submitter i)) + 1 ≤ s.aheadOf (.submitter i)) :
    1 + ({ s with q, submitter := Function.update s.submitter i o, nextTask := n, returned := r } :
      PoolState S W).ahead ≤ s.ahead := by
  refine (SameBut.submitter_moves i o q hq hins n r).ahead_le_of_size (n := 0) hsize ?_
  show (Function.update s.submitter i o i).ahead _ + 1 ≤ _
  rw [Function.update_self]
  exact hown

omit [DecidableEq S] in
theorem ahead_worker {w : W} {o : WorkerPc} {q : QState (PThread S W) TaskT} {a b c : List TaskT}
    (hq : Others s.q.pc q.pc (.worker w)) (hins : s.q.inserted ⊆ q.inserted)
    (hsize : q.queue.currentSize = s.q.queue.currentSize)
    (hown : o.ahead (q.pc (.worker w)) + 1 ≤ s.aheadOf (.worker w)) :
    1 + ({ s with
      q, worker := Function.update s.worker w o, started := a, executed := b, argFreed := c } :
        PoolState S W).ahead ≤ s.ahead := by
  refine (SameBut.worker_moves w o q hq hins a b c).ahead_le_of_size (n := 0) hsize ?_
  show (Function.update s.worker w o w).ahead _ + 1 ≤ _
  rw [Function.update_self]
  exact hown

omit [DecidableEq S] [DecidableEq W] in
theorem ahead_main {o : MainPc} {q : QState (PThread S W) TaskT} {d : List TaskT} {m n : Nat}
    (hq : Others s.q.pc q.pc .main) (hins : s.q.inserted ⊆ q.inserted)
    (hsize : q.queue.currentSize = s.q.queue.currentSize)
    (hown : o.ahead (q.pc .main) + m ≤ s.aheadOf .main + n) :
    m + ({ s with q, main := o, discarded := d } : PoolState S W).ahead ≤ s.ahead + n :=
  (SameBut.main_moves o q hq hins d).ahead_le_of_size hsize hown

/-- A submitter that has a task, or is about to make one, gets on with it. -/
theorem submitterStep_ahead {i : S} {ev : PoolEvent S W} (h : submitterStep s i ev = some s')
    (hev : ev.endsCall = true) : 1 + s'.ahead ≤ s.ahead := by
  have hof : ∀ {o}, s.submitter i = o →
      s.aheadOf (.submitter i) = o.ahead (s.q.pc (.submitter i)) := by
    intro o ho
    rw [PoolState.aheadOf, ho]
  have hstay : Others s.q.pc s.q.pc (.submitter i) := fun _ _ => .inl rfl
  cases ev with
  | createTask _ calloc =>
      simp only [submitterStep] at h
      split at h
      · rename_i argFree hi
        split at h
        · cases h
          refine ahead_submitter hstay (List.Subset.refl _) rfl ?_
          exact Nat.le_of_eq (hof hi).symm
        · cases h
          refine ahead_submitter hstay (List.Subset.refl _) rfl ?_
          rw [hof hi]
          exact Nat.succ_le_succ (Nat.zero_le _)
      · simp at h
  | enqueueTask _ calloc =>
      simp only [submitterStep] at h
      split at h
      · rename_i task hi
        obtain ⟨q, hq, rfl⟩ := Option.map_eq_some_iff.mp h
        simp only [queueStep] at hq
        split at hq
        · split at hq
          · cases hq
            dsimp only
            refine ahead_submitter (.update _ _ _) (List.Subset.refl _) rfl ?_
            rw [hof hi]
            dsimp only
            rw [Function.update_self]
            exact Nat.le_refl 7
          · cases hq
            dsimp only
            refine ahead_submitter (.update _ _ _) (List.Subset.refl _) rfl ?_
            rw [hof hi]
            dsimp only
            rw [Function.update_self]
            exact Nat.le_add_right 2 5
        · simp at hq
      · simp at h
  | taskAdded _ =>
      simp only [submitterStep] at h
      split at h
      · rename_i task hi hp
        rw [queueDo_ret h]
        refine ahead_submitter (.update _ _ _) (place_inserted _ _ _) rfl ?_
        rw [hof hi, hp]
        exact Nat.le_refl 1
      · rename_i task c hc hi hp
        rw [queueDo_ret h]
        refine ahead_submitter (.update _ _ _) (place_inserted _ _ _) rfl ?_
        rw [hof hi, hp]
        exact Nat.le_refl 1
      · simp at h
  | addTask => exact Bool.noConfusion hev
  | _ => simp [submitterStep] at h

/-- A worker that sees the flag leaves. -/
theorem workerStep_ahead (hdown : s.q.shutdown = true) {w : W} {ev : PoolEvent S W}
    (h : workerStep s w ev = some s') : 1 + s'.ahead ≤ s.ahead := by
  have hof : ∀ {o}, s.worker w = o → s.aheadOf (.worker w) = o.ahead (s.q.pc (.worker w)) := by
    intro o ho
    rw [PoolState.aheadOf, ho]
  have hstay : Others s.q.pc s.q.pc (.worker w) := fun _ _ => .inl rfl
  cases ev with
  | loop _ =>
      simp only [workerStep] at h
      split at h
      · rename_i hw
        rw [if_pos hdown] at h
        cases h
        refine ahead_worker hstay (List.Subset.refl _) rfl ?_
        exact Nat.le_of_eq (hof hw).symm
      · simp at h
  | taskTaken _ =>
      simp only [workerStep] at h
      split at h
      · rename_i task hw hp
        rw [queueDo_ret h]
        refine ahead_worker (.update _ _ _) (place_inserted _ _ _) rfl ?_
        rw [hof hw, hp]
        exact Nat.le_refl 6
      · rename_i hw hp
        rw [queueDo_ret h]
        refine ahead_worker (.update _ _ _) (place_inserted _ _ _) rfl ?_
        rw [hof hw, hp]
        exact Nat.le_refl 2
      · simp at h
  | execute _ =>
      simp only [workerStep] at h
      split at h
      · rename_i task hw
        cases h
        exact ahead_worker hstay (List.Subset.refl _) rfl (Nat.le_of_eq (hof hw).symm)
      · simp at h
  | executed _ =>
      simp only [workerStep] at h
      split at h
      · rename_i task hw
        cases h
        exact ahead_worker hstay (List.Subset.refl _) rfl (Nat.le_of_eq (hof hw).symm)
      · simp at h
  | argFree _ =>
      simp only [workerStep] at h
      split at h
      · rename_i task hw
        cases h
        exact ahead_worker hstay (List.Subset.refl _) rfl (Nat.le_of_eq (hof hw).symm)
      · simp at h
  | freeTask _ =>
      simp only [workerStep] at h
      split at h
      · rename_i task hw
        cases h
        exact ahead_worker hstay (List.Subset.refl _) rfl (Nat.le_of_eq (hof hw).symm)
      · simp at h
  | _ => simp [workerStep] at h

/-- A call that waits for the workers, or a destroyer that takes the tasks that are left. -/
theorem mainStep_ahead {ev : PoolEvent S W} (h : mainStep s ev = some s')
    (hev : ev.endsCall = true) : 1 + s'.ahead ≤ s.ahead := by
  have hof : ∀ {o}, s.main = o → s.aheadOf .main = o.ahead (s.q.pc .main) := by
    intro o ho
    rw [PoolState.aheadOf, ho]
  have hstay : Others s.q.pc s.q.pc .main := fun _ _ => .inl rfl
  cases ev with
  | broadcast =>
      simp only [mainStep] at h
      split at h
      · rename_i destroying hm
        obtain ⟨q, hq, rfl⟩ := Option.map_eq_some_iff.mp h
        cases hq
        dsimp only
        refine ahead_main (n := 0) (.broadcast _ _) (List.Subset.refl _) rfl ?_
        rw [hof hm]
        cases destroying <;> exact Nat.le_refl _
      · simp at h
  | join =>
      simp only [mainStep] at h
      split at h
      · rename_i destroying hm
        split at h
        · cases h
          refine ahead_main (n := 0) hstay (List.Subset.refl _) rfl ?_
          rw [hof hm]
          cases destroying <;> exact Nat.le_refl _
        · simp at h
      · simp at h
  | clear =>
      simp only [mainStep] at h
      split at h
      · rename_i hm
        split at h
        · obtain ⟨hidle, rfl⟩ := queueDo_callDequeue h
          refine ahead_main (n := 0) (.update _ _ _) (place_inserted _ _ _) rfl ?_
          rw [hof hm, QState.place_self]
          exact Nat.le_refl 1
        · cases h
          refine ahead_main (n := 0) hstay (List.Subset.refl _) rfl ?_
          rw [hof hm]
          exact Nat.le_refl 1
      · simp at h
  | cleared =>
      simp only [mainStep] at h
      split at h
      · rename_i task hm hp
        rw [queueDo_ret h]
        refine ahead_main (n := 0) (.update _ _ _) (place_inserted _ _ _) rfl ?_
        rw [hof hm, hp]
        exact Nat.le_refl 2
      · rename_i hm hp
        rw [queueDo_ret h]
        refine ahead_main (n := 0) (.update _ _ _) (place_inserted _ _ _) rfl ?_
        rw [hof hm, hp]
        exact Nat.le_refl 2
      · simp at h
  | shutdown => exact Bool.noConfusion hev
  | destroy => exact Bool.noConfusion hev
  | _ => simp [mainStep] at h

/-- What another call has ahead of it. -/
def PoolEvent.callCost : PoolEvent S W → Nat
  | shutdown => 2
  | destroy => 3
  | _ => 0

theorem poolStep_ahead (hagree : ∀ u, Agrees s u) (ha : Awake s.q)
    (hmax : s.q.queue.maxSize = 0) (hclear : ClearsTask s) {ev : PoolEvent S W}
    (h : poolStep s ev = some s') : ev.endsCall.toNat + s'.ahead ≤ s.ahead + ev.callCost := by
  have hsame : s'.ahead = s.ahead → 0 + s'.ahead ≤ s.ahead + 0 := by
    intro he
    rw [he, Nat.zero_add]
    exact Nat.le_refl _
  unfold poolStep at h
  split at h
  · simp at h
  · cases ev with
    | addTask i argFree =>
        -- with the flag set, nothing is accepted any more
        simp only [submitterStep] at h
        split at h
        · rw [if_pos ha.down] at h
          cases h
          exact hsame rfl
        · simp at h
    | createTask => exact submitterStep_ahead h rfl
    | enqueueTask => exact submitterStep_ahead h rfl
    | taskAdded => exact submitterStep_ahead h rfl
    | lock t woken =>
        obtain ⟨q, hq, rfl⟩ := Option.map_eq_some_iff.mp h
        exact (queueStep_lock hq).ahead_lt hagree ha hmax hclear
    | spurious t =>
        obtain ⟨q, hq, rfl⟩ := Option.map_eq_some_iff.mp h
        simp only [queueStep] at hq
        split at hq
        · cases hq
          have hb : SameBut s { s with q := s.q.place t (s.q.pc t).wake } t :=
            .queue_moves (s.q.place t (s.q.pc t).wake) (.update _ _ _) (List.Subset.refl _)
          exact hb.ahead_le_of_size (m := 0) (n := 0) rfl (Nat.le_of_eq (aheadOf_wake t))
        · simp at hq
    | signal =>
        obtain ⟨q, hq, rfl⟩ := Option.map_eq_some_iff.mp h
        cases hq
        exact hsame rfl
    | loop => exact workerStep_ahead ha.down h
    | taskTaken => exact workerStep_ahead ha.down h
    | execute => exact workerStep_ahead ha.down h
    | executed => exact workerStep_ahead ha.down h
    | argFree => exact workerStep_ahead ha.down h
    | freeTask => exact workerStep_ahead ha.down h
    | shutdown =>
        simp only [mainStep] at h
        split at h
        · rename_i hm
          cases h
          refine ahead_main (m := 0) (n := 2) (fun _ _ => .inl rfl) (List.Subset.refl _) rfl ?_
          rw [PoolState.aheadOf, hm]
          exact Nat.le_refl 2
        · simp at h
    | destroy =>
        simp only [mainStep] at h
        split at h
        · rename_i hm
          cases h
          refine ahead_main (m := 0) (n := 3) (fun _ _ => .inl rfl) (List.Subset.refl _) rfl ?_
          rw [PoolState.aheadOf, hm]
          exact Nat.le_refl 3
        · simp at h
    | broadcast => exact mainStep_ahead h rfl
    | join => exact mainStep_ahead h rfl
    | clear => exact mainStep_ahead h rfl
    | cleared => exact mainStep_ahead h rfl

/-! ### Behind a broadcast with the flag set

What is known of the pool then, and is kept by every step.
-/

omit [DecidableEq S] [DecidableEq W] [Fintype S] [Fintype W] in
theorem QMove.maxSize {T α : Type} [DecidableEq T] {q q' : QState T α} {ev : QEvent T α}
    (hm : QMove q ev q') : q'.queue.maxSize = q.queue.maxSize := by
  cases hm with
  | locks t woken hl =>
      cases hl with
      | appends n d queue hfrom hfull hsig hq => exact (queueAppend_sizes hq).2
      | takes queue d hfrom hempty hsig hq => exact (queueTakeHead_sizes hq).2
      | _ => rfl
  | _ => rfl

/-- The task queue is not bounded. -/
theorem poolSystem_unbounded (h : (poolSystem S W).Reach s) : s.q.queue.maxSize = 0 := by
  refine h.invariant (I := fun s => s.q.queue.maxSize = 0) ?_ ?_
  · rintro s rfl
    rfl
  · intro s ev s' hi hs
    rcases (poolStep_move hs).queue with hq | ⟨qev, hq, -⟩
    · rw [hq]
      exact hi
    · rw [hq.maxSize]
      exact hi

omit [DecidableEq S] [DecidableEq W] [Fintype S] [Fintype W] in
theorem ClearsTask.same (h : ClearsTask s) (hmain : s'.main = s.main)
    (hsize : s.q.queue.currentSize ≠ 0 → s'.q.queue.currentSize ≠ 0)
    (hpc : s'.q.pc .main = s.q.pc .main ∨ s'.q.pc .main = (s.q.pc .main).wake) : ClearsTask s' := by
  intro hm
  rcases h (hmain ▸ hm) with hs | ⟨d, hd⟩
  · exact .inl (hsize hs)
  · refine .inr ⟨d, ?_⟩
    rcases hpc with hp | hp <;> rw [hp, hd]
    rfl

omit [Fintype S] [Fintype W] in
/-- With the mutex, the destroyer comes back with a result, and the others take nothing out. -/
theorem LockMove.clearsTask {woken : List (PThread S W)} {q : QState (PThread S W) TaskT}
    (hm : LockMove s.q t woken q) (h : ClearsTask s) (hagree : ∀ u, Agrees s u) (hjoined : Joined s)
    (hwrap : NoWrap s.q (.lock t woken)) (ha : Awake s.q) (hmax : s.q.queue.maxSize = 0) :
    ClearsTask { s with q } := by
  by_cases ht : t = .main
  · subst ht
    intro hc
    have hreturned : ∀ (pc : PThread S W → QPc TaskT) (r : Option TaskT), ∃ d,
        Function.update pc .main (.returned (.data r)) .main = .returned (.data d) :=
      fun pc r => ⟨r, Function.update_self ..⟩
    refine .inr ?_
    cases hm with
    | sleepsFull n d hfrom =>
        obtain ⟨i, task, hi, -⟩ := (hagree .main).of_enqueues hfrom
        cases hi
    | appends n d queue hfrom =>
        obtain ⟨i, task, hi, -⟩ := (hagree .main).of_enqueues hfrom
        cases hi
    | leaves hfrom => exact hreturned s.q.pc none
    | sleepsEmpty hfrom hempty hdown => exact absurd (ha.down.symm.trans hdown) Bool.noConfusion
    | takes queue d hfrom => exact hreturned (wakeThreads s.q.pc woken) (some d)
  · intro hc
    have hclearing : s.main = .clearing := hc
    have hpc := hm.others .main fun he => ht he.symm
    have hsize : s.q.queue.currentSize ≠ 0 → q.queue.currentSize ≠ 0 := by
      intro hsize
      cases hm with
      | appends n d queue hfrom hfull hsig hq =>
          have hroom := hwrap (by rw [hfrom.pending]; exact nofun) hmax
          show queue.currentSize ≠ 0
          rw [(queueAppend_sizes hq).1]
          intro hzero
          have hnat := congrArg UInt32.toNat hzero
          rw [toNat_succ hroom] at hnat
          exact Nat.succ_ne_zero _ hnat
      | takes queue d hfrom hempty hsig hq =>
          rcases (hagree t).of_dequeues hfrom with ⟨w, rfl, ho⟩ | ⟨rfl, -⟩
          · have hexited := hjoined.exited (hclearing ▸ trivial) w
            rw [ho] at hexited
            exact Bool.noConfusion hexited
          · exact absurd rfl ht
      | _ => exact hsize
    have hkeeps : ClearsTask { s with q } := h.same rfl hsize hpc
    exact hkeeps hc

omit [Fintype S] [Fintype W] in
theorem PoolMove.clearsTask {ev : PoolEvent S W} (hm : PoolMove s ev s') (h : ClearsTask s)
    (hagree : ∀ u, Agrees s u) (hjoined : Joined s) (hwrap : PoolNoWrap s ev) (ha : Awake s.q)
    (hmax : s.q.queue.maxSize = 0) : ClearsTask s' := by
  have hplace : ∀ {u : PThread S W} {p}, u ≠ .main → (s.q.place u p).pc .main = s.q.pc .main :=
    fun hu => Function.update_of_ne hu.symm _ _
  cases hm with
  | stays => exact h
  | submits i p => exact h.same rfl id (.inl rfl)
  | creates i argFree => exact h.same rfl id (.inl rfl)
  | enqueues i task hfrom hidle =>
      have hother : (.submitter i : PThread S W) ≠ .main := nofun
      have hpc := hplace (p := .enqueueLock (queueNodeNew s.q.queue task).2 task) hother
      exact h.same rfl id (.inl hpc)
  | fails i task hfrom hidle => exact h.same rfl id (.inl (hplace nofun))
  | adds i task hfrom hret => exact h.same rfl id (.inl (hplace nofun))
  | refuses i task c hfrom hret hc => exact h.same rfl id (.inl (hplace nofun))
  | locks t woken q hl => exact hl.clearsTask h hagree hjoined hwrap ha hmax
  | wakes t =>
      refine h.same rfl id ?_
      by_cases ht : t = .main
      · subst ht
        exact .inr (QState.place_self _ _ _)
      · exact .inl (hplace ht)
  | signals => exact h.same rfl id (.inl rfl)
  | exits w hfrom hdown => exact h.same rfl id (.inl rfl)
  | dequeues w hfrom hidle => exact h.same rfl id (.inl (hplace nofun))
  | gets w task hfrom hret => exact h.same rfl id (.inl (hplace nofun))
  | misses w hfrom hret => exact h.same rfl id (.inl (hplace nofun))
  | executes w task hfrom => exact h.same rfl id (.inl rfl)
  | executed w task hfrom => exact h.same rfl id (.inl rfl)
  | frees w task hfrom => exact h.same rfl id (.inl rfl)
  | returns w task hfrom => exact h.same rfl id (.inl rfl)
  | calls destroying hfrom => exact nofun
  | broadcasts destroying hfrom => exact nofun
  | joins destroying hfrom hall => cases destroying <;> exact nofun
  | clears hfrom hsize hidle =>
      refine fun _ => .inl fun hzero => ?_
      have hzero' : s.q.queue.currentSize = 0 := hzero
      rw [hzero'] at hsize
      exact absurd hsize (by decide)
  | discards task hfrom hret => exact nofun
  | skips hfrom hret => exact nofun
  | destroys hfrom hsize => exact nofun

/-- What holds behind a broadcast that found the flag set. -/
structure Ending (s : PoolState S W) : Prop where
  /-- The queue counts right. -/
  reach : (poolSystem S W).ReachIf PoolNoWrap s
  /-- Nobody sleeps in front of an empty queue. -/
  awake : Awake s.q
  /-- `queue_clear` has a task to take. -/
  clears : ClearsTask s

theorem Ending.step (h : Ending s) {ev : PoolEvent S W} (hc : PoolNoWrap s ev)
    (hs : poolStep s ev = some s') : Ending s' where
  reach := h.reach.step hc hs
  awake := poolStep_awake hs h.awake
  clears := (poolStep_move hs).clearsTask h.clears (poolSystem_agrees h.reach.reach)
    (poolSystem_joined h.reach.reach) hc h.awake (poolSystem_unbounded h.reach.reach)

/-! ### Getting on

Where the call has not returned, somebody can take a step towards it.
-/

/-- `thread_pool_shutdown` or `thread_pool_destroy` is not being called, or has returned. -/
def MainPc.hasReturned : MainPc → Bool
  | idle => true
  | destroyed => true
  | _ => false

omit [Fintype S] [Fintype W] [DecidableEq S] [DecidableEq W] in
theorem endsCall_of_isWork {ev : PoolEvent S W} (h : ev.isWork = true) :
    ev.endsCall = true := by
  cases ev with
  | addTask => exact h
  | spurious => exact h
  | signal => exact h
  | shutdown => exact h
  | destroy => exact h
  | _ => rfl

/-- Until the call has returned, somebody can get on. -/
theorem Ending.enabled (h : Ending s) (hnot : ¬ s.main.hasReturned = true) :
    ∃ ev s', ev.endsCall = true ∧ PoolNoWrap s ev ∧ poolStep s ev = some s' := by
  have hagree := poolSystem_agrees h.reach.reach
  obtain ⟨ns, hinv⟩ := poolSystem_queue h.reach
  have halive : ¬ s.main.isDestroyed = true := by
    cases hm : s.main with
    | destroyed => exact absurd (by rw [hm]; rfl) hnot
    | _ => exact Bool.noConfusion
  have hgo : ∀ ev : PoolEvent S W, ev.endsCall = true → PoolNoWrap s ev → poolStep s ev ≠ none →
      ∃ ev s', ev.endsCall = true ∧ PoolNoWrap s ev ∧ poolStep s ev = some s' := by
    intro ev hev hwrap hsome
    obtain ⟨s', hs'⟩ := Option.ne_none_iff_exists'.mp hsome
    exact ⟨ev, s', hev, hwrap, hs'⟩
  have hmain : s.main.Agrees (s.q.pc .main) := hagree .main
  cases hm : s.main with
  | idle => exact absurd (by rw [hm]; rfl) hnot
  | destroyed => exact absurd (by rw [hm]; rfl) hnot
  | broadcast destroying =>
      refine hgo .broadcast rfl trivial ?_
      rw [show poolStep s .broadcast = mainStep s .broadcast from if_neg halive]
      simp [mainStep, hm, queueDo, queueStep]
  | join destroying =>
      by_cases hall : ∀ w, (s.worker w).isExited = true
      · refine hgo .join rfl trivial ?_
        rw [show poolStep s .join = mainStep s .join from if_neg halive]
        simp [mainStep, hm, hall]
      · obtain ⟨w, hw⟩ := not_forall.mp hall
        have hawake : s.q.pc (.worker w) ≠ .dequeueWait := by
          intro hp
          exact absurd (h.awake.nobody (.worker w)) (by rw [hp]; exact Bool.noConfusion)
        obtain ⟨ev, s', hev, hwrap, hs⟩ := worker_enabled hinv hagree halive
          (fun he => hw (by rw [he]; rfl)) hawake
        exact ⟨ev, s', endsCall_of_isWork hev, hwrap, hs⟩
  | clear =>
      rw [hm] at hmain
      have hidle : s.q.pc .main = .idle := hmain
      refine hgo .clear rfl trivial ?_
      rw [show poolStep s .clear = mainStep s .clear from if_neg halive]
      by_cases hsize : s.q.queue.currentSize > 0
      · simp [mainStep, hm, hsize, queueDo, queueStep, hidle, QPc.isIdle]
      · simp [mainStep, hm, hsize]
  | clearing =>
      rw [hm] at hmain
      rcases hmain with hp | hp | ⟨d, hp⟩
      · obtain ⟨woken, q', hq'⟩ := hinv.lock_enabled hp
        have hpending : (s.q.pc .main).pending = none := by
          rcases hp with hp | hp <;> rw [hp] <;> rfl
        refine hgo (.lock .main woken) rfl (fun hc => absurd hpending hc) ?_
        rw [show poolStep s (.lock .main woken) = queueDo s (.lock .main woken) id
          from if_neg halive, queueDo, hq']
        exact Option.some_ne_none _
      · exact absurd (h.awake.nobody .main) (by rw [hp]; exact Bool.noConfusion)
      · refine hgo .cleared rfl trivial ?_
        rw [show poolStep s .cleared = mainStep s .cleared from if_neg halive]
        cases d with
        | none => simp [mainStep, hm, hp, queueDo, queueStep]
        | some task => simp [mainStep, hm, hp, queueDo, queueStep]

/-- Behind a broadcast that found the flag set, the call returns. -/
theorem Ending.settles (h : Ending s) :
    (poolSystem S W).Settles PoolNoWrap PoolEvent.endsCall PoolEvent.callCost
      (fun t => t.main.hasReturned = true) s s.ahead := by
  refine System.settles (I := Ending) (fun s ev s' hs hc hstep => hs.step hc hstep) ?_ ?_ h
  · intro s ev s' hs hc hstep
    exact poolStep_ahead (poolSystem_agrees hs.reach.reach) hs.awake
      (poolSystem_unbounded hs.reach.reach) hs.clears hstep
  · exact fun s hs hnot => hs.enabled hnot

end Locks

end CmakeTemplate
