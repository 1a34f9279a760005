/-
What a pool has done when it is gone.

Workers leave when they see the flag, with tasks in the queue or without, and `queue_clear`
then frees what is left as it stands.  So the tasks of a pool are completed when `queue_clear`
finds none; with one left over, a task that was accepted is never run.

When the pool is gone, all workers have exited, nobody has a task in hand, and the queue has
been seen empty.  What was accepted has then been executed or discarded, and each argument has
been freed.  The condition is on the state at each look of `queue_clear` at the queue: it is
empty, and its counter has not gone over on the way.  The run with a discarded task has two
workers that leave in front of it.
-/
import CmakeTemplate.Proofs.ThreadPool.Conserve

namespace CmakeTemplate

open Lib

variable {S W : Type} {s s' : PoolState S W}

/-- Behind the joins of `thread_pool_destroy`. -/
def MainPc.joined : MainPc → Prop
  | clear => True
  | clearing => True
  | destroyed => True
  | _ => False

/-- Nobody works on a pool that is being taken apart, and none is left of its queue. -/
structure Joined (s : PoolState S W) : Prop where
  /-- Behind the joins all workers have left. -/
  exited : s.main.joined → ∀ w, (s.worker w).isExited = true
  /-- The queue of a pool that is gone is empty. -/
  empty : s.main.isDestroyed = true → ¬ s.q.queue.currentSize > 0

variable [DecidableEq S] [DecidableEq W]

/-- A worker that has left stays where it is. -/
theorem PoolMove.exited {ev : PoolEvent S W} (hm : PoolMove s ev s')
    (h : s.main.joined → ∀ w, (s.worker w).isExited = true) :
    s'.main.joined → ∀ w, (s'.worker w).isExited = true := by
  have hbusy : ∀ {w o}, s.worker w = o → o.isExited = false → ¬ s.main.joined := by
    intro w o hw ho hj
    have := h hj w
    rw [hw, ho] at this
    simp at this
  cases hm with
  | exits w hfrom hdown => exact fun hj => absurd hj (hbusy hfrom rfl)
  | dequeues w hfrom hidle => exact fun hj => absurd hj (hbusy hfrom rfl)
  | gets w task hfrom hret => exact fun hj => absurd hj (hbusy hfrom rfl)
  | misses w hfrom hret => exact fun hj => absurd hj (hbusy hfrom rfl)
  | executes w task hfrom => exact fun hj => absurd hj (hbusy hfrom rfl)
  | executed w task hfrom => exact fun hj => absurd hj (hbusy hfrom rfl)
  | frees w task hfrom => exact fun hj => absurd hj (hbusy hfrom rfl)
  | returns w task hfrom => exact fun hj => absurd hj (hbusy hfrom rfl)
  | calls destroying hfrom => exact False.elim
  | broadcasts destroying hfrom => exact False.elim
  | joins destroying hfrom hall => exact fun _ => hall
  | clears hfrom hsize hidle => exact fun _ => h (hfrom ▸ trivial)
  | discards task hfrom hret => exact fun _ => h (hfrom ▸ trivial)
  | skips hfrom hret => exact fun _ => h (hfrom ▸ trivial)
  | destroys hfrom hsize => exact fun _ => h (hfrom ▸ trivial)
  | _ => exact h

/-- The pool is gone only behind a look at an empty queue. -/
theorem PoolMove.empty {ev : PoolEvent S W} (hm : PoolMove s ev s')
    (h : ¬ s.main.isDestroyed = true) :
    s'.main.isDestroyed = true → ¬ s'.q.queue.currentSize > 0 := by
  cases hm with
  | calls destroying hfrom => exact fun hd => absurd hd (by simp [MainPc.isDestroyed])
  | broadcasts destroying hfrom => exact fun hd => absurd hd (by simp [MainPc.isDestroyed])
  | joins destroying hfrom hall =>
      exact fun hd => absurd hd (by cases destroying <;> simp [MainPc.isDestroyed])
  | clears hfrom hsize hidle => exact fun hd => absurd hd (by simp [MainPc.isDestroyed])
  | discards task hfrom hret => exact fun hd => absurd hd (by simp [MainPc.isDestroyed])
  | skips hfrom hret => exact fun hd => absurd hd (by simp [MainPc.isDestroyed])
  | destroys hfrom hsize => exact fun _ => hsize
  | _ => exact fun hd => absurd hd h

variable [Fintype S] [Fintype W]

theorem poolStep_alive {ev : PoolEvent S W} (h : poolStep s ev = some s') :
    ¬ s.main.isDestroyed = true := by
  intro hd
  simp [poolStep, hd] at h

theorem poolSystem_joined (h : (poolSystem S W).Reach s) : Joined s := by
  refine h.invariant ?_ ?_
  · rintro s rfl
    exact ⟨False.elim, by simp [poolStart, MainPc.isDestroyed]⟩
  · intro s ev s' hj hs
    have hm := poolStep_move hs
    exact ⟨hm.exited hj.exited, hm.empty (poolStep_alive hs)⟩

/-! ### A pool that is gone

The ledgers, with all hands empty.
-/

/-- What was accepted has been executed or discarded, and no argument is left. -/
theorem destroyed_accounts (h : (poolSystem S W).ReachIf PoolNoWrap s)
    (hd : s.main.isDestroyed = true) :
    (s.q.inserted : Multiset TaskT) = s.executed + s.discarded ∧ s.owed = s.argFreed := by
  have hj := poolSystem_joined h.reach
  have hagree := poolSystem_agrees h.reach
  have hmain : s.main = .destroyed := by
    cases hm : s.main with
    | destroyed => rfl
    | _ => rw [hm] at hd; simp [MainPc.isDestroyed] at hd
  have hexited : ∀ w, s.worker w = .exited := by
    intro w
    have hw := hj.exited (hmain ▸ trivial) w
    cases ho : s.worker w with
    | exited => rfl
    | _ => rw [ho] at hw; simp [WorkerPc.isExited] at hw
  have hworker : ∀ w, s.hand (.worker w) = 0 := by
    intro w
    have hw : (s.worker w).Agrees (s.q.pc (.worker w)) := hagree (.worker w)
    rw [hexited w] at hw
    rw [PoolState.hand, PoolState.holds, hexited w, show s.q.pc (.worker w) = .idle from hw]
    rfl
  have hhand : s.hand .main = 0 := by
    have hm : s.main.Agrees (s.q.pc .main) := hagree .main
    rw [hmain] at hm
    rw [PoolState.hand, show s.q.pc .main = .idle from hm]
    rfl
  have hqueue : queueData s.q.queue = [] := by
    obtain ⟨ns, hinv⟩ := poolSystem_queue h
    have hzero : s.q.queue.currentSize = 0 := by
      have := hj.empty hd
      exact UInt32.le_zero_iff.mp (UInt32.not_lt.mp this)
    rw [hinv.rep.data, (queueIsEmpty_iff hinv.rep).mp (by simp [queueIsEmpty, hzero])]
    rfl
  have howes : ∀ t, s.owes t = 0 := by
    intro t
    cases t with
    | worker w => rw [PoolState.owes, hexited w]; rfl
    | submitter i => rfl
    | main => rfl
  constructor
  · rw [(poolSystem_conserved h).accepted, hqueue, hhand, Finset.sum_eq_zero fun w _ => hworker w]
    simp
  · rw [(poolSystem_ledger h.reach).freed, Finset.sum_eq_zero fun t _ => howes t, zero_add]

/-- Every accepted task has been run once, and its argument freed once. -/
def Completed (s : PoolState S W) : Prop :=
  s.main.isDestroyed = true → ∀ task ∈ s.returned,
    s.executed.count task = 1 ∧ (task.argFree = true → s.argFreed.count task = 1)

/-- `queue_clear` finds the queue empty, and `current_size` has counted right. -/
def Drained (s : PoolState S W) (ev : PoolEvent S W) : Prop :=
  PoolNoWrap s ev ∧ (ev = .clear → ¬ s.q.queue.currentSize > 0)

omit [Fintype S] [Fintype W] in
theorem PoolMove.discarded {ev : PoolEvent S W} (hm : PoolMove s ev s') (hc : Drained s ev)
    (h : s.main ≠ .clearing ∧ s.discarded = []) : s'.main ≠ .clearing ∧ s'.discarded = [] := by
  cases hm with
  | calls destroying hfrom => exact ⟨by simp, h.2⟩
  | broadcasts destroying hfrom => exact ⟨by simp, h.2⟩
  | joins destroying hfrom hall => exact ⟨by cases destroying <;> simp, h.2⟩
  | clears hfrom hsize hidle => exact absurd hsize (hc.2 rfl)
  | discards task hfrom hret => exact absurd hfrom h.1
  | skips hfrom hret => exact absurd hfrom h.1
  | destroys hfrom hsize => exact ⟨by simp, h.2⟩
  | _ => exact h

/-- When the queue is empty at every `queue_clear`, every accepted task is completed. -/
theorem poolSystem_completed (h : (poolSystem S W).ReachIf Drained s) : Completed s := by
  intro hd task htask
  have hwrap : (poolSystem S W).ReachIf PoolNoWrap s := h.mono fun _ _ hc => hc.1
  have hnone : s.main ≠ .clearing ∧ s.discarded = [] := by
    refine h.invariant (I := fun s => s.main ≠ .clearing ∧ s.discarded = []) ?_ ?_
    · rintro s rfl
      exact ⟨by simp [poolStart], rfl⟩
    · exact fun s ev s' hi hc hs => (poolStep_move hs).discarded hc hi
  obtain ⟨hexec, hfree⟩ := destroyed_accounts hwrap hd
  have hcons := poolSystem_conserved hwrap
  have hperm : s.q.inserted.Perm s.executed := by
    rw [hnone.2, Multiset.coe_nil, add_zero] at hexec
    exact Quotient.exact hexec
  have hone : s.executed.count task = 1 := by
    rw [← hperm.count_eq]
    exact List.count_eq_one_of_mem hcons.once (hcons.returned htask)
  refine ⟨hone, fun hfreed => ?_⟩
  have hpermf : (s.executed.filter fun task => task.argFree).Perm s.argFreed := Quotient.exact hfree
  rw [← hpermf.count_eq, List.count_filter hfreed, hone]

/-- A task that one of two workers runs before both leave. -/
theorem poolSystem_completed_run :
    ∃ s, (poolSystem Unit Bool).run (poolStart Unit Bool) [.addTask () true, .createTask () true,
        .enqueueTask () true, .lock (.submitter ()) [], .taskAdded (), .loop true,
        .lock (.worker true) [], .taskTaken true, .execute true, .executed true, .argFree true,
        .freeTask true, .signal, .loop true, .loop false, .shutdown, .broadcast, .join, .destroy,
        .broadcast, .join, .clear] = some s ∧
      s.main.isDestroyed = true ∧ s.returned = [⟨0, true⟩] ∧ Completed s := by
  have h0 : (poolSystem Unit Bool).ReachIf Drained (poolStart Unit Bool) := .init rfl
  have h1 := h0.step (l := PoolEvent.addTask () true) ⟨trivial, nofun⟩ rfl
  have h2 := h1.step (l := PoolEvent.createTask () true) ⟨trivial, nofun⟩ rfl
  have h3 := h2.step (l := PoolEvent.enqueueTask () true) ⟨trivial, nofun⟩ rfl
  have h4 := h3.step (l := PoolEvent.lock (.submitter ()) []) ⟨fun _ _ => by decide, nofun⟩ rfl
  have h5 := h4.step (l := PoolEvent.taskAdded ()) ⟨trivial, nofun⟩ rfl
  have h6 := h5.step (l := PoolEvent.loop true) ⟨trivial, nofun⟩ rfl
  have h7 := h6.step (l := PoolEvent.lock (.worker true) []) ⟨fun _ _ => by decide, nofun⟩ rfl
  have h8 := h7.step (l := PoolEvent.taskTaken true) ⟨trivial, nofun⟩ rfl
  have h9 := h8.step (l := PoolEvent.execute true) ⟨trivial, nofun⟩ rfl
  have h10 := h9.step (l := PoolEvent.executed true) ⟨trivial, nofun⟩ rfl
  have h11 := h10.step (l := PoolEvent.argFree true) ⟨trivial, nofun⟩ rfl
  have h12 := h11.step (l := PoolEvent.freeTask true) ⟨trivial, nofun⟩ rfl
  have h13 := h12.step (l := PoolEvent.signal) ⟨trivial, nofun⟩ rfl
  have h14 := h13.step (l := PoolEvent.loop true) ⟨trivial, nofun⟩ rfl
  have h15 := h14.step (l := PoolEvent.loop false) ⟨trivial, nofun⟩ rfl
  have h16 := h15.step (l := PoolEvent.shutdown) ⟨trivial, nofun⟩ rfl
  have h17 := h16.step (l := PoolEvent.broadcast) ⟨trivial, nofun⟩ rfl
  have h18 := h17.step (l := PoolEvent.join) ⟨trivial, nofun⟩ rfl
  have h19 := h18.step (l := PoolEvent.destroy) ⟨trivial, nofun⟩ rfl
  have h20 := h19.step (l := PoolEvent.broadcast) ⟨trivial, nofun⟩ rfl
  have h21 := h20.step (l := PoolEvent.join) ⟨trivial, nofun⟩ rfl
  have h22 := h21.step (l := PoolEvent.clear) ⟨trivial, fun _ => by decide⟩ rfl
  exact ⟨_, rfl, rfl, rfl, poolSystem_completed h22⟩

/-- The flag is set while the task is in the queue: both workers leave, and `queue_clear`
frees the task. -/
theorem accepted_task_discarded :
    ¬ ∀ s, (poolSystem Unit Bool).Reach s → Completed s := by
  intro hall
  have hrun : ∃ s, (poolSystem Unit Bool).run (poolStart Unit Bool) [.addTask () true,
        .createTask () true, .enqueueTask () true, .lock (.submitter ()) [], .taskAdded (),
        .signal, .loop true, .loop false, .shutdown, .broadcast, .join, .destroy, .broadcast,
        .join, .clear, .lock .main [], .cleared, .clear] = some s ∧
      s.main.isDestroyed = true ∧ s.returned = [⟨0, true⟩] ∧ s.executed = [] :=
    ⟨_, rfl, rfl, rfl, rfl⟩
  obtain ⟨s, hs, hd, hret, hexec⟩ := hrun
  obtain ⟨hone, -⟩ := hall s ((System.Reach.init rfl).run hs) hd ⟨0, true⟩ (by simp [hret])
  simp [hexec] at hone

end CmakeTemplate
