/-
What one step of a thread pool can do.

A step moves one thread of the pool, makes one step of the task queue, or both.  `PoolMove`
lists the moves with the state each of them leads to, and what is known of the state in front
of it: a worker looks at the flag, calls `queue_dequeue`, takes its result, calls a task,
frees its argument or leaves, and so on for the submitters and for the thread that shuts the
pool down.

`PoolMove.queue` forgets everything but the queue: its state changes by a step of the queue's
own threads or not at all, so whatever holds of a queue on every run holds of the queue in a
pool.  The step function is opened up in this module only.
-/
import CmakeTemplate.ThreadPool
import CmakeTemplate.Proofs.Queue.Fifo

namespace CmakeTemplate

open Lib

variable {S W : Type} [DecidableEq S] [DecidableEq W] [Fintype S] [Fintype W]
  {s s' : PoolState S W}

/-- A submitter that has no task in hand. -/
def SubmitterPc.outside : SubmitterPc → Prop
  | idle => True
  | checked _ => True
  | _ => False

/-- The thread `t` stands somewhere else in its call on the queue. -/
def QState.place {T α : Type} [DecidableEq T] (q : QState T α) (t : T) (p : QPc α) : QState T α :=
  { q with pc := Function.update q.pc t p }

inductive PoolMove (s : PoolState S W) : PoolEvent S W → PoolState S W → Prop
  | stays {ev : PoolEvent S W} : PoolMove s ev s
  | submits {ev : PoolEvent S W} (i : S) (p : SubmitterPc) (hfrom : (s.submitter i).outside)
      (hp : p.outside) : PoolMove s ev { s with submitter := Function.update s.submitter i p }
  | creates {ev : PoolEvent S W} (i : S) (argFree : Bool) (hfrom : (s.submitter i).outside) :
      PoolMove s ev { s with
        nextTask := s.nextTask + 1
        submitter := Function.update s.submitter i (.created ⟨s.nextTask, argFree⟩) }
  | enqueues {ev : PoolEvent S W} (i : S) (task : TaskT) (hfrom : s.submitter i = .created task)
      (hidle : s.q.pc (.submitter i) = .idle) :
      PoolMove s ev { s with
        q := { s.q with
          queue := (queueNodeNew s.q.queue task).1
          pc := Function.update s.q.pc (.submitter i)
            (.enqueueLock (queueNodeNew s.q.queue task).2 task) }
        submitter := Function.update s.submitter i (.enqueueing task) }
  | fails {ev : PoolEvent S W} (i : S) (task : TaskT) (hfrom : s.submitter i = .created task)
      (hidle : s.q.pc (.submitter i) = .idle) :
      PoolMove s ev { s with
        q := s.q.place (.submitter i) (.returned (.code .failure))
        submitter := Function.update s.submitter i (.enqueueing task) }
  | adds {ev : PoolEvent S W} (i : S) (task : TaskT) (hfrom : s.submitter i = .enqueueing task)
      (hret : s.q.pc (.submitter i) = .returned (.code .success)) :
      PoolMove s ev { s with
        q := s.q.place (.submitter i) .idle
        submitter := Function.update s.submitter i .idle
        returned := s.returned ++ [task] }
  | refuses {ev : PoolEvent S W} (i : S) (task : TaskT) (c : ExitCode)
      (hfrom : s.submitter i = .enqueueing task)
      (hret : s.q.pc (.submitter i) = .returned (.code c)) (hc : c ≠ .success) :
      PoolMove s ev { s with
        q := s.q.place (.submitter i) .idle
        submitter := Function.update s.submitter i .idle }
  | locks (t : PThread S W) (woken : List (PThread S W)) (q : QState (PThread S W) TaskT)
      (h : LockMove s.q t woken q) : PoolMove s (.lock t woken) { s with q }
  | wakes {ev : PoolEvent S W} (t : PThread S W) :
      PoolMove s ev { s with q := s.q.place t (s.q.pc t).wake }
  | signals {ev : PoolEvent S W} : PoolMove s ev { s with q := { s.q with shutdown := true } }
  | exits {ev : PoolEvent S W} (w : W) (hfrom : s.worker w = .loop)
      (hdown : s.q.shutdown = true) :
      PoolMove s ev { s with worker := Function.update s.worker w .exited }
  | dequeues {ev : PoolEvent S W} (w : W) (hfrom : s.worker w = .loop)
      (hidle : s.q.pc (.worker w) = .idle) :
      PoolMove s ev { s with
        q := s.q.place (.worker w) .dequeueLock
        worker := Function.update s.worker w .dequeueing }
  | gets {ev : PoolEvent S W} (w : W) (task : TaskT) (hfrom : s.worker w = .dequeueing)
      (hret : s.q.pc (.worker w) = .returned (.data (some task))) :
      PoolMove s ev { s with
        q := s.q.place (.worker w) .idle
        worker := Function.update s.worker w (.got task) }
  | misses {ev : PoolEvent S W} (w : W) (hfrom : s.worker w = .dequeueing)
      (hret : s.q.pc (.worker w) = .returned (.data none)) :
      PoolMove s ev { s with
        q := s.q.place (.worker w) .idle
        worker := Function.update s.worker w .loop }
  | executes {ev : PoolEvent S W} (w : W) (task : TaskT) (hfrom : s.worker w = .got task) :
      PoolMove s ev { s with
        worker := Function.update s.worker w (.running task)
        started := s.started ++ [task] }
  | executed {ev : PoolEvent S W} (w : W) (task : TaskT) (hfrom : s.worker w = .running task) :
      PoolMove s ev { s with
        worker := Function.update s.worker w (.ran task)
        executed := s.executed ++ [task] }
  | frees {ev : PoolEvent S W} (w : W) (task : TaskT) (hfrom : s.worker w = .ran task) :
      PoolMove s ev { s with
        worker := Function.update s.worker w (.processed task)
        argFreed := if task.argFree then s.argFreed ++ [task] else s.argFreed }
  | returns {ev : PoolEvent S W} (w : W) (task : TaskT) (hfrom : s.worker w = .processed task) :
      PoolMove s ev { s with worker := Function.update s.worker w .loop }
  | calls {ev : PoolEvent S W} (destroying : Bool) (hfrom : s.main = .idle) :
      PoolMove s ev { s with main := .broadcast destroying }
  | broadcasts {ev : PoolEvent S W} (destroying : Bool) (hfrom : s.main = .broadcast destroying) :
      PoolMove s ev { s with
        q := { s.q with
          pc := fun u => if (s.q.pc u).waits .notEmpty then (s.q.pc u).wake else s.q.pc u }
        main := .join destroying }
  | joins {ev : PoolEvent S W} (destroying : Bool) (hfrom : s.main = .join destroying)
      (hall : ∀ w, (s.worker w).isExited = true) :
      PoolMove s ev { s with main := if destroying then .clear else .idle }
  | clears (hfrom : s.main = .clear) (hsize : s.q.queue.currentSize > 0)
      (hidle : s.q.pc .main = .idle) :
      PoolMove s .clear { s with q := s.q.place .main .dequeueLock, main := .clearing }
  | discards {ev : PoolEvent S W} (task : TaskT) (hfrom : s.main = .clearing)
      (hret : s.q.pc .main = .returned (.data (some task))) :
      PoolMove s ev { s with
        q := s.q.place .main .idle
        main := .clear
        discarded := s.discarded ++ [task] }
  | skips {ev : PoolEvent S W} (hfrom : s.main = .clearing)
      (hret : s.q.pc .main = .returned (.data none)) :
      PoolMove s ev { s with q := s.q.place .main .idle, main := .clear }
  | destroys {ev : PoolEvent S W} (hfrom : s.main = .clear) (hsize : ¬ s.q.queue.currentSize > 0) :
      PoolMove s ev { s with main := .destroyed }

/-! ### Calls on the queue

A thread that calls a function of the queue is idle there before, and one that returns from it
is so behind.
-/

theorem QPc.eq_idle {α : Type} {p : QPc α} (h : p.isIdle = true) : p = .idle := by
  cases p with
  | idle => rfl
  | _ => simp [isIdle] at h

theorem queueDo_callDequeue {t : PThread S W} {f : PoolState S W → PoolState S W}
    (h : queueDo s (.callDequeue t) f = some s') :
    s.q.pc t = .idle ∧ s' = f { s with q := s.q.place t .dequeueLock } := by
  obtain ⟨q, hq, rfl⟩ := Option.map_eq_some_iff.mp h
  simp only [queueStep] at hq
  split at hq
  · rename_i hidle
    cases hq
    exact ⟨QPc.eq_idle hidle, rfl⟩
  · simp at hq

theorem queueDo_ret {t : PThread S W} {f : PoolState S W → PoolState S W}
    (h : queueDo s (.ret t) f = some s') : s' = f { s with q := s.q.place t .idle } := by
  obtain ⟨q, hq, rfl⟩ := Option.map_eq_some_iff.mp h
  simp only [queueStep] at hq
  split at hq
  · cases hq
    rfl
  · simp at hq

/-! ### Every step is one of the moves

A case for each place of each kind of thread.
-/

theorem submitterStep_move {i : S} {ev ev' : PoolEvent S W}
    (h : submitterStep s i ev = some s') : PoolMove s ev' s' := by
  cases ev with
  | addTask _ argFree =>
      simp only [submitterStep] at h
      split at h
      · rename_i hi
        split at h
        · cases h
          exact .stays
        · cases h
          exact .submits i _ (by rw [hi]; trivial) trivial
      · simp at h
  | createTask _ calloc =>
      simp only [submitterStep] at h
      split at h
      · rename_i argFree hi
        split at h
        · cases h
          exact .creates i argFree (by rw [hi]; trivial)
        · cases h
          exact .submits i _ (by rw [hi]; trivial) trivial
      · simp at h
  | enqueueTask _ calloc =>
      simp only [submitterStep] at h
      split at h
      · rename_i task hi
        obtain ⟨q, hq, rfl⟩ := Option.map_eq_some_iff.mp h
        simp only [queueStep] at hq
        split at hq
        · rename_i hidle
          split at hq
          · cases hq
            exact .enqueues i task hi (QPc.eq_idle hidle)
          · cases hq
            exact .fails i task hi (QPc.eq_idle hidle)
        · simp at hq
      · simp at h
  | taskAdded _ =>
      simp only [submitterStep] at h
      split at h
      · rename_i task hi hp
        rw [queueDo_ret h]
        exact .adds i task hi hp
      · rename_i task c hc hi hp
        rw [queueDo_ret h]
        exact .refuses i task c hi hp fun hcs => hc (hcs ▸ rfl)
      · simp at h
  | _ => simp [submitterStep] at h

theorem workerStep_move {w : W} {ev ev' : PoolEvent S W} (h : workerStep s w ev = some s') :
    PoolMove s ev' s' := by
  cases ev with
  | loop _ =>
      simp only [workerStep] at h
      split at h
      · rename_i hw
        split at h
        · rename_i hdown
          cases h
          exact .exits w hw hdown
        · obtain ⟨hidle, rfl⟩ := queueDo_callDequeue h
          exact .dequeues w hw hidle
      · simp at h
  | taskTaken _ =>
      simp only [workerStep] at h
      split at h
      · rename_i task hw hp
        rw [queueDo_ret h]
        exact .gets w task hw hp
      · rename_i hw hp
        rw [queueDo_ret h]
        exact .misses w hw hp
      · simp at h
  | execute _ =>
      simp only [workerStep] at h
      split at h
      · rename_i task hw
        cases h
        exact .executes w task hw
      · simp at h
  | executed _ =>
      simp only [workerStep] at h
      split at h
      · rename_i task hw
        cases h
        exact .executed w task hw
      · simp at h
  | argFree _ =>
      simp only [workerStep] at h
      split at h
      · rename_i task hw
        cases h
        exact .frees w task hw
      · simp at h
  | freeTask _ =>
      simp only [workerStep] at h
      split at h
      · rename_i task hw
        cases h
        exact .returns w task hw
      · simp at h
  | _ => simp [workerStep] at h

theorem mainStep_move {ev : PoolEvent S W} (h : mainStep s ev = some s') : PoolMove s ev s' := by
  cases ev with
  | shutdown =>
      simp only [mainStep] at h
      split at h
      · rename_i hm
        cases h
        exact .calls false hm
      · simp at h
  | destroy =>
      simp only [mainStep] at h
      split at h
      · rename_i hm
        cases h
        exact .calls true hm
      · simp at h
  | broadcast =>
      simp only [mainStep] at h
      split at h
      · rename_i destroying hm
        obtain ⟨q, hq, rfl⟩ := Option.map_eq_some_iff.mp h
        cases hq
        exact .broadcasts destroying hm
      · simp at h
  | join =>
      simp only [mainStep] at h
      split at h
      · rename_i destroying hm
        split at h
        · rename_i hall
          cases h
          exact .joins destroying hm hall
        · simp at h
      · simp at h
  | clear =>
      simp only [mainStep] at h
      split at h
      · rename_i hm
        split at h
        · rename_i hsize
          obtain ⟨hidle, rfl⟩ := queueDo_callDequeue h
          exact .clears hm hsize hidle
        · rename_i hsize
          cases h
          exact .destroys hm hsize
      · simp at h
  | cleared =>
      simp only [mainStep] at h
      split at h
      · rename_i task hm hp
        rw [queueDo_ret h]
        exact .discards task hm hp
      · rename_i hm hp
        rw [queueDo_ret h]
        exact .skips hm hp
      · simp at h
  | _ => simp [mainStep] at h

theorem poolStep_move {ev : PoolEvent S W} (h : poolStep s ev = some s') : PoolMove s ev s' := by
  unfold poolStep at h
  split at h
  · simp at h
  · cases ev with
    | lock t woken =>
        obtain ⟨q, hq, rfl⟩ := Option.map_eq_some_iff.mp h
        exact .locks t woken q (queueStep_lock hq)
    | spurious t =>
        obtain ⟨q, hq, rfl⟩ := Option.map_eq_some_iff.mp h
        simp only [queueStep] at hq
        split at hq
        · cases hq
          exact .wakes t
        · simp at hq
    | signal =>
        obtain ⟨q, hq, rfl⟩ := Option.map_eq_some_iff.mp h
        cases hq
        exact .signals
    | addTask => exact submitterStep_move h
    | createTask => exact submitterStep_move h
    | enqueueTask => exact submitterStep_move h
    | taskAdded => exact submitterStep_move h
    | loop => exact workerStep_move h
    | taskTaken => exact workerStep_move h
    | execute => exact workerStep_move h
    | executed => exact workerStep_move h
    | argFree => exact workerStep_move h
    | freeTask => exact workerStep_move h
    | shutdown => exact mainStep_move h
    | destroy => exact mainStep_move h
    | broadcast => exact mainStep_move h
    | join => exact mainStep_move h
    | clear => exact mainStep_move h
    | cleared => exact mainStep_move h

end CmakeTemplate
