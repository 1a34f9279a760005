/-
Where the tasks of a pool are.

Every task a submitter makes is either still with it or has been put in the queue; what was
taken out of the queue is in the hand of the thread that took it, has been executed or has
been discarded.  A function that was called is running or has been executed, and an argument
of a task that was executed has been freed or is owed.  Four ledgers say so, over all the
threads of the pool, and `Books` says what one step may do to them: it only moves entries of
the thread that takes the step.

The numbers of the tasks are a ledger too, as an inequality: those that were put in the queue
and those that are still with a submitter are different numbers below the next one.
-/
import CmakeTemplate.Proofs.ThreadPool.Agree
import CmakeTemplate.Lib.Ledger
import Mathlib.Algebra.Order.Group.Multiset
import Mathlib.Tactic.Abel

namespace CmakeTemplate

open Lib

/-! ### What a thread has

Read off from the two places of the thread.
-/

/-- Taken out of the queue by a call that has not returned yet. -/
def QPc.inHand : QPc TaskT → Multiset TaskT
  | .returned (.data (some task)) => {task}
  | _ => 0

/-- About to be put in the queue. -/
def QPc.offered (p : QPc TaskT) : Multiset ℕ :=
  match p.pending with
  | some (_, task) => {task.id}
  | none => 0

@[simp] theorem QPc.inHand_wake (p : QPc TaskT) : p.wake.inHand = p.inHand := by
  cases p <;> rfl

@[simp] theorem QPc.offered_wake (p : QPc TaskT) : p.wake.offered = p.offered := by
  cases p <;> rfl

def SubmitterPc.made : SubmitterPc → Multiset ℕ
  | created task => {task.id}
  | _ => 0

theorem SubmitterPc.outside.made {p : SubmitterPc} (h : p.outside) : p.made = 0 := by
  cases p with
  | idle => rfl
  | checked _ => rfl
  | _ => exact h.elim

def WorkerPc.holds : WorkerPc → Multiset TaskT
  | got task => {task}
  | running task => {task}
  | _ => 0

def WorkerPc.runs : WorkerPc → Multiset TaskT
  | running task => {task}
  | _ => 0

/-- Executed, with the argument still to be freed. -/
def WorkerPc.owes : WorkerPc → Multiset TaskT
  | ran task => if task.argFree then {task} else 0
  | _ => 0

namespace PoolState

variable {S W : Type}

def holds (s : PoolState S W) : PThread S W → Multiset TaskT
  | .worker w => (s.worker w).holds
  | _ => 0

/-- The tasks a thread has that are neither in the queue nor executed nor discarded. -/
def hand (s : PoolState S W) (t : PThread S W) : Multiset TaskT := (s.q.pc t).inHand + s.holds t

def runs (s : PoolState S W) : PThread S W → Multiset TaskT
  | .worker w => (s.worker w).runs
  | _ => 0

def owes (s : PoolState S W) : PThread S W → Multiset TaskT
  | .worker w => (s.worker w).owes
  | _ => 0

def made (s : PoolState S W) : PThread S W → Multiset ℕ
  | .submitter i => (s.submitter i).made
  | _ => 0

/-- The tasks a thread has made and not put in the queue yet. -/
def fresh (s : PoolState S W) (t : PThread S W) : Multiset ℕ := (s.q.pc t).offered + s.made t

/-- The executed tasks whose argument is to be freed. -/
def owed (s : PoolState S W) : Multiset TaskT := (s.executed.filter fun task => task.argFree : List _)

def ids (s : PoolState S W) : Multiset ℕ := (s.q.inserted.map TaskT.id : List _)

end PoolState

open PoolState

variable {S W : Type} {s s' : PoolState S W} {t u : PThread S W}

/-! ### One step

The entries of the thread that moves balance, and the others have what they had.
-/

/-- What one step does to the ledgers, at the thread that takes it. -/
structure Books (s s' : PoolState S W) (t : PThread S W) : Prop where
  /-- What was taken out of the queue is in hand, executed or discarded. -/
  taken : (s'.q.removed : Multiset TaskT) + s.hand t + (s.executed + s.discarded) =
    s.q.removed + s'.hand t + (s'.executed + s'.discarded)
  /-- What was started runs or has been executed. -/
  begun : (s'.started : Multiset TaskT) + s.runs t + s.executed =
    s.started + s'.runs t + s'.executed
  /-- What was to be freed is owed or has been freed. -/
  freed : s'.owed + s.owes t + s.argFreed = s.owed + s'.owes t + s'.argFreed
  /-- What was made is with its submitter or in the queue. -/
  made : s'.ids + s'.fresh t + Multiset.range s.nextTask ≤
    s.ids + s.fresh t + Multiset.range s'.nextTask

/-- A step that changes nothing the ledgers look at. -/
theorem Books.same (hrem : s'.q.removed = s.q.removed) (hins : s'.q.inserted = s.q.inserted)
    (hnext : s'.nextTask = s.nextTask) (hstart : s'.started = s.started)
    (hexec : s'.executed = s.executed) (hfree : s'.argFreed = s.argFreed)
    (hdisc : s'.discarded = s.discarded) (hhand : s'.hand t = s.hand t)
    (hruns : s'.runs t = s.runs t) (howes : s'.owes t = s.owes t)
    (hfresh : s'.fresh t ≤ s.fresh t) : Books s s' t where
  taken := by rw [hrem, hhand, hexec, hdisc]
  begun := by rw [hstart, hruns, hexec]
  freed := by rw [howes, hfree, owed, owed, hexec]
  made := by
    rw [hnext, ids, ids, hins]
    gcongr

/-! The other threads keep what they have. -/

theorem SameBut.inHand (h : SameBut s s' t) (hu : u ≠ t) :
    (s'.q.pc u).inHand = (s.q.pc u).inHand := by
  rcases h.pc u hu with he | he <;> rw [he]
  exact QPc.inHand_wake _

theorem SameBut.offered (h : SameBut s s' t) (hu : u ≠ t) :
    (s'.q.pc u).offered = (s.q.pc u).offered := by
  rcases h.pc u hu with he | he <;> rw [he]
  exact QPc.offered_wake _

theorem SameBut.hand (h : SameBut s s' t) (hu : u ≠ t) : s'.hand u = s.hand u := by
  have hholds : s'.holds u = s.holds u := by
    cases u with
    | worker w => rw [PoolState.holds, PoolState.holds, h.worker w hu]
    | submitter i => rfl
    | main => rfl
  rw [PoolState.hand, PoolState.hand, h.inHand hu, hholds]

theorem SameBut.fresh (h : SameBut s s' t) (hu : u ≠ t) : s'.fresh u = s.fresh u := by
  have hmade : s'.made u = s.made u := by
    cases u with
    | submitter i => rw [PoolState.made, PoolState.made, h.submitter i hu]
    | worker w => rfl
    | main => rfl
  rw [PoolState.fresh, PoolState.fresh, h.offered hu, hmade]

theorem SameBut.runs (h : SameBut s s' t) (hu : u ≠ t) : s'.runs u = s.runs u := by
  cases u with
  | worker w => rw [PoolState.runs, PoolState.runs, h.worker w hu]
  | submitter i => rfl
  | main => rfl

theorem SameBut.owes (h : SameBut s s' t) (hu : u ≠ t) : s'.owes u = s.owes u := by
  cases u with
  | worker w => rw [PoolState.owes, PoolState.owes, h.worker w hu]
  | submitter i => rfl
  | main => rfl

/-! ### The moves

What has to be shown for a move of a worker, of a submitter or of the main thread.
-/

theorem coe_concat {α : Type} (l : List α) (a : α) : ((l ++ [a] : List α) : Multiset α) = l + {a} :=
  (Multiset.coe_add l [a]).symm

section Moves

variable [DecidableEq S] [DecidableEq W]

/-- With the mutex, a thread takes a task out of the queue or puts its own in. -/
theorem LockMove.books {woken : List (PThread S W)} {q : QState (PThread S W) TaskT}
    (h : LockMove s.q t woken q) : Books s { s with q } t := by
  have hhand : ∀ {p}, q.pc t = p → PoolState.hand { s with q } t = p.inHand + s.holds t :=
    fun hp => congrArg (fun p => p.inHand + s.holds t) hp
  have hfresh : ∀ {p}, q.pc t = p → PoolState.fresh { s with q } t = p.offered + s.made t :=
    fun hp => congrArg (fun p => p.offered + s.made t) hp
  rcases h.from_cases with ⟨n, d, hfrom⟩ | hfrom
  · have hin : s.hand t = 0 + s.holds t := by
      rcases hfrom with hp | hp <;> rw [PoolState.hand, hp] <;> rfl
    have hoff : s.fresh t = {d.id} + s.made t := by
      rw [PoolState.fresh, QPc.offered, hfrom.pending]
    obtain ⟨hrem, ⟨hp, hins⟩ | ⟨hp, hins⟩⟩ := h.of_enqueues hfrom
    · exact .same hrem hins rfl rfl rfl rfl rfl ((hhand hp).trans hin.symm) rfl rfl
        ((hfresh hp).trans hoff.symm).le
    · refine ⟨?_, rfl, rfl, le_of_eq ?_⟩
      · rw [hhand hp, hin]
        show (q.removed : Multiset TaskT) + _ + _ = _
        rw [hrem]
        rfl
      · have hids : PoolState.ids { s with q } = s.ids + {d.id} := by
          show ((q.inserted.map TaskT.id : List ℕ) : Multiset ℕ) = _
          rw [hins, List.map_append]
          exact coe_concat _ _
        rw [hids, hfresh hp, hoff]
        show _ + (0 + _) + _ = _
        rw [zero_add, add_assoc s.ids]
  · have hin : s.hand t = 0 + s.holds t := by
      rcases hfrom with hp | hp <;> rw [PoolState.hand, hp] <;> rfl
    have hoff : s.fresh t = 0 + s.made t := by
      rcases hfrom with hp | hp <;> rw [PoolState.fresh, hp] <;> rfl
    obtain ⟨hins, ⟨hp, hrem⟩ | ⟨hp, hrem⟩ | ⟨d, hp, hrem⟩⟩ := h.of_dequeues hfrom
    · exact .same hrem hins rfl rfl rfl rfl rfl ((hhand hp).trans hin.symm) rfl rfl
        ((hfresh hp).trans hoff.symm).le
    · exact .same hrem hins rfl rfl rfl rfl rfl ((hhand hp).trans hin.symm) rfl rfl
        ((hfresh hp).trans hoff.symm).le
    · refine ⟨?_, rfl, rfl, ?_⟩
      · rw [hhand hp, hin]
        show (q.removed : Multiset TaskT) + _ + _ = s.q.removed + ({d} + _) + _
        rw [hrem, coe_concat, zero_add, add_assoc (s.q.removed : Multiset TaskT)]
      · rw [hfresh hp, hoff]
        show ((q.inserted.map TaskT.id : List ℕ) : Multiset ℕ) + _ + _ ≤ _
        rw [hins]
        exact le_rfl

omit [DecidableEq S] in
/-- The entries of a worker that moves. -/
theorem worker_books (w : W) (o : WorkerPc) (q : QState (PThread S W) TaskT)
    (hq : Others s.q.pc q.pc (.worker w)) (hrem : q.removed = s.q.removed)
    (hins : q.inserted = s.q.inserted) (a b c : List TaskT)
    (htaken : s.hand (.worker w) + s.executed = (q.pc (.worker w)).inHand + o.holds + b)
    (hbegun : (a : Multiset TaskT) + (s.worker w).runs + s.executed = s.started + o.runs + b)
    (hfreed : ((b.filter fun task => task.argFree : List _) : Multiset TaskT) + (s.worker w).owes +
      s.argFreed = s.owed + o.owes + c)
    (hfresh : (q.pc (.worker w)).offered ≤ (s.q.pc (.worker w)).offered) :
    ∃ t, SameBut s { s with
      q, worker := Function.update s.worker w o, started := a, executed := b, argFreed := c } t ∧
      Books s { s with
        q, worker := Function.update s.worker w o, started := a, executed := b, argFreed := c } t := by
  refine ⟨.worker w, .worker_moves w o q hq (hins ▸ List.Subset.refl _) a b c, ?_, ?_, ?_, ?_⟩
  · simp only [PoolState.hand, PoolState.holds, Function.update_self, hrem]
    calc (s.q.removed : Multiset TaskT) + s.hand (.worker w) + (s.executed + s.discarded)
        = s.q.removed + (s.hand (.worker w) + s.executed) + s.discarded := by ac_rfl
      _ = s.q.removed + ((q.pc (.worker w)).inHand + o.holds) + (b + s.discarded) := by
          rw [htaken]
          ac_rfl
  · simpa only [PoolState.runs, Function.update_self] using hbegun
  · simpa only [PoolState.owed, PoolState.owes, Function.update_self] using hfreed
  · simp only [PoolState.ids, hins, PoolState.fresh, PoolState.made]
    gcongr

omit [DecidableEq S] in
/-- A worker that moves and runs and owes what it did before. -/
theorem worker_quiet (w : W) (o : WorkerPc) (q : QState (PThread S W) TaskT)
    (hq : Others s.q.pc q.pc (.worker w)) (hrem : q.removed = s.q.removed)
    (hins : q.inserted = s.q.inserted)
    (hhand : s.hand (.worker w) = (q.pc (.worker w)).inHand + o.holds)
    (hruns : (s.worker w).runs = o.runs) (howes : (s.worker w).owes = o.owes)
    (hfresh : (q.pc (.worker w)).offered ≤ (s.q.pc (.worker w)).offered) :
    ∃ t, SameBut s { s with q, worker := Function.update s.worker w o } t ∧
      Books s { s with q, worker := Function.update s.worker w o } t := by
  refine worker_books w o q hq hrem hins s.started s.executed s.argFreed ?_ ?_ ?_ hfresh
  · rw [hhand]
  · rw [hruns]
  · rw [howes]
    rfl

omit [DecidableEq W] in
/-- A submitter that moves and makes no task. -/
theorem submitter_quiet (i : S) (o : SubmitterPc) (q : QState (PThread S W) TaskT)
    (hq : Others s.q.pc q.pc (.submitter i)) (hrem : q.removed = s.q.removed)
    (hins : q.inserted = s.q.inserted) (r : List TaskT)
    (hhand : (q.pc (.submitter i)).inHand = (s.q.pc (.submitter i)).inHand)
    (hfresh : (q.pc (.submitter i)).offered + o.made ≤ s.fresh (.submitter i)) :
    ∃ t, SameBut s { s with
      q, submitter := Function.update s.submitter i o, returned := r } t ∧
      Books s { s with q, submitter := Function.update s.submitter i o, returned := r } t := by
  refine ⟨.submitter i, .submitter_moves i o q hq (hins ▸ List.Subset.refl _) s.nextTask r,
    .same hrem hins rfl rfl rfl rfl rfl ?_ rfl rfl ?_⟩
  · simp only [PoolState.hand, PoolState.holds, hhand]
  · simpa only [PoolState.fresh, PoolState.made, Function.update_self] using hfresh

omit [DecidableEq S] [DecidableEq W] in
/-- The main thread, if it discards nothing. -/
theorem main_quiet (o : MainPc) (q : QState (PThread S W) TaskT)
    (hq : Others s.q.pc q.pc .main) (hrem : q.removed = s.q.removed)
    (hins : q.inserted = s.q.inserted)
    (hhand : (q.pc .main).inHand = (s.q.pc .main).inHand)
    (hfresh : (q.pc .main).offered ≤ (s.q.pc .main).offered) :
    ∃ t, SameBut s { s with q, main := o } t ∧ Books s { s with q, main := o } t := by
  refine ⟨.main, .main_moves o q hq (hins ▸ List.Subset.refl _) s.discarded,
    .same hrem hins rfl rfl rfl rfl rfl ?_ rfl rfl ?_⟩
  · simp only [PoolState.hand, PoolState.holds, hhand]
  · simp only [PoolState.fresh, PoolState.made]
    gcongr

/-! ### Each move

A lemma for each kind of move, with the entries it changes.
-/

omit [DecidableEq S] in
/-- A worker that goes from one place of its loop to another, between calls on the queue. -/
theorem worker_goes_books {w : W} {o o' : WorkerPc} (hfrom : s.worker w = o)
    (hholds : o.holds = o'.holds) (hruns : o.runs = o'.runs) (howes : o.owes = o'.owes) :
    ∃ t, SameBut s { s with worker := Function.update s.worker w o' } t ∧
      Books s { s with worker := Function.update s.worker w o' } t := by
  refine worker_quiet w o' s.q (fun _ _ => .inl rfl) rfl rfl ?_ ?_ ?_ le_rfl
  · rw [PoolState.hand, PoolState.holds, hfrom, hholds]
  · rw [hfrom, hruns]
  · rw [hfrom, howes]

/-- A worker that begins a call on the queue or takes its result: what it has in the queue and what
it holds itself are the same together. -/
theorem worker_place_books {w : W} {o o' : WorkerPc} {p p' : QPc TaskT} (hfrom : s.worker w = o)
    (hpc : s.q.pc (.worker w) = p) (hhand : p.inHand + o.holds = p'.inHand + o'.holds)
    (hruns : o.runs = o'.runs) (howes : o.owes = o'.owes) (hoffered : p'.offered ≤ p.offered) :
    ∃ t, SameBut s { s with
      q := s.q.place (.worker w) p', worker := Function.update s.worker w o' } t ∧
      Books s { s with
        q := s.q.place (.worker w) p', worker := Function.update s.worker w o' } t := by
  refine worker_quiet w o' (s.q.place (.worker w) p') (.update _ _ _) rfl rfl ?_ ?_ ?_ ?_
  · rw [PoolState.hand, PoolState.holds, hpc, hfrom, QState.place_self, hhand]
  · rw [hfrom, hruns]
  · rw [hfrom, howes]
  · rw [QState.place_self, hpc]
    exact hoffered

omit [DecidableEq S] in
theorem executes_books {w : W} {task : TaskT} (hfrom : s.worker w = .got task) :
    ∃ t, SameBut s { s with
      worker := Function.update s.worker w (.running task), started := s.started ++ [task] } t ∧
      Books s { s with
        worker := Function.update s.worker w (.running task), started := s.started ++ [task] } t := by
  refine worker_books w (.running task) s.q (fun _ _ => .inl rfl) rfl rfl _ _ _ ?_ ?_ ?_ le_rfl
  · simp only [PoolState.hand, PoolState.holds, hfrom, WorkerPc.holds]
  · rw [hfrom, coe_concat]
    show (s.started : Multiset TaskT) + {task} + 0 + _ = s.started + {task} + _
    rw [add_zero]
  · rw [hfrom]
    rfl

omit [DecidableEq S] in
/-- The task leaves the worker's hand; its argument is owed if it has an `arg_free`. -/
theorem executed_books {w : W} {task : TaskT} (hfrom : s.worker w = .running task) :
    ∃ t, SameBut s { s with
      worker := Function.update s.worker w (.ran task), executed := s.executed ++ [task] } t ∧
      Books s { s with
        worker := Function.update s.worker w (.ran task), executed := s.executed ++ [task] } t := by
  refine worker_books w (.ran task) s.q (fun _ _ => .inl rfl) rfl rfl _ _ _ ?_ ?_ ?_ le_rfl
  · simp only [PoolState.hand, PoolState.holds, hfrom, WorkerPc.holds, coe_concat]
    abel
  · simp only [hfrom, WorkerPc.runs, coe_concat]
    abel
  · rw [hfrom, List.filter_append, ← Multiset.coe_add, PoolState.owed]
    cases hfree : task.argFree <;> simp [WorkerPc.owes, hfree]

omit [DecidableEq S] in
theorem frees_books {w : W} {task : TaskT} (hfrom : s.worker w = .ran task) :
    ∃ t, SameBut s { s with
      worker := Function.update s.worker w (.processed task)
      argFreed := if task.argFree then s.argFreed ++ [task] else s.argFreed } t ∧
      Books s { s with
        worker := Function.update s.worker w (.processed task)
        argFreed := if task.argFree then s.argFreed ++ [task] else s.argFreed } t := by
  refine worker_books w (.processed task) s.q (fun _ _ => .inl rfl) rfl rfl _ _ _ ?_ ?_ ?_ le_rfl
  · simp only [PoolState.hand, PoolState.holds, hfrom, WorkerPc.holds]
  · rw [hfrom]
    rfl
  · rw [hfrom, WorkerPc.owes, PoolState.owed]
    by_cases hfree : task.argFree = true
    · rw [if_pos hfree, if_pos hfree, coe_concat]
      show _ + {task} + (s.argFreed : Multiset TaskT) = _ + 0 + (s.argFreed + {task})
      abel
    · rw [if_neg hfree, if_neg hfree]
      rfl

omit [DecidableEq W] in
/-- The new task has the next number, and is with the submitter that made it. -/
theorem creates_books {i : S} (hfrom : (s.submitter i).outside) (argFree : Bool) :
    ∃ t, SameBut s { s with
      nextTask := s.nextTask + 1
      submitter := Function.update s.submitter i (.created ⟨s.nextTask, argFree⟩) } t ∧
      Books s { s with
        nextTask := s.nextTask + 1
        submitter := Function.update s.submitter i (.created ⟨s.nextTask, argFree⟩) } t := by
  refine ⟨.submitter i, .submitter_moves i _ s.q (fun _ _ => .inl rfl) (List.Subset.refl _) _ _,
    rfl, rfl, rfl, le_of_eq ?_⟩
  simp only [PoolState.ids, PoolState.fresh, PoolState.made, Function.update_self, hfrom.made,
    Multiset.range_succ, ← Multiset.singleton_add]
  show _ + (_ + {s.nextTask}) + _ = _
  abel

/-- A submitter whose task has become a node that it is about to link in. -/
theorem enqueues_books {i : S} {task : TaskT} (hfrom : s.submitter i = .created task)
    (hidle : s.q.pc (.submitter i) = .idle) (queue : QueueT TaskT) (n : Nat) :
    ∃ t, SameBut s { s with
      q := { s.q with
        queue, pc := Function.update s.q.pc (.submitter i) (.enqueueLock n task) }
      submitter := Function.update s.submitter i (.enqueueing task) } t ∧
      Books s { s with
        q := { s.q with
          queue, pc := Function.update s.q.pc (.submitter i) (.enqueueLock n task) }
        submitter := Function.update s.submitter i (.enqueueing task) } t := by
  refine submitter_quiet i _ { s.q with
      queue, pc := Function.update s.q.pc (.submitter i) (.enqueueLock n task) }
    (.update _ _ _) rfl rfl s.returned ?_ ?_
  · simp [hidle, QPc.inHand]
  · simp [PoolState.fresh, PoolState.made, hfrom, hidle, QPc.offered, QPc.pending, SubmitterPc.made]

/-- A submitter whose call on the queue ends without a task in it. -/
theorem submitter_place_books {i : S} {o : SubmitterPc} {p : QPc TaskT} (r : List TaskT)
    (hhand : p.inHand = (s.q.pc (.submitter i)).inHand) (hoffered : p.offered = 0) (hmade : o.made = 0) :
    ∃ t, SameBut s { s with
      q := s.q.place (.submitter i) p
      submitter := Function.update s.submitter i o, returned := r } t ∧
      Books s { s with
        q := s.q.place (.submitter i) p
        submitter := Function.update s.submitter i o, returned := r } t := by
  refine submitter_quiet i o (s.q.place (.submitter i) p) (.update _ _ _) rfl rfl r ?_ ?_
  · rw [QState.place_self, hhand]
  · rw [QState.place_self, hoffered, hmade]
    exact Multiset.zero_le _

omit [DecidableEq S] [DecidableEq W] in
theorem broadcasts_books (destroying : Bool) :
    ∃ t, SameBut s { s with
      q := { s.q with
        pc := fun u => if (s.q.pc u).waits .notEmpty then (s.q.pc u).wake else s.q.pc u }
      main := .join destroying } t ∧
      Books s { s with
        q := { s.q with
          pc := fun u => if (s.q.pc u).waits .notEmpty then (s.q.pc u).wake else s.q.pc u }
        main := .join destroying } t := by
  refine main_quiet _ { s.q with
      pc := fun u => if (s.q.pc u).waits .notEmpty then (s.q.pc u).wake else s.q.pc u }
    (.broadcast _ _) rfl rfl ?_ ?_
  · simp [apply_ite QPc.inHand]
  · simp [apply_ite QPc.offered]

/-- The main thread in `queue_clear`, if it discards nothing. -/
theorem main_place_books {o : MainPc} {p : QPc TaskT} (hhand : p.inHand = (s.q.pc .main).inHand)
    (hoffered : p.offered = 0) :
    ∃ t, SameBut s { s with q := s.q.place .main p, main := o } t ∧
      Books s { s with q := s.q.place .main p, main := o } t := by
  refine main_quiet o (s.q.place .main p) (.update _ _ _) rfl rfl ?_ ?_
  · rw [QState.place_self, hhand]
  · rw [QState.place_self, hoffered]
    exact Multiset.zero_le _

theorem discards_books {task : TaskT} (hret : s.q.pc .main = .returned (.data (some task))) :
    ∃ t, SameBut s { s with
      q := s.q.place .main .idle, main := .clear, discarded := s.discarded ++ [task] } t ∧
      Books s { s with
        q := s.q.place .main .idle, main := .clear, discarded := s.discarded ++ [task] } t := by
  refine ⟨.main, .main_moves _ (s.q.place .main .idle) (.update _ _ _) (List.Subset.refl _) _,
    ?_, rfl, rfl, ?_⟩
  · simp only [PoolState.hand, QState.place, PoolState.holds, hret, QPc.inHand, coe_concat,
      Function.update_self]
    abel
  · simp [PoolState.ids, PoolState.fresh, QState.place, PoolState.made, hret, QPc.offered,
      QPc.pending]

theorem wakes_books (t : PThread S W) :
    SameBut s { s with q := s.q.place t (s.q.pc t).wake } t ∧
      Books s { s with q := s.q.place t (s.q.pc t).wake } t := by
  refine ⟨.queue_moves (s.q.place t (s.q.pc t).wake) (.update _ _ _) (List.Subset.refl _),
    .same rfl rfl rfl rfl rfl rfl rfl ?_ rfl rfl ?_⟩
  · simp [PoolState.hand, QState.place, PoolState.holds]
  · simp [PoolState.fresh, QState.place, PoolState.made]

/-- Every step is the step of one thread, and that thread's entries balance. -/
theorem PoolMove.books {ev : PoolEvent S W} (hm : PoolMove s ev s') :
    ∃ t, SameBut s s' t ∧ Books s s' t := by
  have hstay : ∀ {t}, Others s.q.pc s.q.pc t := fun _ _ => .inl rfl
  cases hm with
  | stays =>
      exact ⟨.main, .queue_moves s.q hstay (List.Subset.refl _),
        .same rfl rfl rfl rfl rfl rfl rfl rfl rfl rfl le_rfl⟩
  | submits i p hfrom hp =>
      refine submitter_quiet i p s.q hstay rfl rfl s.returned rfl ?_
      rw [PoolState.fresh, PoolState.made, hp.made, hfrom.made]
  | creates i argFree hfrom => exact creates_books hfrom argFree
  | enqueues i task hfrom hidle => exact enqueues_books hfrom hidle _ _
  | fails i task hfrom hidle => exact submitter_place_books _ (by rw [hidle]; rfl) rfl rfl
  | adds i task hfrom hret => exact submitter_place_books _ (by rw [hret]; rfl) rfl rfl
  | refuses i task c hfrom hret hc => exact submitter_place_books _ (by rw [hret]; rfl) rfl rfl
  | locks t woken q hl => exact ⟨t, .queue_moves q hl.others hl.inserted_subset, hl.books⟩
  | wakes t => exact ⟨t, wakes_books t⟩
  | signals =>
      exact ⟨.main, .queue_moves { s.q with shutdown := true } hstay (List.Subset.refl _),
        .same rfl rfl rfl rfl rfl rfl rfl rfl rfl rfl le_rfl⟩
  | exits w hfrom hdown => exact worker_goes_books hfrom rfl rfl rfl
  | dequeues w hfrom hidle => exact worker_place_books hfrom hidle rfl rfl rfl le_rfl
  | gets w task hfrom hret => exact worker_place_books hfrom hret (add_comm _ _) rfl rfl le_rfl
  | misses w hfrom hret => exact worker_place_books hfrom hret rfl rfl rfl le_rfl
  | executes w task hfrom => exact executes_books hfrom
  | executed w task hfrom => exact executed_books hfrom
  | frees w task hfrom => exact frees_books hfrom
  | returns w task hfrom => exact worker_goes_books hfrom rfl rfl rfl
  | calls destroying hfrom => exact main_quiet _ s.q hstay rfl rfl rfl le_rfl
  | broadcasts destroying hfrom => exact broadcasts_books destroying
  | joins destroying hfrom hall => exact main_quiet _ s.q hstay rfl rfl rfl le_rfl
  | clears hfrom hsize hidle => exact main_place_books (by rw [hidle]; rfl) rfl
  | discards task hfrom hret => exact discards_books hret
  | skips hfrom hret => exact main_place_books (by rw [hret]; rfl) rfl
  | destroys hfrom hsize => exact main_quiet _ s.q hstay rfl rfl rfl le_rfl

end Moves

/-! ### Every run

The ledgers of the initial pool are empty, and each step keeps them balanced.
-/

/-- The four ledgers. -/
structure Ledger [Fintype S] [Fintype W] (s : PoolState S W) : Prop where
  /-- What was taken out of the queue is in hand, executed or discarded. -/
  taken : (s.q.removed : Multiset TaskT) = ∑ t, s.hand t + (s.executed + s.discarded)
  /-- What was started runs or has been executed. -/
  begun : (s.started : Multiset TaskT) = ∑ t, s.runs t + s.executed
  /-- What was to be freed is owed or has been freed. -/
  freed : s.owed = ∑ t, s.owes t + s.argFreed
  /-- What was made is with its submitter or in the queue. -/
  made : s.ids + ∑ t, s.fresh t ≤ Multiset.range s.nextTask

variable [Fintype S] [Fintype W]

theorem poolStart_ledger : Ledger (poolStart S W) := by
  have hnone : ∀ {M : Type} {f : PThread S W → Multiset M}, (∀ t, f t = 0) → ∑ t, f t = 0 :=
    fun h => Finset.sum_eq_zero fun t _ => h t
  refine ⟨?_, ?_, ?_, ?_⟩
  · rw [hnone fun t => by cases t <;> rfl]
    rfl
  · rw [hnone fun t => by cases t <;> rfl]
    rfl
  · rw [hnone fun t => by cases t <;> rfl]
    rfl
  · rw [hnone fun t => by cases t <;> rfl]
    exact le_rfl

theorem Ledger.step (h : Ledger s) (hb : SameBut s s' t) (hs : Books s s' t) : Ledger s' where
  taken := ledger_step t (fun _ hu => hb.hand hu) hs.taken h.taken
  begun := ledger_step t (fun _ hu => hb.runs hu) hs.begun h.begun
  freed := ledger_step t (fun _ hu => hb.owes hu) hs.freed h.freed
  made := ledger_step_le t (fun _ hu => hb.fresh hu) hs.made h.made

variable [DecidableEq S] [DecidableEq W]

theorem poolSystem_ledger (h : (poolSystem S W).Reach s) : Ledger s := by
  refine h.invariant ?_ ?_
  · rintro s rfl
    exact poolStart_ledger
  · intro s ev s' hled hs
    obtain ⟨t, hb, hbooks⟩ := (poolStep_move hs).books
    exact hled.step hb hbooks

omit [Fintype S] [Fintype W] [DecidableEq S] [DecidableEq W] in
theorem poolStart_agrees : ∀ u, Agrees (poolStart S W) u := fun u => by cases u <;> rfl

theorem poolSystem_agrees (h : (poolSystem S W).Reach s) : ∀ u, Agrees s u := by
  refine h.invariant (I := fun s => ∀ u, Agrees s u) ?_ ?_
  · rintro s rfl
    exact poolStart_agrees
  · intro s ev s' hagree hs
    exact (poolStep_move hs).agrees hagree

end CmakeTemplate
