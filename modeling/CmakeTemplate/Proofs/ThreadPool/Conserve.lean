/-
No task of a pool is lost, run twice, or both run and discarded.

As long as the queue counts right, what was accepted is, as multisets, what is on the chain,
what a worker has in hand, what has been executed, and what `queue_clear` has discarded or is
about to.  The ledgers say the rest: the tasks made are all different, so nothing in that sum
occurs twice.

The condition is that each enqueue finds room to count one more.  With `2 ^ 32` tasks in an
unbounded queue `current_size` is 0, and a task that is then linked in as the first of an
empty queue replaces the chain: the tasks on it are in no place any more.  A submitter alone
can bring that about, as the workers may not have looked at the queue yet.
-/
import CmakeTemplate.Proofs.ThreadPool.Ledger
import Mathlib.Data.Fintype.BigOperators

namespace CmakeTemplate

open Lib

/-! ### The data on the chain

What the walk from `head` reads is what the chain holds.
-/

theorem queueData_go_eq {α : Type} {q : QueueT α} {ns : List (Nat × α)} {p : Ptr} {fuel : Nat}
    (h : Chain q.nodes p ns none) (hfuel : ns.length ≤ fuel) :
    queueData.go q fuel p = ns.map Prod.snd := by
  induction ns generalizing p fuel with
  | nil =>
      obtain rfl : p = none := h
      cases fuel <;> rfl
  | cons n ns ih =>
      obtain ⟨rfl, k, hn, hrest⟩ := h
      obtain ⟨fuel, rfl⟩ := Nat.exists_eq_succ_of_ne_zero (Nat.ne_of_gt (Nat.lt_of_lt_of_le
        (Nat.succ_pos _) hfuel))
      simp only [queueData.go, Store.load_some, hn, List.map_cons]
      rw [ih hrest (Nat.le_of_succ_le_succ hfuel)]

theorem QueueRep.data {α : Type} {q : QueueT α} {ns : List (Nat × α)} (h : QueueRep q ns) :
    queueData q = ns.map Prod.snd :=
  queueData_go_eq h.chain (Nat.le_succ_of_le h.chain.length_le)

/-! ### The threads of a pool

A sum over all threads is one over the submitters, one over the workers and the main thread.
-/

def PThread.equivSum (S W : Type) : PThread S W ≃ (S ⊕ W) ⊕ Unit where
  toFun
    | .submitter i => .inl (.inl i)
    | .worker w => .inl (.inr w)
    | .main => .inr ()
  invFun
    | .inl (.inl i) => .submitter i
    | .inl (.inr w) => .worker w
    | .inr _ => .main
  left_inv t := by cases t <;> rfl
  right_inv t := by rcases t with (i | w) | u <;> rfl

variable {S W : Type} [Fintype S] [Fintype W] {s s' : PoolState S W}

theorem sum_threads {M : Type} [AddCommMonoid M] (f : PThread S W → M) :
    ∑ t, f t = ∑ i, f (.submitter i) + ∑ w, f (.worker w) + f .main := by
  rw [← Equiv.sum_comp (PThread.equivSum S W).symm f, Fintype.sum_sum_type, Fintype.sum_sum_type,
    Fintype.sum_unique fun u : Unit => _]
  rfl

/-! ### The queue of a pool

What holds of a queue on every run holds of the queue of a pool.
-/

variable [DecidableEq S] [DecidableEq W]

/-- An enqueue that may find the queue full of what `current_size` can count. -/
def PoolNoWrap (s : PoolState S W) : PoolEvent S W → Prop
  | .lock t woken => NoWrap s.q (.lock t woken)
  | _ => True

omit [Fintype S] [Fintype W] in
/-- The queue of a pool takes a step of its own, or none. -/
theorem PoolMove.queue {ev : PoolEvent S W} (hm : PoolMove s ev s') :
    s'.q = s.q ∨ ∃ qev, QMove s.q qev s'.q ∧ (PoolNoWrap s ev → NoWrap s.q qev) := by
  -- every step of the queue but the critical section may always be taken
  have hgoes : ∀ {t p}, (s.q.pc t).quiet → p.pending = none → p.quiet →
      ∃ qev, QMove s.q qev (s.q.place t p) ∧ (PoolNoWrap s ev → NoWrap s.q qev) :=
    fun hfrom hp hq => ⟨.signal, .goes _ _ hp hq hfrom, fun _ => trivial⟩
  have hidle : ∀ {t}, s.q.pc t = .idle → (s.q.pc t).quiet := fun hp => hp ▸ QPc.quiet_idle
  have hret : ∀ {t r}, s.q.pc t = .returned r → (s.q.pc t).quiet :=
    fun hp => hp ▸ QPc.quiet_returned _
  cases hm with
  | enqueues i task hfrom hi =>
      exact .inr ⟨.signal, QMove.allocates (PThread.submitter i) task (by rw [hi]; rfl), fun _ => trivial⟩
  | fails i task hfrom hi => exact .inr (hgoes (hidle hi) rfl (QPc.quiet_returned _))
  | adds i task hfrom hr => exact .inr (hgoes (hret hr) rfl QPc.quiet_idle)
  | refuses i task c hfrom hr hc => exact .inr (hgoes (hret hr) rfl QPc.quiet_idle)
  | locks t woken q hl => exact .inr ⟨.lock t woken, .locks t woken hl, id⟩
  | wakes t =>
      refine .inr ⟨.signal, ?_, fun _ => trivial⟩
      show QMove s.q .signal { s.q with pc := Function.update s.q.pc t (s.q.pc t).wake }
      rw [update_wake]
      exact .wakes fun u => u = t
  | signals => exact .inr ⟨.signal, .signals, fun _ => trivial⟩
  | dequeues w hfrom hi => exact .inr (hgoes (hidle hi) rfl QPc.quiet_dequeueLock)
  | gets w task hfrom hr => exact .inr (hgoes (hret hr) rfl QPc.quiet_idle)
  | misses w hfrom hr => exact .inr (hgoes (hret hr) rfl QPc.quiet_idle)
  | broadcasts destroying hfrom =>
      exact .inr ⟨.signal, .wakes fun u => (s.q.pc u).waits .notEmpty = true, fun _ => trivial⟩
  | clears hfrom hsize hi => exact .inr (hgoes (hidle hi) rfl QPc.quiet_dequeueLock)
  | discards task hfrom hr => exact .inr (hgoes (hret hr) rfl QPc.quiet_idle)
  | skips hfrom hr => exact .inr (hgoes (hret hr) rfl QPc.quiet_idle)
  | _ => exact .inl rfl

theorem poolSystem_queue (h : (poolSystem S W).ReachIf PoolNoWrap s) : ∃ ns, QInv s.q ns := by
  refine h.invariant (I := fun s => ∃ ns, QInv s.q ns) ?_ ?_
  · rintro s rfl
    exact ⟨[], queueStart_inv _ _⟩
  · rintro s ev s' ⟨ns, hinv⟩ hc hs
    rcases (poolStep_move hs).queue with hq | ⟨qev, hq, hwrap⟩
    · exact ⟨ns, hq ▸ hinv⟩
    · exact hq.inv hinv (hwrap hc)

/-! ### Accepted tasks

An accepted task has been put in the queue, and the ledgers say what became of it.
-/

omit [Fintype S] [Fintype W] in
/-- `add_task` returns E_SUCCESS only for what it has put in the queue. -/
theorem PoolMove.returned {ev : PoolEvent S W} (hm : PoolMove s ev s') :
    s'.returned = s.returned ∨ ∃ i task, s'.returned = s.returned ++ [task] ∧
      s.submitter i = .enqueueing task ∧ s.q.pc (.submitter i) = .returned (.code .success) := by
  cases hm with
  | adds i task hfrom hret => exact .inr ⟨i, task, rfl, hfrom, hret⟩
  | _ => exact .inl rfl

theorem poolSystem_returned (h : (poolSystem S W).Reach s) : s.returned ⊆ s.q.inserted := by
  have hboth : (∀ u, Agrees s u) ∧ s.returned ⊆ s.q.inserted := by
    refine h.invariant (I := fun s => (∀ u, Agrees s u) ∧ s.returned ⊆ s.q.inserted) ?_ ?_
    · rintro s rfl
      exact ⟨poolStart_agrees, List.Subset.refl _⟩
    · rintro s ev s' ⟨hagree, hsub⟩ hs
      have hm := poolStep_move hs
      obtain ⟨t, hb, -⟩ := hm.books
      refine ⟨hm.agrees hagree, ?_⟩
      rcases hm.returned with hr | ⟨i, task, hr, hi, hp⟩ <;> rw [hr]
      · exact List.Subset.trans hsub hb.inserted
      · have hin : (s.submitter i).Agrees s.q.inserted (s.q.pc (.submitter i)) := hagree (.submitter i)
        rw [hi, hp] at hin
        rcases hin with ⟨n, hn⟩ | hc | ⟨-, hmem⟩
        · simp [QPc.pending] at hn
        · simp at hc
        · exact List.append_subset.mpr ⟨List.Subset.trans hsub hb.inserted,
            List.cons_subset.mpr ⟨hb.inserted hmem, List.nil_subset _⟩⟩
  exact hboth.2

/-- Where the accepted tasks are, and how often each was run. -/
structure Conserved (s : PoolState S W) : Prop where
  /-- In the queue, held by a worker, executed, or discarded by `queue_clear`. -/
  accepted : (s.q.inserted : Multiset TaskT) = queueData s.q.queue + ∑ w, s.hand (.worker w) +
    s.executed + (s.hand .main + s.discarded)
  /-- No task was put in the queue twice. -/
  once : s.q.inserted.Nodup
  /-- What was accepted was put in the queue. -/
  returned : s.returned ⊆ s.q.inserted
  /-- No function was called twice. -/
  started : s.started.Nodup
  /-- No argument was freed twice. -/
  argFreed : s.argFreed.Nodup
  /-- An argument is freed behind the function it was passed to. -/
  behind : s.argFreed ⊆ s.executed

omit [Fintype S] [Fintype W] [DecidableEq S] [DecidableEq W] in
theorem Agrees.submitter_hand {i : S} (h : Agrees s (.submitter i)) : s.hand (.submitter i) = 0 := by
  have hi : (s.submitter i).Agrees s.q.inserted (s.q.pc (.submitter i)) := h
  have hin : (s.q.pc (.submitter i)).inHand = 0 := by
    cases ho : s.submitter i with
    | enqueueing task =>
        rw [ho] at hi
        rcases hi with ⟨n, hn⟩ | hp | ⟨hp, -⟩
        · cases hp : s.q.pc (.submitter i) with
          | returned r => rw [hp] at hn; simp [QPc.pending] at hn
          | _ => rfl
        · rw [hp]
          rfl
        · rw [hp]
          rfl
    | _ =>
        rw [ho] at hi
        rw [show s.q.pc (.submitter i) = .idle from hi]
        rfl
  rw [PoolState.hand, hin]
  rfl

omit [Fintype S] [Fintype W] [DecidableEq S] [DecidableEq W] in
theorem runs_le_hand (t : PThread S W) : s.runs t ≤ s.hand t := by
  cases t with
  | worker w =>
      refine le_trans ?_ (le_add_self : s.holds (.worker w) ≤ _)
      show (s.worker w).runs ≤ (s.worker w).holds
      cases s.worker w with
      | running task => exact le_rfl
      | _ => exact zero_le
  | submitter i => exact zero_le
  | main => exact zero_le

/-- On every run whose enqueues find room to count one more, no task is lost, run twice,
or both run and discarded. -/
theorem poolSystem_conserved (h : (poolSystem S W).ReachIf PoolNoWrap s) : Conserved s := by
  obtain ⟨ns, hinv⟩ := poolSystem_queue h
  have hled := poolSystem_ledger h.reach
  have hagree := poolSystem_agrees h.reach
  have hinserted : (s.q.inserted : Multiset TaskT) = s.q.removed + queueData s.q.queue := by
    rw [Multiset.coe_add, hinv.rep.data, hinv.history]
  have hids : (s.q.inserted.map TaskT.id).Nodup :=
    Multiset.nodup_of_le (le_trans le_self_add hled.made) (Multiset.nodup_range s.nextTask)
  have honce : s.q.inserted.Nodup := hids.of_map _
  have hstarted : (s.started : Multiset TaskT) ≤ s.q.inserted :=
    calc (s.started : Multiset TaskT) = ∑ t, s.runs t + s.executed := hled.begun
      _ ≤ ∑ t, s.hand t + (s.executed + s.discarded) := by
          gcongr
          · exact runs_le_hand _
          · exact le_self_add
      _ = s.q.removed := hled.taken.symm
      _ ≤ s.q.inserted := hinserted ▸ le_self_add
  have hexecuted : (s.executed : Multiset TaskT) ≤ s.started := hled.begun ▸ le_add_self
  have hfreed : (s.argFreed : Multiset TaskT) ≤ s.executed :=
    calc (s.argFreed : Multiset TaskT) ≤ s.owed := hled.freed ▸ le_add_self
      _ ≤ s.executed := List.filter_sublist.subperm
  refine ⟨?_, honce, poolSystem_returned h.reach, Multiset.nodup_of_le hstarted honce,
    Multiset.nodup_of_le (hfreed.trans (hexecuted.trans hstarted)) honce,
    fun task htask => Multiset.mem_of_le hfreed htask⟩
  rw [hinserted, hled.taken, sum_threads, Finset.sum_eq_zero fun i _ => (hagree _).submitter_hand]
  abel

/-- A task that is submitted, taken out by one of two workers, executed, and freed with its
argument. -/
theorem poolSystem_conserved_run :
    ∃ s, (poolSystem Unit Bool).run (poolStart Unit Bool) [.addTask () true, .createTask () true,
        .enqueueTask () true, .lock (.submitter ()) [], .taskAdded (), .loop true,
        .lock (.worker true) [], .taskTaken true, .execute true, .executed true, .argFree true,
        .freeTask true] = some s ∧
      s.executed = [⟨0, true⟩] ∧ s.argFreed = [⟨0, true⟩] ∧ Conserved s := by
  have h0 : (poolSystem Unit Bool).ReachIf PoolNoWrap (poolStart Unit Bool) := .init rfl
  have h1 := h0.step (l := PoolEvent.addTask () true) trivial rfl
  have h2 := h1.step (l := PoolEvent.createTask () true) trivial rfl
  have h3 := h2.step (l := PoolEvent.enqueueTask () true) trivial rfl
  have h4 := h3.step (l := PoolEvent.lock (.submitter ()) []) (fun _ _ => by decide) rfl
  have h5 := h4.step (l := PoolEvent.taskAdded ()) trivial rfl
  have h6 := h5.step (l := PoolEvent.loop true) trivial rfl
  have h7 := h6.step (l := PoolEvent.lock (.worker true) []) (fun _ _ => by decide) rfl
  have h8 := h7.step (l := PoolEvent.taskTaken true) trivial rfl
  have h9 := h8.step (l := PoolEvent.execute true) trivial rfl
  have h10 := h9.step (l := PoolEvent.executed true) trivial rfl
  have h11 := h10.step (l := PoolEvent.argFree true) trivial rfl
  have h12 := h11.step (l := PoolEvent.freeTask true) trivial rfl
  exact ⟨_, rfl, rfl, rfl, poolSystem_conserved h12⟩

/-! ### One more than 32 bits can count

The run is made by induction on the number of tasks, and not step by step.
-/

/-- A pool of two workers that have not looked at the queue yet, and one submitter that has
put tasks in it. -/
def filledPool (queue : QueueT TaskT) (tasks : List TaskT) : PoolState Unit Bool :=
  { poolStart Unit Bool with
    q := { queueStart (PThread Unit Bool) queueUnbounded with queue, inserted := tasks }
    nextTask := tasks.length
    returned := tasks }

/-- A whole `add_task`, from the call to the return. -/
theorem add_alone {queue queue' : QueueT TaskT} {tasks : List TaskT}
    (hfull : queueIsFull (queueNodeNew queue ⟨tasks.length, true⟩).1 = false)
    (hq : queueAppend (queueNodeNew queue ⟨tasks.length, true⟩).1
      (queueNodeNew queue ⟨tasks.length, true⟩).2 = some queue') :
    (poolSystem Unit Bool).run (filledPool queue tasks) [.addTask () true, .createTask () true,
        .enqueueTask () true, .lock (.submitter ()) [], .taskAdded ()] =
      some (filledPool queue' (tasks ++ [⟨tasks.length, true⟩])) := by
  have hawake : ∀ n (task : TaskT) (u : PThread Unit Bool),
      (Function.update (fun _ => QPc.idle) (.submitter ()) (.enqueueLock n task) u).waits
        .notEmpty = false := fun n task u => by cases u <;> rfl
  have hback : ∀ n (task : TaskT), Function.update (wakeThreads (Function.update
      (fun _ : PThread Unit Bool => QPc.idle) (.submitter ()) (.enqueueLock n task)) [])
        (.submitter ()) .idle = fun _ => .idle := by
    intro n task
    funext u
    cases u <;> rfl
  simp [System.run, poolSystem, poolStep, filledPool, poolStart, submitterStep, queueDo, queueStep,
    queueStart, MainPc.isDestroyed, QPc.isIdle, enqueueSection, hfull, hq, Signals, hawake, hback]

theorem not_full_unbounded {α : Type} {q : QueueT α} (h : q.maxSize = 0) : queueIsFull q = false := by
  have hm : q.maxSize = queueUnbounded := h
  simp [queueIsFull, hm]

/-- One submitter can put in any number of tasks that 32 bits can count, and one more. -/
theorem fill_pool (k : Nat) (hk : k < 2 ^ 32) :
    ∃ queue tasks ns, (poolSystem Unit Bool).Reach (filledPool queue tasks) ∧ queue.maxSize = 0 ∧
      tasks.length = k ∧ QueueRep queue ns ∧ ns.length = k := by
  induction k with
  | zero => exact ⟨queueInit 0, [], [], .init rfl, rfl, rfl, queueInit_rep 0, rfl⟩
  | succ k ih =>
      obtain ⟨queue, tasks, ns, hreach, hmax, hlen, hrep, hns⟩ := ih (Nat.lt_of_succ_lt hk)
      obtain ⟨hrep', hget, hout⟩ := queueNodeNew_spec hrep (⟨tasks.length, true⟩ : TaskT)
      obtain ⟨queue', hq, hrep', hmax', -⟩ := queueAppend_spec hrep' hget hout (by
        show queue.currentSize.toNat + 1 < _
        rwa [hrep.size, hns])
      refine ⟨queue', _, _, hreach.run (add_alone (not_full_unbounded hmax) hq), hmax'.trans hmax,
        ?_, hrep', ?_⟩ <;> simp [hlen, hns]

/-- A queue that looks empty forgets its chain. -/
theorem queueAppend_as_first {α : Type} {q : QueueT α} (h : q.currentSize = 0) (d : α) :
    ∃ q', queueAppend (queueNodeNew q d).1 (queueNodeNew q d).2 = some q' ∧ queueData q' = [d] := by
  refine ⟨{ (queueNodeNew q d).1 with
    head := some q.nodes.next, tail := some q.nodes.next, currentSize := q.currentSize + 1 }, ?_, ?_⟩
  · simp [queueAppend, queueNodeNew, h]
  · have hchain : Chain (q.nodes.alloc ⟨d, none⟩).1 (some q.nodes.next) [(q.nodes.next, d)] none :=
      ⟨rfl, none, Store.get_alloc_self _ _, rfl⟩
    have hfuel : [(q.nodes.next, d)].length ≤ q.nodes.next + 1 + 1 := Nat.succ_le_succ (Nat.zero_le _)
    exact queueData_go_eq hchain hfuel

/-- The second task after those is linked in as the first of an empty queue: `2 ^ 32` tasks
are no longer anywhere. -/
theorem pool_overflows : ¬ ∀ s, (poolSystem Unit Bool).Reach s → Conserved s := by
  intro hall
  obtain ⟨q, tasks, ns, hreach, hmax, hlen, hrep, hns⟩ := fill_pool (2 ^ 32 - 1) (by decide)
  obtain ⟨hrep', hget, hout⟩ := queueNodeNew_spec hrep (⟨tasks.length, true⟩ : TaskT)
  obtain ⟨q₁, hq₁, -, -, hmax₁, hsize₁, -⟩ := queueAppend_chain hrep' hget hout
  have hreach₁ := hreach.run (add_alone (not_full_unbounded hmax) hq₁)
  have hzero : q₁.currentSize = 0 := by
    have hsize : q.currentSize = 2 ^ 32 - 1 := UInt32.toNat_inj.mp (by rw [hrep.size, hns]; rfl)
    rw [hsize₁, show (queueNodeNew q (⟨tasks.length, true⟩ : TaskT)).1.currentSize = q.currentSize
      from rfl, hsize]
    rfl
  obtain ⟨q₂, hq₂, hdata⟩ := queueAppend_as_first hzero
    (⟨(tasks ++ [(⟨tasks.length, true⟩ : TaskT)]).length, true⟩ : TaskT)
  have hreach₂ := hreach₁.run (add_alone (not_full_unbounded (hmax₁.trans hmax)) hq₂)
  have hacc := (hall _ hreach₂).accepted
  rw [Fintype.sum_bool] at hacc
  replace hacc : ((tasks ++ [_] ++ [_] : List TaskT) : Multiset TaskT) =
    queueData q₂ + (0 + 0 + (0 + 0)) + 0 + (0 + 0 + 0) := hacc
  have hcard := congrArg Multiset.card hacc
  simp only [hdata, add_zero, Multiset.coe_card, List.length_append, List.length_singleton,
    hlen] at hcard
  omega

end CmakeTemplate
