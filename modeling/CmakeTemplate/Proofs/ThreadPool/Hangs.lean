/-
A broadcast in front of the signal is lost.

`thread_pool_shutdown` broadcasts and then joins the workers; it does not set the flag.  The
workers that the broadcast wakes look at the flag, see it not set, and sleep again once the
queue is empty.  The signal handler sets the flag and wakes nobody.  From then on nothing is
submitted and nothing is broadcast: the submitters are refused, and the thread that could
broadcast waits in `pthread_join` for a worker that waits for the broadcast.

`Stuck` is that state, and every step keeps it but one that wakes the worker for no reason.
So the call does not return any more, unless that happens.  The two ends are put together for
the first call of either function, before which nothing has been joined, on the runs on which
the queue counts right.
-/
import CmakeTemplate.Proofs.ThreadPool.Returns

namespace CmakeTemplate

open Lib

variable {S W : Type} [DecidableEq S] [DecidableEq W] {s s' : PoolState S W}

/-- Nobody is left to wake `w`, and the joins wait for it. -/
structure Stuck (w : W) (s : PoolState S W) : Prop where
  /-- The places of the threads fit together. -/
  agrees : ∀ u, Agrees s u
  /-- The flag is set. -/
  down : s.q.shutdown = true
  /-- The main thread waits for the workers. -/
  joining : ∃ destroying, s.main = .join destroying
  /-- Nobody is submitting. -/
  outside : ∀ i, s.submitter i = .idle
  /-- The worker is in `queue_dequeue`. -/
  waiting : s.worker w = .dequeueing
  /-- It sleeps there. -/
  asleep : s.q.pc (.worker w) = .dequeueWait

/-- With the mutex, another worker takes a task or finds none, and signals no worker. -/
theorem Stuck.dequeueWait_of_lock {w : W} (h : Stuck w s) {t : PThread S W} {woken : List (PThread S W)}
    {q : QState (PThread S W) TaskT} (hm : LockMove s.q t woken q) :
    q.shutdown = true ∧ q.pc (.worker w) = .dequeueWait := by
  have hnobody : ∀ {n d}, ¬ (s.q.pc t).enqueues n d := by
    intro n d hfrom
    obtain ⟨i, task, -, hi⟩ := (h.agrees t).of_enqueues hfrom
    rw [h.outside i] at hi
    cases hi
  have hother : (s.q.pc t).dequeues → (.worker w : PThread S W) ≠ t := by
    rintro hfrom rfl
    rcases hfrom with hp | hp <;> rw [h.asleep] at hp <;> cases hp
  cases hm with
  | sleepsFull n d hfrom => exact absurd hfrom hnobody
  | appends n d queue hfrom => exact absurd hfrom hnobody
  | leaves hfrom hempty hdown =>
      refine ⟨h.down, ?_⟩
      show Function.update s.q.pc t _ (.worker w) = _
      rw [Function.update_of_ne (hother hfrom), h.asleep]
  | sleepsEmpty hfrom hempty hdown => exact absurd (h.down.symm.trans hdown) Bool.noConfusion
  | takes queue d hfrom hempty hsig hq =>
      refine ⟨h.down, ?_⟩
      have hwoken : (.worker w : PThread S W) ∉ woken := by
        intro hc
        have hwaits := hsig.1 _ hc
        rw [h.asleep] at hwaits
        exact Bool.noConfusion hwaits
      show Function.update (wakeThreads s.q.pc woken) t _ (.worker w) = _
      rw [Function.update_of_ne (hother hfrom), wakeThreads, if_neg hwoken, h.asleep]

variable [Fintype S] [Fintype W]

/-- A worker moves itself. -/
theorem workerStep_others {v : W} {ev : PoolEvent S W} (h : workerStep s v ev = some s') :
    s'.main = s.main ∧ s'.submitter = s.submitter ∧ s'.q.shutdown = s.q.shutdown ∧
      (∀ w, w ≠ v → s'.worker w = s.worker w) ∧ ∀ u, u ≠ .worker v → s'.q.pc u = s.q.pc u := by
  have hworker : ∀ {o} w, w ≠ v → Function.update s.worker v o w = s.worker w :=
    fun w hw => Function.update_of_ne hw _ _
  have hpc : ∀ {p} u, u ≠ .worker v → Function.update s.q.pc (.worker v) p u = s.q.pc u :=
    fun u hu => Function.update_of_ne hu _ _
  have hgoes : ∀ {o a b c}, s' = { s with
      worker := Function.update s.worker v o, started := a, executed := b, argFreed := c } →
      s'.main = s.main ∧ s'.submitter = s.submitter ∧ s'.q.shutdown = s.q.shutdown ∧
        (∀ w, w ≠ v → s'.worker w = s.worker w) ∧ ∀ u, u ≠ .worker v → s'.q.pc u = s.q.pc u := by
    rintro o a b c rfl
    exact ⟨rfl, rfl, rfl, hworker, fun _ _ => rfl⟩
  have hplace : ∀ {o p}, s' = { s with
      q := s.q.place (.worker v) p, worker := Function.update s.worker v o } →
      s'.main = s.main ∧ s'.submitter = s.submitter ∧ s'.q.shutdown = s.q.shutdown ∧
        (∀ w, w ≠ v → s'.worker w = s.worker w) ∧ ∀ u, u ≠ .worker v → s'.q.pc u = s.q.pc u := by
    rintro o p rfl
    exact ⟨rfl, rfl, rfl, hworker, hpc⟩
  cases ev with
  | loop _ =>
      simp only [workerStep] at h
      split at h
      · split at h
        · cases h
          exact hgoes rfl
        · exact hplace (queueDo_callDequeue h).2
      · simp at h
  | taskTaken _ =>
      simp only [workerStep] at h
      split at h
      · exact hplace (queueDo_ret h)
      · exact hplace (queueDo_ret h)
      · simp at h
  | execute _ =>
      simp only [workerStep] at h
      split at h
      · cases h
        exact hgoes rfl
      · simp at h
  | executed _ =>
      simp only [workerStep] at h
      split at h
      · cases h
        exact hgoes rfl
      · simp at h
  | argFree _ =>
      simp only [workerStep] at h
      split at h
      · cases h
        exact hgoes rfl
      · simp at h
  | freeTask _ =>
      simp only [workerStep] at h
      split at h
      · cases h
        exact hgoes rfl
      · simp at h
  | _ => simp [workerStep] at h

/-- Another worker moves, and `w` sleeps on. -/
theorem Stuck.stuck_workerStep {w v : W} (h : Stuck w s) {ev : PoolEvent S W}
    (hs : workerStep s v ev = some s') : Stuck w s' := by
  obtain ⟨hmain, hsubmitter, hflag, hworker, hpc⟩ := workerStep_others hs
  have hmove : PoolMove s ev s' := workerStep_move hs
  have hv : w ≠ v := by
    rintro rfl
    -- it is in `queue_dequeue`, and has not come back from there
    have hwaiting := h.waiting
    have hasleep := h.asleep
    cases ev with
    | taskTaken _ => simp [workerStep, hwaiting, hasleep] at hs
    | _ => simp [workerStep, hwaiting] at hs
  exact {
    agrees := hmove.agrees h.agrees
    down := hflag.trans h.down
    joining := hmain ▸ h.joining
    outside := hsubmitter ▸ h.outside
    waiting := (hworker w hv).trans h.waiting
    asleep := (hpc _ fun hc => hv (PThread.worker.inj hc)).trans h.asleep }

/-- Whatever step a thread takes, `w` sleeps on, unless it is woken by nobody. -/
theorem Stuck.stuck_poolStep {w : W} (h : Stuck w s) {ev : PoolEvent S W} (hev : ∀ t, ev ≠ .spurious t)
    (hs : poolStep s ev = some s') : Stuck w s' := by
  obtain ⟨destroying, hjoining⟩ := h.joining
  have hagrees := (poolStep_move hs).agrees h.agrees
  have hwaiting := h.waiting
  unfold poolStep at hs
  split at hs
  · simp at hs
  · cases ev with
    | addTask i argFree =>
        -- with the flag set, nothing is accepted any more
        simp only [submitterStep, h.outside i] at hs
        rw [if_pos h.down] at hs
        cases hs
        exact h
    | createTask i => simp [submitterStep, h.outside i] at hs
    | enqueueTask i => simp [submitterStep, h.outside i] at hs
    | taskAdded i => simp [submitterStep, h.outside i] at hs
    | lock t woken =>
        obtain ⟨q, hq, rfl⟩ := Option.map_eq_some_iff.mp hs
        obtain ⟨hdown, hasleep⟩ := h.dequeueWait_of_lock (queueStep_lock hq)
        exact ⟨hagrees, hdown, h.joining, h.outside, hwaiting, hasleep⟩
    | spurious t => exact absurd rfl (hev t)
    | signal =>
        obtain ⟨q, hq, rfl⟩ := Option.map_eq_some_iff.mp hs
        cases hq
        exact ⟨hagrees, rfl, h.joining, h.outside, hwaiting, h.asleep⟩
    | loop => exact h.stuck_workerStep hs
    | taskTaken => exact h.stuck_workerStep hs
    | execute => exact h.stuck_workerStep hs
    | executed => exact h.stuck_workerStep hs
    | argFree => exact h.stuck_workerStep hs
    | freeTask => exact h.stuck_workerStep hs
    | join =>
        simp only [mainStep, hjoining] at hs
        split at hs
        · rename_i hall
          have hexited := hall w
          rw [hwaiting] at hexited
          exact Bool.noConfusion hexited
        · simp at hs
    | shutdown => simp [mainStep, hjoining] at hs
    | destroy => simp [mainStep, hjoining] at hs
    | broadcast => simp [mainStep, hjoining] at hs
    | clear => simp [mainStep, hjoining] at hs
    | cleared => simp [mainStep, hjoining] at hs

/-- Until a worker is woken by nobody, the joins do not come to an end. -/
theorem Stuck.not_hasReturned {w : W} (h : Stuck w s) {ls : List (PoolEvent S W)} {t : PoolState S W}
    (hr : (poolSystem S W).RunIf (fun _ ev => ∀ u, ev ≠ .spurious u) s ls t) :
    ¬ t.main.hasReturned = true := by
  have ht : Stuck w t := hr.invariant (fun s ev s' hs hev hstep => hs.stuck_poolStep hev hstep) h
  obtain ⟨destroying, hjoining⟩ := ht.joining
  rw [hjoining]
  exact Bool.noConfusion

/-! ### How it comes to that

The workers come to rest while the flag is not set, and then the signal comes.
-/

/-- The workers' steps move no other thread. -/
theorem poolStep_isWork {ev : PoolEvent S W} (hev : ev.isWork = true)
    (h : poolStep s ev = some s') : s'.main = s.main ∧ s'.submitter = s.submitter := by
  have hworker : ∀ {v}, workerStep s v ev = some s' →
      s'.main = s.main ∧ s'.submitter = s.submitter := by
    intro v hs
    obtain ⟨hmain, hsubmitter, -⟩ := workerStep_others hs
    exact ⟨hmain, hsubmitter⟩
  unfold poolStep at h
  split at h
  · simp at h
  · cases ev with
    | lock t woken =>
        obtain ⟨q, hq, rfl⟩ := Option.map_eq_some_iff.mp h
        exact ⟨rfl, rfl⟩
    | loop => exact hworker h
    | taskTaken => exact hworker h
    | execute => exact hworker h
    | executed => exact hworker h
    | argFree => exact hworker h
    | freeTask => exact hworker h
    | _ => exact Bool.noConfusion hev

omit [Fintype S] [DecidableEq S] [DecidableEq W] in
theorem workCost_of_isWork {ev : PoolEvent S W} (h : ev.isWork = true) : ev.workCost = 0 := by
  cases ev with
  | lock t woken =>
      cases t with
      | worker w => rfl
      | _ => exact Bool.noConfusion h
  | spurious => exact Bool.noConfusion h
  | broadcast => exact Bool.noConfusion h
  | _ => rfl

/-- The steps up to the first call: no worker has been joined, so that each handle may still be. -/
def BeforeJoin (s : PoolState S W) (ev : PoolEvent S W) : Prop :=
  PoolNoWrap s ev ∧ ev ≠ .join

/-- The steps behind it, with no other call of `thread_pool_shutdown` or `thread_pool_destroy`. -/
def NoOtherCall (s : PoolState S W) (ev : PoolEvent S W) : Prop :=
  PoolNoWrap s ev ∧ ev ≠ .shutdown ∧ ev ≠ .destroy

omit [Fintype S] [Fintype W] [DecidableEq S] [DecidableEq W] in
theorem noOtherCall_of_endsCall {ev : PoolEvent S W} (hev : ev.endsCall = true)
    (hwrap : PoolNoWrap s ev) : NoOtherCall s ev := by
  refine ⟨hwrap, ?_, ?_⟩
  · rintro rfl
    exact Bool.noConfusion hev
  · rintro rfl
    exact Bool.noConfusion hev

omit [Fintype S] [Fintype W] [DecidableEq S] [DecidableEq W] in
theorem NoOtherCall.callCost {ev : PoolEvent S W} (h : NoOtherCall s ev) : ev.callCost = 0 := by
  cases ev with
  | shutdown => exact absurd rfl h.2.1
  | destroy => exact absurd rfl h.2.2
  | _ => rfl

/-- The workers look at a flag that is not set and sleep again; then the signal comes. -/
theorem Up.gets_stuck [Nonempty W] (h : Up s) {destroying : Bool} (hm : s.main = .join destroying)
    (hidle : ∀ i, s.submitter i = .idle) :
    ∃ ls t w, (poolSystem S W).RunIf NoOtherCall s ls t ∧ Stuck w t := by
  obtain ⟨w⟩ := ‹Nonempty W›
  obtain ⟨ls, t, hr, hown, hzero⟩ := h.rests.reaches fun ev hev => workCost_of_isWork hev
  obtain ⟨hreach, hup⟩ := hr.invariant (fun s ev s' hs hc hstep => Up.step hs hc hstep) h
  have hkept : t.main = .join destroying ∧ ∀ i, t.submitter i = .idle := by
    refine (hr.and hown).invariant
      (I := fun t => t.main = .join destroying ∧ ∀ i, t.submitter i = .idle) ?_ ⟨hm, hidle⟩
    intro s ev s' hs hc hstep
    obtain ⟨hmain, hsubmitter⟩ := poolStep_isWork hc.2 hstep
    exact ⟨hmain.trans hs.1, fun i => (congrFun hsubmitter i).trans (hs.2 i)⟩
  have hagree := poolSystem_agrees hreach.reach
  obtain ⟨hwaiting, hasleep⟩ := asleep_of_workOf (hagree (.worker w))
    ((poolSystem_staffed hreach.reach).stays hup w) (hzero w)
  have hnext : NoOtherCall t .signal := ⟨trivial, by simp, by simp⟩
  have hworks : (poolSystem S W).RunIf NoOtherCall s ls t := (hr.and hown).mono fun s ev hc =>
    noOtherCall_of_endsCall (endsCall_of_isWork hc.2) hc.1.1
  have hsignal : poolStep t .signal = some { t with q := { t.q with shutdown := true } } :=
    if_neg (not_destroyed hreach.reach hup)
  have hstep : (poolSystem S W).step t .signal
      = some { t with q := { t.q with shutdown := true } } := hsignal
  refine ⟨ls ++ [.signal], _, w, hworks.next hnext hstep, ?_⟩
  exact {
    agrees := (poolStep_move hsignal).agrees hagree
    down := rfl
    joining := ⟨destroying, hkept.1⟩
    outside := hkept.2
    waiting := hwaiting
    asleep := hasleep }

/-! ### Both ends

With the flag set in front of the broadcast the call returns, and otherwise it may hang.
-/

/-- The broadcast, and what it leaves of the state. -/
theorem poolStep_broadcast (h : poolStep s .broadcast = some s') :
    ∃ destroying, s.main = .broadcast destroying ∧ s' = { s with
      q := { s.q with
        pc := fun u => if (s.q.pc u).waits .notEmpty then (s.q.pc u).wake else s.q.pc u }
      main := .join destroying } := by
  unfold poolStep at h
  split at h
  · simp at h
  · simp only [mainStep] at h
    split at h
    · rename_i destroying hm
      obtain ⟨q, hq, rfl⟩ := Option.map_eq_some_iff.mp h
      cases hq
      exact ⟨destroying, hm, rfl⟩
    · simp at h

/-- The first call of `thread_pool_shutdown` or `thread_pool_destroy` returns, whatever the threads do,
if the flag is set when it broadcasts.  If it is not, and no task is being submitted, the workers may
go to sleep again before the signal comes; then the call does not return any more. -/
theorem broadcast_returns_or_hangs [Nonempty W] (h : (poolSystem S W).ReachIf BeforeJoin s)
    (hidle : ∀ i, s.submitter i = .idle) (hb : poolStep s .broadcast = some s') :
    (s.q.shutdown = true → (poolSystem S W).Settles NoOtherCall PoolEvent.endsCall (fun _ => 0)
      (fun t => t.main.hasReturned = true) s' s'.ahead) ∧
    (s.q.shutdown = false → ∃ ls t, (poolSystem S W).RunIf NoOtherCall s' ls t ∧
      t.q.shutdown = true ∧ ∀ ks u,
        (poolSystem S W).RunIf (fun _ ev => ∀ v, ev ≠ .spurious v) t ks u →
          ¬ u.main.hasReturned = true) := by
  have hwrap : PoolNoWrap s .broadcast := trivial
  have hreach : (poolSystem S W).ReachIf PoolNoWrap s' := (h.mono fun s ev hc => hc.1).step hwrap hb
  obtain ⟨destroying, -, rfl⟩ := poolStep_broadcast hb
  constructor
  · intro hdown
    have hends : Ending _ := ⟨hreach, awake_broadcast hdown, nofun⟩
    exact hends.settles.restrict (fun s ev hc => hc.1)
      (fun s ev hev hc => noOtherCall_of_endsCall hev hc) fun s ev hc => Nat.le_of_eq hc.callCost
  · intro hup
    have hs : Up _ := ⟨hreach, hup⟩
    obtain ⟨ls, t, w, hr, hstuck⟩ := hs.gets_stuck rfl hidle
    exact ⟨ls, t, hr, hstuck.down, fun ks u hrun => hstuck.not_hasReturned hrun⟩

/-- A pool of two workers, destroyed behind the signal and in front of it. -/
theorem broadcast_returns_or_hangs_run :
    ∃ s s' t t', (poolSystem Unit Bool).run (poolStart Unit Bool) [.signal, .destroy] = some s ∧
      poolStep s .broadcast = some s' ∧
      (poolSystem Unit Bool).Settles NoOtherCall PoolEvent.endsCall (fun _ => 0)
        (fun u => u.main.hasReturned = true) s' s'.ahead ∧
      (poolSystem Unit Bool).run (poolStart Unit Bool) [.destroy] = some t ∧
      poolStep t .broadcast = some t' ∧
      ∃ ls u, (poolSystem Unit Bool).RunIf NoOtherCall t' ls u ∧ u.q.shutdown = true ∧ ∀ ks v,
        (poolSystem Unit Bool).RunIf (fun _ ev => ∀ w, ev ≠ .spurious w) u ks v →
          ¬ v.main.hasReturned = true := by
  have h0 : (poolSystem Unit Bool).ReachIf BeforeJoin (poolStart Unit Bool) := .init rfl
  have hsignal := h0.step (l := PoolEvent.signal) ⟨trivial, by simp⟩ rfl
  have hbehind := hsignal.step (l := PoolEvent.destroy) ⟨trivial, by simp⟩ rfl
  have hbefore := h0.step (l := PoolEvent.destroy) ⟨trivial, by simp⟩ rfl
  exact ⟨_, _, _, _, rfl, rfl, (broadcast_returns_or_hangs hbehind (fun _ => rfl) rfl).1 rfl, rfl, rfl,
    (broadcast_returns_or_hangs hbefore (fun _ => rfl) rfl).2 rfl⟩

end CmakeTemplate
