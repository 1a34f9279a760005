/-
Nobody uses the descriptors behind `close_all_sockets`, if nobody is left who would.

`start_tcp_server` closes the sockets, frees the array and destroys the mutex, and only then
destroys the pool, which waits for the workers.  A worker that still has a request puts its
client back into the array, under that mutex.  So `close_all_sockets` has to come when no
worker has a request and none can get one (`Quiet`): the queue is empty, or the flag is set
and nobody is in the middle of taking a task.

`Quiet` is kept by every step the pool can still take then: the thread of the server makes no
more jobs, a worker without a request goes on to the end of its loop, and one that dequeues
finds nothing.  It is `close_all_sockets` that does not wait for it.
-/
import CmakeTemplate.Teardown
import CmakeTemplate.Proofs.ThreadPool.Awake

namespace CmakeTemplate

open Lib

variable {W : Type} [DecidableEq W] {s s' : TeardownState W} {p' : PoolState Unit W}

/-! ### The flag

The flag is never taken back.
-/

theorem LockMove.shutdown_eq {T α : Type} [DecidableEq T] {q q' : QState T α} {t : T} {woken : List T}
    (hm : LockMove q t woken q') : q'.shutdown = q.shutdown := by
  cases hm with
  | sleepsFull => rfl
  | appends => rfl
  | leaves => rfl
  | sleepsEmpty => rfl
  | takes => rfl

theorem PoolMove.shutdown_kept {S : Type} [DecidableEq S] {p p' : PoolState S W} {ev : PoolEvent S W}
    (hm : PoolMove p ev p') (h : p.q.shutdown = true) : p'.q.shutdown = true := by
  cases hm with
  | locks t woken q hl => exact hl.shutdown_eq.trans h
  | signals => rfl
  | _ => exact h

/-! ### Workers

Whether a worker has a request is a matter of its own place.
-/

omit [DecidableEq W] in
/-- Nothing has come to a worker that stays where it is. -/
theorem NoRequest.congr {w : W} (h : NoRequest s w)
    (hw : s'.pool.worker w = s.pool.worker w) (hj : s'.job w = s.job w)
    (hpc : ∀ task, s'.pool.q.pc (.worker w) = .returned (.data (some task)) →
      s.pool.q.pc (.worker w) = .returned (.data (some task))) : NoRequest s' w := by
  unfold NoRequest at h ⊢
  rw [hw, hj]
  split
  · rename_i ho
    rw [ho] at h
    exact fun task hret => h task (hpc task hret)
  · rename_i task ho
    rw [ho] at h
    exact h
  · rename_i task ho
    rw [ho] at h
    exact h
  · trivial

/-- With a request, or on the way to one. -/
def WorkerPc.requests : WorkerPc → Bool
  | dequeueing => true
  | got _ => true
  | running _ => true
  | _ => false

omit [DecidableEq W] in
theorem NoRequest.of_worker {w : W} {o : WorkerPc} (hw : s.pool.worker w = o)
    (ho : o.requests = false) : NoRequest s w := by
  unfold NoRequest
  rw [hw]
  cases o with
  | dequeueing => exact Bool.noConfusion ho
  | got task => exact Bool.noConfusion ho
  | running task => exact Bool.noConfusion ho
  | _ => trivial

omit [DecidableEq W] in
/-- Outside `queue_dequeue` it does not matter to a worker what the queue does. -/
theorem NoRequest.outside {w : W} (h : NoRequest s w) (hout : s.pool.worker w ≠ .dequeueing)
    (hw : s'.pool.worker w = s.pool.worker w) (hj : s'.job w = s.job w) : NoRequest s' w := by
  unfold NoRequest at h ⊢
  rw [hw, hj]
  split
  · rename_i ho
    exact absurd ho hout
  · rename_i task ho
    rw [ho] at h
    exact h
  · rename_i task ho
    rw [ho] at h
    exact h
  · trivial

omit [DecidableEq W] in
/-- A worker that cannot begin a task. -/
theorem NoRequest.toBegin {w : W} (h : NoRequest s w) (hw : s.pool.worker w ≠ .dequeueing) :
    (s.pool.worker w).toBegin = 0 := by
  unfold NoRequest at h
  cases ho : s.pool.worker w with
  | dequeueing => exact absurd ho hw
  | got task =>
      rw [ho] at h
      exact h.elim
  | _ => rfl

theorem returned_of_wake {p : QPc TaskT} {r : QRet TaskT} (h : p.wake = .returned r) :
    p = .returned r := by
  cases p with
  | returned r' => exact h
  | _ => simp [QPc.wake] at h

/-- Where another thread stands in its call is all the same to a worker. -/
theorem place_worker {q : QState (PThread Unit W) TaskT} {t : PThread Unit W} {p : QPc TaskT}
    {w : W} (ht : PThread.worker w ≠ t) : (q.place t p).pc (.worker w) = q.pc (.worker w) :=
  Function.update_of_ne ht _ _

/-- One worker has moved to a place without a request. -/
theorem Quiet.moved (h : Quiet s) (v : W) {o : WorkerPc} {q : QState (PThread Unit W) TaskT}
    (hq : ∀ w, w ≠ v → q.pc (.worker w) = s.pool.q.pc (.worker w))
    (ho : ∀ (s₁ : TeardownState W), s₁.pool.worker v = o → s₁.pool.q = q → NoRequest s₁ v)
    (a b c : List TaskT) :
    ∀ w, NoRequest { s with pool := { s.pool with
      q, worker := Function.update s.pool.worker v o, started := a, executed := b,
      argFreed := c } } w := by
  intro w
  by_cases hw : w = v
  · subst hw
    exact ho _ (Function.update_self _ _ _) rfl
  · apply (h.request w).congr
    · exact Function.update_of_ne hw _ _
    · rfl
    · intro task hret
      rw [← hq w hw]
      exact hret

omit [DecidableEq W] in
/-- A wake-up brings nobody a task. -/
theorem Quiet.woken (h : Quiet s) {w : W} (hw : p'.worker = s.pool.worker)
    (hpc : p'.q.pc (.worker w) = s.pool.q.pc (.worker w) ∨
      p'.q.pc (.worker w) = (s.pool.q.pc (.worker w)).wake) :
    NoRequest { s with pool := p' } w := by
  refine (h.request w).congr (congrFun hw w) rfl ?_
  intro task hret
  rcases hpc with hpc | hpc
  · exact hpc.symm.trans hret
  · exact returned_of_wake (hpc.symm.trans hret)

omit [DecidableEq W] in
/-- The pool's threads in the queue, when the submitter is idle. -/
theorem not_enqueues (hagree : ∀ u, Agrees s.pool u) (hidle : s.pool.submitter () = .idle)
    (t : PThread Unit W) (n : Nat) (d : TaskT) : ¬ (s.pool.q.pc t).enqueues n d := by
  have hnot : ∀ {p : QPc TaskT}, p = .idle ∨ p.inDequeue → ¬ p.enqueues n d := by
    rintro p (rfl | (rfl | rfl) | rfl | ⟨d', rfl⟩) (h | h) <;> simp at h
  have ht := hagree t
  cases t with
  | submitter i =>
      apply hnot
      have hp : (s.pool.submitter i).Agrees s.pool.q.inserted (s.pool.q.pc (.submitter i)) := ht
      rw [show s.pool.submitter i = .idle from hidle] at hp
      exact .inl hp
  | worker w =>
      apply hnot
      have hp : (s.pool.worker w).Agrees (s.pool.q.pc (.worker w)) := ht
      cases ho : s.pool.worker w <;> rw [ho] at hp
      case dequeueing => exact .inr hp
      all_goals exact .inl hp
  | main =>
      apply hnot
      have hp : s.pool.main.Agrees (s.pool.q.pc .main) := ht
      cases ho : s.pool.main <;> rw [ho] at hp
      case clearing => exact .inr hp
      all_goals exact .inl hp

/-! ### A quiet pool stays quiet

A case for each move of the pool.
-/

/-- With the mutex of the queue. -/
theorem LockMove.noRequest {t : PThread Unit W} {woken : List (PThread Unit W)}
    {q : QState (PThread Unit W) TaskT} (hm : LockMove s.pool.q t woken q)
    (hagree : ∀ u, Agrees s.pool u) (hidle : s.pool.submitter () = .idle) (h : Quiet s) (w : W) :
    NoRequest { s with pool := { s.pool with q } } w := by
  have hsame : ∀ {p : QPc TaskT}, (∀ task, p ≠ .returned (.data (some task))) →
      NoRequest { s with pool := { s.pool with
        q := { s.pool.q with pc := Function.update s.pool.q.pc t p } } } w := by
    intro p hp
    refine (h.request w).congr rfl rfl ?_
    intro task hret
    have hret' : Function.update s.pool.q.pc t p (.worker w) = .returned (.data (some task)) := hret
    by_cases hw : PThread.worker w = t
    · rw [hw, Function.update_self] at hret'
      exact absurd hret' (hp task)
    · rw [Function.update_of_ne hw] at hret'
      exact hret'
  cases hm with
  | sleepsFull n d hfrom => exact absurd hfrom (not_enqueues hagree hidle t n d)
  | appends n d queue hfrom => exact absurd hfrom (not_enqueues hagree hidle t n d)
  | leaves => exact hsame nofun
  | sleepsEmpty => exact hsame nofun
  | takes queue d hfrom hempty =>
      rcases h.rest with hzero | ⟨-, hout⟩
      · exact absurd hempty (by simp [queueIsEmpty, hzero])
      · exact (h.request w).outside (hout w) rfl rfl

theorem PoolMove.noRequest {ev : PoolEvent Unit W} (hm : PoolMove s.pool ev p')
    (hagree : ∀ u, Agrees s.pool u) (hidle : s.pool.submitter () = .idle) (h : Quiet s) :
    ∀ w, NoRequest { s with pool := p' } w := by
  have hsubmits : ∀ {i : Unit} {o : SubmitterPc}, s.pool.submitter i = o → o ≠ .idle → False :=
    fun hi ho => ho (hi.symm.trans hidle)
  have hplace : ∀ {v w : W} {p : QPc TaskT}, w ≠ v →
      (s.pool.q.place (.worker v) p).pc (.worker w) = s.pool.q.pc (.worker w) :=
    fun hw => place_worker fun hc => hw (PThread.worker.inj hc)
  have hgoes : ∀ {o : WorkerPc}, o.requests = false →
      ∀ (q : QState (PThread Unit W) TaskT) (v : W) (s₁ : TeardownState W),
        s₁.pool.worker v = o → s₁.pool.q = q → NoRequest s₁ v :=
    fun ho _ _ _ hw _ => NoRequest.of_worker hw ho
  cases hm with
  | stays => exact h.request
  | submits i p hfrom hp => exact h.request
  | creates i argFree hfrom => exact h.request
  | enqueues i task hfrom => exact (hsubmits hfrom nofun).elim
  | fails i task hfrom => exact (hsubmits hfrom nofun).elim
  | adds i task hfrom => exact (hsubmits hfrom nofun).elim
  | refuses i task c hfrom => exact (hsubmits hfrom nofun).elim
  | locks t woken q hl => exact hl.noRequest hagree hidle h
  | wakes t =>
      intro w
      refine h.woken rfl ?_
      by_cases hw : PThread.worker w = t
      · rw [← hw]
        exact .inr (QState.place_self _ _ _)
      · exact .inl (place_worker hw)
  | signals => exact h.request
  | exits w hfrom hdown =>
      exact h.moved w (fun _ _ => rfl) (hgoes rfl s.pool.q w) _ _ _
  | dequeues w hfrom hidle' =>
      apply h.moved w (fun v hv => hplace hv)
      intro s₁ hw hq
      unfold NoRequest
      rw [hw]
      intro task hret
      rw [hq, QState.place_self] at hret
      simp at hret
  | gets w task hfrom hret =>
      have hreq := h.request w
      unfold NoRequest at hreq
      rw [hfrom] at hreq
      exact absurd hret (hreq task)
  | misses w hfrom hret => exact h.moved w (fun v hv => hplace hv) (hgoes rfl _ w) _ _ _
  | executes w task hfrom =>
      have hreq := h.request w
      unfold NoRequest at hreq
      rw [hfrom] at hreq
      exact hreq.elim
  | executed w task hfrom => exact h.moved w (fun _ _ => rfl) (hgoes rfl s.pool.q w) _ _ _
  | frees w task hfrom => exact h.moved w (fun _ _ => rfl) (hgoes rfl s.pool.q w) _ _ _
  | returns w task hfrom => exact h.moved w (fun _ _ => rfl) (hgoes rfl s.pool.q w) _ _ _
  | calls destroying hfrom => exact h.request
  | broadcasts destroying hfrom =>
      intro w
      refine h.woken rfl ?_
      by_cases hw : (s.pool.q.pc (.worker w)).waits .notEmpty = true
      · exact .inr (if_pos hw)
      · exact .inl (if_neg hw)
  | joins destroying hfrom hall => exact h.request
  | clears hfrom hsize hidle' => exact fun w => h.woken rfl (.inl (place_worker nofun))
  | discards task hfrom hret => exact fun w => h.woken rfl (.inl (place_worker nofun))
  | skips hfrom hret => exact fun w => h.woken rfl (.inl (place_worker nofun))
  | destroys hfrom hsize => exact h.request

/-- An empty queue stays empty. -/
theorem PoolMove.empty_queue {ev : PoolEvent Unit W} (hm : PoolMove s.pool ev p')
    (hagree : ∀ u, Agrees s.pool u) (hidle : s.pool.submitter () = .idle)
    (hzero : s.pool.q.queue.currentSize = 0) : p'.q.queue.currentSize = 0 := by
  cases hm with
  | enqueues i task hfrom => exact absurd (hfrom.symm.trans hidle) nofun
  | locks t woken q hl =>
      cases hl with
      | sleepsFull => exact hzero
      | appends n d queue hfrom => exact absurd hfrom (not_enqueues hagree hidle t n d)
      | leaves => exact hzero
      | sleepsEmpty => exact hzero
      | takes queue d hfrom hempty => exact absurd hempty (by simp [queueIsEmpty, hzero])
  | _ => exact hzero

variable [Fintype W]

theorem Quiet.step (h : Quiet s) (hagree : ∀ u, Agrees s.pool u)
    (hidle : s.pool.submitter () = .idle) {ev : PoolEvent Unit W}
    (hs : poolStep s.pool ev = some p') : Quiet { s with pool := p' } := by
  have hm := poolStep_move hs
  refine ⟨hm.noRequest hagree hidle h, ?_⟩
  rcases h.rest with hzero | ⟨hdown, hout⟩
  · exact .inl (hm.empty_queue hagree hidle hzero)
  · refine .inr ⟨hm.shutdown_kept hdown, ?_⟩
    -- with the flag set nobody enters `queue_dequeue` any more
    intro w hw
    have hbegin := poolStep_toBegin hdown hs w
    rw [(h.request w).toBegin (hout w), show p'.worker w = .dequeueing from hw] at hbegin
    exact absurd (Nat.le_trans (Nat.le_add_left 1 _) hbegin) (Nat.not_succ_le_zero 0)

/-- In a quiet pool no task is begun. -/
theorem Quiet.not_execute (h : Quiet s) (w : W) :
    poolStep s.pool (.execute w) = none := by
  have hreq := h.request w
  unfold NoRequest at hreq
  unfold poolStep
  split
  · rfl
  · simp only [workerStep]
    split
    · rename_i task hw
      rw [hw] at hreq
      exact hreq.elim
    · rfl

/-! ### The thread of the server

Outside the server loop it submits nothing.
-/

theorem workerStep_submitter {p : PoolState Unit W} {w : W} {ev : PoolEvent Unit W}
    (h : workerStep p w ev = some p') : p'.submitter = p.submitter := by
  unfold workerStep at h
  split at h
  · split at h
    · split at h
      · cases h
        rfl
      · obtain ⟨q, rfl⟩ := queueDo_worker h
        rfl
    · simp at h
  · split at h
    · obtain ⟨q, rfl⟩ := queueDo_worker h
      rfl
    · obtain ⟨q, rfl⟩ := queueDo_worker h
      rfl
    · simp at h
  · split at h
    · cases h
      rfl
    · simp at h
  · split at h
    · cases h
      rfl
    · simp at h
  · split at h
    · cases h
      rfl
    · simp at h
  · split at h
    · cases h
      rfl
    · simp at h
  · simp at h

/-- Outside the server loop its thread adds no task. -/
theorem mayStep_submitter {ev : PoolEvent Unit W} (hphase : s.phase ≠ .looping)
    (hmay : mayStep s ev = true) (h : poolStep s.pool ev = some p') :
    p'.submitter = s.pool.submitter := by
  have hnot : ¬ decide (s.phase = .looping) = true := fun hc => hphase (of_decide_eq_true hc)
  unfold poolStep at h
  split at h
  · simp at h
  · cases ev with
    | addTask => exact absurd hmay hnot
    | createTask => exact absurd hmay hnot
    | enqueueTask => exact absurd hmay hnot
    | taskAdded => exact absurd hmay hnot
    | lock t woken =>
        obtain ⟨q, rfl⟩ := queueDo_worker h
        rfl
    | spurious t =>
        obtain ⟨q, rfl⟩ := queueDo_worker h
        rfl
    | signal =>
        obtain ⟨q, rfl⟩ := queueDo_worker h
        rfl
    | loop v => exact workerStep_submitter h
    | taskTaken v => exact workerStep_submitter h
    | execute v => exact workerStep_submitter h
    | executed v => exact workerStep_submitter h
    | argFree v => exact workerStep_submitter h
    | freeTask v => exact workerStep_submitter h
    | shutdown => exact (mainStep_others h).2
    | destroy => exact (mainStep_others h).2
    | broadcast => exact (mainStep_others h).2
    | join => exact (mainStep_others h).2
    | clear => exact (mainStep_others h).2
    | cleared => exact (mainStep_others h).2

/-! ### Runs

The invariant is trivial before `close_all_sockets`, and `Quiet` behind it.
-/

/-- Behind `close_all_sockets` the pool is quiet, and has been since. -/
structure TeardownInv (s : TeardownState W) : Prop where
  /-- The pool is in a state that a pool can reach. -/
  reach : (poolSystem Unit W).Reach s.pool
  /-- Nothing is submitted outside the server loop. -/
  idle : s.phase ≠ .looping → s.pool.submitter () = .idle
  /-- The array is freed in the clean-up only. -/
  phase : s.freed = true → s.phase = .destroying ∨ s.phase = .returned
  /-- From then on the pool is quiet. -/
  quiet : s.freed = true → Quiet s
  /-- Nothing has been used too late. -/
  untouched : s.touched = false

namespace TeardownInv

theorem not_looping (h : TeardownInv s) (hfreed : s.freed = true) : s.phase ≠ .looping := by
  rcases h.phase hfreed with hp | hp
  · rw [hp]
    exact nofun
  · rw [hp]
    exact nofun

theorem inv_poolStep (h : TeardownInv s) {ev : PoolEvent Unit W} (hmay : mayStep s ev = true)
    (hs : poolStep s.pool ev = some p') :
    TeardownInv { s with pool := p', job := beginJob s.job ev } where
  reach := h.reach.next hs
  idle hphase := by
    show p'.submitter () = .idle
    rw [mayStep_submitter (s := s) hphase hmay hs]
    exact h.idle hphase
  phase := h.phase
  quiet hfreed := by
    have hquiet := h.quiet hfreed
    have hstep := hquiet.step (poolSystem_agrees h.reach) (h.idle (h.not_looping hfreed)) hs
    cases ev with
    | execute w =>
        rw [hquiet.not_execute w] at hs
        exact absurd hs (Option.some_ne_none _).symm
    | _ => exact hstep
  untouched := h.untouched

/-- A worker in `process_client_request` is not behind `close_all_sockets`. -/
theorem not_freed_of_running (h : TeardownInv s) {w : W} {task : TaskT}
    (hw : s.pool.worker w = .running task)
    (hj : s.job w ≠ .done) : s.freed = false := by
  cases hfreed : s.freed with
  | false => rfl
  | true =>
      have hreq := (h.quiet hfreed).request w
      unfold NoRequest at hreq
      rw [hw] at hreq
      exact absurd hreq hj

/-- Before `close_all_sockets` there is nothing to touch. -/
theorem inv_touch (h : TeardownInv s) (hfreed : s.freed = false) (job : W → JobPc) (fdLocked : Bool) :
    TeardownInv { s.touch with job, fdLocked } where
  reach := h.reach
  idle := h.idle
  phase := h.phase
  quiet hc := absurd (hc.symm.trans hfreed) Bool.noConfusion
  untouched := by
    show (s.touched || s.freed) = false
    rw [h.untouched, hfreed]
    rfl

theorem inv_requestStep (h : TeardownInv s) {w : W} {ev : TeardownEvent W}
    (hs : requestStep s w ev = some s') : TeardownInv s' := by
  unfold requestStep at hs
  split at hs
  · split at hs
    · rename_i task hw hj
      split at hs
      · simp at hs
      · cases hs
        exact h.inv_touch (h.not_freed_of_running hw (by rw [hj]; exact nofun)) _ _
    · simp at hs
  · split at hs
    · rename_i task hw hj
      cases hs
      exact h.inv_touch (h.not_freed_of_running hw (by rw [hj]; exact nofun)) _ _
    · simp at hs
  · split at hs
    · rename_i task hw hj
      cases hs
      have hfreed := h.not_freed_of_running hw (by rw [hj]; exact nofun)
      exact ⟨h.reach, h.idle, h.phase, fun hc => absurd (hc.symm.trans hfreed) Bool.noConfusion,
        h.untouched⟩
    · simp at hs
  · simp at hs

/-- A phase in front of the clean-up calls. -/
theorem inv_phase (h : TeardownInv s) {target : ServerPhase} (isSet : Bool)
    (hfrom : s.phase ≠ .destroying ∧ s.phase ≠ .returned)
    (hidle : s.pool.submitter () = .idle) : TeardownInv { s with phase := target, isSet } := by
  have hnot : ¬ s.freed = true := by
    intro hfreed
    rcases h.phase hfreed with hp | hp
    · exact hfrom.1 hp
    · exact hfrom.2 hp
  exact ⟨h.reach, fun _ => hidle, fun hc => absurd hc hnot, fun hc => absurd hc hnot, h.untouched⟩

theorem inv_serverPhaseStep (h : TeardownInv s) {ev : TeardownEvent W} (hc : Harmless s ev)
    (hs : serverPhaseStep s ev = some s') : TeardownInv s' := by
  have hat : ∀ {p : ServerPhase}, s.phase = p → p ≠ .looping → s.pool.submitter () = .idle :=
    fun hp hne => h.idle (hp ▸ hne)
  unfold serverPhaseStep at hs
  split at hs
  · split at hs
    · rename_i hp
      cases hs
      exact h.inv_phase s.isSet (by rw [hp]; exact ⟨nofun, nofun⟩) (hat hp nofun)
    · simp at hs
  · split at hs
    · rename_i hp
      split at hs
      · cases hs
        exact h.inv_phase true (by rw [hp]; exact ⟨nofun, nofun⟩) (hat hp nofun)
      · cases hs
        exact h.inv_phase s.isSet (by rw [hp]; exact ⟨nofun, nofun⟩) (hat hp nofun)
    · simp at hs
  · split at hs
    · rename_i hp
      cases hs
      exact h.inv_phase s.isSet (by rw [hp]; exact ⟨nofun, nofun⟩) (hat hp nofun)
    · simp at hs
  · split at hs
    · rename_i hp
      cases hs
      have hidle : s.pool.submitter () = .idle := by
        cases ho : s.pool.submitter () with
        | idle => rfl
        | _ =>
            have := hp.2
            rw [ho] at this
            exact absurd this Bool.false_ne_true
      exact h.inv_phase s.isSet (by rw [hp.1]; exact ⟨nofun, nofun⟩) hidle
    · simp at hs
  · split at hs
    · rename_i hp
      cases hs
      exact ⟨h.reach, fun _ => hat hp nofun, fun _ => .inl rfl,
        fun hset => ⟨(hc hset).request, (hc hset).rest⟩, h.untouched⟩
    · simp at hs
  · split at hs
    · rename_i hp
      cases hs
      exact ⟨h.reach, fun _ => hat hp.1 nofun, fun _ => .inr rfl,
        fun hfreed => ⟨(h.quiet hfreed).request, (h.quiet hfreed).rest⟩, h.untouched⟩
    · simp at hs
  · simp at hs

theorem inv_teardownStep (h : TeardownInv s) {ev : TeardownEvent W} (hc : Harmless s ev)
    (hs : teardownStep s ev = some s') : TeardownInv s' := by
  have hrequests : ∀ {w : W}, requestStep s w ev = some s' → TeardownInv s' := h.inv_requestStep
  cases ev with
  | pool pev =>
      simp only [teardownStep] at hs
      split at hs
      · rename_i hmay
        obtain ⟨p, hp, rfl⟩ := Option.map_eq_some_iff.mp hs
        exact h.inv_poolStep hmay hp
      · simp at hs
  | lockFds w => exact hrequests hs
  | writeFds w ok => exact hrequests hs
  | closeClient w => exact hrequests hs
  | configure ok => exact h.inv_serverPhaseStep hc hs
  | create ok => exact h.inv_serverPhaseStep hc hs
  | initializeServer ok => exact h.inv_serverPhaseStep hc hs
  | loopEnds => exact h.inv_serverPhaseStep hc hs
  | closeAll => exact h.inv_serverPhaseStep hc hs
  | returns => exact h.inv_serverPhaseStep hc hs

end TeardownInv

/-- When `close_all_sockets` comes with nobody left to put a client back, no worker uses the mutex
or the array behind it. -/
theorem teardownSystem_untouched (h : (teardownSystem W).ReachIf Harmless s) :
    s.touched = false := by
  have hinv : TeardownInv s := by
    apply h.invariant (I := TeardownInv)
    · intro s hs
      rw [hs]
      exact ⟨.init rfl, fun _ => rfl, nofun, nofun, rfl⟩
    · intro s ev s' hinv hc hs
      exact hinv.inv_teardownStep hc hs
  exact hinv.untouched

/-- A request is answered and its client put back, the flag is set, and the loop ends. -/
theorem teardownSystem_untouched_run :
    ∃ s, (teardownSystem Bool).run (teardownStart Bool) [.configure true, .create true,
        .initializeServer true, .pool (.addTask () true), .pool (.createTask () true),
        .pool (.enqueueTask () true), .pool (.lock (.submitter ()) []), .pool (.taskAdded ()),
        .pool (.loop true), .pool (.lock (.worker true) []), .pool (.taskTaken true),
        .pool (.execute true), .lockFds true, .writeFds true true, .pool (.executed true),
        .loopEnds, .closeAll, .pool (.argFree true), .pool .signal, .pool .destroy] = some s ∧
      s.freed = true ∧ s.touched = false := by
  have h0 : (teardownSystem Bool).ReachIf Harmless (teardownStart Bool) := .init rfl
  have h1 := h0.step (l := TeardownEvent.configure true) trivial rfl
  have h2 := h1.step (l := TeardownEvent.create true) trivial rfl
  have h3 := h2.step (l := TeardownEvent.initializeServer true) trivial rfl
  have h4 := h3.step (l := TeardownEvent.pool (.addTask () true)) trivial rfl
  have h5 := h4.step (l := TeardownEvent.pool (.createTask () true)) trivial rfl
  have h6 := h5.step (l := TeardownEvent.pool (.enqueueTask () true)) trivial rfl
  have h7 := h6.step (l := TeardownEvent.pool (.lock (.submitter ()) [])) trivial rfl
  have h8 := h7.step (l := TeardownEvent.pool (.taskAdded ())) trivial rfl
  have h9 := h8.step (l := TeardownEvent.pool (.loop true)) trivial rfl
  have h10 := h9.step (l := TeardownEvent.pool (.lock (.worker true) [])) trivial rfl
  have h11 := h10.step (l := TeardownEvent.pool (.taskTaken true)) trivial rfl
  have h12 := h11.step (l := TeardownEvent.pool (.execute true)) trivial rfl
  have h13 := h12.step (l := TeardownEvent.lockFds true) trivial rfl
  have h14 := h13.step (l := TeardownEvent.writeFds true true) trivial rfl
  have h15 := h14.step (l := TeardownEvent.pool (.executed true)) trivial rfl
  have h16 := h15.step (l := TeardownEvent.loopEnds) trivial rfl
  have h17 := h16.step (l := TeardownEvent.closeAll) (fun _ => by
    refine ⟨?_, .inl rfl⟩
    intro w
    cases w with
    | false => exact NoRequest.of_worker (o := .loop) rfl rfl
    | true => exact NoRequest.of_worker (o := .ran ⟨0, true⟩) rfl rfl) rfl
  have h18 := h17.step (l := TeardownEvent.pool (.argFree true)) trivial rfl
  have h19 := h18.step (l := TeardownEvent.pool .signal) trivial rfl
  have h20 := h19.step (l := TeardownEvent.pool .destroy) trivial rfl
  exact ⟨_, rfl, rfl, teardownSystem_untouched h20⟩

/-- The loop ends with a request in the hands of a worker, which puts its client back. -/
theorem touched_after_close :
    ¬ ∀ s, (teardownSystem Bool).Reach s → s.touched = false := by
  intro hall
  obtain ⟨s, hrun, htouched⟩ : ∃ s, (teardownSystem Bool).run (teardownStart Bool)
      [.configure true, .create true, .initializeServer true, .pool (.addTask () true),
        .pool (.createTask () true), .pool (.enqueueTask () true),
        .pool (.lock (.submitter ()) []), .pool (.taskAdded ()), .pool (.loop true),
        .pool (.lock (.worker true) []), .pool (.taskTaken true), .pool (.execute true), .loopEnds,
        .closeAll, .lockFds true] = some s ∧ s.touched = true := ⟨_, rfl, rfl⟩
  have hnot := hall s ((System.Reach.init rfl).run hrun)
  rw [htouched] at hnot
  exact absurd hnot (by decide)

end CmakeTemplate
