/-
Where a pool's thread is, and where it is in the queue.

The pool runs the threads of the queue, so each of its threads has two places: one in the
functions of the pool, and one in the call on the queue that it is in.  `Agrees` says how they
fit together.  A thread that is not in a call on the queue is idle there; a worker in
`queue_dequeue`, and the destroyer in `queue_clear`, are somewhere in a dequeue; a submitter
in `queue_enqueue` is about to link in its own task, has failed, or has its task in the queue.

A step concerns one thread, and does no more to the others than wake them (`SameBut`).  So it
is enough to look at the thread that moves, and at one that is woken in the call it is in.
-/
import CmakeTemplate.Proofs.ThreadPool.Step

namespace CmakeTemplate

open Lib

/-- Somewhere in `queue_dequeue`. -/
def QPc.inDequeue {α : Type} (p : QPc α) : Prop :=
  p.dequeues ∨ p = .dequeueWait ∨ ∃ d, p = .returned (.data d)

theorem QPc.inDequeue.wake {α : Type} {p : QPc α} (h : p.inDequeue) : p.wake.inDequeue := by
  rcases h with (rfl | rfl) | rfl | ⟨d, rfl⟩
  · exact .inl (.inl rfl)
  · exact .inl (.inr rfl)
  · exact .inl (.inr rfl)
  · exact .inr (.inr ⟨d, rfl⟩)

/-- A submitter's place fits its place in the queue. -/
def SubmitterPc.Agrees (inserted : List TaskT) (p : QPc TaskT) : SubmitterPc → Prop
  | enqueueing task =>
    (∃ n, p.pending = some (n, task)) ∨ p = .returned (.code .failure) ∨
      p = .returned (.code .success) ∧ task ∈ inserted
  | _ => p = .idle

def WorkerPc.Agrees (p : QPc TaskT) : WorkerPc → Prop
  | dequeueing => p.inDequeue
  | _ => p = .idle

def MainPc.Agrees (p : QPc TaskT) : MainPc → Prop
  | clearing => p.inDequeue
  | _ => p = .idle

variable {S W : Type}

def Agrees (s : PoolState S W) : PThread S W → Prop
  | .submitter i => (s.submitter i).Agrees s.q.inserted (s.q.pc (.submitter i))
  | .worker w => (s.worker w).Agrees (s.q.pc (.worker w))
  | .main => s.main.Agrees (s.q.pc .main)

/-- A step that concerns the thread `t` and at most wakes the others. -/
structure SameBut (s s' : PoolState S W) (t : PThread S W) : Prop where
  /-- No other submitter moves. -/
  submitter : ∀ i, .submitter i ≠ t → s'.submitter i = s.submitter i
  /-- No other worker does. -/
  worker : ∀ w, .worker w ≠ t → s'.worker w = s.worker w
  /-- Nor does the main thread. -/
  main : .main ≠ t → s'.main = s.main
  /-- In the queue the others are woken at most. -/
  pc : Others s.q.pc s'.q.pc t
  /-- What was put in the queue was put in it. -/
  inserted : s.q.inserted ⊆ s'.q.inserted

section Others

variable {s s' : PoolState S W} {t u : PThread S W}

theorem SubmitterPc.Agrees.wake {inserted : List TaskT} {p : QPc TaskT} {o : SubmitterPc}
    (h : o.Agrees inserted p) : o.Agrees inserted p.wake := by
  cases o with
  | enqueueing task =>
      rcases h with ⟨n, hn⟩ | rfl | ⟨rfl, hmem⟩
      · exact .inl ⟨n, by rwa [QPc.pending_wake]⟩
      · exact .inr (.inl rfl)
      · exact .inr (.inr ⟨rfl, hmem⟩)
  | _ => exact congrArg QPc.wake h

theorem SubmitterPc.Agrees.mono {inserted inserted' : List TaskT} {p : QPc TaskT}
    {o : SubmitterPc} (h : o.Agrees inserted p) (hsub : inserted ⊆ inserted') :
    o.Agrees inserted' p := by
  cases o with
  | enqueueing task => exact h.imp id (Or.imp id fun hp => ⟨hp.1, hsub hp.2⟩)
  | _ => exact h

theorem WorkerPc.Agrees.wake {p : QPc TaskT} {o : WorkerPc} (h : o.Agrees p) :
    o.Agrees p.wake := by
  cases o with
  | dequeueing => exact QPc.inDequeue.wake h
  | _ => exact congrArg QPc.wake h

theorem MainPc.Agrees.wake {p : QPc TaskT} {o : MainPc} (h : o.Agrees p) : o.Agrees p.wake := by
  cases o with
  | clearing => exact QPc.inDequeue.wake h
  | _ => exact congrArg QPc.wake h

theorem Agrees.other (ha : Agrees s u) (h : SameBut s s' t) (hu : u ≠ t) : Agrees s' u := by
  cases u with
  | submitter i =>
      have hmono := SubmitterPc.Agrees.mono ha h.inserted
      show (s'.submitter i).Agrees s'.q.inserted (s'.q.pc (.submitter i))
      rw [h.submitter i hu]
      rcases h.pc _ hu with he | he <;> rw [he]
      · exact hmono
      · exact hmono.wake
  | worker w =>
      show (s'.worker w).Agrees (s'.q.pc (.worker w))
      rw [h.worker w hu]
      rcases h.pc _ hu with he | he <;> rw [he]
      · exact ha
      · exact WorkerPc.Agrees.wake ha
  | main =>
      show s'.main.Agrees (s'.q.pc .main)
      rw [h.main hu]
      rcases h.pc _ hu with he | he <;> rw [he]
      · exact ha
      · exact MainPc.Agrees.wake ha

end Others

/-! ### The thread that moves

Which thread a move concerns, and what it leaves of the others.
-/

section Moves

variable {s : PoolState S W}

theorem SameBut.main_moves (o : MainPc) (q : QState (PThread S W) TaskT)
    (hq : Others s.q.pc q.pc .main) (hins : s.q.inserted ⊆ q.inserted) (d : List TaskT) :
    SameBut s { s with q, main := o, discarded := d } .main where
  submitter _ _ := rfl
  worker _ _ := rfl
  main h := absurd rfl h
  pc := hq
  inserted := hins

theorem SameBut.queue_moves {t : PThread S W} (q : QState (PThread S W) TaskT)
    (hq : Others s.q.pc q.pc t) (hins : s.q.inserted ⊆ q.inserted) :
    SameBut s { s with q } t where
  submitter _ _ := rfl
  worker _ _ := rfl
  main _ := rfl
  pc := hq
  inserted := hins

variable [DecidableEq S] [DecidableEq W]

omit [DecidableEq W] in
/-- A submitter that moves, in the queue or not. -/
theorem SameBut.submitter_moves (i : S) (o : SubmitterPc) (q : QState (PThread S W) TaskT)
    (hq : Others s.q.pc q.pc (.submitter i)) (hins : s.q.inserted ⊆ q.inserted) (n : Nat)
    (r : List TaskT) :
    SameBut s { s with q, submitter := Function.update s.submitter i o, nextTask := n, returned := r }
      (.submitter i) where
  submitter j hj := Function.update_of_ne (fun hc : j = i => hj (by rw [hc])) _ _
  worker _ _ := rfl
  main _ := rfl
  pc := hq
  inserted := hins

omit [DecidableEq S] in
theorem SameBut.worker_moves (w : W) (o : WorkerPc) (q : QState (PThread S W) TaskT)
    (hq : Others s.q.pc q.pc (.worker w)) (hins : s.q.inserted ⊆ q.inserted)
    (a b c : List TaskT) :
    SameBut s { s with
      q, worker := Function.update s.worker w o, started := a, executed := b, argFreed := c }
      (.worker w) where
  submitter _ _ := rfl
  worker v hv := Function.update_of_ne (fun hc : v = w => hv (by rw [hc])) _ _
  main _ := rfl
  pc := hq
  inserted := hins

end Moves

/-! ### Every step

What is to be shown of the thread that takes a step.
-/

section Steps

variable [DecidableEq S] [DecidableEq W] {s s' : PoolState S W} {t : PThread S W}

theorem agrees_all (h : ∀ u, Agrees s u) (hb : SameBut s s' t) (ht : Agrees s' t) :
    ∀ u, Agrees s' u := by
  intro u
  by_cases hu : u = t
  · exact hu ▸ ht
  · exact (h u).other hb hu

theorem QState.place_self {T α : Type} [DecidableEq T] (q : QState T α) (t : T) (p : QPc α) :
    (q.place t p).pc t = p := Function.update_self ..

theorem agrees_worker_place (h : ∀ u, Agrees s u) (w : W) (o : WorkerPc) (p : QPc TaskT)
    (ho : o.Agrees p) (a b c : List TaskT) :
    ∀ u, Agrees { s with
      q := s.q.place (.worker w) p
      worker := Function.update s.worker w o, started := a, executed := b, argFreed := c } u := by
  refine agrees_all h (.worker_moves w o (s.q.place (.worker w) p) (.update _ _ _)
    (List.Subset.refl _) a b c) ?_
  show (Function.update s.worker w o w).Agrees ((s.q.place (.worker w) p).pc (.worker w))
  rw [Function.update_self, QState.place_self]
  exact ho

/-- A worker that moves outside the queue. -/
theorem agrees_worker_moves (h : ∀ u, Agrees s u) (w : W) {o : WorkerPc}
    (hidle : s.q.pc (.worker w) = .idle) (ho : o.Agrees .idle) (a b c : List TaskT) :
    ∀ u, Agrees { s with
      worker := Function.update s.worker w o, started := a, executed := b, argFreed := c } u := by
  refine agrees_all h (.worker_moves w o s.q (fun _ _ => .inl rfl) (List.Subset.refl _) a b c) ?_
  show (Function.update s.worker w o w).Agrees (s.q.pc (.worker w))
  rw [Function.update_self, hidle]
  exact ho

theorem agrees_main_place (h : ∀ u, Agrees s u) (o : MainPc) (p : QPc TaskT) (ho : o.Agrees p)
    (d : List TaskT) :
    ∀ u, Agrees { s with q := s.q.place .main p, main := o, discarded := d } u := by
  refine agrees_all h (.main_moves o (s.q.place .main p) (.update _ _ _)
    (List.Subset.refl _) d) ?_
  show o.Agrees ((s.q.place .main p).pc .main)
  rw [QState.place_self]
  exact ho

theorem agrees_main_moves (h : ∀ u, Agrees s u) {o : MainPc} (hidle : s.q.pc .main = .idle)
    (ho : o.Agrees .idle) : ∀ u, Agrees { s with main := o } u := by
  refine agrees_all h (.main_moves o s.q (fun _ _ => .inl rfl) (List.Subset.refl _) s.discarded) ?_
  show o.Agrees (s.q.pc .main)
  rw [hidle]
  exact ho

/-- A submitter that moves to a place outside the queue. -/
theorem agrees_submitter_place (h : ∀ u, Agrees s u) (i : S) (o : SubmitterPc)
    (q : QState (PThread S W) TaskT) (hq : Others s.q.pc q.pc (.submitter i))
    (hins : q.inserted = s.q.inserted) (ho : o.Agrees s.q.inserted (q.pc (.submitter i))) (n : Nat)
    (r : List TaskT) :
    ∀ u, Agrees { s with
      q, submitter := Function.update s.submitter i o, nextTask := n, returned := r } u := by
  refine agrees_all h (.submitter_moves i o q hq (hins ▸ List.Subset.refl _) n r) ?_
  show (Function.update s.submitter i o i).Agrees q.inserted (q.pc (.submitter i))
  rw [Function.update_self, hins]
  exact ho

/-! ### A thread with the mutex

It stays in the call it is in, so that its place outside the queue still fits.
-/

theorem LockMove.not_inDequeue {T α : Type} {q : QState T α} {t : T} {n : Nat} {d : α}
    (h : (q.pc t).enqueues n d) : ¬ (q.pc t).inDequeue := by
  rintro ((hc | hc) | hc | ⟨_, hc⟩)
  all_goals rcases h with hp | hp <;> rw [hp] at hc <;> simp at hc

/-- Only a thread in a call takes the mutex. -/
theorem LockMove.busy {woken : List (PThread S W)} {q : QState (PThread S W) TaskT}
    (hl : LockMove s.q t woken q) : s.q.pc t ≠ .idle := by
  rcases hl.from_cases with ⟨n, d, hp | hp⟩ | hp | hp <;> rw [hp] <;> simp

theorem LockMove.inDequeue {woken : List (PThread S W)} {q : QState (PThread S W) TaskT}
    (hl : LockMove s.q t woken q) (h : (s.q.pc t).inDequeue) : (q.pc t).inDequeue := by
  rcases hl.from_cases with ⟨n, d, hf⟩ | hf
  · exact absurd h (LockMove.not_inDequeue hf)
  · obtain ⟨-, ⟨hp, -⟩ | ⟨hp, -⟩ | ⟨d, hp, -⟩⟩ := hl.of_dequeues hf <;> rw [hp]
    · exact .inr (.inl rfl)
    · exact .inr (.inr ⟨_, rfl⟩)
    · exact .inr (.inr ⟨_, rfl⟩)

/-- The task being linked in is the submitter's own. -/
theorem LockMove.submitter {woken : List (PThread S W)} {q : QState (PThread S W) TaskT}
    (hl : LockMove s.q t woken q) {task : TaskT}
    (h : (SubmitterPc.enqueueing task).Agrees s.q.inserted (s.q.pc t)) :
    (SubmitterPc.enqueueing task).Agrees q.inserted (q.pc t) := by
  rcases hl.from_cases with ⟨n, d, hf⟩ | hf
  · have hd : d = task := by
      rcases h with ⟨m, hm⟩ | hp | ⟨hp, -⟩
      · rw [hf.pending] at hm
        exact (Prod.mk.inj (Option.some.inj hm)).2
      · rcases hf with hf | hf <;> rw [hp] at hf <;> simp at hf
      · rcases hf with hf | hf <;> rw [hp] at hf <;> simp at hf
    subst hd
    obtain ⟨-, ⟨hp, -⟩ | ⟨hp, hins⟩⟩ := hl.of_enqueues hf <;> rw [hp]
    · exact .inl ⟨n, rfl⟩
    · exact .inr (.inr ⟨rfl, by rw [hins]; simp⟩)
  · rcases h with ⟨m, hm⟩ | hp | ⟨hp, -⟩
    · rcases hf with hf | hf <;> rw [hf] at hm <;> simp [QPc.pending] at hm
    · rcases hf with hf | hf <;> rw [hp] at hf <;> simp at hf
    · rcases hf with hf | hf <;> rw [hp] at hf <;> simp at hf

theorem agrees_locks (h : ∀ u, Agrees s u) {woken : List (PThread S W)}
    {q : QState (PThread S W) TaskT} (hl : LockMove s.q t woken q) :
    ∀ u, Agrees { s with q } u := by
  refine agrees_all h (.queue_moves q hl.others hl.inserted_subset) ?_
  have hbusy := hl.busy
  have ht := h t
  cases t with
  | submitter i =>
      show (s.submitter i).Agrees q.inserted (q.pc (.submitter i))
      change (s.submitter i).Agrees s.q.inserted (s.q.pc (.submitter i)) at ht
      cases ho : s.submitter i with
      | enqueueing task => exact hl.submitter (ho ▸ ht)
      | _ => rw [ho] at ht; exact absurd ht hbusy
  | worker w =>
      show (s.worker w).Agrees (q.pc (.worker w))
      change (s.worker w).Agrees (s.q.pc (.worker w)) at ht
      cases ho : s.worker w with
      | dequeueing => rw [ho] at ht; exact hl.inDequeue ht
      | _ => rw [ho] at ht; exact absurd ht hbusy
  | main =>
      show s.main.Agrees (q.pc .main)
      change s.main.Agrees (s.q.pc .main) at ht
      cases ho : s.main with
      | clearing => rw [ho] at ht; exact hl.inDequeue ht
      | _ => rw [ho] at ht; exact absurd ht hbusy

/-! ### Each move

A case for each move of the pool.
-/

omit [DecidableEq S] [DecidableEq W] in
theorem Agrees.outside_idle (h : ∀ u, Agrees s u) {i : S} (hi : (s.submitter i).outside) :
    s.q.pc (.submitter i) = .idle := by
  have hagrees : (s.submitter i).Agrees s.q.inserted (s.q.pc (.submitter i)) := h (.submitter i)
  cases ho : s.submitter i <;> rw [ho] at hagrees hi
  · exact hagrees
  · exact hagrees
  · exact hagrees
  · exact hi.elim

/-- A submitter that goes on outside the queue, with a task of its own or without. -/
theorem agrees_submitter_moves (h : ∀ u, Agrees s u) {i : S} (hi : (s.submitter i).outside)
    {o : SubmitterPc} (ho : o.Agrees s.q.inserted .idle) (n : Nat) :
    ∀ u, Agrees { s with submitter := Function.update s.submitter i o, nextTask := n } u := by
  refine agrees_submitter_place h i o s.q (fun _ _ => .inl rfl) rfl ?_ n s.returned
  rw [Agrees.outside_idle h hi]
  exact ho

omit [DecidableEq S] [DecidableEq W] in
/-- A worker that is not in a call on the queue. -/
theorem Agrees.worker_idle (h : ∀ u, Agrees s u) {w : W} {o : WorkerPc} (hfrom : s.worker w = o)
    (ho : o ≠ .dequeueing) : s.q.pc (.worker w) = .idle := by
  have hagrees : (s.worker w).Agrees (s.q.pc (.worker w)) := h (.worker w)
  rw [hfrom] at hagrees
  cases o with
  | dequeueing => exact absurd rfl ho
  | _ => exact hagrees

/-- Waking a thread for no reason. -/
theorem agrees_wakes (h : ∀ u, Agrees s u) (t : PThread S W) :
    ∀ u, Agrees { s with q := s.q.place t (s.q.pc t).wake } u := by
  have hb : SameBut s { s with q := s.q.place t (s.q.pc t).wake } t :=
    .queue_moves (s.q.place t (s.q.pc t).wake) (.update _ _ _) (List.Subset.refl _)
  refine agrees_all h hb ?_
  have ht := h t
  have hplace := QState.place_self s.q t (s.q.pc t).wake
  cases t with
  | submitter i =>
      change (s.submitter i).Agrees s.q.inserted (s.q.pc (.submitter i)) at ht
      have hwake := ht.wake
      rwa [← hplace] at hwake
  | worker w =>
      change (s.worker w).Agrees (s.q.pc (.worker w)) at ht
      have hwake := ht.wake
      rwa [← hplace] at hwake
  | main =>
      change s.main.Agrees (s.q.pc .main) at ht
      have hwake := ht.wake
      rwa [← hplace] at hwake

/-- The broadcast may wake every thread, and the main thread moves. -/
theorem agrees_broadcasts (h : ∀ u, Agrees s u) {destroying : Bool}
    (hfrom : s.main = .broadcast destroying) :
    ∀ u, Agrees { s with
      q := { s.q with
        pc := fun u => if (s.q.pc u).waits .notEmpty then (s.q.pc u).wake else s.q.pc u }
      main := .join destroying } u := by
  have hidle : s.main.Agrees (s.q.pc .main) := h .main
  rw [hfrom] at hidle
  have hb : SameBut s { s with
      q := { s.q with
        pc := fun u => if (s.q.pc u).waits .notEmpty then (s.q.pc u).wake else s.q.pc u }
      main := .join destroying } .main :=
    .main_moves _ { s.q with
        pc := fun u => if (s.q.pc u).waits .notEmpty then (s.q.pc u).wake else s.q.pc u }
      (.broadcast _ _) (List.Subset.refl _) _
  refine agrees_all h hb ?_
  show (if (s.q.pc .main).waits .notEmpty then (s.q.pc .main).wake else s.q.pc .main) = .idle
  have hpc : s.q.pc .main = .idle := hidle
  rw [hpc]
  rfl

theorem PoolMove.agrees {ev : PoolEvent S W} (hm : PoolMove s ev s') (h : ∀ u, Agrees s u) :
    ∀ u, Agrees s' u := by
  have hmain : s.main.Agrees (s.q.pc .main) := h .main
  cases hm with
  | stays => exact h
  | submits i p hfrom hp =>
      refine agrees_submitter_moves h hfrom ?_ s.nextTask
      cases p with
      | idle => rfl
      | checked a => rfl
      | _ => exact hp.elim
  | creates i argFree hfrom =>
      exact agrees_submitter_moves h hfrom (o := .created ⟨s.nextTask, argFree⟩) rfl _
  | enqueues i task hfrom hidle =>
      refine agrees_submitter_place h i (.enqueueing task) { s.q with
          queue := (queueNodeNew s.q.queue task).1
          pc := Function.update s.q.pc (.submitter i)
            (.enqueueLock (queueNodeNew s.q.queue task).2 task) }
        (.update _ _ _) rfl (.inl ⟨(queueNodeNew s.q.queue task).2, ?_⟩) _ _
      simp [QPc.pending]
  | fails i task hfrom hidle =>
      refine agrees_submitter_place h i (.enqueueing task)
        (s.q.place (.submitter i) (.returned (.code .failure))) (.update _ _ _) rfl
        (.inr (.inl ?_)) _ _
      exact QState.place_self _ _ _
  | adds i task hfrom hret =>
      refine agrees_submitter_place h i .idle (s.q.place (.submitter i) .idle) (.update _ _ _) rfl
        ?_ _ _
      exact QState.place_self _ _ _
  | refuses i task c hfrom hret hc =>
      refine agrees_submitter_place h i .idle (s.q.place (.submitter i) .idle) (.update _ _ _) rfl
        ?_ _ _
      exact QState.place_self _ _ _
  | locks t woken q hl => exact agrees_locks h hl
  | wakes t => exact agrees_wakes h t
  | signals =>
      intro u
      cases u with
      | submitter i => exact h (.submitter i)
      | worker w => exact h (.worker w)
      | main => exact hmain
  | exits w hfrom hdown =>
      have hidle := Agrees.worker_idle h hfrom (by simp)
      exact agrees_worker_moves h w (o := .exited) hidle rfl _ _ _
  | dequeues w hfrom hidle =>
      exact agrees_worker_place h w .dequeueing .dequeueLock (.inl (.inl rfl)) _ _ _
  | gets w task hfrom hret => exact agrees_worker_place h w (.got task) .idle rfl _ _ _
  | misses w hfrom hret => exact agrees_worker_place h w .loop .idle rfl _ _ _
  | executes w task hfrom =>
      have hidle := Agrees.worker_idle h hfrom (by simp)
      exact agrees_worker_moves h w (o := .running task) hidle rfl _ _ _
  | executed w task hfrom =>
      have hidle := Agrees.worker_idle h hfrom (by simp)
      exact agrees_worker_moves h w (o := .ran task) hidle rfl _ _ _
  | frees w task hfrom =>
      have hidle := Agrees.worker_idle h hfrom (by simp)
      exact agrees_worker_moves h w (o := .processed task) hidle rfl _ _ _
  | returns w task hfrom =>
      have hidle := Agrees.worker_idle h hfrom (by simp)
      exact agrees_worker_moves h w (o := .loop) hidle rfl _ _ _
  | calls destroying hfrom =>
      refine agrees_main_moves h (o := .broadcast destroying) ?_ rfl
      rwa [hfrom] at hmain
  | broadcasts destroying hfrom => exact agrees_broadcasts h hfrom
  | joins destroying hfrom hall =>
      refine agrees_main_moves h (by rwa [hfrom] at hmain) ?_
      cases destroying <;> rfl
  | clears hfrom hsize hidle => exact agrees_main_place h .clearing .dequeueLock (.inl (.inl rfl)) _
  | discards task hfrom hret => exact agrees_main_place h .clear .idle rfl _
  | skips hfrom hret => exact agrees_main_place h .clear .idle rfl _
  | destroys hfrom hsize =>
      refine agrees_main_moves h (o := .destroyed) ?_ rfl
      rwa [hfrom] at hmain

end Steps

end CmakeTemplate
