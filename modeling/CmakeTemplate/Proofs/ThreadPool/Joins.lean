/-
Which threads of a pool are joined, and how often.

Every `thread_pool_shutdown` joins every handle, whatever has become of its thread, and
`thread_pool_destroy` makes one more.  So each thread is joined as often as the pool is shut
down, and a thread that has been joined twice is one that the standard does not define the
second join of.

A pool that could not be made, as one of its threads could not be started, is shut down by
`thread_pool_create` itself, with handles of no thread among its handles.  So every thread is
joined once, and nothing else, exactly when all of them could be started and nobody has shut
the pool down before it is destroyed.  The condition is on the outcomes of `pthread_create`
and on the sequence of calls, among those that the user guide has.
-/
import CmakeTemplate.Lifecycle
import Mathlib.Data.List.Nodup

namespace CmakeTemplate

variable {pool : ThreadPool} {w w' : Workers}

/-! ### Shutting down

A shutdown adds one join for each handle.
-/

theorem joins_eq {shutdown : Bool} {hs : List (Option Nat)}
    (h : hs.foldlM (pthreadJoin shutdown) w = some w') :
    w' = { w with joined := w.joined ++ hs } := by
  induction hs generalizing w with
  | nil =>
      rw [← Option.some.inj h, List.append_nil]
  | cons handle hs ih =>
      obtain ⟨w₁, hjoin, hrest⟩ := Option.bind_eq_some_iff.mp h
      unfold pthreadJoin at hjoin
      split at hjoin
      · simp at hjoin
      · rw [ih hrest, ← Option.some.inj hjoin, List.append_assoc]
        rfl

theorem joins_of_shutdown (hs : List (Option Nat)) (w : Workers) :
    hs.foldlM (pthreadJoin true) w = some { w with joined := w.joined ++ hs } := by
  induction hs generalizing w with
  | nil =>
      rw [List.append_nil]
      rfl
  | cons handle hs ih =>
      have hjoin : pthreadJoin true w handle = some { w with joined := w.joined ++ [handle] } := by
        unfold pthreadJoin
        rw [Bool.not_true, Bool.and_false]
        rfl
      rw [List.foldlM_cons, hjoin]
      show hs.foldlM (pthreadJoin true) { w with joined := w.joined ++ [handle] } = _
      rw [ih, List.append_assoc]
      rfl

/-! ### Making a pool

The handles of the threads that were started come first.
-/

/-- The first `k` handles are those of the first `k` threads. -/
def started (threadCount k : Nat) : ThreadPool :=
  ⟨threadCount, fun idx => if idx < k then some idx else none⟩

theorem started_succ (threadCount k : Nat) :
    ⟨threadCount, Function.update (started threadCount k).workerThreads k (some k)⟩ =
      started threadCount (k + 1) := by
  unfold started
  congr 1
  funext idx
  by_cases hidx : idx = k
  · rw [hidx, Function.update_self, if_pos (Nat.lt_succ_self k)]
  · rw [Function.update_of_ne hidx]
    show (if idx < k then some idx else none) = _
    by_cases hlt : idx < k
    · rw [if_pos hlt, if_pos (Nat.lt_succ_of_lt hlt)]
    · rw [if_neg hlt, if_neg (by omega)]

theorem handles_started (threadCount : Nat) :
    (started threadCount threadCount).handles = (List.range threadCount).map some := by
  apply List.map_congr_left
  intro idx hidx
  exact if_pos (List.mem_range.mp hidx)

theorem createLoop_started {pthreadCreate : Nat → Bool} {threadCount : Nat} (shutdown : Bool)
    (hall : ∀ idx, idx < threadCount → pthreadCreate idx = true) {rest k : Nat}
    (hk : k + rest = threadCount) :
    createLoop pthreadCreate shutdown rest (started threadCount k) ⟨k, []⟩ =
      some (some (started threadCount threadCount), ⟨threadCount, []⟩) := by
  induction rest generalizing k with
  | zero =>
      obtain rfl : k = threadCount := hk
      rfl
  | succ rest ih =>
      have hidx : (started threadCount k).threadCount - (rest + 1) = k := by
        show threadCount - (rest + 1) = k
        omega
      unfold createLoop
      rw [hidx, if_pos (hall k (by omega))]
      show createLoop pthreadCreate shutdown rest
        ⟨threadCount, Function.update (started threadCount k).workerThreads k (some k)⟩ ⟨k + 1, []⟩ = _
      rw [started_succ]
      exact ih (by omega)

/-- A thread that could not be started is joined all the same. -/
theorem createLoop_fails {pthreadCreate : Nat → Bool} {threadCount : Nat} {shutdown : Bool}
    {rest k idx : Nat} (hk : k + rest = threadCount) (hfrom : k ≤ idx) (hidx : idx < threadCount)
    (hfail : pthreadCreate idx = false) {threadPool : Option ThreadPool}
    (h : createLoop pthreadCreate shutdown rest (started threadCount k) ⟨k, []⟩ =
      some (threadPool, w)) : threadPool = none ∧ none ∈ w.joined := by
  induction rest generalizing k with
  | zero => omega
  | succ rest ih =>
      have hat : (started threadCount k).threadCount - (rest + 1) = k := by
        show threadCount - (rest + 1) = k
        omega
      unfold createLoop at h
      rw [hat] at h
      by_cases hc : pthreadCreate k = true
      · rw [if_pos hc] at h
        have hne : k ≠ idx := by
          rintro rfl
          exact absurd (hc.symm.trans hfail) Bool.noConfusion
        apply ih (k := k + 1) (by omega) (by omega)
        rw [← started_succ]
        exact h
      · rw [if_neg hc] at h
        obtain ⟨⟨c₁, w₁⟩, hdown, hrest⟩ := Option.bind_eq_some_iff.mp h
        obtain ⟨⟨c₂, p₂, w₂⟩, hdestroy, hret⟩ := Option.bind_eq_some_iff.mp hrest
        obtain ⟨⟨c₃, w₃⟩, hdown', hret'⟩ := Option.bind_eq_some_iff.mp hdestroy
        obtain ⟨w₄, hjoins, hw₁⟩ := Option.bind_eq_some_iff.mp hdown
        obtain ⟨w₅, hjoins', hw₃⟩ := Option.bind_eq_some_iff.mp hdown'
        cases hw₁
        cases hw₃
        cases hret'
        cases hret
        refine ⟨rfl, ?_⟩
        rw [joins_eq hjoins', joins_eq hjoins]
        apply List.mem_append_left
        apply List.mem_append_right
        apply List.mem_map.mpr
        exact ⟨k, List.mem_range.mpr (show k < threadCount by omega), if_neg (Nat.lt_irrefl k)⟩

/-! ### Calls on a pool

By induction on the calls up to the destruction.
-/

/-- Without a pool no thread is joined. -/
theorem calls_on_none (w : Workers) (shutdown : Bool) (calls : List PoolCall) :
    ∃ down, calls.foldlM poolCall ⟨none, w, shutdown⟩ = some ⟨none, w, down⟩ := by
  induction calls generalizing shutdown with
  | nil => exact ⟨shutdown, rfl⟩
  | cons call calls ih =>
      cases call with
      | addTask => exact ih shutdown
      | signal => exact ih true
      | shutdown => exact ih shutdown
      | destroy => exact ih shutdown

theorem calls_addTask {calls : List PoolCall} (hadd : ∀ call ∈ calls, call = .addTask)
    (s : PoolLife) : calls.foldlM poolCall s = some s := by
  induction calls with
  | nil => rfl
  | cons call calls ih =>
      obtain ⟨hcall, hcalls⟩ := List.forall_mem_cons.mp hadd
      rw [hcall]
      exact ih hcalls

theorem threadPoolShutdown_eq (pool : ThreadPool) (w : Workers) :
    threadPoolShutdown true (some pool) w =
      some (.success, { w with joined := w.joined ++ pool.handles }) := by
  unfold threadPoolShutdown
  simp only [joins_of_shutdown, Option.bind_eq_bind, Option.bind_some]

/-- With the flag set, each shutdown joins all the threads once more. -/
theorem calls_shutdown {calls : List PoolCall}
    (hcalls : ∀ call ∈ calls, call = .addTask ∨ call = .shutdown) (pool : ThreadPool)
    (w : Workers) :
    calls.foldlM poolCall ⟨some pool, w, true⟩ =
      some ⟨some pool, { w with
        joined := w.joined ++ (List.replicate (calls.count .shutdown) pool.handles).flatten }, true⟩ := by
  induction calls generalizing w with
  | nil =>
      show some _ = some _
      rw [List.count_nil, List.replicate_zero, List.flatten_nil, List.append_nil]
  | cons call calls ih =>
      obtain ⟨hcall, hrest⟩ := List.forall_mem_cons.mp hcalls
      rcases hcall with rfl | rfl
      · rw [List.count_cons_of_ne (by decide)]
        exact ih hrest w
      · have hdown : poolCall ⟨some pool, w, true⟩ .shutdown =
            some ⟨some pool, { w with joined := w.joined ++ pool.handles }, true⟩ := by
          simp only [poolCall, threadPoolShutdown_eq, Option.bind_eq_bind, Option.bind_some]
        rw [List.foldlM_cons, hdown]
        show calls.foldlM poolCall _ = _
        rw [ih hrest, List.count_cons_self, List.replicate_succ, List.flatten_cons,
          List.append_assoc]

/-- A pool that was made: its threads are joined once for each shutdown, and once more. -/
theorem poolLife_started {threadCount : Nat} (h : minThreads ≤ threadCount)
    {pthreadCreate : Nat → Bool} (hall : ∀ idx, idx < threadCount → pthreadCreate idx = true)
    (shutdown : Bool) {calls : List PoolCall} (hdoc : Documented calls) :
    poolLife threadCount pthreadCreate shutdown calls =
      some ⟨none, ⟨threadCount, (List.replicate (calls.count .shutdown + 1)
        ((List.range threadCount).map some)).flatten⟩, true⟩ := by
  obtain ⟨before, after, rfl, hbefore, hafter⟩ := hdoc
  have hnone : started threadCount 0 = ⟨threadCount, fun _ => none⟩ := rfl
  have hcreate : threadPoolCreate threadCount pthreadCreate shutdown =
      some (some (started threadCount threadCount), ⟨threadCount, []⟩) := by
    unfold threadPoolCreate
    rw [if_neg (Nat.not_lt.mpr h), ← hnone]
    exact createLoop_started shutdown hall (Nat.zero_add threadCount)
  have hcount : (before ++ PoolCall.signal :: (after ++ [.destroy])).count .shutdown =
      after.count .shutdown := by
    have hzero : before.count .shutdown = 0 := by
      apply List.count_eq_zero.mpr
      intro hmem
      exact absurd (hbefore _ hmem) (by decide)
    rw [List.count_append, hzero, Nat.zero_add, List.count_cons_of_ne (by decide),
      List.count_append]
    rfl
  unfold poolLife
  rw [hcreate, hcount]
  show (before ++ PoolCall.signal :: (after ++ [.destroy])).foldlM poolCall _ = _
  rw [List.foldlM_append, calls_addTask hbefore]
  show (after ++ [PoolCall.destroy]).foldlM poolCall ⟨_, _, true⟩ = _
  rw [List.foldlM_append, calls_shutdown hafter]
  show [PoolCall.destroy].foldlM poolCall ⟨_, _, true⟩ = _
  simp only [List.foldlM_cons, List.foldlM_nil, poolCall, threadPoolDestroy, threadPoolShutdown_eq,
    Option.bind_eq_bind, Option.bind_some, Option.pure_def, handles_started, List.nil_append,
    List.replicate_succ', List.flatten_append, List.flatten_cons, List.flatten_nil, List.append_nil]

theorem count_joined (threadCount k : Nat) {i : Nat} (hi : i < threadCount) :
    (List.replicate k ((List.range threadCount).map some)).flatten.count (some i) = k := by
  have hone : ((List.range threadCount).map some).count (some i) = 1 := by
    apply List.count_eq_one_of_mem
    · exact List.nodup_range.map fun _ _ hsame => Option.some.inj hsame
    · exact List.mem_map_of_mem (List.mem_range.mpr hi)
  rw [List.count_flatten, List.map_replicate, List.sum_replicate_nat, hone]
  exact Nat.mul_one k

/-- The pool is gone behind the calls with each of its threads joined once, exactly when all of
them could be started and nobody has shut the pool down before it is destroyed. -/
theorem poolLife_joinedOnce_iff {threadCount : Nat} (h : minThreads ≤ threadCount)
    (pthreadCreate : Nat → Bool) (shutdown : Bool) {calls : List PoolCall}
    (hdoc : Documented calls) :
    (∃ s, poolLife threadCount pthreadCreate shutdown calls = some s ∧ JoinedOnce s.workers) ↔
      (∀ idx, idx < threadCount → pthreadCreate idx = true) ∧ .shutdown ∉ calls := by
  by_cases hall : ∀ idx, idx < threadCount → pthreadCreate idx = true
  · rw [poolLife_started h hall shutdown hdoc]
    constructor
    · rintro ⟨s, hs, hjoined⟩
      refine ⟨hall, ?_⟩
      rw [← Option.some.inj hs] at hjoined
      have hone := hjoined.once 0 (Nat.lt_of_lt_of_le Nat.zero_lt_two h)
      rw [count_joined _ _ (Nat.lt_of_lt_of_le Nat.zero_lt_two h)] at hone
      apply List.count_eq_zero.mp
      exact Nat.succ.inj hone
    · rintro ⟨-, hnot⟩
      refine ⟨_, rfl, ?_, ?_⟩
      · intro i hi
        rw [count_joined _ _ hi, List.count_eq_zero.mpr hnot]
      · intro handle hmem
        obtain ⟨l, hl, hhandle⟩ := List.mem_flatten.mp hmem
        rw [List.eq_of_mem_replicate hl] at hhandle
        obtain ⟨i, hi, rfl⟩ := List.mem_map.mp hhandle
        exact ⟨i, List.mem_range.mp hi, rfl⟩
  · apply iff_of_false
    · rintro ⟨s, hs, hjoined⟩
      obtain ⟨idx, hfail⟩ := not_forall.mp hall
      obtain ⟨hidx, hfail⟩ := Classical.not_imp.mp hfail
      obtain ⟨⟨threadPool, w⟩, hcreate, hcalls⟩ := Option.bind_eq_some_iff.mp hs
      unfold threadPoolCreate at hcreate
      rw [if_neg (Nat.not_lt.mpr h)] at hcreate
      obtain ⟨rfl, hmem⟩ := createLoop_fails (k := 0) (Nat.zero_add threadCount) (Nat.zero_le idx)
        hidx (Bool.not_eq_true _ ▸ hfail) hcreate
      obtain ⟨down, hdown⟩ := calls_on_none w shutdown calls
      rw [← Option.some.inj (hdown.symm.trans hcalls)] at hjoined
      obtain ⟨i, -, hi⟩ := hjoined.created none hmem
      exact Option.some_ne_none i hi.symm
    · intro hc
      exact hall hc.1

/-- Three threads, a task, and no shutdown but that of `thread_pool_destroy`. -/
theorem poolLife_joinedOnce_run :
    (∃ s, poolLife 3 (fun _ => true) false [.addTask, .signal, .destroy] = some s ∧
      JoinedOnce s.workers) ↔
      (∀ idx, idx < 3 → true = true) ∧ PoolCall.shutdown ∉ [PoolCall.addTask, .signal, .destroy] :=
  poolLife_joinedOnce_iff (by decide) (fun _ => true) false
    ⟨[.addTask], [], rfl, by decide, by decide⟩

/-- The sequence of the user guide: shut down, then destroyed. -/
theorem joined_twice :
    ¬ ∀ (threadCount : Nat) (pthreadCreate : Nat → Bool) (shutdown : Bool) (calls : List PoolCall),
      minThreads ≤ threadCount → Documented calls →
        ∃ s, poolLife threadCount pthreadCreate shutdown calls = some s ∧ JoinedOnce s.workers := by
  intro hall
  obtain ⟨s, hs, hjoined⟩ := hall 2 (fun _ => true) false [.signal, .shutdown, .destroy]
    (by decide) ⟨[], [.shutdown], rfl, by decide, by decide⟩
  have hlog : poolLife 2 (fun _ => true) false [.signal, .shutdown, .destroy] =
      some ⟨none, ⟨2, [some 0, some 1, some 0, some 1]⟩, true⟩ := rfl
  rw [← Option.some.inj (hlog.symm.trans hs)] at hjoined
  exact absurd (hjoined.once 0 (by decide)) (by decide)

end CmakeTemplate
