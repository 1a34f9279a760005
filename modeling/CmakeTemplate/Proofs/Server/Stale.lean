/-
The pointers of the main loop, and the array they point into.

Only `sock_fd_add` makes a new array.  The main loop calls it too, but holds no pointer then
that it uses again; a worker calls it whenever it likes.  So a pointer is current as long as
no worker makes a larger array before its last use.

The main loop takes its pointers under the mutex and uses them without it, over and over: for
the copy that `poll` is given, for each entry of a pass, and in `handle_client_event`.  Each
step of it keeps the pointers current, whatever it is.  For a step of a worker the condition
is exact: the main loop has no pointer to use, or the array stays.  Behind a step that breaks
it the next access has no result.
-/
import CmakeTemplate.Generations

namespace CmakeTemplate

open Lib

variable {s s' next : ArrState}

theorem access_eq (h : access s next = some s') : s.held = s.generation ∧ s' = next := by
  unfold access at h
  split at h
  · rename_i hheld
    exact ⟨hheld, (Option.some.inj h).symm⟩
  · simp at h

theorem addFd_eq {fd : Int} {realloc : Option (Nat → PollFd)} {c : ExitCode}
    (h : addFd s fd realloc = some (c, s')) :
    s'.main = s.main ∧ s'.held = s.held ∧
      s'.generation = s.generation + (grows s.mgr realloc).toNat := by
  obtain ⟨⟨c₁, mgr⟩, -, hret⟩ := Option.bind_eq_some_iff.mp h
  cases hret
  exact ⟨rfl, rfl, rfl⟩

/-- Where the main loop has no pointer to use, none is stale. -/
theorem current_of_main {main : ArrPc} (hmain : s.main = main) (h : main.holds = false) :
    Current s := by
  intro hholds
  rw [hmain, h] at hholds
  exact absurd hholds Bool.false_ne_true

/-! ### The main loop

A step takes a new pointer, uses the one it has, or does neither.
-/

theorem goStep_current (hs : goStep s = some s') : Current s' := by
  have haccess : ∀ {next : ArrState}, access s next = some s' → next.held = s.held →
      next.generation = s.generation → Current s' := by
    intro next ha hheld hgen _
    obtain ⟨hcur, rfl⟩ := access_eq ha
    rw [hheld, hgen]
    exact hcur
  unfold goStep at hs
  split at hs
  · split at hs
    · simp at hs
    · cases hs
      exact fun _ => rfl
  · exact haccess hs rfl rfl
  · split at hs
    · simp at hs
    · cases hs
      exact current_of_main rfl rfl
  · split at hs
    · split at hs
      · simp at hs
      · cases hs
        exact fun _ => rfl
    · split at hs
      · cases hs
        exact current_of_main rfl rfl
      · cases hs
        exact current_of_main rfl rfl
  · exact haccess hs rfl rfl
  · exact haccess hs rfl rfl
  · exact haccess hs rfl rfl
  · exact haccess hs rfl rfl
  · exact haccess hs rfl rfl
  · cases hs
    exact fun _ => rfl
  · exact haccess hs rfl rfl
  · obtain ⟨⟨c, mgr⟩, -, hret⟩ := Option.bind_eq_some_iff.mp hs
    cases hret
    exact current_of_main rfl rfl
  · simp at hs

theorem pollReturns_current {result : PollResult}
    (hs : arrStep s (.pollReturns result) = some s') : Current s' := by
  simp only [arrStep] at hs
  split at hs
  · cases result with
    | ready revents =>
        obtain ⟨-, rfl⟩ := access_eq hs
        exact current_of_main rfl rfl
    | timeout =>
        obtain ⟨-, rfl⟩ := access_eq hs
        exact current_of_main rfl rfl
    | interrupted =>
        cases hs
        exact current_of_main rfl rfl
    | failed =>
        cases hs
        exact current_of_main rfl rfl
  · simp at hs

theorem register_current {client : Option (Int × Bool)} {realloc : Option (Nat → PollFd)}
    {printed : Int} (hs : arrStep s (.register client realloc printed) = some s') : Current s' := by
  simp only [arrStep] at hs
  split at hs
  · split at hs
    · cases hs
      exact current_of_main rfl rfl
    · split at hs
      · obtain ⟨⟨c, s₁⟩, -, hret⟩ := Option.bind_eq_some_iff.mp hs
        cases hret
        exact current_of_main rfl rfl
      · cases hs
        exact current_of_main rfl rfl
  · simp at hs

theorem submit_current {calloc addTask : Bool} (hs : arrStep s (.submit calloc addTask) = some s') :
    Current s' := by
  simp only [arrStep] at hs
  split at hs
  · split at hs
    · cases hs
      exact current_of_main rfl rfl
    · cases hs
      exact current_of_main rfl rfl
  · simp at hs

/-! ### Workers

A worker never has a pointer of its own into the array.
-/

/-- A worker that adds a descriptor leaves the pointer current exactly if it is not one to use, or
the array stays. -/
theorem workerAdds_current_iff (h : Current s) {fd : Int} {realloc : Option (Nat → PollFd)}
    (hs : arrStep s (.workerAdds fd realloc) = some s') :
    Current s' ↔ Steady s (.workerAdds fd realloc) := by
  obtain ⟨⟨c, s₁⟩, hadd, rfl⟩ := Option.map_eq_some_iff.mp hs
  obtain ⟨hmain, hheld, hgen⟩ := addFd_eq hadd
  unfold Current Steady
  simp only [hmain, hheld, hgen]
  apply imp_congr_right
  intro hholds
  rw [h hholds]
  cases grows s.mgr realloc with
  | false => exact iff_of_true rfl rfl
  | true =>
      apply iff_of_false
      · exact Nat.ne_of_lt (Nat.lt_succ_self _)
      · exact Bool.noConfusion

theorem arrStep_current_iff (h : Current s) {ev : ArrEvent} (hs : arrStep s ev = some s') :
    Current s' ↔ Steady s ev := by
  cases ev with
  | go => exact iff_of_true (goStep_current hs) trivial
  | pollReturns result => exact iff_of_true (pollReturns_current hs) trivial
  | register client realloc printed => exact iff_of_true (register_current hs) trivial
  | submit calloc addTask => exact iff_of_true (submit_current hs) trivial
  | workerAdds fd realloc => exact workerAdds_current_iff h hs

/-! ### Runs

The condition on the run is one on the workers alone.
-/

/-- As long as no worker makes a larger array while the main loop has a pointer to use, every
pointer that it is about to use is current; and the next step keeps that exactly when it is one
more of these. -/
theorem arrSystem_current {fd maxClients : Int} (h : (arrSystem fd maxClients).ReachIf Steady s) :
    Current s ∧ ∀ ev s', arrStep s ev = some s' → (Current s' ↔ Steady s ev) := by
  have hinv : Current s := by
    apply h.invariant (I := Current)
    · intro s hs
      rw [hs]
      exact current_of_main rfl rfl
    · intro s ev s' hcur hsteady hs
      exact (arrStep_current_iff hcur hs).mpr hsteady
  refine ⟨hinv, ?_⟩
  intro ev s' hs
  exact arrStep_current_iff hinv hs

/-- The array grows while the main loop is about to call `handle_connections`. -/
theorem arrSystem_current_run :
    ∃ s, (arrSystem 3 8).run (arrStart 3 8) [.workerAdds 7 none, .workerAdds 8 none,
        .workerAdds 9 none, .workerAdds 10 none, .go, .go,
        .pollReturns (.ready fun idx => if idx = 1 then pollIn else 0),
        .workerAdds 11 (some fun _ => ⟨0, 0, 0⟩), .go, .go, .go, .go, .go, .go, .go] = some s ∧
      s.generation = 1 ∧ s.main.holds = true ∧ Current s ∧
      ∀ ev s', arrStep s ev = some s' → (Current s' ↔ Steady s ev) := by
  have h0 : (arrSystem 3 8).ReachIf Steady (arrStart 3 8) := .init rfl
  have h1 := h0.step (l := ArrEvent.workerAdds 7 none) (fun _ => rfl) rfl
  have h2 := h1.step (l := ArrEvent.workerAdds 8 none) (fun _ => rfl) rfl
  have h3 := h2.step (l := ArrEvent.workerAdds 9 none) (fun _ => rfl) rfl
  have h4 := h3.step (l := ArrEvent.workerAdds 10 none) (fun _ => rfl) rfl
  have h5 := h4.step (l := ArrEvent.go) trivial rfl
  have h6 := h5.step (l := ArrEvent.go) trivial rfl
  have h7 := h6.step (l := ArrEvent.pollReturns (.ready fun idx => if idx = 1 then pollIn else 0))
    trivial rfl
  have h8 := h7.step (l := ArrEvent.workerAdds 11 (some fun _ => ⟨0, 0, 0⟩)) nofun rfl
  have h9 := h8.step (l := ArrEvent.go) trivial rfl
  have h10 := h9.step (l := ArrEvent.go) trivial rfl
  have h11 := h10.step (l := ArrEvent.go) trivial rfl
  have h12 := h11.step (l := ArrEvent.go) trivial rfl
  have h13 := h12.step (l := ArrEvent.go) trivial rfl
  have h14 := h13.step (l := ArrEvent.go) trivial rfl
  have h15 := h14.step (l := ArrEvent.go) trivial rfl
  exact ⟨_, rfl, rfl, rfl, arrSystem_current h15⟩

/-- The array is full when the main loop copies it, and a worker adds one more descriptor before
`poll` is called. -/
theorem stale_array : ¬ ∀ fd maxClients s, (arrSystem fd maxClients).Reach s → Current s := by
  intro hall
  obtain ⟨s, hrun, hholds, hheld, hgen⟩ : ∃ s, (arrSystem 3 8).run (arrStart 3 8)
      [.workerAdds 7 none, .workerAdds 8 none, .workerAdds 9 none, .workerAdds 10 none, .go,
        .workerAdds 11 (some fun _ => ⟨0, 0, 0⟩)] = some s ∧
      s.main.holds = true ∧ s.held = 0 ∧ s.generation = 1 := ⟨_, rfl, rfl, rfl, rfl⟩
  have hcur := hall 3 8 s ((System.Reach.init rfl).run hrun) hholds
  rw [hheld, hgen] at hcur
  exact absurd hcur (by decide)

end CmakeTemplate
