/-
Events that were reported.

When `poll` has returned, the slots it was given are as it left them.  A pass goes through
them upwards and changes only those it has come to, and the last one in use when it takes an
entry out, which reports nothing from then on.  Slots that `poll` was not given hold what
`realloc` or a removal left in them, since `sock_fd_add` does not write `revents`.

So a slot that the pass is still to come to, and that `poll` was given, is silent or as `poll`
left it (`Faithful`); that is the invariant, next to what each test on the entry at hand has
found out.  An entry that is acted on was reported as long as the pass comes to no slot with
an event that `poll` was not given.  When it does come to one, it acts on that.
-/
import CmakeTemplate.Polled
import CmakeTemplate.Proofs.Server.Limit
import CmakeTemplate.Proofs.Server.Stale

namespace CmakeTemplate

open Lib

variable {s s' : PolledState} {ev : ArrEvent} {m : SocketManager}

namespace ArrPc

/-- The number of entries that `poll` is given. -/
def given : ArrPc → Nat
  | copied count | polling count => count
  | _ => 0

/-- The slots that the pass has been told of. -/
def visits : ArrPc → Nat
  | scan _ count _ | testError _ count _ | closing _ count _ | clearing _ count _ => count
  | testIn _ count _ | testServer _ count | registering _ count => count
  | dispatching _ count | reading _ count | submitting _ count | removing _ count => count
  | top | copied _ | polling _ | ready | stopped => 0

/-- The pass may still come to the slot. -/
def Ahead : ArrPc → Nat → Prop
  | ready, _ => True
  | scan idx _ _, j => idx ≤ j
  | testError idx _ _, j | closing idx _ _, j | clearing idx _ _, j | testIn idx _ _, j => idx < j
  | testServer idx _, j | registering idx _, j | dispatching idx _, j | reading idx _, j => idx < j
  | submitting idx _, j | removing idx _, j => idx < j
  | _, _ => False

end ArrPc

/-- The slot is in use, and as `poll` left it. -/
structure Faithful (s : PolledState) (j : Nat) : Prop where
  /-- `poll` was given the slot. -/
  given : j < s.call.count
  /-- It is in use. -/
  inUse : j < s.arr.mgr.fdCount
  /-- It has the descriptor that it had. -/
  fd : (s.arr.mgr.fdArr j).fd = s.call.fds j
  /-- It has the events that were reported. -/
  revents : (s.arr.mgr.fdArr j).revents = s.call.revents j

/-- What is known of the entry at hand, behind each of the tests on it. -/
def AtHand (s : PolledState) : Prop :=
  match s.arr.main with
  | .testError idx count _ | .testIn idx count _ =>
    idx < count ∧ ((s.arr.mgr.fdArr idx).Silent ∨ Faithful s idx)
  | .closing idx _ _ => Faithful s idx ∧ s.call.revents idx &&& pollErrorEvents ≠ 0
  | .testServer idx _ | .registering idx _ | .dispatching idx _ | .reading idx _
  | .submitting idx _ => Faithful s idx ∧ s.call.revents idx &&& pollIn ≠ 0
  | .removing idx _ => idx < s.arr.mgr.fdCount
  | _ => True

structure PolledInv (s : PolledState) : Prop where
  /-- The table is sound. -/
  wellFormed : s.arr.mgr.WellFormed
  /-- `poll` was given slots of the array. -/
  covers : s.call.count ≤ s.arr.mgr.fdCapacity
  /-- No more of them than are in use. -/
  given : s.arr.main.given ≤ s.arr.mgr.fdCount
  /-- The pass stays inside the array. -/
  visits : s.arr.main.visits ≤ s.arr.mgr.fdCapacity
  /-- What is ahead is silent, or as `poll` left it. -/
  ahead : ∀ j, s.arr.main.Ahead j → j < s.call.count →
    (s.arr.mgr.fdArr j).Silent ∨ Faithful s j
  /-- What the tests have found out is so. -/
  atHand : AtHand s

theorem AtHand.reported (h : AtHand s) : Reported s := by
  unfold Reported
  unfold AtHand at h
  cases hm : s.arr.main with
  | closing idx count ok =>
      rw [hm] at h
      exact ⟨h.1.given, h.1.fd, h.2⟩
  | registering idx count =>
      rw [hm] at h
      exact ⟨h.1.given, h.1.fd, h.2⟩
  | submitting idx count =>
      rw [hm] at h
      exact ⟨h.1.given, h.1.fd, h.2⟩
  | _ => trivial

theorem polledStart_inv (fd maxClients : Int) : PolledInv (polledStart fd maxClients) where
  wellFormed := ⟨show 1 ≤ 5 by decide, rfl, show 0 < 5 by decide⟩
  covers := Nat.zero_le _
  given := Nat.zero_le _
  visits := Nat.zero_le _
  ahead _ h := h.elim
  atHand := trivial

/-! ### Steps that leave the table as it is

The main loop goes on to another place, and the entry at hand is known from a test.
-/

namespace PolledInv

/-- The main loop goes on to `o`. -/
theorem inv_goes (h : PolledInv s) (held : Nat) {o : ArrPc} (hgiven : o.given ≤ s.arr.mgr.fdCount)
    (hvisits : o.visits ≤ s.arr.mgr.fdCapacity) (hahead : ∀ j, o.Ahead j → s.arr.main.Ahead j)
    (hhand : AtHand { s with arr := { s.arr with held, main := o } }) :
    PolledInv { s with arr := { s.arr with held, main := o } } where
  wellFormed := h.wellFormed
  covers := h.covers
  given := hgiven
  visits := hvisits
  ahead j hj hlt := by
    rcases h.ahead j (hahead j hj) hlt with hsilent | hfaithful
    · exact .inl hsilent
    · exact .inr ⟨hfaithful.given, hfaithful.inUse, hfaithful.fd, hfaithful.revents⟩
  atHand := hhand

/-- The main loop goes on within a pass. -/
theorem inv_passes (h : PolledInv s) {o o' : ArrPc} (hm : s.arr.main = o) (held : Nat)
    (hgiven : o'.given = 0) (hvisits : o'.visits ≤ o.visits) (hahead : ∀ j, o'.Ahead j → o.Ahead j)
    (hhand : AtHand { s with arr := { s.arr with held, main := o' } }) :
    PolledInv { s with arr := { s.arr with held, main := o' } } := by
  subst hm
  exact h.inv_goes held (hgiven.le.trans (Nat.zero_le _)) (Nat.le_trans hvisits h.visits) hahead hhand

/-- The entry of a test that has found an event is one that `poll` has reported it for. -/
theorem faithful_of_event {idx : Nat} {events : UInt16}
    (h : (s.arr.mgr.fdArr idx).Silent ∨ Faithful s idx)
    (hsilent : (s.arr.mgr.fdArr idx).Silent → (s.arr.mgr.fdArr idx).revents &&& events = 0)
    (he : (s.arr.mgr.fdArr idx).revents &&& events ≠ 0) :
    Faithful s idx ∧ s.call.revents idx &&& events ≠ 0 := by
  rcases h with hs | hfaithful
  · exact absurd (hsilent hs) he
  · exact ⟨hfaithful, hfaithful.revents ▸ he⟩

/-- What is known of a slot does not depend on where the main loop is. -/
theorem faithful_at {idx : Nat} (h : Faithful s idx) (held : Nat) (o : ArrPc) :
    Faithful { s with arr := { s.arr with held, main := o } } idx :=
  ⟨h.given, h.inUse, h.fd, h.revents⟩

/-! ### Steps that write to the table

Removing, adding, and what `poll` writes.
-/

/-- The entry that has been closed goes. -/
theorem inv_clears (h : PolledInv s) {idx count : Nat} {ok : Bool}
    (hfrom : s.arr.main = .clearing idx count ok) :
    PolledInv { s with arr := { s.arr with
      mgr := { s.arr.mgr with
        fdArr := Function.update s.arr.mgr.fdArr idx { s.arr.mgr.fdArr idx with fd := -1 } }
      main := .scan (idx + 1) count ok } } := by
  have hvisits := h.visits
  have hahead := h.ahead
  rw [hfrom] at hvisits hahead
  refine ⟨⟨h.wellFormed.room, h.wellFormed.capacity, h.wellFormed.pos⟩, h.covers, Nat.zero_le _,
    hvisits, ?_, trivial⟩
  intro j hj hlt
  have hother : j ≠ idx := Nat.ne_of_gt hj
  have hslot : Function.update s.arr.mgr.fdArr idx { s.arr.mgr.fdArr idx with fd := -1 } j =
      s.arr.mgr.fdArr j := Function.update_of_ne hother _ _
  rcases hahead j hj hlt with hsilent | hfaithful
  · refine .inl ?_
    show PollFd.Silent (Function.update s.arr.mgr.fdArr idx _ j)
    rw [hslot]
    exact hsilent
  · exact .inr ⟨hfaithful.given, hfaithful.inUse, (congrArg PollFd.fd hslot).trans hfaithful.fd,
      (congrArg PollFd.revents hslot).trans hfaithful.revents⟩

/-- The entry that has been given to a job goes, and the last one takes its slot. -/
theorem inv_removes (h : PolledInv s) {idx count : Nat} (ok : Bool) {c : ExitCode}
    (hfrom : s.arr.main = .removing idx count)
    (hrem : sockFdRemove s.arr.mgr idx = some (c, m)) :
    PolledInv { s with arr := { s.arr with mgr := m, main := .scan (idx + 1) count ok } } := by
  have hvisits := h.visits
  have hahead := h.ahead
  have hidx := h.atHand
  unfold AtHand at hidx
  rw [hfrom] at hvisits hahead hidx
  have hm := sockFdRemove_eq hidx hrem
  subst hm
  refine ⟨removed_wellFormed h.wellFormed idx, h.covers, Nat.zero_le _, hvisits, ?_, trivial⟩
  intro j hj hlt
  have hother : j ≠ idx := Nat.ne_of_gt hj
  show ((removed s.arr.mgr idx).fdArr j).Silent ∨ _
  by_cases hlast : j = s.arr.mgr.fdCount - 1
  · refine .inl ?_
    rw [hlast, removed_last]
    exact ⟨rfl, rfl⟩
  · have hslot := removed_other hother hlast
    rcases hahead j hj hlt with hsilent | hfaithful
    · refine .inl ?_
      rw [hslot]
      exact hsilent
    · have hinUse : j < s.arr.mgr.fdCount - 1 := by
        have hlt' := hfaithful.inUse
        omega
      exact .inr ⟨hfaithful.given, hinUse, (congrArg PollFd.fd hslot).trans hfaithful.fd,
        (congrArg PollFd.revents hslot).trans hfaithful.revents⟩

theorem silent_kept (hkept : Kept s.arr.mgr m) {j : Nat} (hj : j < s.arr.mgr.fdCapacity)
    (h : (s.arr.mgr.fdArr j).Silent) : (m.fdArr j).Silent := by
  unfold PollFd.Silent
  rw [hkept.revents j hj]
  exact h

theorem faithful_kept (hkept : Kept s.arr.mgr m) {j : Nat} (h : Faithful s j)
    (generation held : Nat) (o : ArrPc) :
    Faithful { s with arr := { s.arr with mgr := m, generation, held, main := o } } j :=
  ⟨h.given, Nat.lt_of_lt_of_le h.inUse hkept.fdCount,
    (congrArg PollFd.fd (hkept.entries j h.inUse)).trans h.fd,
    (congrArg PollFd.revents (hkept.entries j h.inUse)).trans h.revents⟩

/-- Behind `sock_fd_add`, wherever the main loop is then. -/
theorem inv_adds (h : PolledInv s) (hkept : Kept s.arr.mgr m) (generation : Nat) {o : ArrPc}
    (hgiven : o.given ≤ s.arr.main.given) (hvisits : o.visits ≤ s.arr.main.visits)
    (hahead : ∀ j, o.Ahead j → s.arr.main.Ahead j)
    (hhand : AtHand { s with arr := { s.arr with mgr := m, generation, main := o } }) :
    PolledInv { s with arr := { s.arr with mgr := m, generation, main := o } } where
  wellFormed := hkept.wellFormed
  covers := Nat.le_trans h.covers hkept.fdCapacity
  given := Nat.le_trans hgiven (Nat.le_trans h.given hkept.fdCount)
  visits := Nat.le_trans hvisits (Nat.le_trans h.visits hkept.fdCapacity)
  ahead j hj hlt := by
    rcases h.ahead j (hahead j hj) hlt with hsilent | hfaithful
    · exact .inl (silent_kept hkept (Nat.lt_of_lt_of_le hlt h.covers) hsilent)
    · exact .inr (faithful_kept hkept hfaithful generation s.arr.held o)
  atHand := hhand

/-- What is known of the entry at hand stays so when a worker adds one. -/
theorem atHand_kept (h : PolledInv s) (hkept : Kept s.arr.mgr m) (generation : Nat) :
    AtHand { s with arr := { s.arr with mgr := m, generation } } := by
  have hhand := h.atHand
  have hvisits := h.visits
  have hfaithful : ∀ {j : Nat}, Faithful s j →
      Faithful { s with arr := { s.arr with mgr := m, generation } } j :=
    fun hj => faithful_kept hkept hj generation s.arr.held s.arr.main
  have htest : ∀ {idx count : Nat}, s.arr.main.visits = count →
      idx < count ∧ ((s.arr.mgr.fdArr idx).Silent ∨ Faithful s idx) →
      idx < count ∧ ((m.fdArr idx).Silent ∨
        Faithful { s with arr := { s.arr with mgr := m, generation } } idx) := by
    intro idx count hcount ⟨hlt, hslot⟩
    have hcap := Nat.lt_of_lt_of_le (hcount ▸ hlt) hvisits
    exact ⟨hlt, hslot.imp (silent_kept hkept hcap) hfaithful⟩
  unfold AtHand at hhand ⊢
  show match s.arr.main with
    | .testError idx count _ | .testIn idx count _ => _
    | .closing idx _ _ => _
    | .testServer idx _ | .registering idx _ | .dispatching idx _ | .reading idx _
    | .submitting idx _ => _
    | .removing idx _ => _
    | _ => _
  cases hm : s.arr.main with
  | testError idx count ok =>
      rw [hm] at hhand
      exact htest (by rw [hm]; rfl) hhand
  | testIn idx count ok =>
      rw [hm] at hhand
      exact htest (by rw [hm]; rfl) hhand
  | closing idx count ok | testServer idx count | registering idx count | dispatching idx count
  | reading idx count | submitting idx count =>
      rw [hm] at hhand
      exact ⟨hfaithful hhand.1, hhand.2⟩
  | removing idx count =>
      rw [hm] at hhand
      exact Nat.lt_of_lt_of_le hhand hkept.fdCount
  | _ => trivial

/-- `poll` returns, having looked at the slots it was given. -/
theorem inv_polls (h : PolledInv s) {count : Nat} {revents : Nat → UInt16}
    (hfrom : s.arr.main = .polling count) {o : ArrPc} (ho : o = .ready ∨ o = .top) :
    PolledInv {
      arr := { s.arr with mgr := setRevents s.arr.mgr count revents, main := o }
      call := { count, fds := fun idx => (s.arr.mgr.fdArr idx).fd, revents } } := by
  have hcount : count ≤ s.arr.mgr.fdCount := by
    have hgiven := h.given
    rwa [hfrom] at hgiven
  refine ⟨⟨h.wellFormed.room, h.wellFormed.capacity, h.wellFormed.pos⟩,
    Nat.le_trans hcount h.wellFormed.room, ?_, ?_, ?_, ?_⟩
  · rcases ho with rfl | rfl <;> exact Nat.zero_le _
  · rcases ho with rfl | rfl <;> exact Nat.zero_le _
  · intro j _ hlt
    have hslot : (setRevents s.arr.mgr count revents).fdArr j =
        { s.arr.mgr.fdArr j with revents := revents j } := if_pos hlt
    refine .inr ⟨hlt, Nat.lt_of_lt_of_le hlt hcount, ?_, ?_⟩
    · show ((setRevents s.arr.mgr count revents).fdArr j).fd = (s.arr.mgr.fdArr j).fd
      rw [hslot]
    · show ((setRevents s.arr.mgr count revents).fdArr j).revents = revents j
      rw [hslot]
  · rcases ho with rfl | rfl <;> trivial

/-- Without an entry that is ready, no pass follows. -/
theorem inv_quits (h : PolledInv s) {count : Nat} (hfrom : s.arr.main = .polling count) {o : ArrPc}
    (ho : o = .top ∨ o = .stopped) :
    PolledInv {
      arr := { s.arr with main := o }
      call := { count, fds := fun idx => (s.arr.mgr.fdArr idx).fd, revents := fun _ => 0 } } := by
  have hcount : count ≤ s.arr.mgr.fdCount := by
    have hgiven := h.given
    rwa [hfrom] at hgiven
  have hcovers := Nat.le_trans hcount h.wellFormed.room
  rcases ho with rfl | rfl <;>
  exact ⟨h.wellFormed, hcovers, Nat.zero_le _, Nat.zero_le _, fun _ hj => hj.elim, trivial⟩

/-! ### The steps of the main loop

A case for each place.
-/

theorem inv_goStep (h : PolledInv s) (hc : Covered s .go) {arr : ArrState}
    (hs : goStep s.arr = some arr) : PolledInv { s with arr } := by
  have hhand := h.atHand
  have hahead := h.ahead
  unfold AtHand at hhand
  unfold goStep at hs
  split at hs
  · split at hs
    · simp at hs
    · cases hs
      exact h.inv_goes _ (Nat.le_refl _) (Nat.zero_le _) (fun _ hj => hj.elim) trivial
  · rename_i hm
    obtain ⟨-, rfl⟩ := access_eq hs
    have hgiven := h.given
    rw [hm] at hgiven
    exact h.inv_goes _ hgiven (Nat.zero_le _) (fun _ hj => hj.elim) trivial
  · rename_i hm
    split at hs
    · simp at hs
    · cases hs
      exact h.inv_goes _ (Nat.zero_le _) h.wellFormed.room (fun _ _ => by rw [hm]; trivial) trivial
  · rename_i idx count ok hm
    rw [hm] at hahead
    split at hs
    · rename_i hlt
      split at hs
      · simp at hs
      · cases hs
        refine h.inv_passes hm _ rfl (Nat.le_refl _) (fun _ hj => Nat.le_of_lt hj) ⟨hlt, ?_⟩
        by_cases hcovered : idx < s.call.count
        · rcases hahead idx (Nat.le_refl _) hcovered with hsilent | hfaithful
          · exact .inl hsilent
          · exact .inr (faithful_at hfaithful _ _)
        · exact .inl ((hc idx count ok hm hlt).resolve_left hcovered)
    · split at hs <;>
      · cases hs
        exact h.inv_passes hm _ rfl (Nat.zero_le _) (fun _ hj => hj.elim) trivial
  · rename_i idx count ok hm
    rw [hm] at hhand
    obtain ⟨-, rfl⟩ := access_eq hs
    by_cases he : (s.arr.mgr.fdArr idx).revents &&& pollErrorEvents = 0
    · simp only [he, ne_eq, not_true_eq_false, if_false]
      refine h.inv_passes hm _ rfl (Nat.le_refl _) (fun _ hj => hj) ⟨hhand.1, ?_⟩
      rcases hhand.2 with hsilent | hfaithful
      · exact .inl hsilent
      · exact .inr (faithful_at hfaithful _ _)
    · simp only [ne_eq, he, not_false_eq_true, if_true]
      obtain ⟨hfaithful, hevent⟩ := faithful_of_event hhand.2 And.left he
      exact h.inv_passes hm _ rfl (Nat.le_refl _) (fun _ hj => hj) ⟨faithful_at hfaithful _ _, hevent⟩
  · rename_i idx count ok hm
    obtain ⟨-, rfl⟩ := access_eq hs
    exact h.inv_passes hm _ rfl (Nat.le_refl _) (fun _ hj => hj) trivial
  · rename_i idx count ok hm
    obtain ⟨-, rfl⟩ := access_eq hs
    exact h.inv_clears hm
  · rename_i idx count ok hm
    rw [hm] at hhand
    obtain ⟨-, rfl⟩ := access_eq hs
    by_cases he : (s.arr.mgr.fdArr idx).revents &&& pollIn = 0
    · simp only [he, if_true]
      exact h.inv_passes hm _ rfl (Nat.le_refl _) (fun _ hj => hj) trivial
    · simp only [he, if_false]
      obtain ⟨hfaithful, hevent⟩ := faithful_of_event hhand.2 And.right he
      exact h.inv_passes hm _ rfl (Nat.le_refl _) (fun _ hj => hj) ⟨faithful_at hfaithful _ _, hevent⟩
  · rename_i idx count hm
    rw [hm] at hhand
    obtain ⟨-, rfl⟩ := access_eq hs
    split <;>
    exact h.inv_passes hm _ rfl (Nat.le_refl _) (fun _ hj => hj) ⟨faithful_at hhand.1 _ _, hhand.2⟩
  · rename_i idx count hm
    rw [hm] at hhand
    cases hs
    exact h.inv_passes hm _ rfl (Nat.le_refl _) (fun _ hj => hj) ⟨faithful_at hhand.1 _ _, hhand.2⟩
  · rename_i idx count hm
    rw [hm] at hhand
    obtain ⟨-, rfl⟩ := access_eq hs
    exact h.inv_passes hm _ rfl (Nat.le_refl _) (fun _ hj => hj) ⟨faithful_at hhand.1 _ _, hhand.2⟩
  · rename_i idx count hm
    obtain ⟨⟨c, m⟩, hrem, hret⟩ := Option.bind_eq_some_iff.mp hs
    cases hret
    exact h.inv_removes _ hm hrem
  · simp at hs

end PolledInv

/-! ### One step

A step of the main loop or of a worker.
-/

theorem addFd_mgr {a a' : ArrState} {fd : Int} {realloc : Option (Nat → PollFd)} {c : ExitCode}
    (h : addFd a fd realloc = some (c, a')) :
    ∃ m generation, sockFdAdd a.mgr fd realloc = some (c, m) ∧
      a' = { a with mgr := m, generation } := by
  obtain ⟨⟨c₁, m⟩, hadd, hret⟩ := Option.bind_eq_some_iff.mp h
  cases hret
  exact ⟨m, _, hadd, rfl⟩

theorem arrStep_polled (h : PolledInv s) (hc : Covered s ev) {arr : ArrState}
    (hs : arrStep s.arr ev = some arr) : PolledInv { arr, call := s.callAfter ev } := by
  cases ev with
  | go => exact h.inv_goStep hc hs
  | pollReturns result =>
      simp only [arrStep] at hs
      split at hs
      · rename_i count hm
        cases result with
        | ready revents =>
            obtain ⟨-, rfl⟩ := access_eq hs
            simp only [PolledState.callAfter, hm]
            exact h.inv_polls hm (.inl rfl)
        | timeout =>
            obtain ⟨-, rfl⟩ := access_eq hs
            simp only [PolledState.callAfter, hm]
            exact h.inv_polls hm (.inr rfl)
        | interrupted =>
            cases hs
            simp only [PolledState.callAfter, hm]
            exact h.inv_quits hm (.inl rfl)
        | failed =>
            cases hs
            simp only [PolledState.callAfter, hm]
            exact h.inv_quits hm (.inr rfl)
      · simp at hs
  | register client realloc printed =>
      simp only [arrStep] at hs
      split at hs
      · rename_i idx count hm
        have hscan : ∀ ok, PolledInv { s with
            arr := { s.arr with main := .scan (idx + 1) count ok } } := fun ok =>
          h.inv_passes hm _ rfl (Nat.le_refl _) (fun _ hj => hj) trivial
        split at hs
        · cases hs
          exact hscan false
        · split at hs
          · obtain ⟨⟨c, a⟩, hadd, hret⟩ := Option.bind_eq_some_iff.mp hs
            obtain ⟨m, generation, hm', rfl⟩ := addFd_mgr hadd
            cases hret
            exact h.inv_adds (sockFdAdd_kept h.wellFormed hm') generation (Nat.zero_le _)
              (by rw [hm]; exact Nat.le_refl _) (fun j hj => by rw [hm]; exact hj) trivial
          · cases hs
            exact hscan false
      · simp at hs
  | submit calloc addTask =>
      simp only [arrStep] at hs
      split at hs
      · rename_i idx count hm
        have hhand := h.atHand
        unfold AtHand at hhand
        rw [hm] at hhand
        split at hs
        · cases hs
          exact h.inv_passes hm _ rfl (Nat.le_refl _) (fun _ hj => hj) hhand.1.inUse
        · cases hs
          exact h.inv_passes hm _ rfl (Nat.le_refl _) (fun _ hj => hj) trivial
      · simp at hs
  | workerAdds fd realloc =>
      obtain ⟨⟨c, a⟩, hadd, hret⟩ := Option.map_eq_some_iff.mp hs
      obtain ⟨m, generation, hm', rfl⟩ := addFd_mgr hadd
      cases hret
      have hkept := sockFdAdd_kept h.wellFormed hm'
      exact h.inv_adds hkept generation (Nat.le_refl _) (Nat.le_refl _) (fun _ hj => hj)
        (h.atHand_kept hkept generation)

/-! ### Slots that were not given

What is in such a slot is acted on like any other event.
-/

theorem run_go {fd maxClients : Int} {a a' : ArrState} {call : PollCall} {t : PolledState} {n : Nat}
    (hgo : goStep a = some a')
    (hr : (polledSystem fd maxClients).run ⟨a', call⟩ (List.replicate n .go) = some t) :
    (polledSystem fd maxClients).run ⟨a, call⟩ (List.replicate (n + 1) .go) = some t := by
  have hstep : polledStep ⟨a, call⟩ .go = some ⟨a', call⟩ := by
    simp only [polledStep, arrStep, hgo, Option.map_some, PolledState.callAfter]
  rw [List.replicate_succ]
  exact (congrArg (Option.bind · _) hstep).trans hr

theorem access_current {a next : ArrState} (h : a.held = a.generation) :
    access a next = some next := if_pos h

/-- An entry that is looked at and has an event is acted on, unless a worker makes a larger
array first. -/
theorem acts_on_event {fd maxClients : Int} {a : ArrState} {call : PollCall} {idx count : Nat}
    {ok : Bool} (hm : a.main = .testError idx count ok) (hheld : a.held = a.generation)
    (hcall : call.count ≤ idx) (he : ¬ (a.mgr.fdArr idx).Silent) :
    ∃ n t, (polledSystem fd maxClients).run ⟨a, call⟩ (List.replicate n .go) = some t ∧
      ¬ Reported t := by
  have hnot : ∀ {t : PolledState} {events : UInt16}, t.call = call → ¬ Reports t idx events := by
    intro t events ht hr
    exact absurd hr.1 (ht ▸ Nat.not_lt.mpr hcall)
  by_cases herr : (a.mgr.fdArr idx).revents &&& pollErrorEvents = 0
  · have hin : ¬ (a.mgr.fdArr idx).revents &&& pollIn = 0 := fun hin => he ⟨herr, hin⟩
    have h1 : goStep a = some { a with main := .testIn idx count ok } := by
      simp only [goStep, hm, access_current hheld, herr, ne_eq, not_true_eq_false, if_false]
    have h2 : goStep { a with main := .testIn idx count ok } =
        some { a with main := .testServer idx count } := by
      simp only [goStep, access, hheld, if_true, hin, if_false]
    by_cases hserver : (a.mgr.fdArr idx).fd = a.fd
    · have h3 : goStep { a with main := .testServer idx count } =
          some { a with main := .registering idx count } := by
        simp only [goStep, access, hheld, if_true, hserver]
      exact ⟨3, _, run_go h1 (run_go h2 (run_go h3 rfl)), hnot rfl⟩
    · have h3 : goStep { a with main := .testServer idx count } =
          some { a with main := .dispatching idx count } := by
        simp only [goStep, access, hheld, if_true, hserver, if_false]
      have h4 : goStep { a with main := .dispatching idx count } =
          some { a with held := a.generation, main := .reading idx count } := rfl
      have h5 : goStep { a with held := a.generation, main := .reading idx count } =
          some { a with held := a.generation, main := .submitting idx count } := by
        simp only [goStep, access, if_true]
      exact ⟨5, _, run_go h1 (run_go h2 (run_go h3 (run_go h4 (run_go h5 rfl)))), hnot rfl⟩
  · have h1 : goStep a = some { a with main := .closing idx count ok } := by
      simp only [goStep, hm, access_current hheld, ne_eq, herr, not_false_eq_true, if_true]
    exact ⟨1, _, run_go h1 rfl, hnot rfl⟩

/-! ### Runs

The invariant along a run, and the step that breaks it.
-/

theorem polledSystem_inv {fd maxClients : Int}
    (h : (polledSystem fd maxClients).ReachIf Covered s) : PolledInv s := by
  apply h.invariant (I := PolledInv)
  · intro s hs
    rw [hs]
    exact polledStart_inv fd maxClients
  · intro s ev s' hinv hc hs
    obtain ⟨arr, harr, hret⟩ := Option.map_eq_some_iff.mp hs
    rw [← hret]
    exact arrStep_polled hinv hc harr

/-- As long as the pass comes to no slot with an event that `poll` was not given, it acts on
events that `poll` has reported; and when it does come to one, it acts on that. -/
theorem polledSystem_reported {fd maxClients : Int}
    (h : (polledSystem fd maxClients).ReachIf Covered s) :
    Reported s ∧ ∀ ev s', polledStep s ev = some s' → ¬ Covered s ev →
      ∃ n t, (polledSystem fd maxClients).run s' (List.replicate n .go) = some t ∧ ¬ Reported t := by
  refine ⟨(polledSystem_inv h).atHand.reported, ?_⟩
  intro ev s' hs hc
  obtain ⟨arr, harr, hret⟩ := Option.map_eq_some_iff.mp hs
  subst hret
  cases ev with
  | go =>
      simp only [Covered, not_forall, not_or] at hc
      obtain ⟨idx, count, ok, hm, hlt, hcall, hsilent⟩ := hc
      simp only [arrStep, goStep, hm, hlt, if_true] at harr
      split at harr
      · simp at harr
      · cases harr
        exact acts_on_event rfl rfl (Nat.le_of_not_lt hcall) hsilent
  | _ => exact absurd trivial hc

/-- `poll` has reported a connection, and the main loop is about to accept it. -/
theorem polledSystem_reported_run :
    ∃ s, (polledSystem 3 8).run (polledStart 3 8) [.workerAdds 7 none, .go, .go,
        .pollReturns (.ready fun idx => if idx = 0 then pollIn else 0), .go, .go, .go, .go, .go] =
        some s ∧
      s.arr.main = .registering 0 2 ∧ Reported s ∧ ∀ ev s', polledStep s ev = some s' →
        ¬ Covered s ev → ∃ n t, (polledSystem 3 8).run s' (List.replicate n .go) = some t ∧
          ¬ Reported t := by
  have h0 : (polledSystem 3 8).ReachIf Covered (polledStart 3 8) := .init rfl
  have h1 := h0.step (l := ArrEvent.workerAdds 7 none) trivial rfl
  have h2 := h1.step (l := ArrEvent.go) (fun _ _ _ hm => by cases hm) rfl
  have h3 := h2.step (l := ArrEvent.go) (fun _ _ _ hm => by cases hm) rfl
  have h4 := h3.step (l := ArrEvent.pollReturns (.ready fun idx => if idx = 0 then pollIn else 0))
    trivial rfl
  have h5 := h4.step (l := ArrEvent.go) (fun _ _ _ hm => by cases hm) rfl
  have h6 := h5.step (l := ArrEvent.go) (fun _ _ _ hm hlt => by cases hm; exact .inl hlt) rfl
  have h7 := h6.step (l := ArrEvent.go) (fun _ _ _ hm => by cases hm) rfl
  have h8 := h7.step (l := ArrEvent.go) (fun _ _ _ hm => by cases hm) rfl
  have h9 := h8.step (l := ArrEvent.go) (fun _ _ _ hm => by cases hm) rfl
  exact ⟨_, rfl, rfl, polledSystem_reported h9⟩

/-- Four clients are put into the table by workers, so that it is full when `poll` is called; a fifth
goes into a larger array, whose new slots report a hang-up. -/
theorem closed_unreported :
    ¬ ∀ fd maxClients s, (polledSystem fd maxClients).Reach s → Reported s := by
  intro hall
  obtain ⟨s, hrun, hm, hcount⟩ : ∃ s, (polledSystem 3 8).run (polledStart 3 8)
      ([.workerAdds 7 none, .workerAdds 8 none, .workerAdds 9 none, .workerAdds 10 none, .go, .go,
        .pollReturns (.ready fun idx => if idx = 0 then pollIn else 0),
        .workerAdds 11 (some fun _ => ⟨0, 0, 0x10⟩), .go, .go, .go, .go, .go,
        .register none none 0] ++ List.replicate 14 .go) = some s ∧
      s.arr.main = .closing 5 6 false ∧ s.call.count = 5 := ⟨_, rfl, rfl, rfl⟩
  have hreported := hall 3 8 s ((System.Reach.init rfl).run hrun)
  unfold Reported at hreported
  rw [hm] at hreported
  exact absurd (hcount ▸ hreported.1) (Nat.lt_irrefl 5)

end CmakeTemplate
