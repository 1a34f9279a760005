/-
The descriptor table is a multiset.

`Grown m m₁` is what `sock_fd_add` writes into: the array as it is, or a larger one with the
same slots in use, whatever else `realloc` left in it.  A descriptor is put behind those in
use, and one is taken out by moving the last into its slot, so the server's own descriptor
stays at index 0 as long as it is not removed.

What is in the table is what was added and has not been removed, each as often as that.  Calls
that are in range succeed, and so the table is never left locked by them.  A call that is not,
an index without an entry or an addition without memory, returns with the mutex locked, and
none returns behind it; that too is exact for each call.
-/
import CmakeTemplate.SocketTable
import CmakeTemplate.Proofs.Server.Manager

namespace CmakeTemplate

open Lib

variable {m m' m₁ : SocketManager}

/-! ### Adding

In an array that is large enough, or has been made so.
-/

/-- Room for one more behind the same slots in use. -/
structure Grown (m m₁ : SocketManager) : Prop where
  /-- As many slots are in use. -/
  count : m₁.fdCount = m.fdCount
  /-- They hold what they held. -/
  kept : ∀ idx, idx < m.fdCount → m₁.fdArr idx = m.fdArr idx
  /-- There is room for one more. -/
  room : m.fdCount < m₁.fdCapacity
  /-- The capacity is the size of the array. -/
  capacity : m₁.fdCapacity = m₁.allocated
  /-- The mutex is as it was. -/
  unlocked : m₁.locked = m.locked

theorem sockFdIncreaseCapacity_grown (h : m.WellFormed) (fresh : Nat → PollFd) :
    Grown m (sockFdIncreaseCapacity m (some fresh)).2 := by
  have hpos := h.pos
  have hroom := h.room
  refine ⟨rfl, ?_, ?_, rfl, rfl⟩
  · intro idx hidx
    apply if_pos
    rw [← h.capacity]
    omega
  · show m.fdCount < m.fdCapacity * 2
    omega

/-- `m₁` with `fd` behind the descriptors in use. -/
def appended (m₁ : SocketManager) (fd : Int) : SocketManager :=
  { m₁ with
    fdArr := Function.update m₁.fdArr m₁.fdCount
      { m₁.fdArr m₁.fdCount with fd, events := pollIn }
    fdCount := m₁.fdCount + 1 }

theorem sockFdAppend_eq (fd : Int) (hroom : m₁.fdCount < m₁.allocated) :
    sockFdAppend m₁ fd = some (.success, appended m₁ fd) := by
  unfold sockFdAppend
  rw [if_pos hroom]
  rfl

/-- With memory, or with no need for it, a descriptor is added. -/
theorem sockFdAdd_grown (h : m.WellFormed) (hfree : m.locked = false) (fd : Int)
    {realloc : Option (Nat → PollFd)} (hmem : m.fdCount = m.fdCapacity → realloc.isSome) :
    ∃ m₁, Grown m m₁ ∧ sockFdAdd m fd realloc = some (.success, appended m₁ fd) := by
  have hunlocked : ¬ m.locked = true := Bool.not_eq_true _ ▸ hfree
  unfold sockFdAdd
  by_cases hfull : m.fdCount = m.fdCapacity
  · obtain ⟨fresh, hfresh⟩ := Option.isSome_iff_exists.mp (hmem hfull)
    have hgrown := sockFdIncreaseCapacity_grown h fresh
    refine ⟨_, hgrown, ?_⟩
    rw [hfresh, if_neg hunlocked, if_pos hfull]
    apply sockFdAppend_eq
    have hroom := hgrown.room
    rwa [hgrown.capacity] at hroom
  · have hroom : m.fdCount < m.fdCapacity := Nat.lt_of_le_of_ne h.room hfull
    refine ⟨m, ⟨rfl, fun _ _ => rfl, hroom, h.capacity, rfl⟩, ?_⟩
    rw [if_neg hunlocked, if_neg hfull]
    apply sockFdAppend_eq
    rw [← h.capacity]
    exact hroom

/-- Without memory for a larger array the mutex stays locked. -/
theorem sockFdAdd_noMemory (hfree : m.locked = false) (fd : Int)
    (hfull : m.fdCount = m.fdCapacity) :
    sockFdAdd m fd none = some (.failure, { m with locked := true }) := by
  unfold sockFdAdd
  rw [if_neg (Bool.not_eq_true _ ▸ hfree), if_pos hfull]
  rfl

namespace Grown

theorem fds (h : Grown m m₁) (fd : Int) : (appended m₁ fd).fds = fd ::ₘ m.fds := by
  show slots (PollFd.fd ∘ Function.update m₁.fdArr m₁.fdCount _) (m₁.fdCount + 1) = _
  rw [Function.comp_update, slots_push, h.count]
  apply congrArg
  apply slots_congr
  intro idx hidx
  show (m₁.fdArr idx).fd = _
  rw [h.kept idx hidx]

theorem kept_appended (h : Grown m m₁) (fd : Int) {idx : Nat} (hidx : idx < m.fdCount) :
    (appended m₁ fd).fdArr idx = m.fdArr idx := by
  rw [← h.kept idx hidx]
  apply Function.update_of_ne
  rw [h.count]
  exact Nat.ne_of_lt hidx

theorem wellFormed (h : Grown m m₁) (fd : Int) : (appended m₁ fd).WellFormed := by
  have hroom := h.room
  refine ⟨?_, h.capacity, ?_⟩
  · show m₁.fdCount + 1 ≤ m₁.fdCapacity
    rw [h.count]
    omega
  · show 0 < m₁.fdCapacity
    omega

end Grown

/-- What `sock_fd_add` leaves as it is: it writes no `revents`, but new slots have some. -/
structure Kept (m m' : SocketManager) : Prop where
  /-- The table is sound. -/
  wellFormed : m'.WellFormed
  /-- No entry has gone. -/
  fdCount : m.fdCount ≤ m'.fdCount
  /-- The array has not shrunk. -/
  fdCapacity : m.fdCapacity ≤ m'.fdCapacity
  /-- The entries are where they were. -/
  entries : ∀ idx, idx < m.fdCount → m'.fdArr idx = m.fdArr idx
  /-- The slots report what they did. -/
  revents : ∀ idx, idx < m.fdCapacity → (m'.fdArr idx).revents = (m.fdArr idx).revents

theorem Grown.kept_all (h : Grown m m₁) (fd : Int) (hcap : m.fdCapacity ≤ m₁.fdCapacity)
    (hold : ∀ idx, idx < m.fdCapacity → m₁.fdArr idx = m.fdArr idx) : Kept m (appended m₁ fd) where
  wellFormed := h.wellFormed fd
  fdCount := Nat.le_succ_of_le h.count.ge
  fdCapacity := hcap
  entries _ hidx := h.kept_appended fd hidx
  revents idx hidx := by
    show PollFd.revents (Function.update m₁.fdArr m₁.fdCount
      { m₁.fdArr m₁.fdCount with fd, events := pollIn } idx) = _
    by_cases hlast : idx = m₁.fdCount
    · rw [hlast, Function.update_self, ← hlast, ← hold idx hidx]
    · rw [Function.update_of_ne hlast, hold idx hidx]

theorem sockFdAdd_kept {fd : Int} {realloc : Option (Nat → PollFd)} {c : ExitCode}
    (h : m.WellFormed) (hadd : sockFdAdd m fd realloc = some (c, m')) : Kept m m' := by
  unfold sockFdAdd at hadd
  split at hadd
  · simp at hadd
  · split at hadd
    · rename_i hfull
      cases realloc with
      | none =>
          cases hadd
          exact ⟨⟨h.room, h.capacity, h.pos⟩, Nat.le_refl _, Nat.le_refl _, fun _ _ => rfl,
            fun _ _ => rfl⟩
      | some fresh =>
          have hgrown := sockFdIncreaseCapacity_grown h fresh
          have hroom : (sockFdIncreaseCapacity m (some fresh)).2.fdCount <
              (sockFdIncreaseCapacity m (some fresh)).2.allocated := hgrown.capacity ▸ hgrown.room
          have happ := sockFdAppend_eq fd hroom
          obtain ⟨-, rfl⟩ := Prod.mk.inj (Option.some.inj (happ.symm.trans hadd))
          refine hgrown.kept_all fd (Nat.le_mul_of_pos_right _ (by decide)) ?_
          exact fun idx hidx => hgrown.kept idx (hfull ▸ hidx)
    · rename_i hfull
      have hroom : m.fdCount < m.fdCapacity := Nat.lt_of_le_of_ne h.room hfull
      have hsame : Grown m m := ⟨rfl, fun _ _ => rfl, hroom, h.capacity, rfl⟩
      have happ := sockFdAppend_eq fd (h.capacity ▸ hroom)
      obtain ⟨-, rfl⟩ := Prod.mk.inj (Option.some.inj (happ.symm.trans hadd))
      exact hsame.kept_all fd (Nat.le_refl _) fun _ _ => rfl

/-! ### Removing

The last descriptor is moved into the slot, which may be its own.
-/

/-- The array without the slot `index`: the last slot in use has been moved there. -/
def removed (m : SocketManager) (index : Nat) : SocketManager :=
  { m with
    fdArr := Function.update
      (if index ≠ m.fdCount - 1 then Function.update m.fdArr index (m.fdArr (m.fdCount - 1))
        else m.fdArr) (m.fdCount - 1) ⟨-1, 0, 0⟩
    fdCount := m.fdCount - 1 }

theorem sockFdRemoveAt_eq (hfree : m.locked = false) {index : Int} (h0 : 0 ≤ index)
    (hlt : index < m.fdCount) :
    sockFdRemoveAt m index = some (.success, removed m index.toNat) := by
  have hunlocked : ¬ m.locked = true := Bool.not_eq_true _ ▸ hfree
  unfold sockFdRemoveAt sockFdRemove
  rw [if_neg hunlocked, if_neg (by omega), if_neg hunlocked, if_neg (by omega)]
  rfl

/-- An index that is not in use leaves the mutex locked. -/
theorem sockFdRemoveAt_invalid (hfree : m.locked = false) {index : Int}
    (hout : ¬ (0 ≤ index ∧ index < m.fdCount)) :
    sockFdRemoveAt m index = some (.failure, { m with locked := true }) := by
  have hunlocked : ¬ m.locked = true := Bool.not_eq_true _ ▸ hfree
  unfold sockFdRemoveAt sockFdRemove
  rw [if_neg hunlocked]
  by_cases hneg : index < 0
  · rw [if_pos hneg]
  · rw [if_neg hneg, if_neg hunlocked, if_pos (by omega)]

theorem removed_last (index : Nat) : (removed m index).fdArr (m.fdCount - 1) = ⟨-1, 0, 0⟩ :=
  Function.update_self _ _ _

theorem removed_other {index idx : Nat} (hidx : idx ≠ index) (hlast : idx ≠ m.fdCount - 1) :
    (removed m index).fdArr idx = m.fdArr idx := by
  show Function.update _ (m.fdCount - 1) _ idx = _
  rw [Function.update_of_ne hlast]
  split
  · rw [Function.update_of_ne hidx]
  · rfl

/-- What is in a slot that stays in use. -/
theorem removed_slot {index idx : Nat} (hidx : idx < m.fdCount - 1) :
    (removed m index).fdArr idx =
      if idx = index then m.fdArr (m.fdCount - 1) else m.fdArr idx := by
  by_cases hi : idx = index
  · show Function.update _ (m.fdCount - 1) _ idx = _
    rw [Function.update_of_ne (Nat.ne_of_lt hidx), if_pos hi, hi, if_pos (by omega),
      Function.update_self]
  · rw [removed_other hi (Nat.ne_of_lt hidx), if_neg hi]

theorem removed_fds {index : Nat} (hlt : index < m.fdCount) :
    (m.fdArr index).fd ::ₘ (removed m index).fds = m.fds := by
  have hmoved : (removed m index).fds = slots (Function.update (fun idx => (m.fdArr idx).fd) index
      (m.fdArr (m.fdCount - 1)).fd) (m.fdCount - 1) := by
    apply slots_congr
    intro idx hidx
    show ((removed m index).fdArr idx).fd = _
    rw [removed_slot hidx]
    by_cases hi : idx = index
    · rw [if_pos hi, hi, Function.update_self]
    · rw [if_neg hi, Function.update_of_ne hi]
  rw [hmoved, slots_swapRemove (fun idx => (m.fdArr idx).fd) (by omega),
    Nat.sub_add_cancel (by omega)]
  rfl

theorem removed_wellFormed (h : m.WellFormed) (index : Nat) : (removed m index).WellFormed :=
  ⟨Nat.le_trans (Nat.sub_le _ _) h.room, h.capacity, h.pos⟩

/-! ### Runs

Each call in range is one insertion or one removal.
-/

/-- The table holds the server's descriptor and what was added, less what was taken. -/
structure Tabled (serverFd : Int) (s : SockTable) : Prop where
  /-- The table is sound. -/
  wellFormed : s.mgr.WellFormed
  /-- The mutex is free. -/
  unlocked : s.mgr.locked = false
  /-- The server's own descriptor is in front. -/
  server : 1 ≤ s.mgr.fdCount ∧ (s.mgr.fdArr 0).fd = serverFd
  /-- The table has what was added and not taken. -/
  fds : s.mgr.fds + s.taken = serverFd ::ₘ s.added
  /-- Every entry is polled for input. -/
  events : ∀ idx, idx < s.mgr.fdCount → (s.mgr.fdArr idx).events = pollIn

theorem sockMgrInit_tabled (serverFd maxFds : Int) :
    Tabled serverFd ⟨sockMgrInit zeroManager serverFd maxFds defaultFdCapacity, 0, 0⟩ := by
  have hcap : 1 ≤ defaultFdCapacity := by decide
  refine ⟨⟨hcap, rfl, hcap⟩, rfl, ⟨Nat.le_refl 1, rfl⟩, ?_, ?_⟩
  · rw [sockMgrInit_fds]
    rfl
  · intro idx hidx
    obtain rfl : idx = 0 := Nat.lt_one_iff.mp hidx
    rfl

variable {serverFd : Int} {s s' : SockTable}

/-- One call: it succeeds, stays inside the array, and keeps the table. -/
theorem Tabled.step (h : Tabled serverFd s) {op : SockOp} (hop : InRange s op) :
    ∃ s', sockStep s op = some s' ∧ sockExec s.mgr op = some (.success, s'.mgr) ∧
      (∀ idx ∈ slotsUsed s.mgr op, idx < s'.mgr.allocated) ∧ Tabled serverFd s' := by
  cases op with
  | add fd realloc =>
      obtain ⟨m₁, hgrown, hadd⟩ := sockFdAdd_grown h.wellFormed h.unlocked fd fun _ => hop
      have hwf := hgrown.wellFormed fd
      have hroom := hgrown.room
      refine ⟨⟨appended m₁ fd, fd ::ₘ s.added, s.taken⟩, by simp [sockStep, sockExec, hadd], hadd,
        ?_, ?_⟩
      · intro idx hidx
        rw [List.mem_singleton.mp hidx]
        show s.mgr.fdCount < m₁.allocated
        rw [← hgrown.capacity]
        exact hroom
      · refine ⟨hwf, hgrown.unlocked.trans h.unlocked, ⟨Nat.succ_le_succ (Nat.zero_le _), ?_⟩,
          ?_, ?_⟩
        · rw [hgrown.kept_appended fd h.server.1]
          exact h.server.2
        · rw [hgrown.fds, Multiset.cons_add, h.fds]
          exact Multiset.cons_swap _ _ _
        · intro idx hidx
          have hle : idx ≤ s.mgr.fdCount := by
            rw [← hgrown.count]
            exact Nat.le_of_lt_succ hidx
          rcases Nat.lt_or_eq_of_le hle with hlt | heq
          · rw [hgrown.kept_appended fd hlt]
            exact h.events idx hlt
          · show (Function.update m₁.fdArr m₁.fdCount _ idx).events = _
            rw [heq, ← hgrown.count, Function.update_self]
  | remove index =>
      obtain ⟨hpos, hlt⟩ := hop
      have hremove := sockFdRemoveAt_eq h.unlocked (by omega) hlt
      refine ⟨⟨removed s.mgr index.toNat, s.added, (s.mgr.fdArr index.toNat).fd ::ₘ s.taken⟩,
        by simp [sockStep, sockExec, hremove], hremove, ?_, ?_⟩
      · have hcap : s.mgr.fdCount ≤ s.mgr.allocated := by
          rw [← h.wellFormed.capacity]
          exact h.wellFormed.room
        intro idx hidx
        show idx < s.mgr.allocated
        simp only [slotsUsed, List.mem_cons, List.not_mem_nil, or_false] at hidx
        omega
      · refine ⟨removed_wellFormed h.wellFormed _, h.unlocked, ⟨?_, ?_⟩, ?_, ?_⟩
        · show 1 ≤ s.mgr.fdCount - 1
          omega
        · rw [removed_slot (by omega), if_neg (by omega)]
          exact h.server.2
        · show (removed s.mgr index.toNat).fds + _ ::ₘ s.taken = _
          rw [Multiset.add_cons, ← Multiset.cons_add, removed_fds (by omega)]
          exact h.fds
        · intro idx hidx
          have hidx' : idx < s.mgr.fdCount - 1 := hidx
          rw [removed_slot hidx']
          split
          · exact h.events _ (by omega)
          · exact h.events _ (by omega)

/-- In every state of a run the table is the server's descriptor, what was added and not what was
taken; and no call of the run is refused. -/
theorem sockSystem_tabled {maxFds : Int} (h : (sockSystem serverFd maxFds).ReachIf InRange s) :
    Tabled serverFd s ∧ ∀ op, InRange s op → ∃ s', sockStep s op = some s' ∧
      sockExec s.mgr op = some (.success, s'.mgr) ∧
        ∀ idx ∈ slotsUsed s.mgr op, idx < s'.mgr.allocated := by
  have hinv : Tabled serverFd s := by
    apply h.invariant
    · intro s hs
      rw [hs]
      exact sockMgrInit_tabled serverFd maxFds
    · intro s op s' hinv hop hs
      obtain ⟨s₁, hs₁, -, -, hinv'⟩ := hinv.step hop
      rw [Option.some.inj (hs.symm.trans hs₁)]
      exact hinv'
  refine ⟨hinv, ?_⟩
  intro op hop
  obtain ⟨s', hs', hsuccess, hin, -⟩ := hinv.step hop
  exact ⟨s', hs', hsuccess, hin⟩

/-- Growing the array, and removing from the middle of it; one more descriptor is added. -/
theorem sockSystem_tabled_run :
    ∃ s, (sockSystem 3 8).run ⟨sockMgrInit zeroManager 3 8 defaultFdCapacity, 0, 0⟩
        [.add 7 (some fun _ => ⟨0, 0, 9⟩), .add 8 (some fun _ => ⟨0, 0, 9⟩),
          .add 9 (some fun _ => ⟨0, 0, 9⟩), .add 10 (some fun _ => ⟨0, 0, 9⟩),
          .add 11 (some fun _ => ⟨0, 0, 9⟩), .remove 2] = some s ∧
      s.mgr.fdCapacity = 10 ∧ s.mgr.fds = {3, 7, 11, 9, 10} ∧ Tabled 3 s ∧
      ∃ s', sockStep s (.add 12 (some fun _ => ⟨0, 0, 9⟩)) = some s' ∧
        sockExec s.mgr (.add 12 (some fun _ => ⟨0, 0, 9⟩)) = some (.success, s'.mgr) ∧
          ∀ idx ∈ slotsUsed s.mgr (.add 12 (some fun _ => ⟨0, 0, 9⟩)), idx < s'.mgr.allocated := by
  have h0 : (sockSystem 3 8).ReachIf InRange
      ⟨sockMgrInit zeroManager 3 8 defaultFdCapacity, 0, 0⟩ := .init rfl
  have h1 := h0.step (l := SockOp.add 7 (some fun _ => ⟨0, 0, 9⟩)) rfl rfl
  have h2 := h1.step (l := SockOp.add 8 (some fun _ => ⟨0, 0, 9⟩)) rfl rfl
  have h3 := h2.step (l := SockOp.add 9 (some fun _ => ⟨0, 0, 9⟩)) rfl rfl
  have h4 := h3.step (l := SockOp.add 10 (some fun _ => ⟨0, 0, 9⟩)) rfl rfl
  have h5 := h4.step (l := SockOp.add 11 (some fun _ => ⟨0, 0, 9⟩)) rfl rfl
  have h6 := h5.step (l := SockOp.remove 2) ⟨by decide, by decide⟩ rfl
  obtain ⟨htabled, hnext⟩ := sockSystem_tabled h6
  exact ⟨_, rfl, rfl, rfl, htabled, hnext _ rfl⟩

/-! ### The mutex

Which calls give it back, and what those leave that fail.
-/

/-- The entries in use, their number and the capacity are as before. -/
structure SameTable (m m' : SocketManager) : Prop where
  /-- As many slots are in use. -/
  count : m'.fdCount = m.fdCount
  /-- The capacity is the same. -/
  capacity : m'.fdCapacity = m.fdCapacity
  /-- The entries are where they were. -/
  entries : ∀ idx, idx < m.fdCount → m'.fdArr idx = m.fdArr idx

/-- A call has given the mutex back, and has changed nothing if it failed. -/
structure Released (m : SocketManager) (c : ExitCode) (m' : SocketManager) : Prop where
  /-- The mutex is free. -/
  unlocked : m'.locked = false
  /-- A call that failed has changed nothing. -/
  failed : c ≠ .success → SameTable m m'

theorem sockExec_released_iff (h : m.WellFormed) (hfree : m.locked = false) (op : SockOp) :
    ∃ c m', sockExec m op = some (c, m') ∧ m'.WellFormed ∧ (Released m c m' ↔ Releases m op) := by
  have hlocked : ∀ c, ¬ Released m c { m with locked := true } := by
    intro c hr
    exact Bool.noConfusion hr.unlocked
  cases op with
  | add fd realloc =>
      by_cases hmem : m.fdCount = m.fdCapacity → realloc.isSome
      · obtain ⟨m₁, hgrown, hadd⟩ := sockFdAdd_grown h hfree fd hmem
        refine ⟨.success, appended m₁ fd, hadd, hgrown.wellFormed fd, ?_⟩
        apply iff_of_true
        · exact ⟨hgrown.unlocked.trans hfree, fun hc => absurd rfl hc⟩
        · exact hmem
      · obtain ⟨hfull, hnone⟩ := Classical.not_imp.mp hmem
        rw [Option.not_isSome_iff_eq_none] at hnone
        rw [hnone]
        refine ⟨_, _, sockFdAdd_noMemory hfree fd hfull, ⟨h.room, h.capacity, h.pos⟩, ?_⟩
        apply iff_of_false (hlocked _)
        intro hrel
        exact absurd (hrel hfull) Bool.false_ne_true
  | remove index =>
      by_cases hin : 0 ≤ index ∧ index < m.fdCount
      · refine ⟨_, _, sockFdRemoveAt_eq hfree hin.1 hin.2, removed_wellFormed h _, ?_⟩
        apply iff_of_true
        · exact ⟨hfree, fun hc => absurd rfl hc⟩
        · exact hin
      · refine ⟨_, _, sockFdRemoveAt_invalid hfree hin, ⟨h.room, h.capacity, h.pos⟩, ?_⟩
        exact iff_of_false (hlocked _) hin

/-- As long as every call is one that gives the mutex back, no call blocks; and the next call
gives it back exactly when it is one more of these. -/
theorem lockSystem_released {m₀ : SocketManager} (h₀ : m₀.WellFormed) (hfree : m₀.locked = false)
    (h : (lockSystem m₀).ReachIf Releases m) :
    m.locked = false ∧ ∀ op, ∃ c m', sockExec m op = some (c, m') ∧
      (Released m c m' ↔ Releases m op) := by
  have hinv : m.WellFormed ∧ m.locked = false := by
    apply h.invariant (I := fun m => m.WellFormed ∧ m.locked = false)
    · intro m hm
      rw [hm]
      exact ⟨h₀, hfree⟩
    · intro m op m' hinv hop hs
      obtain ⟨c, m₁, hexec, hwf, hiff⟩ := sockExec_released_iff hinv.1 hinv.2 op
      obtain ⟨x, hx, hm'⟩ := Option.map_eq_some_iff.mp hs
      rw [Option.some.inj (hx.symm.trans hexec)] at hm'
      rw [← hm']
      exact ⟨hwf, (hiff.mpr hop).unlocked⟩
  refine ⟨hinv.2, ?_⟩
  intro op
  obtain ⟨c, m', hexec, -, hiff⟩ := sockExec_released_iff hinv.1 hinv.2 op
  exact ⟨c, m', hexec, hiff⟩

/-- The manager of a server on descriptor 3. -/
def newManager : SocketManager := sockMgrInit zeroManager 3 8 defaultFdCapacity

theorem newManager_wellFormed : newManager.WellFormed := ⟨by decide, rfl, by decide⟩

/-- Adding a client and removing it. -/
theorem lockSystem_released_run :
    ∃ m, (lockSystem newManager).run newManager [.add 7 none, .remove 1] = some m ∧
      m.locked = false ∧ ∀ op, ∃ c m', sockExec m op = some (c, m') ∧
        (Released m c m' ↔ Releases m op) := by
  have h0 : (lockSystem newManager).ReachIf Releases newManager := .init rfl
  have h1 := h0.step (l := SockOp.add 7 none) (fun h => absurd h (by decide)) rfl
  have h2 := h1.step (l := SockOp.remove 1) ⟨by decide, by decide⟩ rfl
  exact ⟨_, rfl, lockSystem_released newManager_wellFormed rfl h2⟩

/-- An index behind the entries in use: the mutex stays locked. -/
theorem mutex_kept :
    ¬ ∀ (m : SocketManager) (op : SockOp), m.WellFormed → m.locked = false →
      ∃ c m', sockExec m op = some (c, m') ∧ Released m c m' := by
  intro hall
  obtain ⟨c, m', hexec, hr⟩ := hall newManager (.remove 1) newManager_wellFormed rfl
  have hlocked : sockExec newManager (.remove 1) =
      some (.failure, { newManager with locked := true }) :=
    rfl
  obtain ⟨-, rfl⟩ := Prod.mk.inj (Option.some.inj (hexec.symm.trans hlocked))
  exact absurd hr.unlocked (by decide)

end CmakeTemplate
