/-
What adding and removing do to the descriptors in the array.

`fds m` is the multiset of the descriptors in use.  `sock_fd_add` puts one in and
`sock_fd_remove` takes one out; the slots behind those in use report no events, and the slots
that stay keep their place, but for the last one.

That no slot behind those in use reports anything is an invariant as long as what `realloc`
leaves in new slots reports nothing.  It matters as the main loop looks at as many slots as
were in use at the beginning of a pass: one that has been emptied in the meantime is looked
at, and has to be silent.  So an entry that is looked at and has an event is in use.
-/
import CmakeTemplate.Server

namespace CmakeTemplate

open Lib

variable {m m' : SocketManager}

/-- The descriptors in `fd_arr[0..fd_count)`. -/
def SocketManager.fds (m : SocketManager) : Multiset Int :=
  slots (fun idx => (m.fdArr idx).fd) m.fdCount

structure ManagerInv (m : SocketManager) : Prop where
  /-- Slots that are not in use report nothing. -/
  quiet : ∀ idx, m.fdCount ≤ idx → (m.fdArr idx).revents = 0
  /-- The descriptors fit into the capacity. -/
  room : m.fdCount ≤ m.fdCapacity
  /-- The capacity is the size of the array. -/
  capacity : m.fdCapacity = m.allocated

/-- New slots report nothing. -/
def CleanSlots (realloc : Option (Nat → PollFd)) : Prop :=
  ∀ fresh, realloc = some fresh → ∀ idx, (fresh idx).revents = 0

theorem sockMgrInit_inv (fd maxFds : Int) :
    ManagerInv (sockMgrInit zeroManager fd maxFds defaultFdCapacity) where
  quiet idx _ := by
    show (if idx = 0 then (⟨fd, pollIn, 0⟩ : PollFd) else if (idx : Int) < 0 then ⟨-1, 0, 0⟩
      else ⟨0, 0, 0⟩).revents = 0
    split_ifs <;> rfl
  room := show 1 ≤ 5 by decide
  capacity := rfl

theorem sockMgrInit_fds (fd maxFds : Int) :
    (sockMgrInit zeroManager fd maxFds defaultFdCapacity).fds = {fd} := rfl

/-- The slots in use when an entry with the event `e` is looked at. -/
theorem ManagerInv.inUse (h : ManagerInv m) {idx : Nat} (he : (m.fdArr idx).revents ≠ 0) :
    idx < m.fdCount :=
  Nat.lt_of_not_le fun hc => he (h.quiet idx hc)

/-! ### Adding

In the slot behind the last, of this array or of a larger one.
-/

/-- `fd` has been put behind the descriptors in use. -/
structure Appended (m m' : SocketManager) (fd : Int) : Prop where
  /-- The invariant is kept. -/
  inv : ManagerInv m'
  /-- The descriptor is one more. -/
  fds : m'.fds = fd ::ₘ m.fds
  /-- One more is counted. -/
  count : m'.fdCount = m.fdCount + 1
  /-- The others are where they were. -/
  kept : ∀ idx, idx < m.fdCount → m'.fdArr idx = m.fdArr idx
  /-- The mutex is as it was. -/
  unlocked : m'.locked = m.locked

theorem sockFdAppend_spec {c : ExitCode} {fd : Int} (h : ManagerInv m)
    (hadd : sockFdAppend m fd = some (c, m')) : c = .success ∧ Appended m m' fd := by
  unfold sockFdAppend at hadd
  split at hadd
  · rename_i hroom
    obtain ⟨rfl, rfl⟩ := Prod.mk.inj (Option.some.inj hadd)
    refine ⟨rfl, ⟨?_, ?_, h.capacity⟩, ?_, rfl, ?_, rfl⟩
    · intro idx hidx
      exact (congrArg PollFd.revents (Function.update_of_ne (Nat.ne_of_gt hidx) _ _)).trans
        (h.quiet idx (Nat.le_of_succ_le hidx))
    · show m.fdCount + 1 ≤ m.fdCapacity
      rw [h.capacity]
      exact hroom
    · show slots (PollFd.fd ∘ Function.update m.fdArr m.fdCount _) (m.fdCount + 1) = _
      rw [Function.comp_update, slots_push]
      rfl
    · exact fun idx hidx => Function.update_of_ne (Nat.ne_of_lt hidx) _ _
  · simp at hadd

theorem sockFdIncreaseCapacity_inv {fresh : Nat → PollFd} (h : ManagerInv m)
    (hclean : ∀ idx, (fresh idx).revents = 0) :
    ManagerInv (sockFdIncreaseCapacity m (some fresh)).2 where
  quiet idx hidx := by
    show (if idx < m.allocated then m.fdArr idx else fresh idx).revents = 0
    split
    · exact h.quiet idx hidx
    · exact hclean idx
  room := Nat.le_trans h.room (Nat.le_mul_of_pos_right _ (by decide))
  capacity := rfl

/-- A descriptor is added, or there is no memory and the mutex stays locked. -/
theorem sockFdAdd_spec {c : ExitCode} {fd : Int} {realloc : Option (Nat → PollFd)}
    (h : ManagerInv m) (hclean : CleanSlots realloc)
    (hadd : sockFdAdd m fd realloc = some (c, m')) :
    m.locked = false ∧ (c = .success ∧ Appended m m' fd ∨
      c ≠ .success ∧ m.fdCount = m.fdCapacity ∧ realloc = none ∧ m' = { m with locked := true }) := by
  unfold sockFdAdd at hadd
  split at hadd
  · simp at hadd
  · rename_i hfree
    refine ⟨by simpa using hfree, ?_⟩
    split at hadd
    · rename_i hfull
      cases realloc with
      | none =>
          obtain ⟨rfl, rfl⟩ := Prod.mk.inj (Option.some.inj hadd)
          exact .inr ⟨by simp, hfull, rfl, rfl⟩
      | some fresh =>
          obtain ⟨hc, happ⟩ :=
            sockFdAppend_spec (sockFdIncreaseCapacity_inv h (hclean fresh rfl)) hadd
          -- the slots in use are among those `realloc` keeps
          have hkept : ∀ idx, idx < m.fdCount →
              (sockFdIncreaseCapacity m (some fresh)).2.fdArr idx = m.fdArr idx := by
            intro idx hidx
            exact if_pos (Nat.lt_of_lt_of_le hidx (h.capacity ▸ h.room))
          refine .inl ⟨hc, happ.inv, ?_, happ.count, ?_, happ.unlocked⟩
          · rw [happ.fds]
            exact congrArg (fd ::ₘ ·) (slots_congr fun idx hidx => congrArg _ (hkept idx hidx))
          · exact fun idx hidx => (happ.kept idx hidx).trans (hkept idx hidx)
    · exact .inl (sockFdAppend_spec h hadd)

/-! ### Removing

The last descriptor is moved into the slot, whose events are its own then.
-/

/-- The descriptor in a slot is taken out. -/
theorem sockFdRemove_spec {c : ExitCode} {idx : Nat} (h : ManagerInv m) (hidx : idx < m.fdCount)
    (hrem : sockFdRemove m idx = some (c, m')) :
    m.locked = false ∧ ManagerInv m' ∧ m.fds = (m.fdArr idx).fd ::ₘ m'.fds ∧
      m'.locked = false := by
  unfold sockFdRemove at hrem
  split at hrem
  · simp at hrem
  · rename_i hfree
    rw [if_neg (Nat.not_le.mpr hidx)] at hrem
    have hm' := (Prod.mk.inj (Option.some.inj hrem)).2
    have hlocked : m.locked = false := by simpa using hfree
    obtain ⟨n, hn⟩ : ∃ n, m.fdCount = n + 1 := ⟨m.fdCount - 1, by omega⟩
    have hlast : m.fdCount - 1 = n := by omega
    have hle : idx ≤ n := by omega
    -- with the last slot itself, moving it changes nothing
    have harr : m'.fdArr = Function.update (Function.update m.fdArr idx (m.fdArr n)) n ⟨-1, 0, 0⟩ := by
      rw [← hm', hlast]
      by_cases hin : idx = n
      · simp [hin]
      · simp [hin]
    have hcount : m'.fdCount = n := by rw [← hm', hlast]
    refine ⟨hlocked, ⟨?_, ?_, ?_⟩, ?_, by rw [← hm']; exact hlocked⟩
    · intro i hi
      rw [hcount] at hi
      rw [harr]
      by_cases hin : i = n
      · rw [hin, Function.update_self]
      · have hni : n < i := Nat.lt_of_le_of_ne hi (Ne.symm hin)
        rw [Function.update_of_ne hin,
          Function.update_of_ne (Nat.ne_of_gt (Nat.lt_of_le_of_lt hle hni))]
        exact h.quiet i (hn ▸ hni)
    · rw [hcount, ← hlast, ← hm']
      exact Nat.le_trans (Nat.sub_le _ _) h.room
    · rw [← hm']
      exact h.capacity
    · have hunused : slots (fun i => (m'.fdArr i).fd) n
          = slots (Function.update (fun i => (m.fdArr i).fd) idx (m.fdArr n).fd) n := by
        refine slots_congr fun i hi => ?_
        rw [harr, Function.update_of_ne (Nat.ne_of_lt hi)]
        exact congrFun (Function.comp_update PollFd.fd m.fdArr idx (m.fdArr n)) i
      rw [SocketManager.fds, SocketManager.fds, hn, hcount, hunused]
      exact (slots_swapRemove _ hle).symm

end CmakeTemplate
