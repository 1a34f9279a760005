/-
What `sock_mgr_init` writes, and what `sock_fd_add` writes after it.

The array has DEFAULT_FD_CAPACITY slots, the loop over it ends at the `max_fds` that the
manager held before, and the capacity that is recorded is the argument.  All three fit
together exactly when neither of the two is larger than the array and the capacity is not
below 1; the test of `sock_fd_add` for equality then never comes too late.

The fields are `int`s, and doubling a capacity may wrap.  A run of additions keeps `Room`: the
next descriptor goes into the array, or the array is enlarged for it, or its size can no
longer be allocated and nothing is written.  The rest of the server is modelled with numbers
for these fields; while the capacity is far from the largest `int`, both models do the same.
-/
import CmakeTemplate.IntManager
import CmakeTemplate.SocketTable

namespace CmakeTemplate

open Lib

theorem wrapInt_eq (x : Int) : wrapInt x =
    if x % 4294967296 < 2147483648 then x % 4294967296 else x % 4294967296 - 4294967296 := rfl

theorem wrapInt_of_lt {x : Int} (h0 : 0 ≤ x) (h : x < 2147483648) : wrapInt x = x := by
  rw [wrapInt_eq]
  omega

/-- Twice an `int` is an `int`, or wraps to a negative number. -/
theorem wrapInt_double {x : Int} (h0 : 0 ≤ x) (h : x < 2147483648) (hpos : 0 < wrapInt (x * 2)) :
    wrapInt (x * 2) = x * 2 ∧ x * 2 < 2147483648 := by
  rw [wrapInt_eq] at hpos ⊢
  omega

namespace IntManager

variable {m m' : IntManager}

/-! ### The initialisation

One loop writes to the array, and then the fields are set.
-/

theorem write_outside (m : IntManager) (idx : Int) (e : PollFd) :
    (m.write idx e).outside = false ↔ m.outside = false ∧ 0 ≤ idx ∧ idx < m.allocated := by
  unfold write
  split
  · rename_i hin
    exact ⟨fun h => ⟨h, hin⟩, fun h => h.1⟩
  · rename_i hin
    exact ⟨fun h => by simp at h, fun h => absurd h.2 hin⟩

theorem write_allocated (m : IntManager) (idx : Int) (e : PollFd) :
    (m.write idx e).allocated = m.allocated := by
  unfold write
  split
  · rfl
  · rfl

theorem markUnused_allocated (m : IntManager) (n : Nat) :
    (m.markUnused n).allocated = m.allocated := by
  induction n with
  | zero => rfl
  | succ n ih => exact (write_allocated _ _ _).trans ih

/-- The loop stays inside as long as its last index does. -/
theorem markUnused_outside (hpos : 0 < m.allocated) (n : Nat) :
    (m.markUnused n).outside = false ↔ m.outside = false ∧ (n : Int) < m.allocated := by
  induction n with
  | zero => exact ⟨fun h => ⟨h, hpos⟩, fun h => h.1⟩
  | succ n ih =>
      have hwrite := write_outside (m.markUnused n) (n + 1)
        { (m.markUnused n).fdArr (n + 1) with fd := -1, events := 0 }
      rw [ih, markUnused_allocated] at hwrite
      refine hwrite.trans ⟨fun h => ⟨h.1.1, ?_⟩, fun h => ⟨⟨h.1, ?_⟩, ?_, ?_⟩⟩
      · have := h.2.2
        omega
      · have := h.2
        omega
      · omega
      · have := h.2
        omega

/-- What a successful initialisation leaves. -/
theorem sockMgrInit_success {serverFd maxFds fdCapacity : Int} {calloc : Bool}
    (h : m.sockMgrInit serverFd maxFds fdCapacity calloc = (.success, m')) :
    m'.allocated = defaultFdCapacity ∧ m'.fdCapacity = fdCapacity ∧ m'.fdCount = 1 ∧
      (m'.outside = false ↔ m.maxFds ≤ defaultFdCapacity) := by
  unfold sockMgrInit sockFdArrInit at h
  split at h
  · cases h
  · cases calloc with
    | false => cases h
    | true =>
        simp only [if_true] at h
        obtain ⟨-, rfl⟩ := Prod.mk.inj h
        refine ⟨markUnused_allocated _ _, rfl, rfl, ?_⟩
        refine (markUnused_outside (show (0 : Int) < defaultFdCapacity by decide) _).trans ?_
        show false = false ∧ ((m.maxFds - 1).toNat : Int) < defaultFdCapacity ↔ _
        unfold defaultFdCapacity
        refine ⟨fun hlt => ?_, fun hle => ⟨rfl, ?_⟩⟩
        · have := hlt.2
          omega
        · omega

theorem sockMgrInit_succeeds {serverFd maxFds fdCapacity : Int} (hmax : 0 < maxFds) :
    ∃ m', m.sockMgrInit serverFd maxFds fdCapacity true = (.success, m') := by
  unfold sockMgrInit
  rw [if_neg (by omega)]
  exact ⟨_, rfl⟩

/-! ### Adding

The count grows by one at a time, so it meets the capacity where that is the size of the
array.
-/

/-- The next descriptor goes into the array, or the array is enlarged for it. -/
structure Room (m : IntManager) : Prop where
  /-- Nothing has been written outside. -/
  outside : m.outside = false
  /-- There is one descriptor at least. -/
  count : 1 ≤ m.fdCount
  /-- The descriptors fit into the capacity. -/
  capacity : m.fdCount ≤ m.fdCapacity
  /-- The capacity fits into the array. -/
  allocated : m.fdCapacity ≤ m.allocated
  /-- It is an `int`. -/
  isInt : m.fdCapacity < 2147483648

theorem Room.append (houtside : m.outside = false) (hcount : 1 ≤ m.fdCount)
    (hcap : m.fdCount < m.fdCapacity) (halloc : m.fdCapacity ≤ m.allocated)
    (hint : m.fdCapacity < 2147483648) (newFd : Int) : (m.sockFdAppend newFd).2.Room := by
  have hin : 0 ≤ m.fdCount ∧ m.fdCount < m.allocated := by omega
  have hwrap : wrapInt (m.fdCount + 1) = m.fdCount + 1 := wrapInt_of_lt (by omega) (by omega)
  have hwrite := write_outside m m.fdCount
    { m.fdArr m.fdCount.toNat with fd := newFd, events := pollIn }
  unfold sockFdAppend write at *
  rw [if_pos hin] at hwrite ⊢
  refine ⟨houtside, ?_, ?_, halloc, hint⟩
  · show 1 ≤ wrapInt (m.fdCount + 1)
    omega
  · show wrapInt (m.fdCount + 1) ≤ m.fdCapacity
    omega

theorem Room.step (h : m.Room) {newFd : Int} {fresh : Nat → PollFd} {c : ExitCode}
    (hadd : m.sockFdAdd newFd fresh = some (c, m')) : m'.Room := by
  have hcount := h.count
  have hcap := h.capacity
  have hint := h.isInt
  unfold sockFdAdd at hadd
  split at hadd
  · cases hadd
  · split at hadd
    · rename_i hfull
      by_cases hpos : 0 < wrapInt (m.fdCapacity * 2)
      · obtain ⟨hdouble, hlt⟩ := wrapInt_double (by omega) hint hpos
        rw [sockFdIncreaseCapacity, if_pos hpos] at hadd
        obtain ⟨-, rfl⟩ := Prod.mk.inj (Option.some.inj hadd)
        refine Room.append (m := { m with
            fdArr := fun idx => if (idx : Int) < m.allocated then m.fdArr idx else fresh idx
            allocated := wrapInt (m.fdCapacity * 2)
            fdCapacity := wrapInt (m.fdCapacity * 2) })
          h.outside hcount ?_ (Int.le_refl _) ?_ newFd
        · show m.fdCount < wrapInt (m.fdCapacity * 2)
          omega
        · show wrapInt (m.fdCapacity * 2) < 2147483648
          omega
      · -- a negative number of slots
        have hneg : wrapInt (m.fdCapacity * 2) ≠ 0 := by
          rw [wrapInt_eq]
          omega
        rw [sockFdIncreaseCapacity, if_neg hpos, if_neg hneg] at hadd
        obtain ⟨-, rfl⟩ := Prod.mk.inj (Option.some.inj hadd)
        exact ⟨h.outside, h.count, h.capacity, h.allocated, h.isInt⟩
    · rename_i hroom
      cases hadd
      exact Room.append h.outside hcount (by omega) h.allocated hint newFd

/-- From a manager with room, no run of additions writes outside. -/
theorem Room.run (h : m.Room) (hr : (addSystem m).Reach m') : m'.outside = false := by
  have hroom : m'.Room := by
    refine hr.invariant (I := Room) ?_ ?_
    · rintro _ rfl
      exact h
    · intro m₁ call m₂ hm₁ hs
      obtain ⟨⟨c, m₃⟩, hadd, rfl⟩ := Option.map_eq_some_iff.mp hs
      exact hm₁.step hadd
  exact hroom.outside

end IntManager

/-- The initialisation matches the capacity it records exactly when the old `max_fds` and the
new capacity fit the array. -/
theorem sockMgrInit_matches_iff (m : IntManager) (serverFd : Int) {maxFds : Int}
    (hmax : 0 < maxFds) (fdCapacity : Int) : InitMatches m serverFd maxFds fdCapacity ↔
      m.maxFds ≤ defaultFdCapacity ∧ 1 ≤ fdCapacity ∧ fdCapacity ≤ defaultFdCapacity := by
  constructor
  · intro h
    obtain ⟨m', hinit⟩ := IntManager.sockMgrInit_succeeds hmax
    obtain ⟨halloc, hcap, -, hout⟩ := IntManager.sockMgrInit_success hinit
    obtain ⟨houtside, hle, -⟩ := h true m' hinit
    rw [halloc, hcap] at hle
    exact ⟨hout.mp houtside, hle⟩
  · rintro ⟨hold, hpos, hle⟩ calloc m' hinit
    obtain ⟨halloc, hcap, hcount, hout⟩ := IntManager.sockMgrInit_success hinit
    have hroom : m'.Room := by
      refine ⟨hout.mpr hold, ?_, ?_, ?_, ?_⟩
      · rw [hcount]
      · rw [hcount, hcap]
        exact hpos
      · rw [halloc, hcap]
        exact hle
      · rw [hcap]
        unfold defaultFdCapacity at hle
        omega
    refine ⟨hroom.outside, ?_, fun m'' hr => hroom.run hr⟩
    rw [halloc, hcap]
    exact ⟨hpos, hle⟩

/-- A manager that nobody has used, but for its `max_fds`. -/
def heldBefore (maxFds : Int) : IntManager :=
  { fdArr := fun _ => ⟨0, 0, 0⟩, allocated := 0, maxFds, fdCount := 0, fdCapacity := 0,
    locked := false, outside := false }

/-- The server's own call. -/
theorem sockMgrInit_matches_server : InitMatches (heldBefore 0) 3 8 defaultFdCapacity :=
  (sockMgrInit_matches_iff (heldBefore 0) 3 (by decide) defaultFdCapacity).mpr (by decide)

/-- With an old `max_fds` of 8 the initialisation writes behind the array, and with a capacity
of 8 the fifth client does. -/
theorem init_writes_outside :
    (∃ m, (heldBefore 8).sockMgrInit 3 8 5 true = (.success, m) ∧ m.outside = true) ∧
    (∃ m m', (heldBefore 0).sockMgrInit 3 8 8 true = (.success, m) ∧ m.outside = false ∧
      (addSystem m).run m ([7, 8, 9, 10, 11].map fun fd => (fd, fun _ => ⟨0, 0, 0⟩)) = some m' ∧
      m'.outside = true) :=
  ⟨⟨_, rfl, rfl⟩, _, _, rfl, rfl, rfl, rfl⟩

/-! ### Against the numbers of the other modules

Each call on a manager with numbers is one on the manager with `int`s.
-/

/-- A manager with numbers as one with `int`s. -/
def SocketManager.toInt (m : SocketManager) : IntManager :=
  { fdArr := m.fdArr, allocated := m.allocated, maxFds := m.maxFds, fdCount := m.fdCount,
    fdCapacity := m.fdCapacity, locked := m.locked, outside := false }

theorem sockFdAppend_toInt {m : SocketManager} (hroom : m.fdCount < m.allocated)
    (hint : m.fdCount + 1 < 2147483648) (newFd : Int) :
    ∃ m', CmakeTemplate.sockFdAppend m newFd = some (.success, m') ∧
      m.toInt.sockFdAppend newFd = (.success, m'.toInt) := by
  have hin : 0 ≤ m.toInt.fdCount ∧ m.toInt.fdCount < m.toInt.allocated := by
    show (0 : Int) ≤ m.fdCount ∧ (m.fdCount : Int) < m.allocated
    omega
  have hwrap : wrapInt ((m.fdCount : Int) + 1) = (m.fdCount : Int) + 1 :=
    wrapInt_of_lt (by omega) (by omega)
  refine ⟨_, if_pos hroom, ?_⟩
  unfold IntManager.sockFdAppend IntManager.write
  rw [if_pos hin]
  show (ExitCode.success, IntManager.mk _ _ _ (wrapInt ((m.fdCount : Int) + 1)) _ _ _) = _
  rw [hwrap]
  rfl

/-- While `fd_capacity` is far from the largest `int`, both models add alike. -/
theorem sockFdAdd_toInt {m : SocketManager} (hwf : m.WellFormed) (hint : m.fdCapacity < 1073741823)
    (newFd : Int) (fresh : Nat → PollFd) :
    m.toInt.sockFdAdd newFd fresh =
      (sockFdAdd m newFd (some fresh)).map fun r => (r.1, r.2.toInt) := by
  have hpos := hwf.pos
  have hroom := hwf.room
  unfold IntManager.sockFdAdd sockFdAdd
  by_cases hlock : m.locked = true
  · rw [if_pos hlock, if_pos (show m.toInt.locked = true from hlock)]
    rfl
  · rw [if_neg hlock, if_neg (show ¬ m.toInt.locked = true from hlock)]
    by_cases hfull : m.fdCount = m.fdCapacity
    · have hwrap : wrapInt ((m.fdCapacity : Int) * 2) = ((m.fdCapacity * 2 : Nat) : Int) := by
        rw [wrapInt_of_lt (by omega) (by omega)]
        omega
      have hgrown : m.toInt.sockFdIncreaseCapacity fresh =
          (.success, (sockFdIncreaseCapacity m (some fresh)).2.toInt) := by
        unfold IntManager.sockFdIncreaseCapacity
        rw [show m.toInt.fdCapacity = (m.fdCapacity : Int) from rfl, hwrap, if_pos (by omega)]
        simp only [SocketManager.toInt, sockFdIncreaseCapacity, Int.ofNat_lt]
      obtain ⟨m', happ, happ'⟩ := sockFdAppend_toInt
        (m := (sockFdIncreaseCapacity m (some fresh)).2)
        (show m.fdCount < m.fdCapacity * 2 by omega)
        (show m.fdCount + 1 < 2147483648 by omega) newFd
      rw [if_pos hfull, if_pos (show m.toInt.fdCount = m.toInt.fdCapacity by
        exact congrArg Nat.cast hfull), hgrown]
      simp only [sockFdIncreaseCapacity] at happ happ' ⊢
      rw [happ, happ']
      rfl
    · obtain ⟨m', happ, happ'⟩ := sockFdAppend_toInt (m := m)
        (show m.fdCount < m.allocated by rw [← hwf.capacity]; omega) (by omega) newFd
      rw [if_neg hfull, if_neg (show ¬ m.toInt.fdCount = m.toInt.fdCapacity by
        exact fun hc => hfull (Int.ofNat_inj.mp hc)), happ, happ']
      rfl

theorem markUnused_eq {m : IntManager} {n : Nat} (hn : (n : Int) < m.allocated) :
    m.markUnused n = { m with fdArr := fun idx =>
      if 1 ≤ idx ∧ idx ≤ n then { m.fdArr idx with fd := -1, events := 0 } else m.fdArr idx } := by
  induction n with
  | zero =>
      have hsame : (fun idx => if 1 ≤ idx ∧ idx ≤ 0 then { m.fdArr idx with fd := -1, events := 0 }
          else m.fdArr idx) = m.fdArr := by
        funext idx
        exact if_neg (by omega)
      rw [hsame]
      rfl
  | succ n ih =>
      have ih := ih (by omega)
      have hin : 0 ≤ (n : Int) + 1 ∧ (n : Int) + 1 < m.allocated := by omega
      unfold IntManager.markUnused IntManager.write
      rw [ih]
      simp only
      rw [if_pos hin]
      congr 1
      funext idx
      by_cases hidx : idx = n + 1
      · subst hidx
        rw [show ((n : Int) + 1).toNat = n + 1 by omega, Function.update_self, if_neg (by omega),
          if_pos (by omega)]
      · rw [show ((n : Int) + 1).toNat = n + 1 by omega, Function.update_of_ne hidx]
        by_cases hle : 1 ≤ idx ∧ idx ≤ n
        · rw [if_pos hle, if_pos (by omega)]
        · rw [if_neg hle, if_neg (by omega)]

/-- With an old `max_fds` that fits the array, both models initialise alike. -/
theorem sockMgrInit_toInt {m : SocketManager} {serverFd maxFds : Int} {fdCapacity : Nat}
    (hmax : 0 < maxFds) (hold : m.maxFds ≤ defaultFdCapacity) :
    m.toInt.sockMgrInit serverFd maxFds fdCapacity true =
      (.success, (sockMgrInit m serverFd maxFds fdCapacity).toInt) := by
  have harr : ∀ n : Nat, ((m.maxFds - 1).toNat = n) → (fun idx : Nat =>
      if 1 ≤ idx ∧ idx ≤ n then
        { Function.update (fun _ => (⟨0, 0, 0⟩ : PollFd)) 0 ⟨serverFd, pollIn, 0⟩ idx with
          fd := -1, events := 0 }
      else Function.update (fun _ => (⟨0, 0, 0⟩ : PollFd)) 0 ⟨serverFd, pollIn, 0⟩ idx) =
      (sockMgrInit m serverFd maxFds fdCapacity).fdArr := by
    intro n hn
    funext idx
    show _ = if idx = 0 then (⟨serverFd, pollIn, 0⟩ : PollFd)
      else if (idx : Int) < m.maxFds then ⟨-1, 0, 0⟩ else ⟨0, 0, 0⟩
    by_cases hzero : idx = 0
    · subst hzero
      rw [if_neg (by omega), if_pos rfl]
      rfl
    · rw [if_neg hzero, Function.update_of_ne hzero]
      by_cases hlt : (idx : Int) < m.maxFds
      · rw [if_pos hlt, if_pos (by omega)]
      · rw [if_neg hlt, if_neg (by omega)]
  unfold IntManager.sockMgrInit IntManager.sockFdArrInit
  rw [if_neg (by omega)]
  simp only [if_true]
  rw [markUnused_eq]
  · simp only [SocketManager.toInt]
    rw [← harr _ rfl]
    rfl
  · show ((m.maxFds - 1).toNat : Int) < defaultFdCapacity
    unfold defaultFdCapacity at hold ⊢
    omega

end CmakeTemplate
