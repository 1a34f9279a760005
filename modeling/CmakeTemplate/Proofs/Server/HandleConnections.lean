/-
Which clients one call of `handle_connections` serves.

The loop is a scan that takes entries out by moving the last one into their place, so an entry
that has been moved to an index the loop has left is not served in this pass.  A client that
`register_client` puts at the end is moved first, and shields one entry.  All ready clients
are served exactly when there are enough other entries at the end.

The table is followed by the scan: `Scanned` says what stands at the indices that are still
ahead, how many entries there are, and which jobs have been made.  One entry of the loop is
one step of the scan, unless the loop blocks there: it does where `register_client` needs a
larger array and has no memory, since the mutex stays locked and the next entry asks for it.
The condition of the scan is then put in terms of the entries and the outcomes.
-/
import CmakeTemplate.HandleConnections
import CmakeTemplate.Lib.SwapScan
import CmakeTemplate.Proofs.Server.Register

namespace CmakeTemplate

open Lib

variable {s t t' : ClientsState} {outs : Nat → EntryOutcome} {i : Nat}

/-! ### The pass as a scan

An entry is kept, taken out, or makes the table grow, by what is in it and what the system
answers.
-/

/-- There is a slot for the client that is taken in at this entry, or memory for one. -/
def hasSlot (s : ClientsState) (outs : Nat → EntryOutcome) (idx : Nat) : Bool :=
  s.mgr.fdCount ≠ s.mgr.fdCapacity ||
    ((List.range idx).any fun j => readyClient s j && (outs j).calloc) ||
    (outs idx).realloc.isSome

/-- What the loop does at an entry, if it finds it where it was. -/
def entryKind (s : ClientsState) (outs : Nat → EntryOutcome) (idx : Nat) : ScanKind :=
  if takesIn s outs idx then if hasSlot s outs idx then .grow else .keep
  else if readyClient s idx && (outs idx).calloc then .take else .keep

/-- The loop as far as the table matters. -/
def passScan (s : ClientsState) (outs : Nat → EntryOutcome) (i : Nat) : Scan :=
  scan (entryKind s outs) s.mgr.fdCount i

theorem takesIn_not_client {idx : Nat} (h : takesIn s outs idx = true) :
    readyClient s idx = false := by
  simp only [takesIn, Bool.and_eq_true, decide_eq_true_eq] at h
  simp [readyClient, h.1.2]

theorem entryKind_take {idx : Nat} :
    entryKind s outs idx = .take ↔ readyClient s idx = true ∧ (outs idx).calloc = true := by
  unfold entryKind
  by_cases hin : takesIn s outs idx = true
  · rw [if_pos hin, takesIn_not_client hin]
    split <;> simp
  · rw [if_neg hin]
    by_cases hserved : (readyClient s idx && (outs idx).calloc) = true
    · rw [if_pos hserved]
      simpa using hserved
    · rw [if_neg hserved]
      simpa using hserved

theorem entryKind_grow {idx : Nat} :
    entryKind s outs idx = .grow ↔ takesIn s outs idx = true ∧ hasSlot s outs idx = true := by
  unfold entryKind
  by_cases hin : takesIn s outs idx = true
  · rw [if_pos hin]
    by_cases hslot : hasSlot s outs idx = true
    · simp [hin, hslot]
    · simp [hin, hslot]
  · rw [if_neg hin]
    split <;> simp [hin]

/-- The descriptors in the table are distinct. -/
def Distinct (s : ClientsState) : Prop :=
  ∀ i < s.mgr.fdCount, ∀ j < s.mgr.fdCount, (s.mgr.fdArr i).fd = (s.mgr.fdArr j).fd → i = j

/-- Where the loop is in the table, and what it has left of it. -/
structure Scanned (s : ClientsState) (outs : Nat → EntryOutcome) (i : Nat) (t : ClientsState) :
    Prop where
  /-- The table is sound. -/
  wellFormed : t.mgr.WellFormed
  /-- The server has its descriptor. -/
  fd : t.fd = s.fd
  /-- As many entries are left as the scan has. -/
  count : t.mgr.fdCount = (passScan s outs i).bound + (passScan s outs i).extra
  /-- Up to the bound the entries are where they were. -/
  ahead : ∀ j, i ≤ j → j < (passScan s outs i).bound → t.mgr.fdArr j = s.mgr.fdArr j
  /-- Behind it nothing is ready. -/
  behind : ∀ j, i ≤ j → (passScan s outs i).bound ≤ j → j < s.mgr.fdCount →
    (t.mgr.fdArr j).revents = 0
  /-- The array has room for what there was. -/
  room : s.mgr.fdCount ≤ t.mgr.fdCapacity
  /-- It has not grown, as long as the table has not. -/
  capacity : (∀ p < i, entryKind s outs p ≠ .grow) → t.mgr.fdCapacity = s.mgr.fdCapacity
  /-- The entries that were taken out are jobs now. -/
  jobs : t.jobs = s.jobs ++ (passScan s outs i).taken.map fun j => (s.mgr.fdArr j).fd

theorem Scanned.init (h : s.mgr.WellFormed) : Scanned s outs 0 s where
  wellFormed := h
  fd := rfl
  count := rfl
  ahead _ _ _ := rfl
  behind _ _ hle hlt := absurd hlt (Nat.not_lt.mpr hle)
  room := h.room
  capacity _ := rfl
  jobs := (List.append_nil _).symm

/-- An entry that neither leaves the table nor enlarges it. -/
theorem Scanned.same (h : Scanned s outs i t) (hscan : passScan s outs (i + 1) = passScan s outs i)
    (hwf : t'.mgr.WellFormed) (hfd : t'.fd = t.fd) (hcount : t'.mgr.fdCount = t.mgr.fdCount)
    (harr : ∀ j, i < j → t'.mgr.fdArr j = t.mgr.fdArr j)
    (hcap : t'.mgr.fdCapacity = t.mgr.fdCapacity) (hjobs : t'.jobs = t.jobs) :
    Scanned s outs (i + 1) t' where
  wellFormed := hwf
  fd := hfd.trans h.fd
  count := by rw [hcount, hscan, h.count]
  ahead j hj hlt := by
    rw [harr j hj]
    exact h.ahead j (Nat.le_of_succ_le hj) (hscan ▸ hlt)
  behind j hj hle hlt := by
    rw [harr j hj]
    exact h.behind j (Nat.le_of_succ_le hj) (hscan ▸ hle) hlt
  room := hcap ▸ h.room
  capacity hp := hcap.trans (h.capacity fun p hlt => hp p (Nat.lt_succ_of_lt hlt))
  jobs := by rw [hjobs, hscan, h.jobs]

/-- The entry is given to a worker, and the last one is moved into its place. -/
theorem Scanned.scanned_take (h : Scanned s outs i t) (hk : entryKind s outs i = .take)
    (hin : i < (passScan s outs i).bound) :
    Scanned s outs (i + 1) { t with
      mgr := removed t.mgr i, jobs := t.jobs ++ [(t.mgr.fdArr i).fd] } := by
  have hstep : passScan s outs (i + 1) =
      { (passScan s outs i).shrink with taken := (passScan s outs i).taken ++ [i] } :=
    Scan.step_take hin hk
  have hbound := scan_bound_anti (entryKind s outs) s.mgr.fdCount (Nat.le_succ i)
  obtain ⟨hsum, hedge⟩ : (passScan s outs i).shrink.bound + (passScan s outs i).shrink.extra =
      t.mgr.fdCount - 1 ∧ ((passScan s outs i).shrink.bound = (passScan s outs i).bound ∨
        (passScan s outs i).shrink.bound = t.mgr.fdCount - 1 ∧
          (passScan s outs i).bound = t.mgr.fdCount) := by
    rw [h.count]
    unfold Scan.shrink
    split
    · dsimp only
      omega
    · dsimp only
      omega
  constructor
  · exact removed_wellFormed h.wellFormed i
  · exact h.fd
  · rw [hstep]
    exact hsum.symm
  · intro j hj hlt
    rw [hstep] at hlt
    have hlast : j < t.mgr.fdCount - 1 := by
      have : j < (passScan s outs i).shrink.bound := hlt
      omega
    have hslot : (removed t.mgr i).fdArr j =
        if j = i then t.mgr.fdArr (t.mgr.fdCount - 1) else t.mgr.fdArr j := removed_slot hlast
    rw [if_neg (by omega)] at hslot
    refine hslot.trans (h.ahead j (Nat.le_of_succ_le hj) ?_)
    exact Nat.lt_of_lt_of_le hlt (hstep ▸ hbound)
  · intro j hj hle hlt
    rw [hstep] at hle
    have hle' : (passScan s outs i).shrink.bound ≤ j := hle
    by_cases hlast : j = t.mgr.fdCount - 1
    · show ((removed t.mgr i).fdArr j).revents = 0
      rw [hlast, removed_last]
    · show ((removed t.mgr i).fdArr j).revents = 0
      rw [removed_other (by omega) hlast]
      refine h.behind j (Nat.le_of_succ_le hj) ?_ hlt
      omega
  · exact h.room
  · intro hp
    exact h.capacity fun p hlt => hp p (Nat.lt_succ_of_lt hlt)
  · rw [hstep]
    show t.jobs ++ [(t.mgr.fdArr i).fd] = _
    rw [h.jobs, h.ahead i (Nat.le_refl i) hin, List.map_append, List.append_assoc]
    rfl

/-- A client is put behind the last entry. -/
theorem Scanned.scanned_grow (h : Scanned s outs i t) (hk : entryKind s outs i = .grow)
    (hin : i < (passScan s outs i).bound) (hkept : Kept t.mgr t'.mgr)
    (hcount : t'.mgr.fdCount = t.mgr.fdCount + 1) (hfd : t'.fd = t.fd) (hjobs : t'.jobs = t.jobs) :
    Scanned s outs (i + 1) t' := by
  have hstep : passScan s outs (i + 1) =
      { passScan s outs i with extra := (passScan s outs i).extra + 1 } :=
    Scan.step_grow hin hk
  constructor
  · exact hkept.wellFormed
  · exact hfd.trans h.fd
  · rw [hstep, hcount, h.count]
    exact Nat.add_assoc _ _ _
  · intro j hj hlt
    rw [hstep] at hlt
    have hlt' : j < (passScan s outs i).bound := hlt
    rw [hkept.entries j (by rw [h.count]; omega)]
    exact h.ahead j (Nat.le_of_succ_le hj) hlt'
  · intro j hj hle hlt
    rw [hstep] at hle
    rw [hkept.revents j (Nat.lt_of_lt_of_le hlt h.room)]
    exact h.behind j (Nat.le_of_succ_le hj) hle hlt
  · exact Nat.le_trans h.room hkept.fdCapacity
  · intro hp
    exact absurd hk (hp i (Nat.lt_succ_self i))
  · rw [hjobs, hstep, h.jobs]

/-! ### One entry

What the loop does at an entry, and what it does to the scan.
-/

/-- The loop will wait for the mutex for ever behind this entry: there is a client to take in,
and no memory. -/
def Blocks (s : ClientsState) (outs : Nat → EntryOutcome) (idx : Nat) : Prop :=
  idx < s.mgr.fdCount ∧ takesIn s outs idx = true ∧ hasSlot s outs idx = false

theorem takesIn_unique (hd : Distinct s) {p q : Nat} (hp : p < s.mgr.fdCount)
    (hq : q < s.mgr.fdCount) (htp : takesIn s outs p = true) (htq : takesIn s outs q = true) :
    p = q := by
  simp only [takesIn, Bool.and_eq_true, decide_eq_true_eq] at htp htq
  exact hd p hp q hq (htp.1.2.trans htq.1.2.symm)

theorem entryKind_once (hd : Distinct s) : GrowsOnce (entryKind s outs) s.mgr.fdCount :=
  fun _ hp _ hq hgp hgq =>
    takesIn_unique hd hp hq (entryKind_grow.mp hgp).1 (entryKind_grow.mp hgq).1

/-- In front of the entry that takes a client in, none does. -/
theorem not_grow_before (hd : Distinct s) (hi : i < s.mgr.fdCount) (hin : takesIn s outs i = true) :
    ∀ p < i, entryKind s outs p ≠ .grow := by
  intro p hp hk
  have := takesIn_unique hd (Nat.lt_trans hp hi) hi (entryKind_grow.mp hk).1 hin
  omega

/-- Until an entry is taken out or a client taken in, the table is as it was. -/
theorem passScan_untouched (hfirst : ∀ p < i, entryKind s outs p ≠ .grow)
    (hnone : ∀ p < i, entryKind s outs p ≠ .take) :
    (passScan s outs i).bound = s.mgr.fdCount := by
  have hkeep : ∀ p < i, entryKind s outs p = .keep := by
    intro p hp
    exact ScanKind.eq_keep (hfirst p hp) (hnone p hp)
  rw [passScan, scan_untouched hkeep]

theorem hasSlot_eq_true {idx : Nat} : hasSlot s outs idx = true ↔
    s.mgr.fdCount ≠ s.mgr.fdCapacity ∨ (∃ j < idx, entryKind s outs j = .take) ∨
      (outs idx).realloc.isSome := by
  simp only [hasSlot, Bool.or_eq_true, decide_eq_true_eq, List.any_eq_true, List.mem_range,
    Bool.and_eq_true, entryKind_take, or_assoc]

/-- What `hasSlot` says where the loop is. -/
theorem Scanned.grows_iff (h : Scanned s outs i t) (hwf : s.mgr.WellFormed) (hd : Distinct s)
    (hi : i < s.mgr.fdCount) (hfirst : ∀ p < i, entryKind s outs p ≠ .grow) :
    Grows t (outs i).realloc ↔ hasSlot s outs i = true := by
  have hone : GrowsOnce (entryKind s outs) s.mgr.fdCount := entryKind_once hd
  obtain ⟨hextra, hbound⟩ := scan_not_grown hone (Nat.le_of_lt hi) hfirst
  have hcount : t.mgr.fdCount = (passScan s outs i).bound := by
    rw [h.count, show (passScan s outs i).extra = 0 from hextra, Nat.add_zero]
  have hsum : (passScan s outs i).bound + (passScan s outs i).taken.length = s.mgr.fdCount := hbound
  have hcap := h.capacity hfirst
  have hroom := hwf.room
  rw [hasSlot_eq_true]
  constructor
  · intro hgrows
    by_contra hnot
    simp only [not_or, not_not, not_exists, not_and] at hnot
    obtain ⟨hfull, hnone, hmem⟩ := hnot
    have hwhole := passScan_untouched hfirst hnone
    exact hmem (hgrows (by omega))
  · intro hslot hfull
    rcases hslot with hroomy | ⟨j, hj, hk⟩ | hmem
    · omega
    · -- the first entry taken out has left a free slot
      have hanti := scan_bound_anti (entryKind s outs) s.mgr.fdCount (Nat.le_of_lt hj)
      have hall : (scan (entryKind s outs) s.mgr.fdCount i).bound = (passScan s outs i).bound := rfl
      have hmemj : j ∈ (passScan s outs i).taken := mem_scan_taken.mpr ⟨hj, hk, by omega⟩
      have hpos := List.length_pos_of_mem hmemj
      omega
    · exact hmem

section Entry

variable {code : Int} {out : EntryOutcome}

/-- An entry that is not ready is closed, or nothing is done. -/
theorem handleEntry_idle (code : Int) (out : EntryOutcome) (hfree : t.mgr.locked = false)
    (hi : i < t.mgr.allocated) (hready : (t.mgr.fdArr i).ready = false) :
    ∃ t', handleEntry t code i out = some (code, t') ∧ t'.fd = t.fd ∧ t'.jobs = t.jobs ∧
      t'.mgr.locked = false ∧ t'.mgr.fdCount = t.mgr.fdCount ∧
      t'.mgr.fdCapacity = t.mgr.fdCapacity ∧ t'.mgr.allocated = t.mgr.allocated ∧
      ∀ j, i < j → t'.mgr.fdArr j = t.mgr.fdArr j := by
  unfold handleEntry
  rw [if_neg (by simp [hfree]), if_neg (Nat.not_le.mpr hi)]
  by_cases herr : (t.mgr.fdArr i).revents &&& pollErrorEvents = 0
  · have hin : (t.mgr.fdArr i).revents &&& pollIn = 0 := by
      simpa [PollFd.ready, herr] using hready
    rw [if_neg (not_not.mpr herr), if_pos hin]
    exact ⟨t, rfl, rfl, rfl, hfree, rfl, rfl, rfl, fun _ _ => rfl⟩
  · rw [if_pos herr]
    refine ⟨_, rfl, rfl, rfl, hfree, rfl, rfl, rfl, fun j hj => ?_⟩
    exact Function.update_of_ne (Nat.ne_of_gt hj) _ _

/-- A ready entry is the server's, or a client's. -/
theorem handleEntry_ready (hfree : t.mgr.locked = false) (hi : i < t.mgr.allocated)
    (hready : (t.mgr.fdArr i).ready = true) :
    handleEntry t code i out = if (t.mgr.fdArr i).fd = t.fd then
      registerClient t out.client out.realloc out.printed else handleClientEvent t i out := by
  simp only [PollFd.ready, Bool.and_eq_true, decide_eq_true_eq] at hready
  unfold handleEntry
  rw [if_neg (by simp [hfree]), if_neg (Nat.not_le.mpr hi), if_neg (not_not.mpr hready.1),
    if_neg hready.2]

/-- The client is in the table, closed or not. -/
theorem registerClient_grows {fd : Int} {realloc : Option (Nat → PollFd)} (printed : Int)
    (hwf : t.mgr.WellFormed) (hopen : t.isOpen t.fd = true ∧ 0 ≤ fd ∧ t.isOpen fd = false)
    (hfree : t.mgr.locked = false) (hmem : Grows t realloc) :
    ∃ code t', registerClient t (some (fd, true)) realloc printed = some (code, t') ∧
      t'.fd = t.fd ∧ t'.jobs = t.jobs ∧ t'.mgr.locked = false ∧ Kept t.mgr t'.mgr ∧
      t'.mgr.fdCount = t.mgr.fdCount + 1 := by
  obtain ⟨m₁, hgrown, hadd⟩ := sockFdAdd_grown hwf hfree fd hmem
  have hkept := sockFdAdd_kept hwf hadd
  have hcount : (appended m₁ fd).fdCount = t.mgr.fdCount + 1 := congrArg (· + 1) hgrown.count
  have hlock : (appended m₁ fd).locked = false := hgrown.unlocked.trans hfree
  rw [registerClient_add hopen, hadd]
  simp only [Option.bind_some, if_true]
  by_cases hprinted : printed ≠ 0
  · rw [if_pos hprinted]
    exact ⟨_, _, rfl, rfl, rfl, hlock, hkept, hcount⟩
  · rw [if_neg hprinted]
    exact ⟨_, _, rfl, rfl, rfl, hlock, hkept, hcount⟩

theorem sockFdRemove_removed {m : SocketManager} (hfree : m.locked = false) (hi : i < m.fdCount) :
    sockFdRemove m i = some (.success, removed m i) := by
  unfold sockFdRemove
  rw [if_neg (by simp [hfree]), if_neg (Nat.not_le.mpr hi)]
  rfl

/-- The job is queued, and the entry taken out. -/
theorem handleClientEvent_served (hfree : t.mgr.locked = false) (hi : i < t.mgr.fdCount)
    (hcalloc : out.calloc = true) (htask : out.addTask = true) :
    handleClientEvent t i out = some (0, { t with
      mgr := removed t.mgr i, jobs := t.jobs ++ [(t.mgr.fdArr i).fd] }) := by
  simp only [handleClientEvent, hcalloc, htask, Bool.and_self, if_true]
  rw [sockFdRemove_removed hfree hi]
  rfl

theorem handleClientEvent_noMemory (hcalloc : out.calloc = false) :
    handleClientEvent t i out = some (-1, t) := by
  unfold handleClientEvent
  rw [hcalloc]
  rfl

end Entry

/-- Where the loop will block, the table is still as it was. -/
theorem Blocks.inside_bound (hd : Distinct s) (h : Blocks s outs i) : i < (passScan s outs i).bound := by
  obtain ⟨hi, hin, hslot⟩ := h
  have hnot : ¬ hasSlot s outs i = true := by simp [hslot]
  rw [hasSlot_eq_true] at hnot
  simp only [not_or, not_exists, not_and] at hnot
  rw [passScan_untouched (not_grow_before hd hi hin) hnot.2.1]
  exact hi

/-- What `accept4` may answer where the loop calls it. -/
def AcceptsAt (t : ClientsState) (outs : Nat → EntryOutcome) (i : Nat) : Prop :=
  (t.mgr.fdArr i).ready = true → (t.mgr.fdArr i).fd = t.fd → Accepts t (outs i).client

/-- The loop at one entry, as far as it looks at it. -/
theorem Scanned.handleEntry_scanned (h : Scanned s outs i t) (hfree : t.mgr.locked = false)
    (hi : i < s.mgr.fdCount) (hready : (t.mgr.fdArr i).ready = false)
    (hscan : passScan s outs (i + 1) = passScan s outs i) (code : Int) :
    ∃ code' t', handleEntry t code i (outs i) = some (code', t') ∧ Scanned s outs (i + 1) t' ∧
      t'.mgr.locked = false := by
  have hialloc : i < t.mgr.allocated :=
    h.wellFormed.capacity ▸ Nat.lt_of_lt_of_le hi h.room
  obtain ⟨t', hret, hfd, hjobs, hlock, hcount, hcap, halloc, harr⟩ :=
    handleEntry_idle code (outs i) hfree hialloc hready
  have hwf : t'.mgr.WellFormed := by
    refine ⟨?_, ?_, ?_⟩
    · rw [hcount, hcap]
      exact h.wellFormed.room
    · rw [hcap, halloc]
      exact h.wellFormed.capacity
    · rw [hcap]
      exact h.wellFormed.pos
  exact ⟨code, t', hret, h.same hscan hwf hfd hcount harr hcap hjobs, hlock⟩

theorem passScan_keep (htake : ¬ (readyClient s i = true ∧ (outs i).calloc = true))
    (hgrow : ¬ (takesIn s outs i = true ∧ hasSlot s outs i = true)) :
    passScan s outs (i + 1) = passScan s outs i := by
  rw [← entryKind_take] at htake
  rw [← entryKind_grow] at hgrow
  exact Scan.step_keep (ScanKind.eq_keep hgrow htake)

theorem takesIn_eq_true : takesIn s outs i = true ↔
    (s.mgr.fdArr i).ready = true ∧ (s.mgr.fdArr i).fd = s.fd ∧ Connects (outs i).client := by
  simp only [takesIn, Connects, Bool.and_eq_true, decide_eq_true_eq, Option.any_eq_true, and_assoc]
  refine and_congr_right fun _ => and_congr_right fun _ => ?_
  constructor
  · rintro ⟨⟨fd, nonBlocking⟩, hclient, rfl⟩
    exact ⟨fd, hclient⟩
  · rintro ⟨fd, hclient⟩
    exact ⟨(fd, true), hclient, rfl⟩

/-- The loop at the server's own entry. -/
theorem Scanned.registerClient_scanned (h : Scanned s outs i t) (hwf : s.mgr.WellFormed)
    (hd : Distinct s)
    (hfree : t.mgr.locked = false) (hi : i < s.mgr.fdCount) (hin : i < (passScan s outs i).bound)
    (hready : (s.mgr.fdArr i).ready = true) (hserver : (s.mgr.fdArr i).fd = s.fd)
    (haccepts : Accepts t (outs i).client) :
    ∃ code t', registerClient t (outs i).client (outs i).realloc (outs i).printed =
      some (code, t') ∧ Scanned s outs (i + 1) t' ∧ (t'.mgr.locked = true ↔ Blocks s outs i) := by
  have htake : ¬ (readyClient s i = true ∧ (outs i).calloc = true) := by
    simp [readyClient, hserver]
  by_cases hconnects : Connects (outs i).client
  · have htakesIn : takesIn s outs i = true := takesIn_eq_true.mpr ⟨hready, hserver, hconnects⟩
    have hslot := h.grows_iff hwf hd hi (not_grow_before hd hi htakesIn)
    obtain ⟨fd, hfd⟩ := hconnects
    have hopen := haccepts fd true hfd
    rw [hfd]
    by_cases hgrows : Grows t (outs i).realloc
    · obtain ⟨code, t', hret, hfd', hjobs, hlock, hkept, hcount⟩ :=
        registerClient_grows (outs i).printed h.wellFormed hopen hfree hgrows
      have hk : entryKind s outs i = .grow := entryKind_grow.mpr ⟨htakesIn, hslot.mp hgrows⟩
      refine ⟨code, t', hret, h.scanned_grow hk hin hkept hcount hfd' hjobs, ?_⟩
      rw [hlock]
      refine iff_of_false Bool.false_ne_true fun hblocks => ?_
      have := hblocks.2.2.symm.trans (hslot.mp hgrows)
      cases this
    · have hnone : hasSlot s outs i = false :=
        Bool.eq_false_iff.mpr fun hc => hgrows (hslot.mpr hc)
      have hkeep := passScan_keep htake fun hc => Bool.false_ne_true (hnone.symm.trans hc.2)
      have hwf' : ({ t.mgr with locked := true } : SocketManager).WellFormed :=
        ⟨h.wellFormed.room, h.wellFormed.capacity, h.wellFormed.pos⟩
      refine ⟨_, _, registerClient_noMemory hopen hfree hgrows, ?_, ?_⟩
      · exact h.same hkeep hwf' rfl rfl (fun _ _ => rfl) rfl rfl
      · exact iff_of_true rfl ⟨hi, htakesIn, hnone⟩
  · have hnot : ¬ takesIn s outs i = true := fun hc => hconnects (takesIn_eq_true.mp hc).2.2
    have hkeep := passScan_keep htake fun hc => hnot hc.1
    have hret : registerClient t (outs i).client (outs i).realloc (outs i).printed =
        some (-1, t) := by
      cases hclient : (outs i).client with
      | none => rfl
      | some client =>
          obtain ⟨fd, nonBlocking⟩ := client
          cases nonBlocking with
          | false => exact registerClient_blocking (haccepts fd false hclient)
          | true => exact absurd ⟨fd, hclient⟩ hconnects
    refine ⟨-1, t, hret, ?_, ?_⟩
    · exact h.same hkeep h.wellFormed rfl rfl (fun _ _ => rfl) rfl rfl
    · rw [hfree]
      exact iff_of_false Bool.false_ne_true fun hblocks => hnot hblocks.2.1

/-- The loop at the entry of a client that is ready. -/
theorem Scanned.handleClientEvent_scanned (h : Scanned s outs i t) (hfree : t.mgr.locked = false)
    (hin : i < (passScan s outs i).bound) (hready : (s.mgr.fdArr i).ready = true)
    (hclient : (s.mgr.fdArr i).fd ≠ s.fd) (htask : (outs i).addTask = true) :
    ∃ code t', handleClientEvent t i (outs i) = some (code, t') ∧ Scanned s outs (i + 1) t' ∧
      t'.mgr.locked = false := by
  cases hcalloc : (outs i).calloc with
  | true =>
      have hk : entryKind s outs i = .take :=
        entryKind_take.mpr ⟨by simp [readyClient, hready, hclient], hcalloc⟩
      have hcount : i < t.mgr.fdCount := by
        rw [h.count]
        exact Nat.lt_of_lt_of_le hin (Nat.le_add_right _ _)
      exact ⟨0, _, handleClientEvent_served hfree hcount hcalloc htask, h.scanned_take hk hin, hfree⟩
  | false =>
      have hkeep : passScan s outs (i + 1) = passScan s outs i := by
        refine passScan_keep (fun hc => ?_) fun hc => hclient (takesIn_eq_true.mp hc.1).2.1
        exact Bool.false_ne_true (hcalloc.symm.trans hc.2)
      refine ⟨-1, t, handleClientEvent_noMemory hcalloc, ?_, hfree⟩
      exact h.same hkeep h.wellFormed rfl rfl (fun _ _ => rfl) rfl rfl

/-- One step of the loop is one step of the scan. -/
theorem Scanned.step (h : Scanned s outs i t) (hwf : s.mgr.WellFormed) (hd : Distinct s)
    (hfree : t.mgr.locked = false) (hi : i < s.mgr.fdCount) (htask : (outs i).addTask = true)
    (haccepts : AcceptsAt t outs i) (code : Int) :
    ∃ code' t', handleEntry t code i (outs i) = some (code', t') ∧ Scanned s outs (i + 1) t' ∧
      (t'.mgr.locked = true ↔ Blocks s outs i) := by
  have halloc : i < t.mgr.allocated := h.wellFormed.capacity ▸ Nat.lt_of_lt_of_le hi h.room
  by_cases hin : i < (passScan s outs i).bound
  · have hsame := h.ahead i (Nat.le_refl i) hin
    cases hready : (s.mgr.fdArr i).ready with
    | false =>
        have hkeep : passScan s outs (i + 1) = passScan s outs i :=
          passScan_keep (by simp [readyClient, hready]) (by simp [takesIn, hready])
        obtain ⟨code', t', hret, hnext, hlock⟩ :=
          h.handleEntry_scanned hfree hi (by rw [hsame, hready]) hkeep code
        refine ⟨code', t', hret, hnext, ?_⟩
        rw [hlock]
        refine iff_of_false Bool.false_ne_true fun hblocks => ?_
        have := (takesIn_eq_true.mp hblocks.2.1).1
        rw [hready] at this
        cases this
    | true =>
        rw [handleEntry_ready hfree halloc (by rw [hsame, hready]), hsame, h.fd]
        by_cases hserver : (s.mgr.fdArr i).fd = s.fd
        · rw [if_pos hserver]
          have hacc : Accepts t (outs i).client :=
            haccepts (by rw [hsame, hready]) (by rw [hsame, hserver, h.fd])
          exact h.registerClient_scanned hwf hd hfree hi hin hready hserver hacc
        · rw [if_neg hserver]
          obtain ⟨code', t', hret, hnext, hlock⟩ :=
            h.handleClientEvent_scanned hfree hin hready hserver htask
          refine ⟨code', t', hret, hnext, ?_⟩
          rw [hlock]
          refine iff_of_false Bool.false_ne_true fun hblocks => ?_
          exact hserver (takesIn_eq_true.mp hblocks.2.1).2.1
  · have hout := Nat.not_lt.mp hin
    have hrevents := h.behind i (Nat.le_refl i) hout hi
    have hready : (t.mgr.fdArr i).ready = false := by
      simp [PollFd.ready, hrevents]
    obtain ⟨code', t', hret, hnext, hlock⟩ :=
      h.handleEntry_scanned hfree hi hready (Scan.step_out hout) code
    refine ⟨code', t', hret, hnext, ?_⟩
    rw [hlock]
    exact iff_of_false Bool.false_ne_true fun hblocks => hin (hblocks.inside_bound hd)

/-! ### The whole pass

The loop ends behind the last entry or blocks behind one.
-/

/-- A sound table of distinct descriptors, with the thread pool taking every job and `accept4`
answering what it may. -/
structure PassInput (s : ClientsState) (outs : Nat → EntryOutcome) : Prop where
  /-- The table is sound. -/
  wellFormed : s.mgr.WellFormed
  /-- No descriptor has two entries. -/
  distinct : Distinct s
  /-- The pool takes every job. -/
  addTask : ∀ i < s.mgr.fdCount, (outs i).addTask = true
  /-- `accept4` answers with a new descriptor, or an error. -/
  accepts : ∀ i < s.mgr.fdCount, ∀ code t, handleUpTo s outs i = some (code, t) →
    AcceptsAt t outs i

/-- As long as it does not block, the loop follows the scan. -/
theorem handleUpTo_scanned (hp : PassInput s outs) (hfree : s.mgr.locked = false)
    (hi : i ≤ s.mgr.fdCount) (hno : ∀ q, q + 1 < i → ¬ Blocks s outs q) :
    ∃ code t, handleUpTo s outs i = some (code, t) ∧ Scanned s outs i t ∧
      (t.mgr.locked = true ↔ ∃ q, q + 1 = i ∧ Blocks s outs q) := by
  induction i with
  | zero =>
      refine ⟨-1, s, rfl, .init hp.wellFormed, ?_⟩
      rw [hfree]
      refine iff_of_false Bool.false_ne_true ?_
      rintro ⟨q, hq, -⟩
      exact Nat.succ_ne_zero q hq
  | succ i ih =>
      obtain ⟨code, t, hret, hscan, hlock⟩ :=
        ih (Nat.le_of_succ_le hi) fun q hq => hno q (Nat.lt_succ_of_lt hq)
      have hfree' : t.mgr.locked = false := by
        rw [Bool.eq_false_iff]
        intro hc
        obtain ⟨q, hq, hblocks⟩ := hlock.mp hc
        exact hno q (by omega) hblocks
      obtain ⟨code', t', hstep, hnext, hlock'⟩ := hscan.step hp.wellFormed hp.distinct hfree' hi
        (hp.addTask i hi) (hp.accepts i hi code t hret) code
      refine ⟨code', t', ?_, hnext, ?_⟩
      · show (handleUpTo s outs i).bind _ = _
        rw [hret]
        exact hstep
      · rw [hlock']
        constructor
        · exact fun hblocks => ⟨i, rfl, hblocks⟩
        · rintro ⟨q, hq, hblocks⟩
          rwa [← Nat.succ_injective hq]

theorem handleUpTo_none {j : Nat} (h : handleUpTo s outs i = none) (hij : i ≤ j) :
    handleUpTo s outs j = none := by
  induction hij with
  | refl => exact h
  | step _ ih =>
      show (handleUpTo s outs _).bind _ = _
      rw [ih]
      rfl

/-- Behind an entry that has left the mutex locked the loop does not get on. -/
theorem handleUpTo_blocked (hp : PassInput s outs) (hfree : s.mgr.locked = false) {q : Nat}
    (hblocks : Blocks s outs q) (hq : q + 1 < i) (hi : i ≤ s.mgr.fdCount) :
    handleUpTo s outs i = none := by
  have hno : ∀ p, p + 1 < q + 1 → ¬ Blocks s outs p := by
    intro p hpq hblocks'
    have := takesIn_unique hp.distinct hblocks'.1 hblocks.1 hblocks'.2.1 hblocks.2.1
    omega
  obtain ⟨code, t, hret, -, hlock⟩ :=
    handleUpTo_scanned hp hfree (Nat.le_of_lt (Nat.lt_of_lt_of_le hq hi)) hno
  refine handleUpTo_none (i := q + 2) ?_ hq
  show (handleUpTo s outs (q + 1)).bind _ = _
  rw [hret]
  exact if_pos (hlock.mpr ⟨q, rfl, hblocks⟩)

theorem handleConnections_returns (hp : PassInput s outs) (hfree : s.mgr.locked = false)
    (hno : ∀ q, q + 1 < s.mgr.fdCount → ¬ Blocks s outs q) :
    ∃ code t, handleConnections s outs = some (code, t) ∧ Scanned s outs s.mgr.fdCount t := by
  obtain ⟨code, t, hret, hscan, -⟩ := handleUpTo_scanned hp hfree (Nat.le_refl _) hno
  refine ⟨code, t, ?_, hscan⟩
  unfold handleConnections
  rw [if_neg (by simp [hfree]), hret]

theorem handleConnections_some (hp : PassInput s outs) {code : Int}
    (h : handleConnections s outs = some (code, t)) :
    s.mgr.locked = false ∧ (∀ q, q + 1 < s.mgr.fdCount → ¬ Blocks s outs q) ∧
      Scanned s outs s.mgr.fdCount t := by
  have hfree : s.mgr.locked = false := by
    rw [Bool.eq_false_iff]
    intro hc
    rw [handleConnections, if_pos hc] at h
    cases h
  have hret : handleUpTo s outs s.mgr.fdCount = some (code, t) := by
    rw [handleConnections, if_neg (by simp [hfree])] at h
    exact h
  have hno : ∀ q, q + 1 < s.mgr.fdCount → ¬ Blocks s outs q := by
    intro q hq hblocks
    rw [handleUpTo_blocked hp hfree hblocks hq (Nat.le_refl _)] at hret
    cases hret
  obtain ⟨code', t', hret', hscan, -⟩ := handleUpTo_scanned hp hfree (Nat.le_refl _) hno
  obtain ⟨-, rfl⟩ := Prod.mk.inj (Option.some.inj (hret.symm.trans hret'))
  exact ⟨hfree, hno, hscan⟩

/-! ### All ready clients, once

The entries that are taken out are those of all ready clients exactly when the end of the
table is clear of them.
-/

/-- Each client that is ready is given to the workers once, and nobody else is. -/
def ServesEach (s : ClientsState) (outs : Nat → EntryOutcome) : Prop :=
  ∃ code t served, handleConnections s outs = some (code, t) ∧ t.jobs = s.jobs ++ served ∧
    served.Perm (readyFds s)

/-- There is memory for the job of each client that is ready. -/
def Memory (s : ClientsState) (outs : Nat → EntryOutcome) : Prop :=
  ∀ idx < s.mgr.fdCount, readyClient s idx = true → (outs idx).calloc = true

/-- The pass has memory and does not block, and the last ready client is at least as far from
the end of the table as there are ready clients, or one less when a client is taken in in front
of two of them. -/
structure PassFits (s : ClientsState) (outs : Nat → EntryOutcome) : Prop where
  /-- The mutex is free. -/
  unlocked : s.mgr.locked = false
  /-- There is memory for each job. -/
  memory : Memory s outs
  /-- The loop does not block. -/
  returns : ∀ p, p + 1 < s.mgr.fdCount → takesIn s outs p = true →
    s.mgr.fdCount = s.mgr.fdCapacity → 0 < readyBelow s p ∨ (outs p).realloc.isSome
  /-- The end of the table is clear of ready clients. -/
  clear : ∀ idx < s.mgr.fdCount, readyClient s idx = true →
    idx + readyBelow s s.mgr.fdCount ≤ s.mgr.fdCount ∨
      (idx + readyBelow s s.mgr.fdCount ≤ s.mgr.fdCount + 1 ∧
        ∃ p < s.mgr.fdCount, takesIn s outs p = true ∧
          readyBelow s p + 2 ≤ readyBelow s s.mgr.fdCount)

theorem Memory.kind (h : Memory s outs) {idx : Nat} (hidx : idx < s.mgr.fdCount) :
    entryKind s outs idx = .take ↔ readyClient s idx = true := by
  rw [entryKind_take]
  exact ⟨fun hc => hc.1, fun hc => ⟨hc, h idx hidx hc⟩⟩

theorem Memory.takes (h : Memory s outs) (hi : i ≤ s.mgr.fdCount) :
    Lib.takes (entryKind s outs) i = readyBelow s i := by
  induction i with
  | zero => rfl
  | succ i ih =>
      have ih := ih (Nat.le_of_succ_le hi)
      rw [readyBelow, Nat.count_succ, ← readyBelow, ← ih]
      by_cases hready : readyClient s i = true
      · rw [takes_succ_take ((h.kind hi).mpr hready), if_pos hready]
      · rw [takes_succ_other (mt (h.kind hi).mp hready), if_neg hready, Nat.add_zero]

theorem Memory.hasSlot_iff (h : Memory s outs) (hi : i ≤ s.mgr.fdCount) :
    hasSlot s outs i = true ↔ (s.mgr.fdCount = s.mgr.fdCapacity →
      0 < readyBelow s i ∨ (outs i).realloc.isSome) := by
  rw [hasSlot_eq_true, ← h.takes hi, takes_pos]
  by_cases hfull : s.mgr.fdCount = s.mgr.fdCapacity
  · simp [hfull]
  · simp [hfull]

/-- The entries that are taken out are those of all ready clients. -/
theorem taken_perm (hmem : Memory s outs) (hall : TakesAll (entryKind s outs) s.mgr.fdCount) :
    (passScan s outs s.mgr.fdCount).taken.Perm
      ((List.range s.mgr.fdCount).filter (readyClient s)) := by
  have hnodup := scan_taken_nodup (entryKind s outs) s.mgr.fdCount s.mgr.fdCount
  refine (List.perm_ext_iff_of_nodup hnodup (List.nodup_range.filter _)).mpr fun idx => ?_
  rw [List.mem_filter, List.mem_range]
  constructor
  · intro hidx
    obtain ⟨hlt, hk, -⟩ := mem_scan_taken.mp hidx
    exact ⟨hlt, (hmem.kind hlt).mp hk⟩
  · rintro ⟨hlt, hready⟩
    exact hall idx hlt ((hmem.kind hlt).mpr hready)

theorem PassFits.hasSlot (h : PassFits s outs) {p : Nat} (hp : p + 1 < s.mgr.fdCount)
    (hin : takesIn s outs p = true) : hasSlot s outs p = true :=
  (h.memory.hasSlot_iff (Nat.le_of_lt (Nat.lt_of_succ_lt hp))).mpr (h.returns p hp hin)

theorem PassFits.endClear (h : PassFits s outs) : EndClear (entryKind s outs) s.mgr.fdCount := by
  intro i hi hk
  rw [h.memory.takes (Nat.le_refl _)]
  rcases h.clear i hi ((h.memory.kind hi).mp hk) with hfar | ⟨hfar, p, hp, hin, htwo⟩
  · exact .inl hfar
  · refine .inr ⟨hfar, p, hp, ?_, ?_⟩
    · -- two clients cannot be behind the last entry
      have hnext : p + 1 < s.mgr.fdCount := by
        refine Nat.lt_of_le_of_ne hp fun hc => ?_
        rw [← hc, readyBelow, readyBelow, Nat.count_succ] at htwo
        split at htwo <;> omega
      exact entryKind_grow.mpr ⟨hin, h.hasSlot hnext hin⟩
    · rw [h.memory.takes (Nat.le_of_lt hp)]
      exact htwo

theorem PassFits.servesEach (hp : PassInput s outs) (h : PassFits s outs) : ServesEach s outs := by
  have hno : ∀ q, q + 1 < s.mgr.fdCount → ¬ Blocks s outs q := by
    intro q hq hblocks
    have := hblocks.2.2.symm.trans (h.hasSlot hq hblocks.2.1)
    cases this
  obtain ⟨code, t, hret, hscan⟩ := handleConnections_returns hp h.unlocked hno
  have hone : GrowsOnce (entryKind s outs) s.mgr.fdCount := entryKind_once hp.distinct
  have hall := (takesAll_iff hone).mpr h.endClear
  exact ⟨code, t, _, hret, hscan.jobs, (taken_perm h.memory hall).map _⟩

/-- Where each ready client is served once, all of them have been seen, with memory. -/
theorem ServesEach.all_taken (hp : PassInput s outs) (h : ServesEach s outs) {idx : Nat}
    (hidx : idx < s.mgr.fdCount) (hready : readyClient s idx = true) :
    idx ∈ (passScan s outs s.mgr.fdCount).taken := by
  obtain ⟨code, t, served, hret, hjobs, hperm⟩ := h
  obtain ⟨-, -, hscan⟩ := handleConnections_some hp hret
  obtain rfl : served = _ := List.append_cancel_left (hjobs.symm.trans hscan.jobs)
  have hnodup := scan_taken_nodup (entryKind s outs) s.mgr.fdCount s.mgr.fdCount
  have hsub : (passScan s outs s.mgr.fdCount).taken ⊆
      (List.range s.mgr.fdCount).filter (readyClient s) := by
    intro x hx
    obtain ⟨hlt, hk, -⟩ := mem_scan_taken.mp hx
    exact List.mem_filter.mpr ⟨List.mem_range.mpr hlt, (entryKind_take.mp hk).1⟩
  have hlen := hperm.length_eq
  rw [readyFds, List.length_map, List.length_map] at hlen
  have hsame := (hnodup.subperm hsub).perm_of_length_le (Nat.le_of_eq hlen.symm)
  exact hsame.mem_iff.mpr (List.mem_filter.mpr ⟨List.mem_range.mpr hidx, hready⟩)

theorem ServesEach.passFits (hp : PassInput s outs) (h : ServesEach s outs) : PassFits s outs := by
  have htaken : ∀ {idx : Nat}, idx < s.mgr.fdCount → readyClient s idx = true →
      idx ∈ (passScan s outs s.mgr.fdCount).taken := h.all_taken hp
  obtain ⟨code, t, served, hret, -⟩ := h
  obtain ⟨hfree, hno, -⟩ := handleConnections_some hp hret
  have hmem : Memory s outs := fun idx hidx hready =>
    (entryKind_take.mp (mem_scan_taken.mp (htaken hidx hready)).2.1).2
  have hall : TakesAll (entryKind s outs) s.mgr.fdCount :=
    fun idx hidx hk => htaken hidx (entryKind_take.mp hk).1
  have hone : GrowsOnce (entryKind s outs) s.mgr.fdCount := entryKind_once hp.distinct
  have hclear := (takesAll_iff hone).mp hall
  refine ⟨hfree, hmem, fun p hlt hin => ?_, fun idx hidx hready => ?_⟩
  · refine (hmem.hasSlot_iff (Nat.le_of_lt (Nat.lt_of_succ_lt hlt))).mp ?_
    by_contra hslot
    exact hno p hlt ⟨Nat.lt_of_succ_lt hlt, hin, Bool.eq_false_iff.mpr hslot⟩
  · have hfar := hclear idx hidx ((hmem.kind hidx).mpr hready)
    rw [hmem.takes (Nat.le_refl _)] at hfar
    rcases hfar with hfar | ⟨hfar, p, hlt, hk, htwo⟩
    · exact .inl hfar
    · rw [hmem.takes (Nat.le_of_lt hlt)] at htwo
      exact .inr ⟨hfar, p, hlt, (entryKind_grow.mp hk).1, htwo⟩

/-- One pass serves every ready client once exactly when the end of the table is clear of
ready clients. -/
theorem handleConnections_servesEach_iff (hp : PassInput s outs) :
    ServesEach s outs ↔ PassFits s outs :=
  ⟨fun h => h.passFits hp, fun h => h.servesEach hp⟩

/-- A server with the descriptor 3 and these entries. -/
def polledTable (entries : List PollFd) : ClientsState where
  mgr := { fdArr := fun idx => entries.getD idx ⟨-1, 0, 0⟩, allocated := 5, maxFds := 8,
           fdCount := entries.length, fdCapacity := 5, locked := false }
  fd := 3
  isOpen fd := fd = 3 || entries.any fun e => e.fd = fd
  jobs := []
  leaving := none

/-- Everything succeeds, and a client waits for the server if there is one. -/
def polledOutcomes (client : Option (Int × Bool)) (idx : Nat) : EntryOutcome where
  client := if idx = 0 then client else none
  realloc := none
  printed := 0
  calloc := true
  addTask := true

theorem polledOutcomes_accepts {entries : List PollFd} {client : Option (Int × Bool)}
    (h : Accepts (polledTable entries) client) {idx : Nat} {code : Int}
    (hret : handleUpTo (polledTable entries) (polledOutcomes client) idx = some (code, t)) :
    AcceptsAt t (polledOutcomes client) idx := by
  intro _ _
  cases idx with
  | zero =>
      cases hret
      exact h
  | succ idx =>
      intro fd nonBlocking hc
      simp [polledOutcomes] at hc

/-- A new client, and two that are ready behind the server's entry: the new one is moved first. -/
theorem handleConnections_servesEach_run :
    ServesEach (polledTable [⟨3, pollIn, pollIn⟩, ⟨7, pollIn, pollIn⟩, ⟨8, pollIn, pollIn⟩])
      (polledOutcomes (some (9, true))) := by
  have haccepts : Accepts (polledTable [⟨3, pollIn, pollIn⟩, ⟨7, pollIn, pollIn⟩,
      ⟨8, pollIn, pollIn⟩]) (some (9, true)) := by
    rintro fd nonBlocking ⟨⟩
    decide
  have hinput : PassInput (polledTable [⟨3, pollIn, pollIn⟩, ⟨7, pollIn, pollIn⟩,
      ⟨8, pollIn, pollIn⟩]) (polledOutcomes (some (9, true))) :=
    ⟨⟨by decide, rfl, by decide⟩, by unfold Distinct; decide, fun _ _ => rfl,
      fun _ _ _ _ hret => polledOutcomes_accepts haccepts hret⟩
  refine (handleConnections_servesEach_iff hinput).mpr ⟨rfl, fun _ _ _ => rfl, ?_, by decide⟩
  intro p _ _ hfull
  exact absurd hfull (by decide)

/-- Two clients are ready at the end of the table: the second is moved away from the loop. -/
theorem second_client_skipped :
    ∃ t, handleConnections (polledTable [⟨3, pollIn, 0⟩, ⟨7, pollIn, pollIn⟩,
        ⟨8, pollIn, pollIn⟩]) (polledOutcomes none) = some (0, t) ∧ t.jobs = [7] ∧
      PassInput (polledTable [⟨3, pollIn, 0⟩, ⟨7, pollIn, pollIn⟩, ⟨8, pollIn, pollIn⟩])
        (polledOutcomes none) ∧
      ¬ ServesEach (polledTable [⟨3, pollIn, 0⟩, ⟨7, pollIn, pollIn⟩, ⟨8, pollIn, pollIn⟩])
        (polledOutcomes none) := by
  have haccepts : Accepts (polledTable [⟨3, pollIn, 0⟩, ⟨7, pollIn, pollIn⟩,
      ⟨8, pollIn, pollIn⟩]) none := by
    intro fd nonBlocking hc
    cases hc
  refine ⟨_, rfl, rfl, ⟨⟨by decide, rfl, by decide⟩, by unfold Distinct; decide, fun _ _ => rfl,
    fun _ _ _ _ hret => polledOutcomes_accepts haccepts hret⟩, ?_⟩
  rintro ⟨code, t, served, hret, hjobs, hperm⟩
  cases hret
  obtain rfl : [7] = served := hjobs
  exact absurd hperm.length_eq (by decide)

end CmakeTemplate
