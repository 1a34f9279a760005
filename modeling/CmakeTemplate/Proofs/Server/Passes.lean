/-
What stands in the table at the end of a pass.

`PassInv.owned` counts for every descriptor the entries and jobs that have it: without an
error, and with every registration kept, there is one at most, and only of a descriptor
that is open; the entry that `handle_client_event` is about to take out is one too many.
A pass visits slots that were in use when it began, and those it has taken out since report
nothing, so what it finds to do is always an entry.
-/
import CmakeTemplate.Passes
import CmakeTemplate.Proofs.Server.Owner
import CmakeTemplate.Proofs.Server.Limit

namespace CmakeTemplate

open Lib

variable {s s' : ServerState} {m m' : SocketManager} {ev : PassEvent}

/-! ### What a calm step may do

The moves of the main loop and of the workers, for passes without an error.
-/

namespace LoopPc

/-- The slots that the pass has been told of. -/
def visits : LoopPc → Nat
  | scan _ count _ | entry _ count _ | erring _ count _ _ => count
  | registering _ count | accepted _ count _ => count
  | dispatching _ count _ | removing _ count _ => count
  | top | copied _ | polling _ | ready | stopped => 0

/-- Nothing has been closed for an error, and an entry that is looked at is one of the pass. -/
def Inside : LoopPc → Prop
  | entry idx count _ => idx < count
  | erring _ _ _ _ => False
  | _ => True

/-- Not in the middle of anything, in a pass over `n` slots at most. -/
structure Rests (o : LoopPc) (n : Nat) : Prop where
  /-- No client is on its way into the table. -/
  newcomer : o.newcomer = 0
  /-- No entry is about to go. -/
  leaving : o.leaving = 0
  /-- No entry is being dealt with. -/
  atHand : o.atHand = none
  /-- Nothing has been closed for an error. -/
  inside : o.Inside
  /-- The pass is over `n` slots at most. -/
  visits : o.visits ≤ n

theorem Rests.scan (idx count : Nat) (c : ExitCode) : (LoopPc.scan idx count c).Rests count :=
  ⟨rfl, rfl, rfl, trivial, Nat.le_refl _⟩

theorem Rests.top (n : Nat) : LoopPc.top.Rests n := ⟨rfl, rfl, rfl, trivial, Nat.zero_le _⟩

theorem Rests.stopped (n : Nat) : LoopPc.stopped.Rests n :=
  ⟨rfl, rfl, rfl, trivial, Nat.zero_le _⟩

end LoopPc

/-- The steps of a server that is calm. -/
inductive PassMove (s : ServerState) : ServerState → Prop
  | goes (o : LoopPc) (hnew : s.main.newcomer = 0) (hleaving : s.main.leaving = 0)
      (ho : o.Rests s.main.visits) : PassMove s { s with main := o }
  | begins (hfrom : s.main = .ready) :
      PassMove s { s with main := .scan 0 s.mgr.fdCount .failure }
  | polls (count : Nat) (revents : Nat → UInt16) (o : LoopPc) (hfrom : s.main = .polling count)
      (ho : o.Rests 0) : PassMove s { s with mgr := setRevents s.mgr count revents, main := o }
  | accepts (idx count : Nat) (fd : Int) (hfrom : s.main = .registering idx count)
      (hnew : s.isOpen fd = false) :
      PassMove s { s with
        isOpen := Function.update s.isOpen fd true, main := .accepted idx count fd }
  | registers (realloc : Option (Nat → PollFd)) (idx count : Nat) (fd : Int) (m : SocketManager)
      (c : ExitCode) (hfrom : s.main = .accepted idx count fd)
      (hadd : sockFdAdd s.mgr fd realloc = some (.success, m)) :
      PassMove s { s with mgr := m, main := .scan (idx + 1) count c }
  | refuses (realloc : Option (Nat → PollFd)) (idx count : Nat) (fd : Int) (m : SocketManager)
      (c : ExitCode) (hfrom : s.main = .accepted idx count fd)
      (hadd : sockFdAdd s.mgr fd realloc = some (c, m)) (hc : c ≠ .success) :
      PassMove s { s.close fd with mgr := m, main := .scan (idx + 1) count c }
  | dispatches (idx count : Nat) (c : ExitCode) (hfrom : s.main = .entry idx count c)
      (he : (s.mgr.fdArr idx).revents ≠ 0) :
      PassMove s { s with main := .dispatching idx count (s.mgr.fdArr idx).fd }
  | submits (idx count : Nat) (fd : Int) (hfrom : s.main = .dispatching idx count fd) :
      PassMove s { s with jobs := s.jobs ++ [fd], main := .removing idx count fd }
  | removes (idx count : Nat) (fd : Int) (m : SocketManager) (c : ExitCode)
      (hfrom : s.main = .removing idx count fd) (hrem : sockFdRemove s.mgr idx = some (c, m)) :
      PassMove s { s with mgr := m, main := .scan (idx + 1) count c }
  | closes (k : Nat) (fd : Int) (hk : s.jobs[k]? = some fd) :
      PassMove s { s.close fd with jobs := s.jobs.eraseIdx k }
  | putsBack (realloc : Option (Nat → PollFd)) (k : Nat) (fd : Int) (m : SocketManager)
      (c : ExitCode) (hk : s.jobs[k]? = some fd)
      (hadd : sockFdAdd s.mgr fd realloc = some (c, m)) :
      PassMove s { s with mgr := m, jobs := s.jobs.eraseIdx k }

/-- A step from one place of the main loop where it is in the middle of nothing to another. -/
theorem PassMove.rests {o o' : LoopPc} (hm : s.main = o) (hnew : o.newcomer = 0)
    (hleaving : o.leaving = 0) (ho : o'.Rests o.visits) : PassMove s { s with main := o' } := by
  subst hm
  exact .goes o' hnew hleaving ho

theorem loggedStep_move {realloc : Option (Nat → PollFd)} {printed : Int} (hwf : s.mgr.WellFormed)
    (hc : Calm s (.logged realloc printed)) (h : loggedStep s realloc printed = some s') :
    PassMove s s' := by
  unfold loggedStep at h
  split at h
  · rename_i idx count fd hm
    obtain ⟨⟨c, m⟩, hadd, hs⟩ := Option.bind_eq_some_iff.mp h
    dsimp only at hs
    by_cases hok : c = .success
    · subst hok
      have hprinted : printed = 0 := by
        obtain ⟨-, -, ⟨-, hmem, -⟩ | ⟨hfail, -⟩⟩ := sockFdAdd_cases hwf hadd
        · exact hc hmem
        · exact absurd hfail (by simp)
      rw [if_pos rfl, if_neg (not_not_intro hprinted)] at hs
      cases hs
      exact .registers realloc idx count fd m .success hm hadd
    · rw [if_neg hok] at hs
      cases hs
      exact .refuses realloc idx count fd m c hm hadd hok
  · simp at h

/-- The steps outside `register_client`. -/
theorem serverStep_pass {ev : ServerEvent} (hc : Calm s (.server ev)) (hinside : s.main.Inside)
    (hreg : ∀ realloc, ev ≠ .register realloc) (h : serverStep s ev = some s') :
    PassMove s s' := by
  cases serverStep_cases h with
  | copies hfrom hfree => exact .rests hfrom rfl rfl ⟨rfl, rfl, rfl, trivial, Nat.zero_le _⟩
  | calls count hfrom => exact .rests hfrom rfl rfl ⟨rfl, rfl, rfl, trivial, Nat.zero_le _⟩
  | polls count revents hfrom =>
      exact .polls count revents _ hfrom ⟨rfl, rfl, rfl, trivial, Nat.zero_le _⟩
  | timesOut count hfrom => exact .polls count _ _ hfrom (.top 0)
  | interrupts count hfrom => exact .rests hfrom rfl rfl (.top _)
  | fails count hfrom => exact .rests hfrom rfl rfl (.stopped _)
  | begins hfrom => exact .begins hfrom
  | enters idx count exitCode hfrom hlt =>
      exact .rests hfrom rfl rfl ⟨rfl, rfl, rfl, hlt, Nat.le_refl _⟩
  | ends idx count exitCode hfrom => exact .rests hfrom rfl rfl (.top _)
  | stops idx count exitCode hfrom => exact .rests hfrom rfl rfl (.stopped _)
  | errs idx count exitCode hfrom he => exact absurd (hc idx count exitCode hfrom) he
  | passes idx count exitCode hfrom => exact .rests hfrom rfl rfl (.scan _ _ _)
  | listens idx count exitCode hfrom =>
      exact .rests hfrom rfl rfl ⟨rfl, rfl, rfl, trivial, Nat.le_refl _⟩
  | dispatches idx count exitCode hfrom he => exact .dispatches idx count exitCode hfrom he
  | clears idx count exitCode fd hfrom =>
      -- nothing has been closed for an error
      rw [hfrom] at hinside
      exact hinside.elim
  | accepts idx count fd hfrom hserver hpos hnew => exact .accepts idx count fd hfrom hnew
  | declines client idx count hfrom => exact .rests hfrom rfl rfl (.scan _ _ _)
  | registers realloc => exact absurd rfl (hreg realloc)
  | refuses realloc => exact absurd rfl (hreg realloc)
  | submits calloc addTask idx count fd hfrom => exact .submits idx count fd hfrom
  | drops calloc addTask idx count fd hfrom => exact .rests hfrom rfl rfl (.scan _ _ _)
  | removes idx count fd m exitCode hfrom hrem =>
      exact .removes idx count fd m exitCode hfrom hrem
  | closes k fd hk => exact .closes k fd hk
  | putsBack realloc k fd m exitCode hk hadd => exact .putsBack realloc k fd m exitCode hk hadd

theorem passStep_move (hwf : s.mgr.WellFormed) (hinside : s.main.Inside) (hc : Calm s ev)
    (h : passStep s ev = some s') : PassMove s s' := by
  cases ev with
  | logged realloc printed => exact loggedStep_move hwf hc h
  | server ev =>
      cases ev with
      | register realloc => simp [passStep] at h
      | _ => exact serverStep_pass hc hinside (by simp) h

/-! ### The table

How often a descriptor is in the table or in a job, behind each move.
-/

/-- Closing a descriptor makes room for one entry or job less that has it. -/
theorem count_closed {isOpen : Int → Bool} {fd x : Int} {n k : Nat}
    (h : n + (if x = fd then 1 else 0) ≤ (isOpen x).toNat + k) :
    n ≤ (Function.update isOpen fd false x).toNat + k := by
  by_cases hx : x = fd
  · have hopen := (isOpen fd).toNat_le
    rw [hx, if_pos rfl] at h
    rw [hx, Function.update_self, Bool.toNat_false]
    omega
  · rw [if_neg hx] at h
    rwa [Function.update_of_ne hx]

/-- What `sock_fd_remove` leaves behind the entries reports nothing. -/
theorem removed_quiet {index : Nat} (hlt : index < m.fdCount) {idx : Nat}
    (hidx : m.fdCount - 1 ≤ idx) (hquiet : m.fdCount ≤ idx → (m.fdArr idx).revents = 0) :
    ((removed m index).fdArr idx).revents = 0 := by
  by_cases hlast : idx = m.fdCount - 1
  · rw [hlast, removed_last]
  · rw [removed_other (by omega) hlast]
    exact hquiet (by omega)

/-! ### The invariant

Each move keeps it.
-/

structure PassInv (s : ServerState) : Prop where
  /-- The table is sound. -/
  wellFormed : s.mgr.WellFormed
  /-- Nothing has been closed for an error. -/
  inside : s.main.Inside
  /-- The pass stays inside the array. -/
  visits : s.main.visits ≤ s.mgr.fdCapacity
  /-- Slots that are not in use report nothing. -/
  quiet : ∀ idx, s.mgr.fdCount ≤ idx → idx < s.main.visits → (s.mgr.fdArr idx).revents = 0
  /-- The entry that is being dealt with is there. -/
  atHand : ∀ idx fd, s.main.atHand = some (idx, fd) →
    idx < s.mgr.fdCount ∧ (s.mgr.fdArr idx).fd = fd
  /-- A descriptor is in one place at most, and only while it is open. -/
  owned : ∀ c, s.mgr.fds.count c + s.jobs.count c + s.main.newcomer.count c ≤
    (s.isOpen c).toNat + s.main.leaving.count c

theorem serverStart_passInv (fd maxClients : Int) : PassInv (serverStart fd maxClients) where
  wellFormed := ⟨show 1 ≤ 5 by decide, rfl, show 0 < 5 by decide⟩
  inside := trivial
  visits := Nat.zero_le _
  quiet _ _ h := absurd h (Nat.not_lt_zero _)
  atHand _ _ h := by simp [serverStart, LoopPc.atHand] at h
  owned c := by
    show Multiset.count c ({fd} : Multiset Int) + 0 + 0 ≤ (decide (c = fd)).toNat + 0
    rw [Multiset.count_singleton]
    by_cases hc : c = fd
    · simp [hc]
    · simp [hc]

namespace PassInv

theorem inv_goes (h : PassInv s) {o : LoopPc} (hleaving : s.main.leaving = 0)
    (ho : o.Rests s.main.visits) : PassInv { s with main := o } where
  wellFormed := h.wellFormed
  inside := ho.inside
  visits := Nat.le_trans ho.visits h.visits
  quiet idx hidx hlt := h.quiet idx hidx (Nat.lt_of_lt_of_le hlt ho.visits)
  atHand _ _ hx := absurd (ho.atHand.symm.trans hx) (by simp)
  owned c := by
    have hle := h.owned c
    rw [hleaving, Multiset.count_zero] at hle
    show s.mgr.fds.count c + s.jobs.count c + o.newcomer.count c ≤ _ + o.leaving.count c
    rw [ho.newcomer, ho.leaving, Multiset.count_zero]
    exact Nat.le_trans (Nat.add_le_add_left (Nat.zero_le _) _) hle

theorem inv_begins (h : PassInv s) (hfrom : s.main = .ready) :
    PassInv { s with main := .scan 0 s.mgr.fdCount .failure } where
  wellFormed := h.wellFormed
  inside := trivial
  visits := h.wellFormed.room
  quiet _ hidx hlt := absurd hidx (Nat.not_le.mpr hlt)
  atHand _ _ hx := by simp [LoopPc.atHand] at hx
  owned c := by
    have hle := h.owned c
    rwa [hfrom] at hle

theorem inv_polls (h : PassInv s) {count : Nat} {revents : Nat → UInt16} {o : LoopPc}
    (hfrom : s.main = .polling count) (ho : o.Rests 0) :
    PassInv { s with mgr := setRevents s.mgr count revents, main := o } := by
  have hsame : (setRevents s.mgr count revents).fds = s.mgr.fds := by
    refine slots_congr fun idx _ => ?_
    show (if idx < count then { s.mgr.fdArr idx with revents := revents idx }
      else s.mgr.fdArr idx).fd = _
    split <;> rfl
  have hzero : o.visits = 0 := Nat.eq_zero_of_le_zero ho.visits
  refine ⟨⟨h.wellFormed.room, h.wellFormed.capacity, h.wellFormed.pos⟩, ho.inside, ?_, ?_, ?_, ?_⟩
  · exact hzero.le.trans (Nat.zero_le _)
  · intro idx _ hlt
    exact absurd (hzero ▸ hlt) (Nat.not_lt_zero idx)
  · exact fun _ _ hx => absurd (ho.atHand.symm.trans hx) (by simp)
  · intro c
    have hle := h.owned c
    rw [hfrom] at hle
    show (setRevents s.mgr count revents).fds.count c + _ + o.newcomer.count c ≤
      _ + o.leaving.count c
    rw [hsame, ho.newcomer, ho.leaving]
    exact hle

theorem inv_accepts (h : PassInv s) {idx count : Nat} {fd : Int}
    (hfrom : s.main = .registering idx count) (hnew : s.isOpen fd = false) :
    PassInv { s with
      isOpen := Function.update s.isOpen fd true, main := .accepted idx count fd } where
  wellFormed := h.wellFormed
  inside := trivial
  visits := by
    have hle := h.visits
    rwa [hfrom] at hle
  quiet i hi hlt := h.quiet i hi (by rw [hfrom]; exact hlt)
  atHand _ _ hx := by simp [LoopPc.atHand] at hx
  owned c := by
    have hle := h.owned c
    rw [hfrom] at hle
    simp only [LoopPc.newcomer, LoopPc.leaving, Multiset.count_zero, Multiset.count_singleton]
      at hle ⊢
    by_cases hcfd : c = fd
    · rw [hcfd] at hle ⊢
      rw [hnew] at hle
      rw [Function.update_self, if_pos rfl]
      simpa using hle
    · rw [Function.update_of_ne hcfd, if_neg hcfd]
      exact hle

/-- Behind `sock_fd_add`, wherever the main loop is then. -/
theorem inv_adds (h : PassInv s) {m : SocketManager} (hkept : Kept s.mgr m) {o : LoopPc}
    (hinside : o.Inside) (hvisits : o.visits ≤ s.main.visits)
    (hhand : ∀ idx fd, o.atHand = some (idx, fd) → s.main.atHand = some (idx, fd))
    {isOpen : Int → Bool} {jobs : List Int}
    (howned : ∀ c, m.fds.count c + jobs.count c + o.newcomer.count c ≤
      (isOpen c).toNat + o.leaving.count c) :
    PassInv { s with mgr := m, isOpen, jobs, main := o } where
  wellFormed := hkept.wellFormed
  inside := hinside
  visits := Nat.le_trans hvisits (Nat.le_trans h.visits hkept.fdCapacity)
  quiet idx hidx hlt := by
    have hlt' := Nat.lt_of_lt_of_le hlt hvisits
    have hsame := hkept.revents idx (Nat.lt_of_lt_of_le hlt' h.visits)
    exact hsame.trans (h.quiet idx (Nat.le_trans hkept.fdCount hidx) hlt')
  atHand idx fd hx := by
    obtain ⟨hidx, hfd⟩ := h.atHand idx fd (hhand idx fd hx)
    exact ⟨Nat.lt_of_lt_of_le hidx hkept.fdCount, (congrArg _ (hkept.entries idx hidx)).trans hfd⟩
  owned := howned

/-- Behind `register_client` the pass goes on. -/
theorem inv_scans (h : PassInv s) {realloc : Option (Nat → PollFd)} {idx count : Nat} {fd : Int}
    {m : SocketManager} {exitCode : ExitCode} (c : ExitCode)
    (hfrom : s.main = .accepted idx count fd)
    (hadd : sockFdAdd s.mgr fd realloc = some (exitCode, m)) {isOpen : Int → Bool}
    (howned : ∀ x, s.mgr.fds.count x + s.jobs.count x + (if x = fd then 1 else 0) ≤
        (s.isOpen x).toNat + 0 →
      m.fds.count x + s.jobs.count x + 0 ≤ (isOpen x).toNat + 0) :
    PassInv { s with mgr := m, isOpen, main := .scan (idx + 1) count c } := by
  refine h.inv_adds (o := .scan (idx + 1) count c) (sockFdAdd_kept h.wellFormed hadd) trivial
    (by rw [hfrom]; exact Nat.le_refl _) (fun _ _ hx => by simp [LoopPc.atHand] at hx) ?_
  intro x
  have hle := h.owned x
  rw [hfrom] at hle
  simp only [LoopPc.newcomer, LoopPc.leaving, Multiset.count_zero, Multiset.count_singleton]
    at hle ⊢
  exact howned x hle

theorem inv_registers (h : PassInv s) {realloc : Option (Nat → PollFd)} {idx count : Nat} {fd : Int}
    {m : SocketManager} (c : ExitCode) (hfrom : s.main = .accepted idx count fd)
    (hadd : sockFdAdd s.mgr fd realloc = some (.success, m)) :
    PassInv { s with mgr := m, main := .scan (idx + 1) count c } := by
  obtain ⟨-, -, ⟨-, -, hfds⟩ | ⟨hc, -⟩⟩ := sockFdAdd_cases h.wellFormed hadd
  · refine h.inv_scans c hfrom hadd fun x hle => ?_
    rw [hfds, Multiset.count_cons]
    omega
  · exact absurd hc (by simp)

theorem inv_refuses (h : PassInv s) {realloc : Option (Nat → PollFd)} {idx count : Nat} {fd : Int}
    {m : SocketManager} {c : ExitCode} (hfrom : s.main = .accepted idx count fd)
    (hadd : sockFdAdd s.mgr fd realloc = some (c, m)) (hc : c ≠ .success) :
    PassInv { s.close fd with mgr := m, main := .scan (idx + 1) count c } := by
  obtain ⟨-, -, ⟨hok, -⟩ | ⟨-, -, hfds⟩⟩ := sockFdAdd_cases h.wellFormed hadd
  · exact absurd hok hc
  · refine h.inv_scans c hfrom hadd fun x hle => ?_
    rw [hfds]
    exact count_closed hle

theorem inv_dispatches (h : PassInv s) {idx count : Nat} {c : ExitCode}
    (hfrom : s.main = .entry idx count c) (he : (s.mgr.fdArr idx).revents ≠ 0) :
    PassInv { s with main := .dispatching idx count (s.mgr.fdArr idx).fd } := by
  have hvisits : s.main.visits = count := by rw [hfrom]; rfl
  have hidx : idx < count := by
    have hinside := h.inside
    rwa [hfrom] at hinside
  refine ⟨h.wellFormed, trivial, hvisits ▸ h.visits, fun i hi hlt => h.quiet i hi (hvisits ▸ hlt),
    ?_, ?_⟩
  · intro i fd hx
    obtain ⟨rfl, rfl⟩ := Prod.mk.inj (Option.some.inj hx)
    -- an entry that has been taken out would report nothing
    exact ⟨Nat.lt_of_not_le fun hi => he (h.quiet _ hi (hvisits ▸ hidx)), rfl⟩
  · intro x
    have hle := h.owned x
    rwa [hfrom] at hle

theorem inv_submits (h : PassInv s) {idx count : Nat} {fd : Int}
    (hfrom : s.main = .dispatching idx count fd) :
    PassInv { s with jobs := s.jobs ++ [fd], main := .removing idx count fd } := by
  have hvisits : s.main.visits = count := by rw [hfrom]; rfl
  refine ⟨h.wellFormed, trivial, hvisits ▸ h.visits, fun i hi hlt => h.quiet i hi (hvisits ▸ hlt),
    fun i x hx => h.atHand i x (by rw [hfrom]; exact hx), ?_⟩
  intro x
  have hle := h.owned x
  rw [hfrom] at hle
  simp only [LoopPc.newcomer, LoopPc.leaving, Multiset.count_zero, Multiset.count_singleton,
    List.count_append, List.count_singleton] at hle ⊢
  by_cases hx : x = fd
  · simp only [hx, beq_self_eq_true, if_true] at hle ⊢
    omega
  · simp only [hx, beq_iff_eq, Ne.symm hx, if_false] at hle ⊢
    omega

theorem inv_removes (h : PassInv s) {idx count : Nat} {fd : Int} {m : SocketManager}
    (c : ExitCode) (hfrom : s.main = .removing idx count fd)
    (hrem : sockFdRemove s.mgr idx = some (c, m)) :
    PassInv { s with mgr := m, main := .scan (idx + 1) count c } := by
  have hvisits : s.main.visits = count := by rw [hfrom]; rfl
  obtain ⟨hidx, hfd⟩ := h.atHand idx fd (by rw [hfrom]; rfl)
  have hm := sockFdRemove_eq hidx hrem
  have hfds := removed_fds hidx
  rw [← hm, hfd] at hfds
  refine ⟨hm ▸ removed_wellFormed h.wellFormed idx, trivial, ?_, ?_,
    fun _ _ hx => by simp [LoopPc.atHand] at hx, ?_⟩
  · rw [hm]
    exact hvisits ▸ h.visits
  · intro i hi hlt
    rw [hm] at hi ⊢
    exact removed_quiet hidx hi fun hi' => h.quiet i hi' (hvisits ▸ hlt)
  · intro x
    have hle := h.owned x
    rw [hfrom, ← hfds, Multiset.count_cons] at hle
    simp only [LoopPc.newcomer, LoopPc.leaving, Multiset.count_zero, Multiset.count_singleton]
      at hle ⊢
    omega

theorem inv_closes (h : PassInv s) {k : Nat} {fd : Int} (hk : s.jobs[k]? = some fd) :
    PassInv { s.close fd with jobs := s.jobs.eraseIdx k } := by
  refine ⟨h.wellFormed, h.inside, h.visits, h.quiet, h.atHand, ?_⟩
  intro x
  have hle := h.owned x
  rw [count_job hk] at hle
  have hclosed : s.mgr.fds.count x + (s.jobs.eraseIdx k).count x + s.main.newcomer.count x +
      (if x = fd then 1 else 0) ≤ (s.isOpen x).toNat + s.main.leaving.count x := by omega
  exact count_closed hclosed

theorem inv_putsBack (h : PassInv s) {realloc : Option (Nat → PollFd)} {k : Nat} {fd : Int}
    {m : SocketManager} {c : ExitCode} (hk : s.jobs[k]? = some fd)
    (hadd : sockFdAdd s.mgr fd realloc = some (c, m)) :
    PassInv { s with mgr := m, jobs := s.jobs.eraseIdx k } := by
  refine h.inv_adds (sockFdAdd_kept h.wellFormed hadd) h.inside (Nat.le_refl _) (fun _ _ hx => hx) ?_
  intro x
  have hle := h.owned x
  rw [count_job hk] at hle
  obtain ⟨-, -, ⟨-, -, hfds⟩ | ⟨-, -, hfds⟩⟩ := sockFdAdd_cases h.wellFormed hadd
  · rw [hfds, Multiset.count_cons]
    omega
  · rw [hfds]
    omega

end PassInv

theorem PassMove.inv (hm : PassMove s s') (h : PassInv s) : PassInv s' := by
  cases hm with
  | goes o hnew hleaving ho => exact h.inv_goes hleaving ho
  | begins hfrom => exact h.inv_begins hfrom
  | polls count revents o hfrom ho => exact h.inv_polls hfrom ho
  | accepts idx count fd hfrom hnew => exact h.inv_accepts hfrom hnew
  | registers realloc idx count fd m c hfrom hadd => exact h.inv_registers c hfrom hadd
  | refuses realloc idx count fd m c hfrom hadd hc => exact h.inv_refuses hfrom hadd hc
  | dispatches idx count c hfrom he => exact h.inv_dispatches hfrom he
  | submits idx count fd hfrom => exact h.inv_submits hfrom
  | removes idx count fd m c hfrom hrem => exact h.inv_removes c hfrom hrem
  | closes k fd hk => exact h.inv_closes hk
  | putsBack realloc k fd m c hk hadd => exact h.inv_putsBack hk hadd

/-! ### Runs

At the end of a pass no entry is about to go, so the balance says that all are open.
-/

theorem passSystem_inv {fd maxClients : Int} (h : (passSystem fd maxClients).ReachIf Calm s) :
    PassInv s := by
  apply h.invariant (I := PassInv)
  · intro s hs
    rw [hs]
    exact serverStart_passInv fd maxClients
  · intro s ev s' hinv hc hs
    exact (passStep_move hinv.wellFormed hinv.inside hc hs).inv hinv

/-- Where no entry is about to go, those there are have different descriptors, all open. -/
theorem PassInv.allOpen (h : PassInv s) (hleaving : s.main.leaving = 0) : AllOpen s := by
  have hcount : ∀ c, s.mgr.fds.count c ≤ (s.isOpen c).toNat := by
    intro c
    have hle := h.owned c
    rw [hleaving, Multiset.count_zero] at hle
    omega
  have hopen : ∀ c, c ∈ s.mgr.fds → s.isOpen c = true := by
    intro c hc
    have hpos := Nat.lt_of_lt_of_le (Multiset.count_pos.mpr hc) (hcount c)
    cases ho : s.isOpen c with
    | true => rfl
    | false =>
        rw [ho] at hpos
        exact absurd hpos (Nat.lt_irrefl 0)
  have hnodup : s.mgr.fds.Nodup :=
    Multiset.nodup_iff_count_le_one.mpr fun c => Nat.le_trans (hcount c) (Bool.toNat_le _)
  refine ⟨fun idx hidx => hopen _ (mem_slots hidx), ?_⟩
  have hcard : s.mgr.fds.toFinset.card = s.mgr.fdCount := by
    rw [Multiset.toFinset_card_of_nodup hnodup, SocketManager.fds, slots, Multiset.card_map,
      Multiset.card_range]
  have hsub : (s.mgr.fds.toFinset : Set Int) ⊆ insert s.fd {c | c ≠ s.fd ∧ s.isOpen c = true} := by
    intro c hc
    have hc : s.isOpen c = true := hopen c (Multiset.mem_toFinset.mp hc)
    by_cases hs : c = s.fd
    · exact .inl hs
    · exact .inr ⟨hs, hc⟩
  calc (s.mgr.fdCount : ℕ∞) = (s.mgr.fds.toFinset : Set Int).encard := by
        rw [Set.encard_coe_eq_coe_finsetCard, hcard]
    _ ≤ (insert s.fd {c | c ≠ s.fd ∧ s.isOpen c = true}).encard := Set.encard_le_encard hsub
    _ ≤ 1 + {c | c ≠ s.fd ∧ s.isOpen c = true}.encard := by
        rw [add_comm]
        exact Set.encard_insert_le _ _

/-- As long as no entry that is looked at has an error, and each client that gets an entry is
kept, a pass ends with open descriptors in the table, and with no more than there are. -/
theorem passSystem_allOpen {fd maxClients : Int}
    (h : (passSystem fd maxClients).ReachIf Calm s) (hends : PassEnds s) : AllOpen s := by
  obtain ⟨idx, count, c, hm, -⟩ := hends
  refine (passSystem_inv h).allOpen ?_
  rw [hm]
  rfl

/-- A connection is there, and there is no memory to make it non-blocking. -/
theorem passSystem_allOpen_run :
    ∃ s, (passSystem 3 8).run (serverStart 3 8) [.server .copy, .server .callPoll,
        .server (.pollReturns (.ready fun _ => pollIn)), .server .handleConnections, .server .next,
        .server .look, .server (.accept (some (7, false)))] = some s ∧ PassEnds s ∧ AllOpen s := by
  have h0 : (passSystem 3 8).ReachIf Calm (serverStart 3 8) := .init rfl
  have h1 := h0.step (l := PassEvent.server .copy) trivial rfl
  have h2 := h1.step (l := PassEvent.server .callPoll) trivial rfl
  have h3 := h2.step (l := PassEvent.server (.pollReturns (.ready fun _ => pollIn))) trivial rfl
  have h4 := h3.step (l := PassEvent.server .handleConnections) trivial rfl
  have h5 := h4.step (l := PassEvent.server .next) trivial rfl
  have h6 := h5.step (l := PassEvent.server .look) (by
    intro idx count c hm
    cases hm
    decide) rfl
  have h7 := h6.step (l := PassEvent.server (.accept (some (7, false)))) trivial rfl
  exact ⟨_, rfl, ⟨1, 1, .failure, rfl, Nat.le_refl _⟩,
    passSystem_allOpen h7 ⟨1, 1, .failure, rfl, Nat.le_refl _⟩⟩

/-- A client is accepted: the line for the log has its length, so the client is closed, and its
entry stays. -/
theorem closed_entry_stays :
    ¬ ∀ fd maxClients s, (passSystem fd maxClients).Reach s → PassEnds s → AllOpen s := by
  intro hall
  obtain ⟨s, hrun, hm, hcount, hclosed⟩ : ∃ s, (passSystem 3 8).run (serverStart 3 8)
      [.server .copy, .server .callPoll, .server (.pollReturns (.ready fun _ => pollIn)),
        .server .handleConnections, .server .next, .server .look,
        .server (.accept (some (7, true))), .logged none 53] = some s ∧
      s.main = .scan 1 1 .failure ∧ s.mgr.fdCount = 2 ∧ s.isOpen (s.mgr.fdArr 1).fd = false :=
    ⟨_, rfl, rfl, rfl, rfl⟩
  have hopen := (hall 3 8 s ((System.Reach.init rfl).run hrun)
    ⟨1, 1, .failure, hm, Nat.le_refl _⟩).isOpen 1 (hcount ▸ Nat.lt_succ_self 1)
  rw [hclosed] at hopen
  exact absurd hopen Bool.false_ne_true

end CmakeTemplate
