/-
A client's descriptor is in one place.

`ServerInv.owned` balances, for every descriptor, the entries and jobs that have it and
the client being accepted with whether it is open and whether its entry is about to go:
between `thread_pool_add_task` and `sock_fd_remove` a client has an entry too many, and
whatever a worker does with the job meanwhile, it does not change that.

`sock_fd_add` without memory breaks the balance and leaves the mutex locked, so the main
loop calls `poll` once more only if it holds its copy of the array by then.
-/
import CmakeTemplate.Proofs.Server.Step

namespace CmakeTemplate

open Lib

variable {s s' : ServerState} {ev : ServerEvent}

structure ServerInv (s : ServerState) : Prop where
  /-- Slots that are not in use report nothing. -/
  manager : ManagerInv s.mgr
  /-- The entry that is being dealt with is there. -/
  atHand : ∀ idx fd, s.main.atHand = some (idx, fd) →
    idx < s.mgr.fdCount ∧ (s.mgr.fdArr idx).fd = fd
  /-- No more entries are given to `poll` than there are. -/
  given : ∀ count, s.main.given = some count → count ≤ s.mgr.fdCount
  /-- The mutex is free in front of a call of `poll`. -/
  window : ∀ count, s.main = .copied count → s.mgr.locked = false
  /-- An open client has a descriptor. -/
  named : ∀ c, s.isOpen c = true → c ≠ s.fd → c ≠ -1
  /-- A descriptor is in as many places as it is open, and in one more where its entry is
  about to go. -/
  owned : s.mgr.locked = false → ∀ c, c ≠ -1 → c ≠ s.fd →
    s.mgr.fds.count c + s.jobs.count c + s.main.newcomer.count c =
      (s.isOpen c).toNat + s.main.leaving.count c

/-- New slots report nothing, and no worker runs out of memory while the main loop is about
to call `poll`. -/
def Undisturbed (s : ServerState) : ServerEvent → Prop
  | .register realloc => CleanSlots realloc
  | .putsBack _ realloc =>
    CleanSlots realloc ∧ (s.mgr.fdCount = s.mgr.fdCapacity → realloc = none →
      ∀ count, s.main ≠ .copied count)
  | _ => True

theorem serverStart_inv (fd maxClients : Int) : ServerInv (serverStart fd maxClients) where
  manager := sockMgrInit_inv fd maxClients
  atHand _ _ h := by simp [serverStart, LoopPc.atHand] at h
  given _ h := by simp [serverStart, LoopPc.given] at h
  window _ h := by simp [serverStart] at h
  named c hc hne := absurd (of_decide_eq_true hc) hne
  owned _ c _ hc := by
    show Multiset.count c ({fd} : Multiset Int) + 0 + 0 = (decide (c = fd)).toNat + 0
    have hne : c ≠ fd := hc
    rw [Multiset.count_singleton, if_neg hne, decide_eq_false hne]
    rfl

namespace LoopPc

theorem Free.not_copied {o : LoopPc} (h : o.Free) (count : Nat) : o ≠ .copied count := by
  rintro rfl
  exact absurd h.given (Option.some_ne_none count)

end LoopPc

theorem isOpen_of_close {fd c : Int} (h : (s.close fd).isOpen c = true) : s.isOpen c = true := by
  have h' : Function.update s.isOpen fd false c = true := h
  by_cases hc : c = fd
  · rw [hc, Function.update_self] at h'
    simp at h'
  · rwa [Function.update_of_ne hc] at h'

/-- What a worker's job had is one less. -/
theorem count_job {jobs : List Int} {k : Nat} {fd : Int} (hk : jobs[k]? = some fd) (c : Int) :
    jobs.count c = (jobs.eraseIdx k).count c + if c = fd then 1 else 0 := by
  obtain ⟨hlt, hfd⟩ := List.getElem?_eq_some_iff.mp hk
  have hperm := (List.getElem_cons_eraseIdx_perm hlt).count_eq c
  rw [hfd, List.count_cons] at hperm
  rw [← hperm]
  by_cases hc : c = fd
  · rw [hc, if_pos rfl, if_pos (beq_self_eq_true fd)]
  · rw [if_neg hc, if_neg fun hb => hc (beq_iff_eq.mp hb).symm]

namespace ServerInv

/-- In the middle of nothing, the entries and jobs are all there is to balance. -/
theorem inv_of_free {o : LoopPc} (ho : o.Free) {mgr : SocketManager} {isOpen : Int → Bool}
    {jobs : List Int} (hmgr : ManagerInv mgr) (hnamed : ∀ c, isOpen c = true → c ≠ s.fd → c ≠ -1)
    (howned : mgr.locked = false → ∀ c, c ≠ -1 → c ≠ s.fd →
      mgr.fds.count c + jobs.count c = (isOpen c).toNat) :
    ServerInv { s with mgr, isOpen, jobs, main := o } where
  manager := hmgr
  atHand _ _ hx := absurd (ho.atHand.symm.trans hx) (by simp)
  given _ hx := absurd (ho.given.symm.trans hx) (by simp)
  window _ hx := absurd hx (ho.not_copied _)
  named := hnamed
  owned hfree c hc hs := by
    show mgr.fds.count c + jobs.count c + o.newcomer.count c = (isOpen c).toNat + o.leaving.count c
    rw [ho.newcomer, ho.leaving, Multiset.count_zero]
    exact howned hfree c hc hs

/-- Moves of the main loop that leave every client where it is. -/
theorem inv_goes (h : ServerInv s) {o : LoopPc} (hnew : s.main.newcomer = 0)
    (hleaving : s.main.leaving = 0) (ho : o.Free) : ServerInv { s with main := o } := by
  refine inv_of_free ho h.manager h.named ?_
  intro hfree c hc hs
  have hbal := h.owned hfree c hc hs
  rwa [hnew, hleaving, Multiset.count_zero] at hbal

theorem inv_copies (h : ServerInv s) (hfrom : s.main = .top) (hfree : s.mgr.locked = false) :
    ServerInv { s with main := .copied s.mgr.fdCount } where
  manager := h.manager
  atHand _ _ hx := by simp [LoopPc.atHand] at hx
  given _ hx := (Option.some.inj hx).ge
  window _ _ := hfree
  named := h.named
  owned hfree c hc hs := by
    have := h.owned hfree c hc hs
    rwa [hfrom] at this

theorem inv_calls (h : ServerInv s) {count : Nat} (hfrom : s.main = .copied count) :
    ServerInv { s with main := .polling count } where
  manager := h.manager
  atHand _ _ hx := by simp [LoopPc.atHand] at hx
  given _ hx := h.given _ (by rw [hfrom]; exact hx)
  window _ hx := by simp at hx
  named := h.named
  owned hfree c hc hs := by
    have := h.owned hfree c hc hs
    rwa [hfrom] at this

/-- `poll` writes into slots in use. -/
theorem inv_polls (h : ServerInv s) {count : Nat} {revents : Nat → UInt16} {o : LoopPc}
    (hfrom : s.main = .polling count) (ho : o.Free) :
    ServerInv { s with mgr := setRevents s.mgr count revents, main := o } := by
  have hcount : count ≤ s.mgr.fdCount := h.given count (by rw [hfrom]; rfl)
  have hsame : (setRevents s.mgr count revents).fds = s.mgr.fds := by
    refine slots_congr fun idx _ => ?_
    show (if idx < count then { s.mgr.fdArr idx with revents := revents idx }
      else s.mgr.fdArr idx).fd = _
    split <;> rfl
  refine inv_of_free ho ⟨?_, h.manager.room, h.manager.capacity⟩ h.named ?_
  · intro idx hidx
    have hlt : ¬ idx < count := Nat.not_lt.mpr (Nat.le_trans hcount hidx)
    show (if idx < count then _ else s.mgr.fdArr idx).revents = 0
    rw [if_neg hlt]
    exact h.manager.quiet idx hidx
  · intro hfree c hc hs
    have hbal := h.owned hfree c hc hs
    rw [hfrom] at hbal
    rw [hsame]
    exact hbal

/-- An entry that is to go is still there. -/
theorem leaving_le (h : ServerInv s) : s.main.leaving ≤ s.mgr.fds := by
  have hmem : ∀ idx fd, s.main.atHand = some (idx, fd) → {fd} ≤ s.mgr.fds := by
    intro idx fd hx
    obtain ⟨hidx, hfd⟩ := h.atHand idx fd hx
    exact Multiset.singleton_le.mpr (hfd ▸ mem_slots hidx)
  cases hm : s.main with
  | erring idx count exitCode fd => exact hmem idx fd (by rw [hm]; rfl)
  | removing idx count fd => exact hmem idx fd (by rw [hm]; rfl)
  | _ => exact Multiset.zero_le _

/-- An open client whose entry is being dealt with. -/
theorem isOpen_of_entry (h : ServerInv s) (hfree : s.mgr.locked = false) {idx : Nat}
    (hidx : idx < s.mgr.fdCount) (hleaving : s.main.leaving = 0)
    (hc : (s.mgr.fdArr idx).fd ≠ -1) (hs : (s.mgr.fdArr idx).fd ≠ s.fd) :
    s.isOpen (s.mgr.fdArr idx).fd = true := by
  have hpos : 0 < s.mgr.fds.count (s.mgr.fdArr idx).fd := Multiset.count_pos.mpr (mem_slots hidx)
  have := h.owned hfree _ hc hs
  rw [hleaving, Multiset.count_zero] at this
  cases ho : s.isOpen (s.mgr.fdArr idx).fd with
  | true => rfl
  | false => rw [ho, Bool.toNat_false] at this; omega

/-- The descriptor of an entry with an error is closed; its entry is about to go. -/
theorem inv_errs (h : ServerInv s) {idx count : Nat} {exitCode : ExitCode}
    (hfrom : s.main = .entry idx count exitCode) (he : (s.mgr.fdArr idx).revents ≠ 0) :
    ServerInv { s.close (s.mgr.fdArr idx).fd with
      main := .erring idx count exitCode (s.mgr.fdArr idx).fd } := by
  have hidx := h.manager.inUse he
  refine ⟨h.manager, ?_, fun _ hx => by simp [LoopPc.given] at hx, fun _ hx => by simp at hx, ?_,
    ?_⟩
  · intro i fd hx
    obtain ⟨rfl, rfl⟩ := Prod.mk.inj (Option.some.inj hx)
    exact ⟨hidx, rfl⟩
  · exact fun c hc => h.named c (isOpen_of_close hc)
  · intro hfree c hc hs
    have hbal := h.owned hfree c hc hs
    rw [hfrom] at hbal
    show s.mgr.fds.count c + s.jobs.count c + Multiset.count c 0 =
      (Function.update s.isOpen (s.mgr.fdArr idx).fd false c).toNat +
        Multiset.count c {(s.mgr.fdArr idx).fd}
    by_cases hcfd : c = (s.mgr.fdArr idx).fd
    · have hopen := h.isOpen_of_entry hfree hidx (by rw [hfrom]; rfl) (hcfd ▸ hc) (hcfd ▸ hs)
      rw [← hcfd] at hopen ⊢
      rw [Function.update_self, Multiset.count_singleton_self]
      rw [hopen] at hbal
      exact hbal
    · rw [Function.update_of_ne hcfd, Multiset.count_singleton, if_neg hcfd]
      exact hbal

/-- The entry with the error goes. -/
theorem inv_clears (h : ServerInv s) {idx count : Nat} {exitCode : ExitCode} {fd : Int}
    (hfrom : s.main = .erring idx count exitCode fd) :
    ServerInv { s with
      mgr := { s.mgr with
        fdArr := Function.update s.mgr.fdArr idx { s.mgr.fdArr idx with fd := -1 } }
      main := .scan (idx + 1) count exitCode } := by
  obtain ⟨hidx, hfd⟩ := h.atHand idx fd (by rw [hfrom]; rfl)
  have hswap : fd ::ₘ slots (fun i => (Function.update s.mgr.fdArr idx
      { s.mgr.fdArr idx with fd := -1 } i).fd) s.mgr.fdCount = -1 ::ₘ s.mgr.fds := by
    rw [← hfd, SocketManager.fds, ← slots_write (-1) hidx]
    exact congrArg (_ ::ₘ ·) (congrArg (slots · _)
      (Function.comp_update PollFd.fd s.mgr.fdArr idx { s.mgr.fdArr idx with fd := -1 }))
  refine inv_of_free (.scan _ _ _) ⟨?_, h.manager.room, h.manager.capacity⟩ h.named ?_
  · intro i hi
    show (Function.update s.mgr.fdArr idx { s.mgr.fdArr idx with fd := -1 } i).revents = 0
    rw [Function.update_of_ne (Nat.ne_of_gt (Nat.lt_of_lt_of_le hidx hi))]
    exact h.manager.quiet i hi
  · intro hfree c hc hs
    have hbal := h.owned hfree c hc hs
    have hcount := congrArg (Multiset.count c) hswap
    rw [Multiset.count_cons, Multiset.count_cons, if_neg hc] at hcount
    rw [hfrom] at hbal
    simp only [LoopPc.newcomer, LoopPc.leaving, Multiset.count_zero, Multiset.count_singleton]
      at hbal
    show Multiset.count c (slots (fun i => (Function.update s.mgr.fdArr idx
      { s.mgr.fdArr idx with fd := -1 } i).fd) s.mgr.fdCount) + _ = _
    omega

/-- A new client is open, and in no place yet. -/
theorem inv_accepts (h : ServerInv s) {idx count : Nat} {fd : Int}
    (hfrom : s.main = .registering idx count) (hpos : 0 ≤ fd) (hnew : s.isOpen fd = false) :
    ServerInv { s with
      isOpen := Function.update s.isOpen fd true, main := .accepted idx count fd } := by
  refine ⟨h.manager, fun _ _ hx => by simp [LoopPc.atHand] at hx,
    fun _ hx => by simp [LoopPc.given] at hx, fun _ hx => by simp at hx, ?_, ?_⟩
  · intro c hc hne
    have hc' : Function.update s.isOpen fd true c = true := hc
    by_cases hcfd : c = fd
    · rw [hcfd]
      omega
    · exact h.named c (by rwa [Function.update_of_ne hcfd] at hc') hne
  · intro hfree c hc hs
    have hbal := h.owned hfree c hc hs
    rw [hfrom] at hbal
    simp only [LoopPc.newcomer, LoopPc.leaving, Multiset.count_zero, Multiset.count_singleton]
      at hbal ⊢
    by_cases hcfd : c = fd
    · rw [hcfd] at hbal ⊢
      rw [hnew] at hbal
      rw [Function.update_self, if_pos rfl]
      simpa using hbal
    · rw [Function.update_of_ne hcfd, if_neg hcfd]
      exact hbal

theorem inv_registers (h : ServerInv s) {realloc : Option (Nat → PollFd)} {idx count : Nat} {fd : Int}
    {m : SocketManager} (hfrom : s.main = .accepted idx count fd) (hclean : CleanSlots realloc)
    (hadd : sockFdAdd s.mgr fd realloc = some (.success, m)) :
    ServerInv { s with mgr := m, main := .scan (idx + 1) count .success } := by
  obtain ⟨hfree, ⟨-, happ⟩ | ⟨hc, -⟩⟩ := sockFdAdd_spec h.manager hclean hadd
  · refine inv_of_free (.scan _ _ _) happ.inv h.named ?_
    intro _ c hc hs
    have hbal := h.owned hfree c hc hs
    rw [hfrom] at hbal
    simp only [LoopPc.newcomer, LoopPc.leaving, Multiset.count_zero, Multiset.count_singleton]
      at hbal
    rw [happ.fds, Multiset.count_cons]
    omega
  · exact absurd rfl hc

/-- Without memory the client is closed again, and the mutex stays locked. -/
theorem inv_refuses (h : ServerInv s) {realloc : Option (Nat → PollFd)} {idx count : Nat} {fd : Int}
    {m : SocketManager} {exitCode : ExitCode} (hclean : CleanSlots realloc)
    (hadd : sockFdAdd s.mgr fd realloc = some (exitCode, m)) (hc : exitCode ≠ .success) :
    ServerInv { s.close fd with mgr := m, main := .scan (idx + 1) count exitCode } := by
  obtain ⟨hfree, ⟨hok, -⟩ | ⟨-, -, -, rfl⟩⟩ := sockFdAdd_spec h.manager hclean hadd
  · exact absurd hok hc
  · exact inv_of_free (.scan _ _ _) ⟨h.manager.quiet, h.manager.room, h.manager.capacity⟩
      (fun c hc => h.named c (isOpen_of_close hc)) fun hlocked => absurd hlocked (by simp)

theorem inv_dispatches (h : ServerInv s) {idx count : Nat} {exitCode : ExitCode}
    (hfrom : s.main = .entry idx count exitCode) (he : (s.mgr.fdArr idx).revents ≠ 0) :
    ServerInv { s with main := .dispatching idx count (s.mgr.fdArr idx).fd } where
  manager := h.manager
  atHand i fd hx := by
    obtain ⟨rfl, rfl⟩ := Prod.mk.inj (Option.some.inj hx)
    exact ⟨h.manager.inUse he, rfl⟩
  given _ hx := by simp [LoopPc.given] at hx
  window _ hx := by simp at hx
  named := h.named
  owned hfree c hc hs := by
    have := h.owned hfree c hc hs
    rwa [hfrom] at this

/-- The job is there before the entry goes. -/
theorem inv_submits (h : ServerInv s) {idx count : Nat} {fd : Int}
    (hfrom : s.main = .dispatching idx count fd) :
    ServerInv { s with jobs := s.jobs ++ [fd], main := .removing idx count fd } where
  manager := h.manager
  atHand i x hx := h.atHand i x (by rw [hfrom]; exact hx)
  given _ hx := by simp [LoopPc.given] at hx
  window _ hx := by simp at hx
  named := h.named
  owned hfree c hc hs := by
    have hbal := h.owned hfree c hc hs
    rw [hfrom] at hbal
    simp only [LoopPc.newcomer, LoopPc.leaving, Multiset.count_zero, Multiset.count_singleton,
      List.count_append, List.count_singleton] at hbal ⊢
    by_cases hcfd : c = fd
    · simp only [hcfd, beq_self_eq_true, if_true] at hbal ⊢
      omega
    · simp only [hcfd, beq_iff_eq, Ne.symm hcfd, if_false] at hbal ⊢
      omega

theorem inv_removes (h : ServerInv s) {idx count : Nat} {fd : Int} {m : SocketManager}
    {exitCode : ExitCode} (hfrom : s.main = .removing idx count fd)
    (hrem : sockFdRemove s.mgr idx = some (exitCode, m)) :
    ServerInv { s with mgr := m, main := .scan (idx + 1) count exitCode } := by
  obtain ⟨hidx, hfd⟩ := h.atHand idx fd (by rw [hfrom]; rfl)
  obtain ⟨hfree, hinv, hfds, -⟩ := sockFdRemove_spec h.manager hidx hrem
  refine inv_of_free (.scan _ _ _) hinv h.named ?_
  intro _ c hc hs
  have hbal := h.owned hfree c hc hs
  rw [hfrom, hfds, hfd, Multiset.count_cons] at hbal
  simp only [LoopPc.newcomer, LoopPc.leaving, Multiset.count_zero, Multiset.count_singleton]
    at hbal
  omega

/-- A job's client is open, and closing it takes it out of the job. -/
theorem inv_closes (h : ServerInv s) {k : Nat} {fd : Int} (hk : s.jobs[k]? = some fd) :
    ServerInv { s.close fd with jobs := s.jobs.eraseIdx k } := by
  refine ⟨h.manager, h.atHand, h.given, h.window, fun c hc => h.named c (isOpen_of_close hc), ?_⟩
  intro hfree c hc hs
  have hbal := h.owned hfree c hc hs
  rw [count_job hk] at hbal
  show s.mgr.fds.count c + (s.jobs.eraseIdx k).count c + s.main.newcomer.count c =
    (Function.update s.isOpen fd false c).toNat + s.main.leaving.count c
  by_cases hcfd : c = fd
  · have hleaving := Multiset.count_le_of_le c h.leaving_le
    rw [if_pos hcfd] at hbal
    rw [hcfd] at hbal hleaving ⊢
    rw [Function.update_self]
    cases ho : s.isOpen fd with
    | true => rw [ho, Bool.toNat_true] at hbal; rw [Bool.toNat_false]; omega
    | false => rw [ho, Bool.toNat_false] at hbal; omega
  · rw [Function.update_of_ne hcfd]
    rw [if_neg hcfd] at hbal
    exact hbal

theorem inv_putsBack (h : ServerInv s) {realloc : Option (Nat → PollFd)} {k : Nat} {fd : Int}
    {m : SocketManager} {exitCode : ExitCode} (hk : s.jobs[k]? = some fd)
    (hclean : CleanSlots realloc) (hwindow : s.mgr.fdCount = s.mgr.fdCapacity → realloc = none →
      ∀ count, s.main ≠ .copied count)
    (hadd : sockFdAdd s.mgr fd realloc = some (exitCode, m)) :
    ServerInv { s with mgr := m, jobs := s.jobs.eraseIdx k } := by
  obtain ⟨hfree, ⟨-, happ⟩ | ⟨-, hfull, hnone, rfl⟩⟩ := sockFdAdd_spec h.manager hclean hadd
  · refine ⟨happ.inv, ?_, ?_, fun _ _ => happ.unlocked.trans hfree, h.named, ?_⟩
    · intro i x hx
      obtain ⟨hi, hx⟩ := h.atHand i x hx
      exact ⟨by rw [happ.count]; exact Nat.lt_succ_of_lt hi, by rw [happ.kept i hi]; exact hx⟩
    · exact fun n hn => by rw [happ.count]; exact Nat.le_succ_of_le (h.given n hn)
    · intro _ c hc hs
      have hbal := h.owned hfree c hc hs
      rw [count_job hk] at hbal
      show m.fds.count c + (s.jobs.eraseIdx k).count c + s.main.newcomer.count c =
        (s.isOpen c).toNat + s.main.leaving.count c
      rw [happ.fds, Multiset.count_cons]
      omega
  · refine ⟨⟨h.manager.quiet, h.manager.room, h.manager.capacity⟩, h.atHand, h.given, ?_, h.named,
      ?_⟩
    · exact fun n hn => absurd hn (hwindow hfull hnone n)
    · exact fun hlocked => absurd hlocked (by simp)

end ServerInv

theorem ServerMove.inv (hm : ServerMove s ev s') (hc : Undisturbed s ev) (h : ServerInv s) :
    ServerInv s' := by
  cases hm with
  | goes o hnew hleaving ho => exact h.inv_goes hnew hleaving ho
  | copies hfrom hfree => exact h.inv_copies hfrom hfree
  | calls count hfrom => exact h.inv_calls hfrom
  | polls count revents o hfrom ho => exact h.inv_polls hfrom ho
  | errs idx count exitCode hfrom he => exact h.inv_errs hfrom he
  | clears idx count exitCode fd hfrom => exact h.inv_clears hfrom
  | accepts idx count fd hfrom hserver hpos hnew => exact h.inv_accepts hfrom hpos hnew
  | registers realloc idx count fd m hfrom hadd => exact h.inv_registers hfrom hc hadd
  | refuses realloc idx count fd m exitCode hfrom hadd hcode => exact h.inv_refuses hc hadd hcode
  | dispatches idx count exitCode hfrom he => exact h.inv_dispatches hfrom he
  | submits idx count fd hfrom => exact h.inv_submits hfrom
  | removes idx count fd m exitCode hfrom hrem => exact h.inv_removes hfrom hrem
  | closes k fd hk => exact h.inv_closes hk
  | putsBack realloc k fd m exitCode hk hadd => exact h.inv_putsBack hk hc.1 hc.2 hadd

theorem serverSystem_inv {fd maxClients : Int}
    (h : (serverSystem fd maxClients).ReachIf Undisturbed s) : ServerInv s := by
  refine h.invariant ?_ ?_
  · rintro s rfl
    exact serverStart_inv fd maxClients
  · exact fun s ev s' hinv hc hs => (serverStep_move hs).inv hc hinv

/-- The descriptor has one entry and no job, or one job and no entry. -/
def OneOwner (s : ServerState) (c : Int) : Prop :=
  s.mgr.fds.count c = 1 ∧ s.jobs.count c = 0 ∨ s.mgr.fds.count c = 0 ∧ s.jobs.count c = 1

/-- Whenever the main loop calls `poll`, every open client has one owner. -/
def Owned (s : ServerState) : Prop :=
  ∀ count, s.main = .copied count → ∀ c, c ≠ s.fd → s.isOpen c = true → OneOwner s c

/-- The main loop accepts a client and leaves the `others` alone. -/
def acceptRound (client : Int) (others : Nat) : List ServerEvent :=
  [.copy, .callPoll, .pollReturns (.ready fun idx => if idx = 0 then pollIn else 0),
    .handleConnections, .next, .look, .accept (some (client, true)), .register none] ++
  (List.replicate others [.next, .look]).flatten ++ [.next]

theorem serverSystem_owned {fd maxClients : Int}
    (h : (serverSystem fd maxClients).ReachIf Undisturbed s) : Owned s := by
  intro count hm c hs hopen
  have hinv := serverSystem_inv h
  have hbal := hinv.owned (hinv.window count hm) c (hinv.named c hopen hs) hs
  rw [hm, hopen] at hbal
  simp only [LoopPc.newcomer, LoopPc.leaving, Multiset.count_zero, Bool.toNat_true] at hbal
  unfold OneOwner
  omega

theorem serverSystem_owned_run :
    ∃ s, (serverSystem 3 8).run (serverStart 3 8) (acceptRound 7 0 ++ [.copy]) = some s ∧
      s.main = .copied 2 ∧ s.isOpen 7 = true ∧ Owned s := by
  have hclean : CleanSlots none := fun _ h => nomatch h
  have h0 : (serverSystem 3 8).ReachIf Undisturbed (serverStart 3 8) := .init rfl
  have h1 := h0.step (l := ServerEvent.copy) trivial rfl
  have h2 := h1.step (l := ServerEvent.callPoll) trivial rfl
  have h3 := h2.step (l := ServerEvent.pollReturns (.ready fun idx => if idx = 0 then pollIn else 0))
    trivial rfl
  have h4 := h3.step (l := ServerEvent.handleConnections) trivial rfl
  have h5 := h4.step (l := ServerEvent.next) trivial rfl
  have h6 := h5.step (l := ServerEvent.look) trivial rfl
  have h7 := h6.step (l := ServerEvent.accept (some (7, true))) trivial rfl
  have h8 := h7.step (l := ServerEvent.register none) hclean rfl
  have h9 := h8.step (l := ServerEvent.next) trivial rfl
  have h10 := h9.step (l := ServerEvent.copy) trivial rfl
  exact ⟨_, rfl, rfl, rfl, serverSystem_owned h10⟩

/-- New slots report nothing. -/
def QuietSlots (_ : ServerState) : ServerEvent → Prop
  | .register realloc | .putsBack _ realloc => CleanSlots realloc
  | _ => True

/-- The event does not make the array longer. -/
def keepsArray : ServerEvent → Bool
  | .register (some _) => false
  | .putsBack _ (some _) => false
  | _ => true

theorem quietSlots_of_keepsArray {ev : ServerEvent} (h : keepsArray ev = true) (s : ServerState) :
    QuietSlots s ev := by
  have hclean : CleanSlots none := fun _ h => nomatch h
  cases ev with
  | register realloc =>
      cases realloc with
      | none => exact hclean
      | some fresh => exact absurd h Bool.false_ne_true
  | putsBack k realloc =>
      cases realloc with
      | none => exact hclean
      | some fresh => exact absurd h Bool.false_ne_true
  | _ => trivial

/-- The array is full, and a worker cannot put its client back while the main loop is about
to call `poll`. -/
theorem client_lost :
    ¬ ∀ s, (serverSystem 3 8).ReachIf QuietSlots s → Owned s := by
  intro hall
  have hrun : ∃ s, (serverSystem 3 8).run (serverStart 3 8)
      (acceptRound 7 0 ++
      [.copy, .callPoll, .pollReturns (.ready fun _ => pollIn), .handleConnections,
        .next, .look, .accept (some (8, true)), .register none,
        .next, .look, .submit true true, .remove, .next] ++
      acceptRound 9 1 ++ acceptRound 10 2 ++ acceptRound 11 3 ++
      [.copy, .putsBack 0 none]) = some s ∧
      s.main = .copied 5 ∧ s.isOpen 7 = true ∧ s.fd = 3 ∧
      s.mgr.fds = {3, 8, 9, 10, 11} ∧ s.jobs = [] :=
    ⟨_, rfl, rfl, rfl, rfl, rfl, rfl⟩
  obtain ⟨s, hs, hm, hopen, hfd, hfds, hjobs⟩ := hrun
  have hreach : (serverSystem 3 8).ReachIf QuietSlots s := by
    refine (System.ReachIf.init rfl).run ?_ hs
    intro ev hev
    exact quietSlots_of_keepsArray (List.all_eq_true.mp rfl ev hev)
  rcases hall s hreach 5 hm 7 (by rw [hfd]; decide) hopen with ⟨h, -⟩ | ⟨-, h⟩
  · rw [hfds] at h
    exact absurd h (by decide)
  · rw [hjobs] at h
    exact absurd h (by decide)

end CmakeTemplate
