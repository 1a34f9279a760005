/-
The number of clients, and `max_fds`.

Nothing compares the two behind `sock_mgr_init`.  A connection that enters the table is one
client more, and so is a client that is given to a job, until its entry is taken out; no other
step adds one.  So the limit holds as long as these find room, and no longer.

A client is counted by its entry and by the jobs that have its descriptor.  What each step
does to the count is said once (`Counts`): it rises by one where a client is taken in, and
does not rise anywhere else.  From a state under the limit, a step therefore stays there
exactly when it takes nobody in or there is room for one more.
-/
import CmakeTemplate.Clients
import CmakeTemplate.Proofs.Server.Table

namespace CmakeTemplate

open Lib

variable {m m' : SocketManager} {s s' : ClientsState}

/-! ### The table

A call changes the number of entries by one at most.
-/

theorem sockFdAppend_maxFds {fd : Int} {c : ExitCode} (h : sockFdAppend m fd = some (c, m')) :
    m'.maxFds = m.maxFds := by
  unfold sockFdAppend at h
  split at h
  · cases h
    rfl
  · simp at h

theorem sockFdAdd_maxFds {fd : Int} {realloc : Option (Nat → PollFd)} {c : ExitCode}
    (h : sockFdAdd m fd realloc = some (c, m')) : m'.maxFds = m.maxFds := by
  unfold sockFdAdd at h
  split at h
  · simp at h
  · split at h
    · cases realloc with
      | none =>
          cases h
          rfl
      | some fresh =>
          have happend : sockFdAppend (sockFdIncreaseCapacity m (some fresh)).2 fd =
              some (c, m') := h
          have hmax := sockFdAppend_maxFds happend
          exact hmax
    · exact sockFdAppend_maxFds h

/-- Behind `sock_fd_add` the table has one descriptor more, or there was no memory. -/
theorem sockFdAdd_cases (h : m.WellFormed) {fd : Int} {realloc : Option (Nat → PollFd)}
    {c : ExitCode} (hadd : sockFdAdd m fd realloc = some (c, m')) :
    m'.WellFormed ∧ m.fdCount ≤ m'.fdCount ∧
      ((c = .success ∧ (m.fdCount = m.fdCapacity → realloc.isSome) ∧ m'.fds = fd ::ₘ m.fds) ∨
        (c = .failure ∧ ¬ (m.fdCount = m.fdCapacity → realloc.isSome) ∧ m'.fds = m.fds)) := by
  have hfree : m.locked = false := by
    cases hlock : m.locked with
    | false => rfl
    | true =>
        unfold sockFdAdd at hadd
        rw [if_pos hlock] at hadd
        exact absurd hadd (Option.some_ne_none _).symm
  by_cases hmem : m.fdCount = m.fdCapacity → realloc.isSome
  · obtain ⟨m₁, hgrown, hadd'⟩ := sockFdAdd_grown h hfree fd hmem
    obtain ⟨rfl, rfl⟩ := Prod.mk.inj (Option.some.inj (hadd.symm.trans hadd'))
    refine ⟨hgrown.wellFormed fd, ?_, .inl ⟨rfl, hmem, hgrown.fds fd⟩⟩
    show m.fdCount ≤ m₁.fdCount + 1
    rw [hgrown.count]
    exact Nat.le_succ _
  · obtain ⟨hfull, hnone⟩ := Classical.not_imp.mp hmem
    rw [Option.not_isSome_iff_eq_none] at hnone
    subst hnone
    have hnone := sockFdAdd_noMemory hfree fd hfull
    obtain ⟨rfl, rfl⟩ := Prod.mk.inj (Option.some.inj (hadd.symm.trans hnone))
    exact ⟨⟨h.room, h.capacity, h.pos⟩, Nat.le_refl _, .inr ⟨rfl, hmem, rfl⟩⟩

theorem sockFdRemove_eq {index : Nat} {c : ExitCode} (hlt : index < m.fdCount)
    (h : sockFdRemove m index = some (c, m')) : m' = removed m index := by
  unfold sockFdRemove at h
  split at h
  · simp at h
  · rw [if_neg (Nat.not_le.mpr hlt)] at h
    cases h
    rfl

/-! ### One step

A case for each event, with what it takes in.
-/

/-- The table is sound, jobs are about clients, and the entry to take out is there. -/
structure ClientsInv (s : ClientsState) : Prop where
  /-- The table is sound. -/
  wellFormed : s.mgr.WellFormed
  /-- A job is about a client. -/
  jobs : ∀ fd ∈ s.jobs, s.IsClient fd
  /-- The entry to take out is there. -/
  leaving : ∀ idx, s.leaving = some idx → idx < s.mgr.fdCount

/-- What a step does to the number of clients. -/
structure Counts (s : ClientsState) (ev : ClientsEvent) (s' : ClientsState) : Prop where
  /-- The invariant is kept. -/
  inv : ClientsInv s'
  /-- So is `max_fds`. -/
  maxFds : s'.mgr.maxFds = s.mgr.maxFds
  /-- A step that takes a client in adds one. -/
  more : Takes s ev → s'.clients = s.clients + 1
  /-- Any other step adds none. -/
  less : ¬ Takes s ev → s'.clients ≤ s.clients

/-- The entries of clients in a table. -/
def clientEntries (s : ClientsState) (fds : Multiset Int) : Nat := fds.countP s.IsClient

theorem clients_eq (s : ClientsState) : s.clients = clientEntries s s.mgr.fds + s.jobs.length := rfl

theorem clientEntries_cons {fd : Int} (h : s.IsClient fd) (fds : Multiset Int) :
    clientEntries s (fd ::ₘ fds) = clientEntries s fds + 1 :=
  Multiset.countP_cons_of_pos fds h

theorem clientEntries_le_cons (s : ClientsState) (fd : Int) (fds : Multiset Int) :
    clientEntries s fds ≤ clientEntries s (fd ::ₘ fds) :=
  Multiset.countP_le_of_le _ (Multiset.le_cons_self fds fd)

theorem registerClient_counts (h : ClientsInv s) {client : Option (Int × Bool)}
    {realloc : Option (Nat → PollFd)} {printed code : Int} (hnone : s.leaving = none)
    (hs : registerClient s client realloc printed = some (code, s')) :
    Counts s (.register client realloc printed) s' := by
  have hleaving : ∀ {n : Nat} idx, s.leaving = some idx → idx < n := by
    intro n idx hidx
    rw [hnone] at hidx
    exact absurd hidx (Option.some_ne_none _).symm
  cases client with
  | none =>
      cases hs
      exact ⟨h, rfl, False.elim, fun _ => Nat.le_refl _⟩
  | some client =>
      obtain ⟨fd, nonBlocking⟩ := client
      simp only [registerClient] at hs
      split at hs
      · rename_i hopen
        have hclient : s.IsClient fd := by
          refine ⟨?_, by omega⟩
          rintro rfl
          exact absurd (hopen.1.symm.trans hopen.2.2) Bool.noConfusion
        cases nonBlocking with
        | false =>
            cases hs
            exact ⟨h, rfl, fun ht => absurd ht.1 Bool.false_ne_true, fun _ => Nat.le_refl _⟩
        | true =>
            obtain ⟨⟨c, mgr⟩, hadd, hrest⟩ := Option.bind_eq_some_iff.mp hs
            have hmax := sockFdAdd_maxFds hadd
            obtain ⟨hwf, hcount, hcases⟩ := sockFdAdd_cases h.wellFormed hadd
            rcases hcases with ⟨rfl, hmem, hfds⟩ | ⟨rfl, hmem, hfds⟩
            · have hmore : clientEntries s mgr.fds + s.jobs.length =
                  clientEntries s s.mgr.fds + s.jobs.length + 1 := by
                rw [hfds, clientEntries_cons hclient]
                omega
              -- the line for the log changes nothing in the table
              by_cases hprinted : printed ≠ 0
              · rw [if_pos rfl, if_pos hprinted] at hrest
                cases hrest
                exact ⟨⟨hwf, h.jobs, hleaving⟩, hmax, fun _ => hmore,
                  fun ht => absurd ⟨rfl, hmem⟩ ht⟩
              · rw [if_pos rfl, if_neg hprinted] at hrest
                cases hrest
                exact ⟨⟨hwf, h.jobs, hleaving⟩, hmax, fun _ => hmore,
                  fun ht => absurd ⟨rfl, hmem⟩ ht⟩
            · cases hrest
              refine ⟨⟨hwf, h.jobs, hleaving⟩, hmax, fun ht => absurd ht.2 hmem, fun _ => ?_⟩
              show clientEntries s mgr.fds + s.jobs.length ≤ _
              rw [hfds]
              exact Nat.le_refl _
      · simp at hs

theorem length_jobs_erase {k : Nat} {fd : Int} (hk : s.jobs[k]? = some fd) :
    (s.jobs.eraseIdx k).length + 1 = s.jobs.length := by
  obtain ⟨hlt, -⟩ := List.getElem?_eq_some_iff.mp hk
  rw [List.length_eraseIdx_of_lt hlt]
  omega

/-- -1 written over an entry of the table adds no client. -/
theorem clientEntries_clear_le {idx : Nat} (hidx : idx < m.fdCount) :
    clientEntries s (slots (PollFd.fd ∘ Function.update m.fdArr idx { m.fdArr idx with fd := -1 })
      m.fdCount) ≤ clientEntries s m.fds := by
  have hwrite := slots_write (f := fun idx => (m.fdArr idx).fd) (-1) hidx
  have hle := clientEntries_le_cons s (m.fdArr idx).fd
    (slots (Function.update (fun idx => (m.fdArr idx).fd) idx (-1)) m.fdCount)
  have hdrop : clientEntries s ((-1) ::ₘ m.fds) = clientEntries s m.fds :=
    Multiset.countP_cons_of_neg _ fun hc => hc.2 rfl
  have hfds : slots (PollFd.fd ∘ Function.update m.fdArr idx { m.fdArr idx with fd := -1 })
      m.fdCount = slots (Function.update (fun idx => (m.fdArr idx).fd) idx (-1)) m.fdCount := by
    rw [Function.comp_update]
    rfl
  rw [hwrite, show (-1) ::ₘ slots (fun idx => (m.fdArr idx).fd) m.fdCount =
    (-1) ::ₘ m.fds from rfl, hdrop, ← hfds] at hle
  exact hle

theorem clearEntry_counts (h : ClientsInv s) {idx : Nat}
    (hs : clientsStep s (.clearEntry idx) = some s') : Counts s (.clearEntry idx) s' := by
  simp only [clientsStep] at hs
  split at hs
  · rename_i hidx
    cases hs
    refine ⟨⟨⟨h.wellFormed.room, h.wellFormed.capacity, h.wellFormed.pos⟩, h.jobs, h.leaving⟩,
      rfl, False.elim, fun _ => ?_⟩
    have hle := clientEntries_clear_le (s := s) hidx.2
    exact Nat.add_le_add_right hle _
  · simp at hs

theorem submit_counts (h : ClientsInv s) {idx : Nat} {calloc addTask : Bool}
    (hs : clientsStep s (.submit idx calloc addTask) = some s') :
    Counts s (.submit idx calloc addTask) s' := by
  simp only [clientsStep] at hs
  split at hs
  · rename_i hidx
    by_cases hsub : (calloc && addTask) = true
    · rw [if_pos hsub] at hs
      cases hs
      refine ⟨⟨h.wellFormed, ?_, ?_⟩, rfl, fun _ => ?_, fun ht => absurd hsub ht⟩
      · intro fd hfd
        rcases List.mem_append.mp hfd with hfd | hfd
        · exact h.jobs fd hfd
        · rw [List.mem_singleton.mp hfd]
          exact hidx.2.2
      · intro i hi
        rw [← Option.some.inj hi]
        exact hidx.2.1
      · rw [clients_eq, clients_eq]
        show clientEntries s s.mgr.fds + (s.jobs ++ [_]).length = _
        rw [List.length_append]
        rfl
    · rw [if_neg hsub] at hs
      cases hs
      exact ⟨h, rfl, fun ht => absurd ht hsub, fun _ => Nat.le_refl _⟩
  · simp at hs

theorem remove_counts (h : ClientsInv s) (hs : clientsStep s .remove = some s') :
    Counts s .remove s' := by
  simp only [clientsStep] at hs
  obtain ⟨idx, hidx, hrest⟩ := Option.bind_eq_some_iff.mp hs
  obtain ⟨⟨c, mgr⟩, hremove, hret⟩ := Option.bind_eq_some_iff.mp hrest
  cases hret
  have hlt := h.leaving idx hidx
  obtain rfl := sockFdRemove_eq hlt hremove
  refine ⟨⟨removed_wellFormed h.wellFormed idx, h.jobs, nofun⟩, rfl, False.elim, fun _ => ?_⟩
  have hle := clientEntries_le_cons s (s.mgr.fdArr idx).fd (removed s.mgr idx).fds
  rw [removed_fds hlt] at hle
  exact Nat.add_le_add_right hle _

theorem closes_counts (h : ClientsInv s) {k : Nat} (hs : clientsStep s (.closes k) = some s') :
    Counts s (.closes k) s' := by
  simp only [clientsStep] at hs
  obtain ⟨fd, hk, hrest⟩ := Option.bind_eq_some_iff.mp hs
  cases hrest
  have hlen := length_jobs_erase hk
  refine ⟨⟨h.wellFormed, fun fd hfd => h.jobs fd (List.mem_of_mem_eraseIdx hfd), h.leaving⟩, rfl,
    False.elim, fun _ => ?_⟩
  show clientEntries s s.mgr.fds + (s.jobs.eraseIdx k).length ≤ clientEntries s s.mgr.fds + _
  omega

/-- The entry comes back as the job goes. -/
theorem putsBack_counts (h : ClientsInv s) {k : Nat} {realloc : Option (Nat → PollFd)}
    (hs : clientsStep s (.putsBack k realloc) = some s') : Counts s (.putsBack k realloc) s' := by
  simp only [clientsStep] at hs
  obtain ⟨fd, hk, hrest⟩ := Option.bind_eq_some_iff.mp hs
  obtain ⟨⟨c, mgr⟩, hadd, hret⟩ := Option.bind_eq_some_iff.mp hrest
  cases hret
  have hlen := length_jobs_erase hk
  obtain ⟨hwf, hcount, hcases⟩ := sockFdAdd_cases h.wellFormed hadd
  refine ⟨⟨hwf, fun fd hfd => h.jobs fd (List.mem_of_mem_eraseIdx hfd),
    fun idx hidx => Nat.lt_of_lt_of_le (h.leaving idx hidx) hcount⟩, sockFdAdd_maxFds hadd,
    False.elim, fun _ => ?_⟩
  show clientEntries s mgr.fds + (s.jobs.eraseIdx k).length ≤ clientEntries s s.mgr.fds + _
  rcases hcases with ⟨-, -, hfds⟩ | ⟨-, -, hfds⟩
  · rw [hfds, clientEntries_cons (h.jobs fd (List.mem_of_getElem? hk))]
    omega
  · rw [hfds]
    omega

theorem clientsStep_counts (h : ClientsInv s) {ev : ClientsEvent}
    (hs : clientsStep s ev = some s') :
    Counts s ev s' := by
  cases ev with
  | register client realloc printed =>
      simp only [clientsStep] at hs
      split at hs
      · rename_i hnone
        obtain ⟨⟨code, s₁⟩, hreg, rfl⟩ := Option.map_eq_some_iff.mp hs
        exact registerClient_counts h hnone hreg
      · simp at hs
  | clearEntry idx => exact clearEntry_counts h hs
  | submit idx calloc addTask => exact submit_counts h hs
  | remove => exact remove_counts h hs
  | closes k => exact closes_counts h hs
  | putsBack k realloc => exact putsBack_counts h hs

/-! ### Runs

The limit is kept by the steps that meet the condition, and broken by the first that does not.
-/

theorem clientsStart_inv (fd maxClients : Int) : ClientsInv (clientsStart fd maxClients) := by
  have hcap : 1 ≤ defaultFdCapacity := by decide
  exact ⟨⟨hcap, rfl, hcap⟩, nofun, nofun⟩

theorem clientsStart_limit {fd maxClients : Int} (h : ValidMaxClients maxClients) :
    Limit (clientsStart fd maxClients) := by
  have hnone : (clientsStart fd maxClients).clients = 0 := by
    rw [clients_eq, show (clientsStart fd maxClients).mgr.fds = fd ::ₘ 0 from rfl]
    show Multiset.countP _ (fd ::ₘ 0) + 0 = 0
    rw [Multiset.countP_cons_of_neg _ fun hc => hc.1 rfl]
    rfl
  show ((clientsStart fd maxClients).clients : Int) ≤ maxClients
  rw [hnone]
  unfold ValidMaxClients minClients at h
  omega

/-- Under the limit, a step stays there exactly when what it takes in finds room. -/
theorem Counts.limit_iff {ev : ClientsEvent} (h : Counts s ev s') (hlimit : Limit s) :
    Limit s' ↔ HasRoom s ev := by
  unfold Limit at hlimit ⊢
  rw [h.maxFds]
  by_cases ht : Takes s ev
  · rw [h.more ht]
    constructor
    · intro hle _
      omega
    · intro hroom
      have := hroom ht
      omega
  · have hless := h.less ht
    apply iff_of_true
    · omega
    · intro hc
      exact absurd hc ht

/-- As long as every client that is taken in finds room, the limit holds; and the next step keeps
it exactly when it finds room too. -/
theorem clientsSystem_limit {fd maxClients : Int} (hvalid : ValidMaxClients maxClients)
    (h : (clientsSystem fd maxClients).ReachIf HasRoom s) :
    Limit s ∧ ∀ ev s', clientsStep s ev = some s' → (Limit s' ↔ HasRoom s ev) := by
  have hinv : ClientsInv s ∧ Limit s := by
    apply h.invariant (I := fun s => ClientsInv s ∧ Limit s)
    · intro s hs
      rw [hs]
      exact ⟨clientsStart_inv fd maxClients, clientsStart_limit hvalid⟩
    · intro s ev s' hinv hroom hs
      have hcounts := clientsStep_counts hinv.1 hs
      exact ⟨hcounts.inv, (hcounts.limit_iff hinv.2).mpr hroom⟩
  refine ⟨hinv.2, ?_⟩
  intro ev s' hs
  exact (clientsStep_counts hinv.1 hs).limit_iff hinv.2

/-- Two clients, one of which goes through a worker, where three are allowed. -/
theorem clientsSystem_limit_run :
    ∃ s, (clientsSystem 3 3).run (clientsStart 3 3) [.register (some (7, true)) none 52,
        .register (some (8, true)) none 52, .submit 1 true true, .remove, .putsBack 0 none] = some s ∧
      s.clients = 2 ∧ Limit s ∧
      ∀ ev s', clientsStep s ev = some s' → (Limit s' ↔ HasRoom s ev) := by
  have h0 : (clientsSystem 3 3).ReachIf HasRoom (clientsStart 3 3) := .init rfl
  have h1 := h0.step (l := ClientsEvent.register (some (7, true)) none 52) (fun _ => by decide) rfl
  have h2 := h1.step (l := ClientsEvent.register (some (8, true)) none 52) (fun _ => by decide) rfl
  have h3 := h2.step (l := ClientsEvent.submit 1 true true) (fun _ => by decide) rfl
  have h4 := h3.step (l := ClientsEvent.remove) False.elim rfl
  have h5 := h4.step (l := ClientsEvent.putsBack 0 none) False.elim rfl
  exact ⟨_, rfl, rfl, clientsSystem_limit (by decide) h5⟩

/-- One client is allowed, and two connections are accepted. -/
theorem limit_exceeded :
    ¬ ∀ fd maxClients s, ValidMaxClients maxClients → (clientsSystem fd maxClients).Reach s →
      Limit s := by
  intro hall
  obtain ⟨s, hrun, hclients, hmax⟩ : ∃ s, (clientsSystem 3 1).run (clientsStart 3 1)
      [.register (some (7, true)) none 52, .register (some (8, true)) none 52] = some s ∧
      s.clients = 2 ∧ s.mgr.maxFds = 1 := ⟨_, rfl, rfl, rfl⟩
  have hlimit := hall 3 1 s (by decide) ((System.Reach.init rfl).run hrun)
  unfold Limit at hlimit
  rw [hclients, hmax] at hlimit
  exact absurd hlimit (by decide)

end CmakeTemplate
