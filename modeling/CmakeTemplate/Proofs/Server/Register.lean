/-
`register_client`, and what it leaves behind.

`snprintf` returns the length of what it has formatted, and `register_client` takes every
number but 0 for a failure.  No length is 0, so a client that has got as far as the table is
closed with its entry in place, and the function never returns E_SUCCESS.  It leaves nothing
behind only when it does not get that far.

A call should succeed with an open descriptor in the table, or fail without a trace, and it
should succeed if all that it calls does.  So it is all or nothing exactly when something in
front of the table fails: there is no connection, it cannot be made non-blocking, or there is
no memory for it.  A mutex that was left locked is a case of its own, as the call does not
return then.
-/
import CmakeTemplate.Proofs.Server.Limit

namespace CmakeTemplate

open Lib

variable {s s' : ClientsState}

/-- What `accept4` may answer: an error, or a new descriptor, as long as the server's is open. -/
def Accepts (s : ClientsState) (client : Option (Int × Bool)) : Prop :=
  ∀ fd nonBlocking, client = some (fd, nonBlocking) →
    s.isOpen s.fd = true ∧ 0 ≤ fd ∧ s.isOpen fd = false

/-- There is a connection, and it can be made non-blocking. -/
def Connects (client : Option (Int × Bool)) : Prop := ∃ fd, client = some (fd, true)

/-- There is a slot for one more descriptor, or memory for it. -/
def Grows (s : ClientsState) (realloc : Option (Nat → PollFd)) : Prop :=
  s.mgr.fdCount = s.mgr.fdCapacity → realloc.isSome

/-- `register_client` succeeds with an open descriptor that is in the table once, or fails
without a trace; and it succeeds when all that it calls does. -/
structure AllOrNothing (s : ClientsState) (client : Option (Int × Bool))
    (realloc : Option (Nat → PollFd)) (ipAddr : Option String) : Prop where
  /-- With E_SUCCESS the client is open and in the table once. -/
  all : ∀ s', registerClientFormatting s client realloc ipAddr = some (0, s') →
    ∃ fd nonBlocking, client = some (fd, nonBlocking) ∧ s'.isOpen fd = true ∧
      s'.mgr.fds.count fd = 1
  /-- With any other code it is closed and the table as it was. -/
  nothing : ∀ code s', registerClientFormatting s client realloc ipAddr = some (code, s') →
    code ≠ 0 → (∀ fd nonBlocking, client = some (fd, nonBlocking) → s'.isOpen fd = false) ∧
      s'.mgr.fdCount = s.mgr.fdCount ∧
        ∀ idx < s.mgr.fdCount, s'.mgr.fdArr idx = s.mgr.fdArr idx
  /-- The call succeeds if all that it calls does. -/
  succeeds : Connects client → Grows s realloc → ipAddr.isSome →
    ∃ s', registerClientFormatting s client realloc ipAddr = some (0, s')

/-- `register_client` does not get as far as the table, or it waits in front of a mutex that
was left locked and would not have printed its line behind it. -/
def EndsBefore (s : ClientsState) (client : Option (Int × Bool))
    (realloc : Option (Nat → PollFd)) (ipAddr : Option String) : Prop :=
  ¬ Connects client ∨ ¬ Grows s realloc ∨ (s.mgr.locked = true ∧ ipAddr = none)

theorem length_append_pos {a : String} (h : 0 < a.length) (b : String) : 0 < (a ++ b).length := by
  rw [String.length_append]
  exact Nat.lt_of_lt_of_le h (Nat.le_add_right _ _)

theorem logNewConnection_pos (ipAddr : String) (fd : Int) :
    0 < (logNewConnection ipAddr fd).length := by
  have hbegin : "new connection from port: [".length = 27 := rfl
  unfold logNewConnection
  iterate 4 apply length_append_pos
  rw [hbegin]
  exact Nat.succ_pos _

theorem printedNewConnection_ne_zero (ipAddr : Option String) (fd : Int) :
    printedNewConnection ipAddr fd ≠ 0 := by
  cases ipAddr with
  | none => exact Int.neg_ne_zero.mpr Int.one_ne_zero
  | some ipAddr => exact Int.natCast_ne_zero_iff_pos.mpr (logNewConnection_pos ipAddr fd)

theorem clientsSystem_inv {fd maxClients : Int} (h : (clientsSystem fd maxClients).Reach s) :
    ClientsInv s := by
  refine h.invariant (I := ClientsInv) ?_ ?_
  · rintro s rfl
    exact clientsStart_inv fd maxClients
  · intro s ev s' hinv hs
    exact (clientsStep_counts hinv hs).inv

/-! ### What it does

Each exit, with what has been done in front of it.
-/

section Cases

variable {fd : Int} {realloc : Option (Nat → PollFd)} {printed : Int}

/-- It fails behind `accept4`. -/
theorem registerClient_blocking
    (hopen : s.isOpen s.fd = true ∧ 0 ≤ fd ∧ s.isOpen fd = false) :
    registerClient s (some (fd, false)) realloc printed = some (-1, s) := by
  simp only [registerClient]
  rw [if_pos hopen]
  rfl

theorem registerClient_add (hopen : s.isOpen s.fd = true ∧ 0 ≤ fd ∧ s.isOpen fd = false) :
    registerClient s (some (fd, true)) realloc printed =
      (sockFdAdd s.mgr fd realloc).bind fun r =>
        if r.1 = .success then
          if printed ≠ 0 then some (printed, { s with mgr := r.2 })
          else some (0, { s with mgr := r.2, isOpen := Function.update s.isOpen fd true })
        else some (-1, { s with mgr := r.2 }) := by
  simp only [registerClient]
  rw [if_pos hopen]
  rfl

/-- Nobody gives the mutex back. -/
theorem registerClient_locked (hopen : s.isOpen s.fd = true ∧ 0 ≤ fd ∧ s.isOpen fd = false)
    (hlock : s.mgr.locked = true) :
    registerClient s (some (fd, true)) realloc printed = none := by
  rw [registerClient_add hopen]
  unfold sockFdAdd
  rw [if_pos hlock]
  rfl

/-- The client is in the table, and closed. -/
theorem registerClient_printed (h : ClientsInv s)
    (hopen : s.isOpen s.fd = true ∧ 0 ≤ fd ∧ s.isOpen fd = false) (hfree : s.mgr.locked = false)
    (hmem : Grows s realloc) (hprinted : printed ≠ 0) :
    ∃ mgr, registerClient s (some (fd, true)) realloc printed = some (printed, { s with mgr }) ∧
      mgr.fdCount = s.mgr.fdCount + 1 ∧ (mgr.fdArr s.mgr.fdCount).fd = fd := by
  obtain ⟨m₁, hgrown, hadd⟩ := sockFdAdd_grown h.wellFormed hfree fd hmem
  refine ⟨appended m₁ fd, ?_, ?_, ?_⟩
  · rw [registerClient_add hopen, hadd]
    simp only [Option.bind_some, if_true]
    rw [if_pos hprinted]
  · show m₁.fdCount + 1 = _
    rw [hgrown.count]
  · simp only [appended, hgrown.count, Function.update_self]

/-- Without memory the table keeps its descriptors, and its mutex. -/
theorem registerClient_noMemory
    (hopen : s.isOpen s.fd = true ∧ 0 ≤ fd ∧ s.isOpen fd = false) (hfree : s.mgr.locked = false)
    (hmem : ¬ Grows s realloc) :
    registerClient s (some (fd, true)) realloc printed =
      some (-1, { s with mgr := { s.mgr with locked := true } }) := by
  obtain ⟨hfull, hnone⟩ := Classical.not_imp.mp hmem
  rw [Option.not_isSome_iff_eq_none] at hnone
  rw [registerClient_add hopen, hnone, sockFdAdd_noMemory hfree fd hfull]
  rfl

end Cases

/-! ### All or nothing

The exits, put together, on every state that the server can come to.
-/

variable {client : Option (Int × Bool)} {realloc : Option (Nat → PollFd)}
  {ipAddr : Option String}

/-- A failure that has touched no slot and opened nothing. -/
theorem AllOrNothing.failed (mgr : SocketManager)
    (hret : registerClientFormatting s client realloc ipAddr = some (-1, { s with mgr }))
    (hclosed : Accepts s client) (hcount : mgr.fdCount = s.mgr.fdCount)
    (harr : mgr.fdArr = s.mgr.fdArr) (hnot : ¬ (Connects client ∧ Grows s realloc)) :
    AllOrNothing s client realloc ipAddr := by
  refine ⟨?_, ?_, fun hc hg => absurd ⟨hc, hg⟩ hnot⟩
  · intro s' hs
    rw [hret] at hs
    cases hs
  · intro code s' hs _
    rw [hret] at hs
    cases hs
    refine ⟨fun fd nonBlocking hfd => (hclosed fd nonBlocking hfd).2.2, hcount, ?_⟩
    intro idx _
    rw [harr]

/-- A call that never comes back. -/
theorem AllOrNothing.blocked (hret : registerClientFormatting s client realloc ipAddr = none)
    (hnot : ¬ (Grows s realloc ∧ ipAddr.isSome)) : AllOrNothing s client realloc ipAddr := by
  refine ⟨?_, ?_, fun _ hg hsome => absurd ⟨hg, hsome⟩ hnot⟩
  · intro s' hs
    rw [hret] at hs
    cases hs
  · intro code s' hs
    rw [hret] at hs
    cases hs

theorem EndsBefore.allOrNothing (haccepts : Accepts s client)
    (hends : EndsBefore s client realloc ipAddr) : AllOrNothing s client realloc ipAddr := by
  cases client with
  | none =>
      refine AllOrNothing.failed s.mgr rfl haccepts rfl rfl ?_
      rintro ⟨⟨fd, hfd⟩, -⟩
      cases hfd
  | some client =>
      obtain ⟨fd, nonBlocking⟩ := client
      have hopen := haccepts fd nonBlocking rfl
      cases nonBlocking with
      | false =>
          refine AllOrNothing.failed s.mgr (registerClient_blocking hopen) haccepts rfl
            rfl ?_
          rintro ⟨⟨fd', hfd⟩, -⟩
          cases hfd
      | true =>
          have hgrow : s.mgr.locked = false → ¬ Grows s realloc := by
            intro hfree hgrow
            rcases hends with hc | hg | ⟨hlock, -⟩
            · exact hc ⟨fd, rfl⟩
            · exact hg hgrow
            · rw [hfree] at hlock
              cases hlock
          cases hlock : s.mgr.locked with
          | false =>
              exact AllOrNothing.failed _ (registerClient_noMemory hopen hlock (hgrow hlock))
                haccepts rfl rfl fun hc => hgrow hlock hc.2
          | true =>
              have hret : registerClientFormatting s (some (fd, true)) realloc ipAddr = none :=
                registerClient_locked hopen hlock
              rcases hends with hc | hg | ⟨-, hnone⟩
              · exact absurd ⟨fd, rfl⟩ hc
              · exact AllOrNothing.blocked hret fun hc => hg hc.1
              · exact AllOrNothing.blocked hret fun hc => by simp [hnone] at hc

/-- What comes as far as the line for the log leaves a closed descriptor in the table, and what
waits for the mutex does not come back. -/
theorem AllOrNothing.endsBefore (h : ClientsInv s) (haccepts : Accepts s client)
    (hall : AllOrNothing s client realloc ipAddr) : EndsBefore s client realloc ipAddr := by
  by_contra hends
  simp only [EndsBefore, not_or, not_not] at hends
  obtain ⟨hconnects, hgrows, hline⟩ := hends
  obtain ⟨fd, rfl⟩ := hconnects
  have hopen := haccepts fd true rfl
  cases hlock : s.mgr.locked with
  | false =>
      have hprinted := printedNewConnection_ne_zero ipAddr fd
      obtain ⟨mgr, hret, hcount, -⟩ := registerClient_printed h hopen hlock hgrows hprinted
      obtain ⟨-, hsame, -⟩ := hall.nothing _ _ hret hprinted
      have hmore : mgr.fdCount = s.mgr.fdCount := hsame
      omega
  | true =>
      have hsome : ipAddr.isSome := by
        rw [Option.isSome_iff_ne_none]
        exact fun hnone => hline ⟨hlock, hnone⟩
      obtain ⟨s', hret⟩ := hall.succeeds ⟨fd, rfl⟩ hgrows hsome
      have hnone : registerClientFormatting s (some (fd, true)) realloc ipAddr = none :=
        registerClient_locked hopen hlock
      rw [hnone] at hret
      cases hret

/-- In every state of the server, `register_client` is all or nothing exactly when it does not
get as far as the table. -/
theorem registerClient_allOrNothing_iff {fd maxClients : Int}
    (h : (clientsSystem fd maxClients).Reach s) (haccepts : Accepts s client) :
    AllOrNothing s client realloc ipAddr ↔ EndsBefore s client realloc ipAddr := by
  have hinv := clientsSystem_inv h
  exact ⟨fun hall => hall.endsBefore hinv haccepts, fun hends => hends.allOrNothing haccepts⟩

/-- The new descriptor cannot be made non-blocking: it is closed, and the table is as it was. -/
theorem registerClient_allOrNothing_fcntl :
    AllOrNothing (clientsStart 3 8) (some (7, false)) none (some "10.0.0.1") := by
  have hreach : (clientsSystem 3 8).Reach (clientsStart 3 8) := .init rfl
  have haccepts : Accepts (clientsStart 3 8) (some (7, false)) := by
    rintro fd nonBlocking ⟨⟩
    decide
  refine (registerClient_allOrNothing_iff hreach haccepts).mpr (.inl ?_)
  rintro ⟨fd, hfd⟩
  cases hfd

/-- The first client of a new server: everything succeeds, and it is closed under poll. -/
theorem closed_client_stays :
    ∃ code s', registerClientFormatting (clientsStart 3 8) (some (7, true)) none
        (some "10.0.0.1") = some (code, s') ∧ code ≠ 0 ∧ s'.isOpen 7 = false ∧
      s'.mgr.fdCount = 2 ∧ (s'.mgr.fdArr 1).fd = 7 ∧
      ¬ AllOrNothing (clientsStart 3 8) (some (7, true)) none (some "10.0.0.1") := by
  have hprinted := printedNewConnection_ne_zero (some "10.0.0.1") 7
  have hopen : (clientsStart 3 8).isOpen 3 = true ∧ (0 : Int) ≤ 7 ∧
      (clientsStart 3 8).isOpen 7 = false := by decide
  have hgrows : Grows (clientsStart 3 8) none := by
    intro hfull
    exact absurd hfull (by decide)
  obtain ⟨mgr, hret, hcount, hslot⟩ :=
    registerClient_printed (clientsStart_inv 3 8) hopen rfl hgrows hprinted
  refine ⟨_, _, hret, hprinted, rfl, hcount, hslot, fun hall => ?_⟩
  obtain ⟨-, hsame, -⟩ := hall.nothing _ _ hret hprinted
  exact absurd (hsame.symm.trans hcount) (by decide)

end CmakeTemplate
