/-
Which sockets `initialize_server` leaves open.

The loop over the addresses closes every socket but the one that it ends with.  Behind the
loop that one is closed only if it cannot be made non-blocking: a failure of `listen`, or of
the allocation for the table, leaves it open, and `close_all_sockets` does not know of it, as
it closes what is in the table.

So a call ends in one of three ways: with the server set up, with all sockets closed, or with
one that is open and lost.  Which of them it is depends on what the system answers, and each
of the conditions is exact.  The sockets that were made and those that were closed are
compared as multisets, so that none is closed twice either.
-/
import CmakeTemplate.InitializeServer

namespace CmakeTemplate

open Lib

variable {s s' : ServerSockets}

/-! ### The loop over the addresses

What is left behind each address, from the first to the one that can be bound.
-/

/-- Of the sockets made on the way from `s` to `s'`, all are closed again but those in `left`. -/
def Leaves (s s' : ServerSockets) (left : List Int) : Prop :=
  ∃ made, s'.opened = s.opened ++ (made ++ left) ∧ s'.closed = s.closed ++ made

theorem Leaves.refl (s : ServerSockets) : Leaves s s [] :=
  ⟨[], (List.append_nil _).symm, (List.append_nil _).symm⟩

theorem Leaves.trans {s'' : ServerSockets} {left : List Int} (h : Leaves s s' [])
    (h' : Leaves s' s'' left) : Leaves s s'' left := by
  obtain ⟨made, hopened, hclosed⟩ := h
  obtain ⟨made', hopened', hclosed'⟩ := h'
  refine ⟨made ++ made', ?_, ?_⟩
  · rw [hopened', hopened, List.append_nil, List.append_assoc, List.append_assoc]
  · rw [hclosed', hclosed, List.append_assoc]

/-- The socket that is left is closed. -/
theorem Leaves.close {fd : Int} (h : Leaves s s' [fd]) : Leaves s (s'.close fd) [] := by
  obtain ⟨made, hopened, hclosed⟩ := h
  refine ⟨made ++ [fd], ?_, ?_⟩
  · rw [List.append_nil]
    exact hopened
  · show s'.closed ++ [fd] = _
    rw [hclosed, List.append_assoc]

/-- `create_socket` leaves the socket it returns. -/
theorem createSocket_leaves (s : ServerSockets) (calls : AddrCalls) :
    (∃ fd, calls.socket = some fd ∧ calls.setsockopt = true ∧
      (createSocket s calls).1 = .success ∧ (createSocket s calls).2.fd = fd ∧
        Leaves s (createSocket s calls).2 [fd]) ∨
      (calls.socket.isSome && calls.setsockopt) = false ∧ (createSocket s calls).1 = .failure ∧
        Leaves s (createSocket s calls).2 [] := by
  cases hsocket : calls.socket with
  | none =>
      refine .inr ⟨rfl, ?_, ?_⟩
      · rw [createSocket, hsocket]
      · rw [createSocket, hsocket]
        exact .refl s
  | some fd =>
      have hmade : Leaves s { s with opened := s.opened ++ [fd] } [fd] :=
        ⟨[], rfl, (List.append_nil _).symm⟩
      cases hopt : calls.setsockopt with
      | true =>
          refine .inl ⟨fd, rfl, rfl, ?_⟩
          simp only [createSocket, hsocket, hopt, if_true, true_and]
          exact hmade
      | false =>
          refine .inr ⟨rfl, ?_⟩
          simp only [createSocket, hsocket, hopt]
          exact ⟨rfl, hmade.close⟩

/-- The first address that a socket can be bound to has one that is left, if there is any. -/
def EndsLoop (addrs : List AddrCalls) (s : ServerSockets) (ended : Bool × ServerSockets) : Prop :=
  match addrs.find? AddrCalls.binds with
  | none => ended.1 = false ∧ Leaves s ended.2 []
  | some current => ended.1 = true ∧ current.socket = some ended.2.fd ∧
      Leaves s ended.2 [ended.2.fd]

/-- An address that is given up leaves nothing. -/
theorem EndsLoop.behind {current : AddrCalls} {rest : List AddrCalls} {ended : Bool × ServerSockets}
    (hbinds : current.binds = false) (hleaves : Leaves s s' []) (h : EndsLoop rest s' ended) :
    EndsLoop (current :: rest) s ended := by
  have hnot : ¬ current.binds = true := by
    rw [hbinds]
    exact Bool.false_ne_true
  unfold EndsLoop at h ⊢
  rw [List.find?_cons_of_neg hnot]
  cases hfind : rest.find? AddrCalls.binds with
  | none =>
      rw [hfind] at h
      exact ⟨h.1, hleaves.trans h.2⟩
  | some current' =>
      rw [hfind] at h
      exact ⟨h.1, h.2.1, hleaves.trans h.2.2⟩

theorem addressLoop_ends (addrs : List AddrCalls) (s : ServerSockets) :
    EndsLoop addrs s (addressLoop addrs s) := by
  induction addrs generalizing s with
  | nil => exact ⟨rfl, .refl s⟩
  | cons current rest ih =>
      rcases createSocket_leaves s current with ⟨fd, hsocket, hopt, hcode, hfd, hleaves⟩ |
          ⟨hnot, hcode, hleaves⟩
      · cases hbind : current.bind with
        | true =>
            have hbinds : current.binds = true := by
              rw [AddrCalls.binds, hsocket, hopt, hbind]
              rfl
            rw [addressLoop, hcode, if_neg (not_not.mpr rfl), if_pos hbind]
            unfold EndsLoop
            rw [List.find?_cons_of_pos hbinds]
            refine ⟨rfl, ?_, ?_⟩
            · rw [hsocket, hfd]
            · rw [hfd]
              exact hleaves
        | false =>
            have hbinds : current.binds = false := by
              rw [AddrCalls.binds, hbind, Bool.and_false]
            have hunbound : ¬ current.bind = true := by
              rw [hbind]
              exact Bool.false_ne_true
            rw [addressLoop, hcode, if_neg (not_not.mpr rfl), if_neg hunbound, hfd]
            exact (ih _).behind hbinds hleaves.close
      · have hbinds : current.binds = false := by
          rw [AddrCalls.binds, hnot, Bool.false_and]
        rw [addressLoop, hcode, if_pos (by decide)]
        exact (ih _).behind hbinds hleaves

/-! ### All of it

The calls behind the loop, and the clean-up.
-/

theorem exists_binds_iff {addrs : List AddrCalls} :
    (∃ current ∈ addrs, current.binds = true) ↔ (addrs.find? AddrCalls.binds).isSome = true := by
  rw [List.find?_isSome]

/-- The table that is set up has the descriptor of the server in it. -/
theorem sockMgrInit_zero (fd maxClients : Int) (calloc : Bool) :
    (∃ m, zeroIntManager.sockMgrInit fd maxClients defaultFdCapacity calloc = (.success, m) ∧
      0 < maxClients ∧ calloc = true ∧ m.fdCount = 1 ∧ (m.fdArr 0).fd = fd) ∨
      (zeroIntManager.sockMgrInit fd maxClients defaultFdCapacity calloc).1 = .failure ∧
        (¬ 0 < maxClients ∨ calloc = false) ∧
        (zeroIntManager.sockMgrInit fd maxClients defaultFdCapacity calloc).2.fdCount = 0 := by
  unfold IntManager.sockMgrInit
  by_cases hmax : 0 ≥ maxClients
  · rw [if_pos hmax]
    exact .inr ⟨rfl, .inl (Int.not_lt.mpr hmax), rfl⟩
  · rw [if_neg hmax]
    cases calloc with
    | true => exact .inl ⟨_, rfl, Int.not_le.mp hmax, rfl, rfl, rfl⟩
    | false => exact .inr ⟨rfl, .inr rfl, rfl⟩

/-- `close_all_sockets` closes the socket of the server, or nothing if there is no table. -/
theorem closeAllSockets_one {m : IntManager} (hcount : m.fdCount = 1) (s : ServerSockets) :
    closeAllSockets m s = s.close (m.fdArr 0).fd := by
  rw [closeAllSockets, hcount]
  rfl

theorem closeAllSockets_none {m : IntManager} (hcount : m.fdCount = 0) (s : ServerSockets) :
    closeAllSockets m s = s := by
  rw [closeAllSockets, hcount]
  rfl

/-- How the call of `initialize_server` can end. -/
inductive Started (calls : InitCalls) (maxClients : Int) :
    ExitCode × IntManager × ServerSockets → Prop
  | success (m : IntManager) (s : ServerSockets) (current : AddrCalls)
      (hsucceed : calls.Succeed maxClients) (hcount : m.fdCount = 1)
      (hfind : calls.addrs.find? AddrCalls.binds = some current)
      (hsocket : current.socket = some s.fd) (hslot : (m.fdArr 0).fd = s.fd)
      (hleaves : Leaves ⟨0, [], []⟩ s [s.fd]) : Started calls maxClients (.success, m, s)
  | closed (m : IntManager) (s : ServerSockets) (hnot : ¬ calls.Succeed maxClients)
      (hnoLeak : ¬ calls.Leak maxClients) (hcount : m.fdCount = 0)
      (hleaves : Leaves ⟨0, [], []⟩ s []) : Started calls maxClients (.failure, m, s)
  | leaks (m : IntManager) (s : ServerSockets) (hnot : ¬ calls.Succeed maxClients)
      (hleak : calls.Leak maxClients) (hcount : m.fdCount = 0)
      (hleaves : Leaves ⟨0, [], []⟩ s [s.fd]) : Started calls maxClients (.failure, m, s)

theorem startSockets_started (calls : InitCalls) (maxClients : Int) :
    Started calls maxClients (startSockets calls maxClients) := by
  have hloop := addressLoop_ends calls.addrs ⟨0, [], []⟩
  unfold EndsLoop at hloop
  unfold startSockets initializeServer
  split
  · rename_i hget
    have hno : calls.getaddrinfo ≠ true := by simpa using hget
    exact .closed _ _ (fun h => hno h.getaddrinfo) (fun h => hno h.getaddrinfo) rfl (.refl _)
  · rename_i hget
    have hget : calls.getaddrinfo = true := by simpa using hget
    dsimp only
    cases hfind : calls.addrs.find? AddrCalls.binds with
    | none =>
        rw [hfind] at hloop
        have hno : ¬ ∃ current ∈ calls.addrs, current.binds = true := by
          rw [exists_binds_iff, hfind]
          exact Bool.false_ne_true
        rw [hloop.1, if_pos (by decide)]
        exact .closed _ _ (fun h => hno h.bound) (fun h => hno h.bound) rfl hloop.2
    | some current =>
        rw [hfind] at hloop
        obtain ⟨hbound, hsocket, hleaves⟩ := hloop
        have hbinds : ∃ current ∈ calls.addrs, current.binds = true := by
          rw [exists_binds_iff, hfind]
          rfl
        rw [hbound, if_neg (by decide)]
        split
        · rename_i hblocking
          have hno : calls.nonBlocking ≠ true := by simpa using hblocking
          exact .closed _ _ (fun h => hno h.nonBlocking) (fun h => hno h.nonBlocking) rfl
            hleaves.close
        · rename_i hnonBlocking
          have hnonBlocking : calls.nonBlocking = true := by simpa using hnonBlocking
          split
          · rename_i hlisten
            have hlisten : calls.listen = false := by simpa using hlisten
            exact .leaks _ _ (fun h => Bool.false_ne_true (hlisten.symm.trans h.listen))
              ⟨hget, hbinds, hnonBlocking, .inl hlisten⟩ rfl hleaves
          · rename_i hlisten
            have hlisten : calls.listen = true := by simpa using hlisten
            rcases sockMgrInit_zero (addressLoop calls.addrs ⟨0, [], []⟩).2.fd maxClients calls.calloc
              with ⟨m, hm, hmax, hcalloc, hcount, hslot⟩ | ⟨hcode, hfails, hcount⟩
            · rw [hm]
              exact .success m _ current ⟨hget, hbinds, hnonBlocking, hlisten, hmax, hcalloc⟩ hcount
                hfind hsocket hslot hleaves
            · rw [hcode]
              refine .leaks _ _ (fun h => ?_) ⟨hget, hbinds, hnonBlocking, .inr hfails⟩ hcount hleaves
              rcases hfails with hmax | hcalloc
              · exact hmax h.clients
              · exact Bool.false_ne_true (hcalloc.symm.trans h.calloc)

theorem InitCalls.Succeed.not_leak {calls : InitCalls} {maxClients : Int}
    (h : calls.Succeed maxClients) : ¬ calls.Leak maxClients := by
  intro hleak
  rcases hleak.fails with hlisten | hmax | hcalloc
  · exact Bool.false_ne_true (hlisten.symm.trans h.listen)
  · exact hmax h.clients
  · exact Bool.false_ne_true (hcalloc.symm.trans h.calloc)

/-- Whatever the system answers: the server is set up if and only if all calls succeed, and then the
first slot of its table has the socket of the first address that could be bound.  Behind
`close_all_sockets` each socket that was made has been closed once, but for the bound one if something
fails behind `set_fd_non_blocking`: that one stays open. -/
theorem startSockets_leaves (calls : InitCalls) (maxClients : Int) :
    ((startSockets calls maxClients).1 = .success ↔ calls.Succeed maxClients) ∧
      ((startSockets calls maxClients).1 = .success →
        (startSockets calls maxClients).2.1.fdCount = 1 ∧
          ∃ current, calls.addrs.find? AddrCalls.binds = some current ∧
            current.socket = some ((startSockets calls maxClients).2.1.fdArr 0).fd) ∧
      (¬ calls.Leak maxClients → Leaves ⟨0, [], []⟩
        (closeAllSockets (startSockets calls maxClients).2.1 (startSockets calls maxClients).2.2) []) ∧
      (calls.Leak maxClients → Leaves ⟨0, [], []⟩
        (closeAllSockets (startSockets calls maxClients).2.1 (startSockets calls maxClients).2.2)
        [(startSockets calls maxClients).2.2.fd]) := by
  have hstarted := startSockets_started calls maxClients
  have hfailed : ExitCode.failure ≠ .success := by decide
  generalize startSockets calls maxClients = r at hstarted ⊢
  cases hstarted with
  | success m s current hsucceed hcount hfind hsocket hslot hleaves =>
      dsimp only
      refine ⟨⟨fun _ => hsucceed, fun _ => rfl⟩, fun _ => ⟨hcount, current, hfind, ?_⟩, fun _ => ?_,
        fun hleak => absurd hleak hsucceed.not_leak⟩
      · rw [hsocket, hslot]
      · rw [closeAllSockets_one hcount, hslot]
        exact hleaves.close
  | closed m s hnot hnoLeak hcount hleaves =>
      dsimp only
      rw [closeAllSockets_none hcount]
      exact ⟨⟨fun hc => absurd hc hfailed, fun h => absurd h hnot⟩, fun hc => absurd hc hfailed,
        fun _ => hleaves, fun hleak => absurd hleak hnoLeak⟩
  | leaks m s hnot hleak hcount hleaves =>
      dsimp only
      rw [closeAllSockets_none hcount]
      exact ⟨⟨fun hc => absurd hc hfailed, fun h => absurd h hnot⟩, fun hc => absurd hc hfailed,
        fun hno => absurd hleak hno, fun _ => hleaves⟩

end CmakeTemplate
