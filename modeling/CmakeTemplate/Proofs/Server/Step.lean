/-
What one step of the server can do.

Most steps only move the main loop.  The others open or close a descriptor, put one into the
array or take one out, or make a job or finish one; `ServerMove` lists them, each with what is
known of the state in front of it.  `ServerCase` has the tests on the way too, for those
proofs that ask which branch was taken.

The step function of the model has a branch for each place of the main loop and each answer of
the system.  It is opened up here, with a lemma for each section of the main loop, and nowhere
else: an invariant of the server is proved by a case for each move.  The functions on a place
of the loop say what is on its way there: a client that has no entry yet, an entry that is
about to go, the entry that is being dealt with.
-/
import CmakeTemplate.Proofs.Server.Manager

namespace CmakeTemplate

open Lib

namespace LoopPc

/-- A client that has been accepted and is in no place yet. -/
def newcomer : LoopPc → Multiset Int
  | accepted _ _ fd => {fd}
  | _ => 0

/-- The descriptor of an entry that is to be taken out. -/
def leaving : LoopPc → Multiset Int
  | erring _ _ _ fd => {fd}
  | removing _ _ fd => {fd}
  | _ => 0

/-- The slot whose entry is being dealt with, and its descriptor. -/
def atHand : LoopPc → Option (Nat × Int)
  | erring idx _ _ fd => some (idx, fd)
  | dispatching idx _ fd => some (idx, fd)
  | removing idx _ fd => some (idx, fd)
  | _ => none

/-- The number of entries `poll` is given. -/
def given : LoopPc → Option Nat
  | copied count => some count
  | polling count => some count
  | _ => none

/-- Not in the middle of anything. -/
structure Free (o : LoopPc) : Prop where
  /-- No client is on its way into the table. -/
  newcomer : o.newcomer = 0
  /-- No entry is about to go. -/
  leaving : o.leaving = 0
  /-- No entry is being dealt with. -/
  atHand : o.atHand = none
  /-- No call of `poll` is under way. -/
  given : o.given = none

theorem Free.top : Free top := ⟨rfl, rfl, rfl, rfl⟩

theorem Free.stopped : Free stopped := ⟨rfl, rfl, rfl, rfl⟩

theorem Free.scan (idx count : Nat) (exitCode : ExitCode) : Free (scan idx count exitCode) :=
  ⟨rfl, rfl, rfl, rfl⟩

end LoopPc

/-- What a step does, with the tests on its way. -/
inductive ServerCase (s : ServerState) : ServerEvent → ServerState → Prop
  | copies (hfrom : s.main = .top) (hfree : s.mgr.locked = false) :
      ServerCase s .copy { s with main := .copied s.mgr.fdCount }
  | calls (count : Nat) (hfrom : s.main = .copied count) :
      ServerCase s .callPoll { s with main := .polling count }
  | polls (count : Nat) (revents : Nat → UInt16) (hfrom : s.main = .polling count) :
      ServerCase s (.pollReturns (.ready revents))
        { s with mgr := setRevents s.mgr count revents, main := .ready }
  | timesOut (count : Nat) (hfrom : s.main = .polling count) :
      ServerCase s (.pollReturns .timeout)
        { s with mgr := setRevents s.mgr count fun _ => 0, main := .top }
  | interrupts (count : Nat) (hfrom : s.main = .polling count) :
      ServerCase s (.pollReturns .interrupted) { s with main := .top }
  | fails (count : Nat) (hfrom : s.main = .polling count) :
      ServerCase s (.pollReturns .failed) { s with main := .stopped }
  | begins (hfrom : s.main = .ready) :
      ServerCase s .handleConnections { s with main := .scan 0 s.mgr.fdCount .failure }
  | enters (idx count : Nat) (exitCode : ExitCode) (hfrom : s.main = .scan idx count exitCode)
      (hlt : idx < count) : ServerCase s .next { s with main := .entry idx count exitCode }
  | ends (idx count : Nat) (exitCode : ExitCode) (hfrom : s.main = .scan idx count exitCode) :
      ServerCase s .next { s with main := .top }
  | stops (idx count : Nat) (exitCode : ExitCode) (hfrom : s.main = .scan idx count exitCode) :
      ServerCase s .next { s with main := .stopped }
  | errs (idx count : Nat) (exitCode : ExitCode) (hfrom : s.main = .entry idx count exitCode)
      (he : (s.mgr.fdArr idx).revents &&& pollErrorEvents ≠ 0) :
      ServerCase s .look { s.close (s.mgr.fdArr idx).fd with
        main := .erring idx count exitCode (s.mgr.fdArr idx).fd }
  | passes (idx count : Nat) (exitCode : ExitCode) (hfrom : s.main = .entry idx count exitCode) :
      ServerCase s .look { s with main := .scan (idx + 1) count exitCode }
  | listens (idx count : Nat) (exitCode : ExitCode) (hfrom : s.main = .entry idx count exitCode) :
      ServerCase s .look { s with main := .registering idx count }
  | dispatches (idx count : Nat) (exitCode : ExitCode)
      (hfrom : s.main = .entry idx count exitCode) (he : (s.mgr.fdArr idx).revents ≠ 0) :
      ServerCase s .look { s with main := .dispatching idx count (s.mgr.fdArr idx).fd }
  | clears (idx count : Nat) (exitCode : ExitCode) (fd : Int)
      (hfrom : s.main = .erring idx count exitCode fd) :
      ServerCase s .clearEntry { s with
        mgr := { s.mgr with
          fdArr := Function.update s.mgr.fdArr idx { s.mgr.fdArr idx with fd := -1 } }
        main := .scan (idx + 1) count exitCode }
  | accepts (idx count : Nat) (fd : Int) (hfrom : s.main = .registering idx count)
      (hserver : s.isOpen s.fd = true) (hpos : 0 ≤ fd) (hnew : s.isOpen fd = false) :
      ServerCase s (.accept (some (fd, true))) { s with
        isOpen := Function.update s.isOpen fd true, main := .accepted idx count fd }
  | declines (client : Option (Int × Bool)) (idx count : Nat)
      (hfrom : s.main = .registering idx count) :
      ServerCase s (.accept client) { s with main := .scan (idx + 1) count .failure }
  | registers (realloc : Option (Nat → PollFd)) (idx count : Nat) (fd : Int) (m : SocketManager)
      (hfrom : s.main = .accepted idx count fd)
      (hadd : sockFdAdd s.mgr fd realloc = some (.success, m)) :
      ServerCase s (.register realloc) { s with mgr := m, main := .scan (idx + 1) count .success }
  | refuses (realloc : Option (Nat → PollFd)) (idx count : Nat) (fd : Int) (m : SocketManager)
      (exitCode : ExitCode) (hfrom : s.main = .accepted idx count fd)
      (hadd : sockFdAdd s.mgr fd realloc = some (exitCode, m)) (hc : exitCode ≠ .success) :
      ServerCase s (.register realloc)
        { s.close fd with mgr := m, main := .scan (idx + 1) count exitCode }
  | submits (calloc addTask : Bool) (idx count : Nat) (fd : Int)
      (hfrom : s.main = .dispatching idx count fd) :
      ServerCase s (.submit calloc addTask)
        { s with jobs := s.jobs ++ [fd], main := .removing idx count fd }
  | drops (calloc addTask : Bool) (idx count : Nat) (fd : Int)
      (hfrom : s.main = .dispatching idx count fd) :
      ServerCase s (.submit calloc addTask) { s with main := .scan (idx + 1) count .failure }
  | removes (idx count : Nat) (fd : Int) (m : SocketManager) (exitCode : ExitCode)
      (hfrom : s.main = .removing idx count fd)
      (hrem : sockFdRemove s.mgr idx = some (exitCode, m)) :
      ServerCase s .remove { s with mgr := m, main := .scan (idx + 1) count exitCode }
  | closes (k : Nat) (fd : Int) (hk : s.jobs[k]? = some fd) :
      ServerCase s (.closes k) { s.close fd with jobs := s.jobs.eraseIdx k }
  | putsBack (realloc : Option (Nat → PollFd)) (k : Nat) (fd : Int) (m : SocketManager)
      (exitCode : ExitCode) (hk : s.jobs[k]? = some fd)
      (hadd : sockFdAdd s.mgr fd realloc = some (exitCode, m)) :
      ServerCase s (.putsBack k realloc) { s with mgr := m, jobs := s.jobs.eraseIdx k }

/-- The same for proofs that do not ask which test it was. -/
inductive ServerMove (s : ServerState) : ServerEvent → ServerState → Prop
  | goes {ev : ServerEvent} (o : LoopPc) (hfrom : s.main.newcomer = 0)
      (hleaving : s.main.leaving = 0) (ho : o.Free) : ServerMove s ev { s with main := o }
  | copies {ev : ServerEvent} (hfrom : s.main = .top) (hfree : s.mgr.locked = false) :
      ServerMove s ev { s with main := .copied s.mgr.fdCount }
  | calls {ev : ServerEvent} (count : Nat) (hfrom : s.main = .copied count) :
      ServerMove s ev { s with main := .polling count }
  | polls {ev : ServerEvent} (count : Nat) (revents : Nat → UInt16) (o : LoopPc)
      (hfrom : s.main = .polling count) (ho : o.Free) :
      ServerMove s ev { s with mgr := setRevents s.mgr count revents, main := o }
  | errs {ev : ServerEvent} (idx count : Nat) (exitCode : ExitCode)
      (hfrom : s.main = .entry idx count exitCode) (he : (s.mgr.fdArr idx).revents ≠ 0) :
      ServerMove s ev { s.close (s.mgr.fdArr idx).fd with
        main := .erring idx count exitCode (s.mgr.fdArr idx).fd }
  | clears {ev : ServerEvent} (idx count : Nat) (exitCode : ExitCode) (fd : Int)
      (hfrom : s.main = .erring idx count exitCode fd) :
      ServerMove s ev { s with
        mgr := { s.mgr with
          fdArr := Function.update s.mgr.fdArr idx { s.mgr.fdArr idx with fd := -1 } }
        main := .scan (idx + 1) count exitCode }
  | accepts {ev : ServerEvent} (idx count : Nat) (fd : Int) (hfrom : s.main = .registering idx count)
      (hserver : s.isOpen s.fd = true) (hpos : 0 ≤ fd) (hnew : s.isOpen fd = false) :
      ServerMove s ev { s with
        isOpen := Function.update s.isOpen fd true, main := .accepted idx count fd }
  | registers (realloc : Option (Nat → PollFd)) (idx count : Nat) (fd : Int) (m : SocketManager)
      (hfrom : s.main = .accepted idx count fd)
      (hadd : sockFdAdd s.mgr fd realloc = some (.success, m)) :
      ServerMove s (.register realloc) { s with mgr := m, main := .scan (idx + 1) count .success }
  | refuses (realloc : Option (Nat → PollFd)) (idx count : Nat) (fd : Int) (m : SocketManager)
      (exitCode : ExitCode) (hfrom : s.main = .accepted idx count fd)
      (hadd : sockFdAdd s.mgr fd realloc = some (exitCode, m)) (hc : exitCode ≠ .success) :
      ServerMove s (.register realloc)
        { s.close fd with mgr := m, main := .scan (idx + 1) count exitCode }
  | dispatches {ev : ServerEvent} (idx count : Nat) (exitCode : ExitCode)
      (hfrom : s.main = .entry idx count exitCode) (he : (s.mgr.fdArr idx).revents ≠ 0) :
      ServerMove s ev { s with main := .dispatching idx count (s.mgr.fdArr idx).fd }
  | submits {ev : ServerEvent} (idx count : Nat) (fd : Int)
      (hfrom : s.main = .dispatching idx count fd) :
      ServerMove s ev { s with jobs := s.jobs ++ [fd], main := .removing idx count fd }
  | removes {ev : ServerEvent} (idx count : Nat) (fd : Int) (m : SocketManager)
      (exitCode : ExitCode) (hfrom : s.main = .removing idx count fd)
      (hrem : sockFdRemove s.mgr idx = some (exitCode, m)) :
      ServerMove s ev { s with mgr := m, main := .scan (idx + 1) count exitCode }
  | closes {ev : ServerEvent} (k : Nat) (fd : Int) (hk : s.jobs[k]? = some fd) :
      ServerMove s ev { s.close fd with jobs := s.jobs.eraseIdx k }
  | putsBack (realloc : Option (Nat → PollFd)) (k : Nat) (fd : Int) (m : SocketManager)
      (exitCode : ExitCode) (hk : s.jobs[k]? = some fd)
      (hadd : sockFdAdd s.mgr fd realloc = some (exitCode, m)) :
      ServerMove s (.putsBack k realloc) { s with mgr := m, jobs := s.jobs.eraseIdx k }

variable {s s' : ServerState} {ev : ServerEvent}

theorem jobStep_cases (h : jobStep s ev = some s') : ServerCase s ev s' := by
  cases ev with
  | closes k =>
      obtain ⟨fd, hk, hs⟩ := Option.bind_eq_some_iff.mp h
      cases hs
      exact .closes k fd hk
  | putsBack k realloc =>
      obtain ⟨fd, hk, hs⟩ := Option.bind_eq_some_iff.mp h
      obtain ⟨⟨c, m⟩, hadd, hs⟩ := Option.bind_eq_some_iff.mp hs
      cases hs
      exact .putsBack realloc k fd m c hk hadd
  | _ => simp [jobStep] at h

/-- The tests on an entry. -/
theorem look_cases (h : loopStep s .look = some s') : ServerCase s .look s' := by
  simp only [loopStep] at h
  split at h
  · rename_i idx count exitCode hm
    split at h
    · simp at h
    · split at h
      · rename_i he
        cases h
        exact .errs idx count exitCode hm he
      · split at h
        · cases h
          exact .passes idx count exitCode hm
        · rename_i he
          split at h
          · cases h
            exact .listens idx count exitCode hm
          · cases h
            exact .dispatches idx count exitCode hm fun hc => he (by rw [hc]; rfl)
  · simp at h

/-- What `poll` returns, and what it writes for it. -/
theorem pollReturns_cases {result : PollResult} (h : loopStep s (.pollReturns result) = some s') :
    ServerCase s (.pollReturns result) s' := by
  simp only [loopStep] at h
  split at h
  · rename_i count hm
    cases result with
    | ready revents =>
        cases h
        exact .polls count revents hm
    | timeout =>
        cases h
        exact .timesOut count hm
    | interrupted =>
        cases h
        exact .interrupts count hm
    | failed =>
        cases h
        exact .fails count hm
  · simp at h

/-- The test at the head of the loop over the entries, and the test of the exit code behind it. -/
theorem next_cases (h : loopStep s .next = some s') : ServerCase s .next s' := by
  simp only [loopStep] at h
  split at h
  · rename_i idx count exitCode hm
    split at h
    · rename_i hlt
      split at h
      · simp at h
      · cases h
        exact .enters idx count exitCode hm hlt
    · split at h
      · cases h
        exact .ends idx count exitCode hm
      · cases h
        exact .stops idx count exitCode hm
  · simp at h

/-- The part of `register_client` without the mutex. -/
theorem accept_cases {client : Option (Int × Bool)} (h : loopStep s (.accept client) = some s') :
    ServerCase s (.accept client) s' := by
  simp only [loopStep] at h
  split at h
  · rename_i idx count hm
    split at h
    · cases h
      exact .declines _ idx count hm
    · split at h
      · rename_i hguard
        split at h
        · rename_i hnonBlocking
          cases h
          subst hnonBlocking
          exact .accepts idx count _ hm hguard.1 hguard.2.1 hguard.2.2
        · cases h
          exact .declines _ idx count hm
      · simp at h
  · simp at h

/-- The part of `register_client` with the mutex. -/
theorem register_cases {realloc : Option (Nat → PollFd)}
    (h : loopStep s (.register realloc) = some s') : ServerCase s (.register realloc) s' := by
  simp only [loopStep] at h
  split at h
  · rename_i idx count fd hm
    obtain ⟨⟨c, m⟩, hadd, hs⟩ := Option.bind_eq_some_iff.mp h
    by_cases hc : c = .success
    · subst hc
      simp only [if_true] at hs
      cases hs
      exact .registers realloc idx count fd m hm hadd
    · simp only [hc, if_false] at hs
      cases hs
      exact .refuses realloc idx count fd m c hm hadd hc
  · simp at h

theorem submit_cases {calloc addTask : Bool} (h : loopStep s (.submit calloc addTask) = some s') :
    ServerCase s (.submit calloc addTask) s' := by
  simp only [loopStep] at h
  split at h
  · rename_i idx count fd hm
    split at h
    · cases h
      exact .submits calloc addTask idx count fd hm
    · cases h
      exact .drops calloc addTask idx count fd hm
  · simp at h

theorem remove_cases (h : loopStep s .remove = some s') : ServerCase s .remove s' := by
  simp only [loopStep] at h
  split at h
  · rename_i idx count fd hm
    obtain ⟨⟨c, m⟩, hrem, hs⟩ := Option.bind_eq_some_iff.mp h
    cases hs
    exact .removes idx count fd m c hm hrem
  · simp at h

theorem loopStep_cases (h : loopStep s ev = some s') : ServerCase s ev s' := by
  cases ev with
  | copy =>
      simp only [loopStep] at h
      split at h
      · rename_i hm
        split at h
        · simp at h
        · rename_i hfree
          cases h
          exact .copies hm (by simpa using hfree)
      · simp at h
  | callPoll =>
      simp only [loopStep] at h
      split at h
      · rename_i count hm
        cases h
        exact .calls count hm
      · simp at h
  | pollReturns result => exact pollReturns_cases h
  | handleConnections =>
      simp only [loopStep] at h
      split at h
      · rename_i hm
        split at h
        · simp at h
        · cases h
          exact .begins hm
      · simp at h
  | next => exact next_cases h
  | look => exact look_cases h
  | clearEntry =>
      simp only [loopStep] at h
      split at h
      · rename_i idx count exitCode fd hm
        cases h
        exact .clears idx count exitCode fd hm
      · simp at h
  | accept client => exact accept_cases h
  | register realloc => exact register_cases h
  | submit calloc addTask => exact submit_cases h
  | remove => exact remove_cases h
  | closes k => simp [loopStep] at h
  | putsBack k realloc => simp [loopStep] at h

theorem serverStep_cases (h : serverStep s ev = some s') : ServerCase s ev s' := by
  cases ev with
  | closes k => exact jobStep_cases h
  | putsBack k realloc => exact jobStep_cases h
  | _ => exact loopStep_cases h

/-- A step from one place of the main loop where it is in the middle of nothing to another. -/
theorem ServerMove.free {o o' : LoopPc} (hm : s.main = o) (hnew : o.newcomer = 0)
    (hleaving : o.leaving = 0) (ho : o'.Free) : ServerMove s ev { s with main := o' } := by
  subst hm
  exact .goes o' hnew hleaving ho

theorem serverStep_move (h : serverStep s ev = some s') : ServerMove s ev s' := by
  cases serverStep_cases h with
  | copies hfrom hfree => exact .copies hfrom hfree
  | calls count hfrom => exact .calls count hfrom
  | polls count revents hfrom => exact .polls count _ _ hfrom ⟨rfl, rfl, rfl, rfl⟩
  | timesOut count hfrom => exact .polls count _ _ hfrom .top
  | interrupts count hfrom => exact .free hfrom rfl rfl .top
  | fails count hfrom => exact .free hfrom rfl rfl .stopped
  | begins hfrom => exact .free hfrom rfl rfl (.scan _ _ _)
  | enters idx count exitCode hfrom hlt => exact .free hfrom rfl rfl ⟨rfl, rfl, rfl, rfl⟩
  | ends idx count exitCode hfrom => exact .free hfrom rfl rfl .top
  | stops idx count exitCode hfrom => exact .free hfrom rfl rfl .stopped
  | errs idx count exitCode hfrom he =>
      exact .errs idx count exitCode hfrom fun hc => he (by rw [hc]; rfl)
  | passes idx count exitCode hfrom => exact .free hfrom rfl rfl (.scan _ _ _)
  | listens idx count exitCode hfrom => exact .free hfrom rfl rfl ⟨rfl, rfl, rfl, rfl⟩
  | dispatches idx count exitCode hfrom he => exact .dispatches idx count exitCode hfrom he
  | clears idx count exitCode fd hfrom => exact .clears idx count exitCode fd hfrom
  | accepts idx count fd hfrom hserver hpos hnew =>
      exact .accepts idx count fd hfrom hserver hpos hnew
  | declines client idx count hfrom => exact .free hfrom rfl rfl (.scan _ _ _)
  | registers realloc idx count fd m hfrom hadd =>
      exact .registers realloc idx count fd m hfrom hadd
  | refuses realloc idx count fd m exitCode hfrom hadd hc =>
      exact .refuses realloc idx count fd m exitCode hfrom hadd hc
  | submits calloc addTask idx count fd hfrom => exact .submits idx count fd hfrom
  | drops calloc addTask idx count fd hfrom => exact .free hfrom rfl rfl (.scan _ _ _)
  | removes idx count fd m exitCode hfrom hrem =>
      exact .removes idx count fd m exitCode hfrom hrem
  | closes k fd hk => exact .closes k fd hk
  | putsBack realloc k fd m exitCode hk hadd => exact .putsBack realloc k fd m exitCode hk hadd

end CmakeTemplate
