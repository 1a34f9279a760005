/-
`recv_all_data` on a socket that may have nothing to receive.

A call of `recv` on a socket that does not block returns -1 where there is nothing yet, and so
does one that a signal has interrupted.  Neither is an error.  But every -1 of `recv` ends the
loop, whatever `errno` says, and the bytes that have been taken are lost with the local count
of them: the caller learns that the call has failed, and not how much of the stream is gone.

So nothing is lost exactly when no call comes back empty-handed while there are bytes to come.
The calls of a loop are the first ones of an infinite sequence of answers, up to the first
that moves nothing or completes the buffer; which it is decides how the loop ends.
-/
import CmakeTemplate.Proofs.SocketIo.Stream

namespace CmakeTemplate

open Lib

variable {σ : Type} {n : UInt64} {io : Returns} {again : Nat → Bool} {t : Transfer σ}

/-! ### The calls a loop makes

The answers that a loop asks for are a beginning of those that there are.
-/

/-- The `k`-th call. -/
def callAt (n : UInt64) (io : Returns) (k : Nat) : IoCall :=
  ⟨delivered n io k, calculateChunk n (delivered n io k), answer n io k⟩

/-- The calls so far are the first ones. -/
structure Along (n : UInt64) (io : Returns) (t : Transfer σ) : Prop where
  /-- The calls are the first ones. -/
  calls : t.calls = (List.range t.calls.length).map (callAt n io)
  /-- What they have moved has been counted. -/
  total : t.total = delivered n io t.calls.length

theorem Along.next (h : Along n io t) :
    t.calls ++ [nextCall n t (io.ret t.calls.length (calculateChunk n t.total))] =
      (List.range (t.calls.length + 1)).map (callAt n io) := by
  rw [List.range_succ, List.map_append, ← h.calls]
  refine congrArg (t.calls ++ ·) ?_
  simp only [nextCall, List.map_cons, List.map_nil, callAt, answer, h.total]

/-- The calls of a whole loop. -/
theorem transferLoop_calls {moved : Nat → Nat → σ → σ} {closed : ExitCode}
    (hclosed : closed ≠ .success) :
    ∀ (fuel : Nat) (t : Transfer σ) {code : ExitCode} {t' : Transfer σ}, Along n io t →
      transferLoop io moved closed n fuel t = some (code, t') →
      t'.calls = (List.range t'.calls.length).map (callAt n io) ∧
        (code = .success → Along n io t') := by
  intro fuel
  induction fuel with
  | zero =>
      intro t code t' h hrun
      rw [transferLoop] at hrun
      split at hrun
      · cases hrun
      · cases hrun
        exact ⟨h.calls, fun _ => h⟩
  | succ fuel ih =>
      intro t code t' h hrun
      have hlen : (t.calls ++ [nextCall n t (io.ret t.calls.length (calculateChunk n
          t.total))]).length = t.calls.length + 1 := List.length_append
      have hnext := h.next
      rw [← hlen] at hnext
      simp only [transferLoop] at hrun
      split at hrun
      · split at hrun
        · cases hrun
          exact ⟨hnext, fun hc => by cases hc⟩
        · split at hrun
          · cases hrun
            exact ⟨hnext, fun hc => absurd hc hclosed⟩
          · refine ih _ ⟨hnext, ?_⟩ hrun
            simp only [List.length_append, List.length_singleton, delivered, ← h.total]
      · cases hrun
        exact ⟨h.calls, fun _ => h⟩

/-- With everything delivered, a call would be for no byte. -/
theorem answer_full {k : Nat} (h : delivered n io k = n) : ¬ 0 < answer n io k := by
  intro hpos
  have hvalid := io.valid k (calculateChunk n (delivered n io k))
  have hchunk : (calculateChunk n (delivered n io k)).toNat = 0 := by
    rw [h, calculateChunk, UInt64.sub_self]
    rfl
  have hanswer : io.ret k (calculateChunk n (delivered n io k)) = answer n io k := rfl
  rw [hchunk, hanswer] at hvalid
  omega

/-- A call that delivers nothing is the last. -/
theorem Pending.last {k m : Nat} (hm : Pending n io m) (hanswer : answer n io m ≤ 0)
    (hk : Pending n io k) (hnot : answer n io k ≤ 0) : k = m := by
  rcases Nat.lt_trichotomy k m with hlt | heq | hgt
  · have := hm.1 k hlt
    omega
  · exact heq
  · have := hk.1 m hgt
    omega

variable {P : Nat → σ → Prop}

theorem Along.pos (h : Going n P t)
    (hcalls : t.calls = (List.range t.calls.length).map (callAt n io))
    {j : Nat} (hj : j < t.calls.length) : 0 < answer n io j := by
  have hmem : callAt n io j ∈ t.calls := by
    rw [hcalls]
    exact List.mem_map_of_mem (List.mem_range.mpr hj)
  exact h.pos _ hmem

/-- The last call of a loop that has not delivered everything. -/
theorem Going.pending (h : Going n P t) (hlt : t.total < n) {r : Int}
    (hcalls : t.calls ++ [nextCall n t r] =
      (List.range (t.calls ++ [nextCall n t r]).length).map (callAt n io)) :
    Pending n io t.calls.length ∧ answer n io t.calls.length = r := by
  rw [List.length_append, List.length_singleton, List.range_succ, List.map_append] at hcalls
  obtain ⟨hbefore, hlast⟩ := List.append_inj hcalls (by simp)
  have hcall : nextCall n t r = callAt n io t.calls.length := List.head_eq_of_cons_eq hlast
  have htotal : t.total = delivered n io t.calls.length := congrArg IoCall.offset hcall
  refine ⟨⟨fun j hj => Along.pos h hbefore hj, htotal ▸ hlt⟩, ?_⟩
  exact (congrArg IoCall.result hcall).symm

/-! ### What is lost

Only the last call of a loop can have moved nothing.
-/

/-- The one call that has delivered nothing decides. -/
theorem givenUp_last (h : Going n P t) {r : Int} :
    GivenUp again (t.calls ++ [nextCall n t r]) ↔
      r = 0 ∨ r = -1 ∧ again t.calls.length = false := by
  constructor
  · rintro ⟨k, call, hcall, hresult⟩
    rcases Nat.lt_or_ge k t.calls.length with hlt | hge
    · rw [List.getElem?_append_left hlt] at hcall
      have := h.pos call (List.mem_of_getElem? hcall)
      omega
    · have hk : k = t.calls.length := by
        have := (List.getElem?_eq_some_iff.mp hcall).1
        rw [List.length_append, List.length_singleton] at this
        omega
      subst hk
      rw [List.getElem?_concat_length] at hcall
      rw [← Option.some.inj hcall] at hresult
      exact hresult
  · intro hr
    exact ⟨t.calls.length, nextCall n t r, List.getElem?_concat_length, hr⟩

/-- A loop ends well, or with a good reason, exactly when no call has come back empty-handed. -/
theorem Ended.losesNothing_iff (again : Nat → Bool) {code : ExitCode}
    (h : Ended n P .connectionClosed code t)
    (hcalls : t.calls = (List.range t.calls.length).map (callAt n io))
    (halong : code = .success → Along n io t) :
    (code = .success ∨ GivenUp again t.calls) ↔ NeverAgain n io again := by
  cases h with
  | done h hall =>
      refine iff_of_true (.inl rfl) ?_
      intro k hk hanswer
      have htotal : delivered n io t.calls.length = n := by rw [← (halong rfl).total, hall]
      rcases Nat.lt_trichotomy k t.calls.length with hlt | heq | hgt
      · have := Along.pos h hcalls hlt
        omega
      · have hless := hk.2
        rw [heq, htotal] at hless
        exact absurd hless (UInt64.lt_irrefl n)
      · exact absurd (hk.1 _ hgt) (answer_full htotal)
  | failed h hlt =>
      obtain ⟨hpending, hlast⟩ := h.pending hlt hcalls
      rw [givenUp_last h]
      constructor
      · rintro (hc | hc | ⟨-, hagain⟩)
        · cases hc
        · exact absurd hc (by decide)
        · intro k hk hanswer
          rw [hpending.last (by omega) hk (by omega)]
          exact hagain
      · intro hnever
        exact .inr (.inr ⟨rfl, hnever _ hpending hlast⟩)
  | closed h hlt =>
      obtain ⟨hpending, hlast⟩ := h.pending hlt hcalls
      rw [givenUp_last h]
      refine iff_of_true (.inr (.inl rfl)) ?_
      intro k hk hanswer
      rw [hpending.last (by omega) hk (by omega)] at hanswer
      omega

/-- What `recv_all_data` refuses, it refuses before the first call. -/
theorem recvAllData_refuses {socket : Int} {buffer : Nat → UInt8} {stream : Nat → UInt8}
    (h : ¬ (minSocket ≤ socket ∧ n ≠ 0)) :
    recvAllData socket (some buffer) n io stream = some (.failure, ⟨0, [], ⟨buffer, 0⟩⟩) := by
  unfold recvAllData transferAll
  by_cases hn : n = 0
  · rw [if_neg (by simp), if_pos hn]
    rfl
  · have hsocket : minSocket > socket := by
      by_contra hc
      exact h ⟨Int.not_lt.mp hc, hn⟩
    rw [if_neg (by simp), if_neg hn, if_pos hsocket]
    rfl

/-- On a socket that does not block, `recv_all_data` loses nothing exactly when no call of `recv`
finds nothing, or is interrupted, while there are bytes to come. -/
theorem recvAllData_losesNothing_iff (socket : Int) (buffer : Nat → UInt8) (n : UInt64)
    (io : Returns) (again : Nat → Bool) (stream : Nat → UInt8) :
    LosesNothing socket buffer n io again stream ↔
      (minSocket ≤ socket ∧ n ≠ 0) ∧ NeverAgain n io again := by
  by_cases hvalid : minSocket ≤ socket ∧ n ≠ 0
  · have hloop : recvAllData socket (some buffer) n io stream =
        transferLoop io (received stream) .connectionClosed n n.toNat ⟨0, [], ⟨buffer, 0⟩⟩ := by
      unfold recvAllData transferAll
      rw [if_neg (by simp), if_neg hvalid.2, if_neg (Int.not_lt.mpr hvalid.1)]
      rfl
    have hstart : Going n (Taken stream) (⟨0, [], ⟨buffer, 0⟩⟩ : Transfer Inbox) :=
      Going.start ⟨rfl, rfl⟩
    obtain ⟨code, t, hrun, hend⟩ := transferLoop_ends (fun _ r _ h => h.received r) io
      .connectionClosed n.toNat _ hstart (Nat.sub_le _ _)
    obtain ⟨hcalls, halong⟩ := transferLoop_calls (by simp) n.toNat _ ⟨rfl, rfl⟩ hrun
    have hiff := hend.losesNothing_iff again hcalls halong
    rw [← and_iff_right hvalid (b := NeverAgain n io again)] at hiff
    rw [← hiff]
    constructor
    · rintro ⟨code', t', hrun', hresult⟩
      rw [hloop, hrun] at hrun'
      obtain ⟨rfl, rfl⟩ := Prod.mk.inj (Option.some.inj hrun')
      rcases hresult with ⟨hcode, -⟩ | ⟨-, hgiven⟩
      · exact .inl hcode
      · exact .inr hgiven
    · intro hresult
      refine ⟨code, t, by rw [hloop, hrun], ?_⟩
      by_cases hcode : code = .success
      · exact .inl ⟨hcode, hend.all (by simp) hcode⟩
      · exact .inr ⟨hcode, hresult.resolve_left hcode⟩
  · refine iff_of_false ?_ fun hc => hvalid hc.1
    rintro ⟨code, t, hrun, hresult⟩
    rw [recvAllData_refuses hvalid] at hrun
    obtain ⟨rfl, rfl⟩ := Prod.mk.inj (Option.some.inj hrun)
    rcases hresult with ⟨hcode, -⟩ | ⟨-, k, call, hcall, -⟩
    · cases hcode
    · simp at hcall

/-- Two bytes for each call, but for the second one, which finds nothing. -/
def nothingYet : Returns where
  ret k c := if k ≠ 1 ∧ 2 ≤ c.toNat then 2 else -1
  valid k c := by
    by_cases hk : k ≠ 1 ∧ 2 ≤ c.toNat
    · rw [if_pos hk]
      omega
    · rw [if_neg hk]
      exact .inl rfl

/-- Of four bytes, the first two are taken from the stream and lost. -/
theorem two_bytes_lost :
    ∃ t, recvAllData 5 (some fun _ => 0) 4 nothingYet UInt8.ofNat = some (.failure, t) ∧
      t.data.taken = 2 ∧ t.calls.map IoCall.result = [2, -1] ∧
      ¬ LosesNothing 5 (fun _ => 0) 4 nothingYet (fun k => k = 1) UInt8.ofNat := by
  obtain ⟨t, hrun, htaken, hresults⟩ : ∃ t, recvAllData 5 (some fun _ => 0) 4 nothingYet
      UInt8.ofNat = some (.failure, t) ∧ t.data.taken = 2 ∧
        t.calls.map IoCall.result = [2, -1] := ⟨_, rfl, rfl, rfl⟩
  refine ⟨t, hrun, htaken, hresults, ?_⟩
  rintro ⟨code, t', hrun', hresult⟩
  rw [hrun] at hrun'
  obtain ⟨rfl, rfl⟩ := Prod.mk.inj (Option.some.inj hrun')
  rcases hresult with ⟨hcode, -⟩ | ⟨-, k, call, hcall, hreason⟩
  · cases hcode
  · have hk : ([2, -1] : List Int)[k]? = some call.result := by
      rw [← hresults, List.getElem?_map, hcall]
      rfl
    match k, hk with
    | 0, hk =>
        obtain hk : (2 : Int) = call.result := Option.some.inj hk
        omega
    | 1, hk =>
        obtain hk : (-1 : Int) = call.result := Option.some.inj hk
        rcases hreason with hzero | ⟨-, hagain⟩
        · omega
        · simp at hagain
    | k + 2, hk => cases hk

end CmakeTemplate
