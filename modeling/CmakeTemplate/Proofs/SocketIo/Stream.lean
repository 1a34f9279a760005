/-
What the two loops carry.

`Going` is what holds at the head of either loop: as many bytes have been moved as the
results of the calls add up to, every call has moved at least one, and the effect of
moving them (`P`, which the loops know nothing else of) is that of as many bytes.  A loop
that has fuel for the bytes that are left ends as `Ended` says: with all of them moved, or
with a last call that has returned -1 or 0.
-/
import CmakeTemplate.SocketIo

namespace CmakeTemplate

open Lib

variable {σ : Type} {n : UInt64} {P : Nat → σ → Prop} {moved : Nat → Nat → σ → σ}
  {t t' : Transfer σ}

theorem calculateChunk_toNat {total : UInt64} (h : total < n) :
    (calculateChunk n total).toNat = min 1400 (n.toNat - total.toNat) := by
  have hsub : (n - total).toNat = n.toNat - total.toNat :=
    UInt64.toNat_sub_of_le n total (UInt64.le_of_lt h)
  have hmax : maxBytes.toNat = 1400 := rfl
  rw [calculateChunk]
  split <;> rename_i hlt <;> rw [UInt64.lt_iff_toNat_lt] at hlt <;> omega

theorem toNat_add_ofInt {total : UInt64} {r : Int} (h1 : 1 ≤ r)
    (h : total.toNat + r.toNat ≤ n.toNat) :
    (total + UInt64.ofInt r).toNat = total.toNat + r.toNat := by
  have hn := n.toNat_lt
  rw [UInt64.ofInt, UInt64.toNat_add, UInt64.toNat_ofNat']
  omega

/-! ### The head of the loop

The invariant of both loops, and the call that comes next.
-/

/-- What holds at the head of a loop over `n` bytes. -/
structure Going (n : UInt64) (P : Nat → σ → Prop) (t : Transfer σ) : Prop where
  /-- No more has been moved than there is. -/
  le : t.total.toNat ≤ n.toNat
  /-- It is what the calls have moved. -/
  sum : (t.calls.map IoCall.result).sum = t.total.toNat
  /-- Each of them has moved a byte at least. -/
  pos : ∀ call ∈ t.calls, 1 ≤ call.result
  /-- None was made for too many. -/
  small : ∀ call ∈ t.calls, call.count.toNat ≤ 1400
  /-- None went over the end. -/
  inside : ∀ call ∈ t.calls, call.offset.toNat + call.count.toNat ≤ n.toNat
  /-- The effect is that of the bytes that were moved. -/
  data : P t.total.toNat t.data

theorem Going.start {data : σ} (h : P 0 data) : Going n P ⟨0, [], data⟩ :=
  { le := Nat.zero_le _
    sum := rfl
    pos := fun _ hc => absurd hc List.not_mem_nil
    small := fun _ hc => absurd hc List.not_mem_nil
    inside := fun _ hc => absurd hc List.not_mem_nil
    data := h }

/-- The call that the loop makes next. -/
def nextCall (n : UInt64) (t : Transfer σ) (r : Int) : IoCall :=
  ⟨t.total, calculateChunk n t.total, r⟩

theorem nextCall_small (hlt : t.total < n) (r : Int) : (nextCall n t r).count.toNat ≤ 1400 := by
  show (calculateChunk n t.total).toNat ≤ 1400
  rw [calculateChunk_toNat hlt]
  exact Nat.min_le_left _ _

theorem nextCall_inside (hlt : t.total < n) (r : Int) :
    (nextCall n t r).offset.toNat + (nextCall n t r).count.toNat ≤ n.toNat := by
  show t.total.toNat + (calculateChunk n t.total).toNat ≤ n.toNat
  rw [calculateChunk_toNat hlt]
  rw [UInt64.lt_iff_toNat_lt] at hlt
  omega

/-- A call that moves `r` bytes. -/
theorem Going.step (hmoved : ∀ off r data, P off data → P (off + r) (moved off r data))
    (h : Going n P t) (hlt : t.total < n) {r : Int} (h1 : 1 ≤ r)
    (hr : r ≤ (calculateChunk n t.total).toNat) :
    Going n P ⟨t.total + UInt64.ofInt r, t.calls ++ [nextCall n t r],
      moved t.total.toNat r.toNat t.data⟩ := by
  have hinside := nextCall_inside hlt r
  have hroom : t.total.toNat + r.toNat ≤ n.toNat := by
    have : t.total.toNat + (calculateChunk n t.total).toNat ≤ n.toNat := hinside
    omega
  have htotal := toNat_add_ofInt h1 hroom
  refine ⟨?_, ?_, ?_, ?_, ?_, ?_⟩
  · rw [htotal]
    exact hroom
  · rw [htotal, List.map_append, List.sum_append, h.sum]
    simp only [List.map_cons, List.map_nil, List.sum_cons, List.sum_nil, nextCall]
    omega
  · exact List.forall_mem_append.mpr ⟨h.pos, List.forall_mem_singleton.mpr h1⟩
  · exact List.forall_mem_append.mpr ⟨h.small, List.forall_mem_singleton.mpr (nextCall_small hlt r)⟩
  · exact List.forall_mem_append.mpr ⟨h.inside, List.forall_mem_singleton.mpr hinside⟩
  · rw [htotal]
    exact hmoved _ _ _ h.data

/-! ### The end of it

The loops end, as each call that does not end them moves a byte at least.
-/

/-- How a loop over `n` bytes ends. -/
inductive Ended (n : UInt64) (P : Nat → σ → Prop) (closed : ExitCode) :
    ExitCode → Transfer σ → Prop
  | done {t : Transfer σ} (h : Going n P t) (hall : t.total = n) : Ended n P closed .success t
  | failed {t : Transfer σ} (h : Going n P t) (hlt : t.total < n) :
      Ended n P closed .failure { t with calls := t.calls ++ [nextCall n t (-1)] }
  | closed {t : Transfer σ} (h : Going n P t) (hlt : t.total < n) :
      Ended n P closed closed { t with calls := t.calls ++ [nextCall n t 0] }

/-- A loop with fuel for the bytes that are left comes to an end. -/
theorem transferLoop_ends (hmoved : ∀ off r data, P off data → P (off + r) (moved off r data))
    (io : Returns) (closed : ExitCode) :
    ∀ (fuel : Nat) (t : Transfer σ), Going n P t → n.toNat - t.total.toNat ≤ fuel →
      ∃ code t', transferLoop io moved closed n fuel t = some (code, t') ∧
        Ended n P closed code t' := by
  intro fuel
  induction fuel with
  | zero =>
      intro t h hfuel
      have hall : t.total = n := UInt64.toNat_inj.mp (Nat.le_antisymm h.le (by omega))
      refine ⟨_, t, ?_, .done h hall⟩
      rw [transferLoop, if_neg (by rw [hall]; exact UInt64.lt_irrefl n)]
  | succ fuel ih =>
      intro t h hfuel
      by_cases hlt : t.total < n
      · simp only [transferLoop, if_pos hlt]
        have hvalid := io.valid t.calls.length (calculateChunk n t.total)
        generalize io.ret t.calls.length (calculateChunk n t.total) = r at hvalid
        rcases hvalid with rfl | rfl | ⟨h1, hr⟩
        · exact ⟨_, _, if_pos rfl, .failed h hlt⟩
        · exact ⟨_, _, by rw [if_neg (by decide), if_pos rfl]; rfl, .closed h hlt⟩
        · have hgoing := h.step hmoved hlt h1 hr
          have hless : n.toNat - (t.total + UInt64.ofInt r).toNat ≤ fuel := by
            have hinside : t.total.toNat + (calculateChunk n t.total).toNat ≤ n.toNat :=
              nextCall_inside hlt r
            rw [toNat_add_ofInt (n := n) h1 (by omega)]
            omega
          obtain ⟨code, t', hloop, hend⟩ := ih _ hgoing hless
          refine ⟨code, t', ?_, hend⟩
          rw [if_neg (by omega), if_neg (by omega)]
          exact hloop
      · have hall : t.total = n :=
          UInt64.toNat_inj.mp (Nat.le_antisymm h.le (by rw [UInt64.lt_iff_toNat_lt] at hlt; omega))
        refine ⟨_, t, ?_, .done h hall⟩
        rw [transferLoop, if_neg hlt]

/-- Each call has moved a byte at least. -/
theorem Going.length_le (h : Going n P t) : t.calls.length ≤ t.total.toNat := by
  have hle : ∀ calls : List IoCall, (∀ call ∈ calls, 1 ≤ call.result) →
      (calls.length : Int) ≤ (calls.map IoCall.result).sum := by
    intro calls hpos
    induction calls with
    | nil => exact Int.le_refl 0
    | cons call calls ih =>
        have hcall := hpos call List.mem_cons_self
        have hrest := ih fun c hc => hpos c (List.mem_cons_of_mem _ hc)
        simp only [List.length_cons, List.map_cons, List.sum_cons]
        omega
  have hsum := hle t.calls h.pos
  rw [h.sum] at hsum
  omega

theorem Going.countP_le (h : Going n P t) :
    t.calls.countP (fun call => 0 < call.result) ≤ n.toNat :=
  Nat.le_trans List.countP_le_length (Nat.le_trans h.length_le h.le)

/-- A last call that has moved nothing. -/
theorem Going.inBuffer_last (h : Going n P t) (hlt : t.total < n) {r : Int} (hr : r ≤ 0) :
    InBuffer n (t.calls ++ [nextCall n t r]) := by
  refine ⟨?_, ?_, ?_⟩
  · have hlast : [nextCall n t r].countP (fun call => 0 < call.result) = 0 := by
      simpa [nextCall] using hr
    rw [List.countP_append, hlast]
    exact h.countP_le
  · exact List.forall_mem_append.mpr ⟨h.small, List.forall_mem_singleton.mpr (nextCall_small hlt r)⟩
  · exact List.forall_mem_append.mpr
      ⟨h.inside, List.forall_mem_singleton.mpr (nextCall_inside hlt r)⟩

variable {closed code : ExitCode}

theorem Ended.inBuffer (h : Ended n P closed code t) : InBuffer n t.calls := by
  cases h with
  | done h _ => exact ⟨h.countP_le, h.small, h.inside⟩
  | failed h hlt => exact h.inBuffer_last hlt (by decide)
  | closed h hlt => exact h.inBuffer_last hlt (Int.le_refl 0)

/-- All that succeeds is the whole of it. -/
theorem Ended.all (h : Ended n P closed code t) (hclosed : closed ≠ .success)
    (hcode : code = .success) : P n.toNat t.data := by
  cases h with
  | done h hall =>
      have hdata := h.data
      rwa [hall] at hdata
  | failed h hlt => cases hcode
  | closed h hlt => exact absurd hcode hclosed

/-- It succeeds unless a call has returned -1 or 0. -/
theorem Ended.allMoved_iff (h : Ended n P closed code t) (hclosed : closed ≠ .success) :
    code = .success ↔ AllMoved t.calls := by
  have hlast : ∀ {t : Transfer σ} {r : Int}, r < 1 → ¬ AllMoved (t.calls ++ [nextCall n t r]) := by
    intro t r hr hall
    have hcall : 1 ≤ r := hall (nextCall n t r) (List.mem_append_right _ (List.mem_singleton_self _))
    omega
  cases h with
  | done h hall => exact iff_of_true rfl h.pos
  | failed h hlt => exact iff_of_false (by simp) (hlast (by decide))
  | closed h hlt => exact iff_of_false hclosed (hlast (by decide))

/-- The calls in front of one that has returned 0. -/
theorem not_closedEarly (hpos : ∀ call ∈ t.calls, call.result ≠ 0) : ¬ ClosedEarly n t.calls := by
  intro hearly
  obtain ⟨before, call, after, hcalls, hzero, -⟩ := hearly
  refine hpos call ?_ hzero
  rw [hcalls]
  exact List.mem_append_right _ List.mem_cons_self

theorem Going.moves (h : Going n P t) : ∀ call ∈ t.calls, call.result ≠ 0 := by
  intro call hcall
  have hpos := h.pos call hcall
  omega

theorem Ended.closedEarly_iff (h : Ended n P closed code t) (hs : closed ≠ .success)
    (hf : closed ≠ .failure) : code = closed ↔ ClosedEarly n t.calls := by
  cases h with
  | done h hall => exact iff_of_false (Ne.symm hs) (not_closedEarly h.moves)
  | failed h hlt =>
      refine iff_of_false (Ne.symm hf) (not_closedEarly ?_)
      exact List.forall_mem_append.mpr ⟨h.moves, List.forall_mem_singleton.mpr (by simp [nextCall])⟩
  | closed h hlt =>
      refine iff_of_true rfl ⟨_, _, [], rfl, rfl, ?_⟩
      rw [h.sum]
      exact Int.ofNat_lt.mpr (UInt64.lt_iff_toNat_lt.mp hlt)

/-! ### The two functions

The two effects: bytes that go on a stream, and bytes that come from one.
-/

/-- What a transfer of `n` bytes does, whatever it is called with. -/
theorem transferAll_ends (hmoved : ∀ off r data, P off data → P (off + r) (moved off r data))
    (socket : Int) (isNull : Bool) (io : Returns) (closed : ExitCode) (data : σ)
    (hdata : P 0 data) :
    ∃ code t, transferAll socket isNull n io moved closed data = some (code, t) ∧
      (CanStart socket isNull n ∧ Ended n P closed code t ∨
        ¬ CanStart socket isNull n ∧ code = .failure ∧ t = ⟨0, [], data⟩) := by
  rw [transferAll]
  split
  · rename_i hnull
    exact ⟨_, _, rfl, .inr ⟨fun hc => Bool.noConfusion (hnull.symm.trans hc.1), rfl, rfl⟩⟩
  rename_i hbuffer
  split
  · rename_i hn
    exact ⟨_, _, rfl, .inr ⟨fun hc => hc.2.1 hn, rfl, rfl⟩⟩
  rename_i hbytes
  split
  · rename_i hsocket
    exact ⟨_, _, rfl, .inr ⟨fun hc => absurd hc.2.2 (Int.not_le.mpr hsocket), rfl, rfl⟩⟩
  · rename_i hsocket
    have hstart : CanStart socket isNull n :=
      ⟨Bool.eq_false_iff.mpr hbuffer, hbytes, Int.not_lt.mp hsocket⟩
    obtain ⟨code, t, hloop, hend⟩ := transferLoop_ends hmoved io closed n.toNat ⟨0, [], data⟩
      (Going.start hdata) (Nat.sub_le _ _)
    exact ⟨code, t, hloop, .inl ⟨hstart, hend⟩⟩

theorem inBuffer_nil : InBuffer n [] := by
  refine ⟨Nat.zero_le _, ?_, ?_⟩
  · intro call hcall
    exact absurd hcall List.not_mem_nil
  · intro call hcall
    exact absurd hcall List.not_mem_nil

/-- `send_all_data` puts the buffer on the stream, or fails. -/
theorem sendAllData_spec (socket : Int) (buffer : Option (Nat → UInt8)) (n : UInt64)
    (io : Returns) :
    ∃ code t, sendAllData socket buffer n io = some (code, t) ∧ InBuffer n t.calls ∧
      (code = .success → ∃ mem, buffer = some mem ∧ t.data = read mem 0 n.toNat) ∧
      (code = .success ↔ CanStart socket buffer.isNone n ∧ AllMoved t.calls) := by
  have hmoved : ∀ off r (data : List UInt8), data = read (buffer.getD fun _ => 0) 0 off →
      sent (buffer.getD fun _ => 0) off r data = read (buffer.getD fun _ => 0) 0 (off + r) := by
    intro off r data hdata
    rw [sent, hdata, read_add, Nat.zero_add]
  obtain ⟨code, t, hrun, ⟨hstart, hend⟩ | ⟨hstart, rfl, rfl⟩⟩ :=
    transferAll_ends (n := n) hmoved socket buffer.isNone io .failure [] rfl
  · refine ⟨code, t, hrun, hend.inBuffer, ?_, ?_⟩
    · intro hcode
      cases buffer with
      | none => exact Bool.noConfusion hstart.1
      | some mem => exact ⟨mem, rfl, hend.all (by simp) hcode⟩
    · rw [hend.allMoved_iff (by simp)]
      exact (and_iff_right hstart).symm
  · refine ⟨_, _, hrun, inBuffer_nil, ?_, ?_⟩
    · intro hcode
      cases hcode
    · exact iff_of_false (by simp) fun hand => hstart hand.1

/-- What an inbox holds that has taken the first `off` bytes of a stream. -/
def Taken (stream : Nat → UInt8) (off : Nat) (inbox : Inbox) : Prop :=
  inbox.taken = off ∧ read inbox.buffer 0 off = read stream 0 off

theorem Taken.received {stream : Nat → UInt8} {off : Nat} {inbox : Inbox}
    (h : Taken stream off inbox) (r : Nat) :
    Taken stream (off + r) (received stream off r inbox) := by
  obtain ⟨rfl, hread⟩ := h
  refine ⟨rfl, ?_⟩
  have hnext : read (fun j => stream (inbox.taken + j)) 0 r =
      read stream (0 + inbox.taken) r := by
    refine read_congr ?_
    intro j _
    rw [Nat.zero_add, Nat.zero_add]
  rw [CmakeTemplate.received, read_write, hread, hnext, ← read_add]

/-- `recv_all_data` fills the buffer with what is next on the stream, finds the connection
closed, or fails. -/
theorem recvAllData_spec (socket : Int) (buffer : Option (Nat → UInt8)) (n : UInt64)
    (io : Returns) (stream : Nat → UInt8) :
    ∃ code t, recvAllData socket buffer n io stream = some (code, t) ∧ InBuffer n t.calls ∧
      (code = .success → read t.data.buffer 0 n.toNat = read stream 0 n.toNat) ∧
      (code = .connectionClosed ↔ ClosedEarly n t.calls) ∧
      (code = .success ↔ CanStart socket buffer.isNone n ∧ AllMoved t.calls) := by
  obtain ⟨code, t, hrun, ⟨hstart, hend⟩ | ⟨hstart, rfl, rfl⟩⟩ :=
    transferAll_ends (n := n) (P := Taken stream) (fun _ r _ h => h.received r) socket
      buffer.isNone io .connectionClosed ⟨buffer.getD fun _ => 0, 0⟩ ⟨rfl, rfl⟩
  · refine ⟨code, t, hrun, hend.inBuffer, ?_, hend.closedEarly_iff (by simp) (by simp), ?_⟩
    · intro hcode
      exact (hend.all (by simp) hcode).2
    · rw [hend.allMoved_iff (by simp)]
      exact (and_iff_right hstart).symm
  · refine ⟨_, _, hrun, inBuffer_nil, ?_, ?_, ?_⟩
    · intro hcode
      cases hcode
    · refine iff_of_false (by simp) (not_closedEarly ?_)
      intro call hcall
      exact absurd hcall List.not_mem_nil
    · exact iff_of_false (by simp) fun hand => hstart hand.1

/-- `send_all_data` and `recv_all_data` end whatever `send` and `recv` return, stay inside their
buffers, and carry the bytes in order.  Given what they can start from, they give up for no other
reason than a call that has moved nothing. -/
theorem socketIo_carries (n : UInt64) (sendSocket recvSocket : Int)
    (source target : Option (Nat → UInt8)) (sends recvs : Returns) (stream : Nat → UInt8) :
    (∃ code t, sendAllData sendSocket source n sends = some (code, t) ∧ InBuffer n t.calls ∧
      (code = .success → ∃ mem, source = some mem ∧ t.data = read mem 0 n.toNat) ∧
      (code = .success ↔ CanStart sendSocket source.isNone n ∧ AllMoved t.calls)) ∧
    (∃ code t, recvAllData recvSocket target n recvs stream = some (code, t) ∧
      InBuffer n t.calls ∧
      (code = .success → read t.data.buffer 0 n.toNat = read stream 0 n.toNat) ∧
      (code = .connectionClosed ↔ ClosedEarly n t.calls) ∧
      (code = .success ↔ CanStart recvSocket target.isNone n ∧ AllMoved t.calls)) :=
  ⟨sendAllData_spec sendSocket source n sends, recvAllData_spec recvSocket target n recvs stream⟩

/-- A buffer that was sent is what a receiver of as many bytes finds, wherever the two have
split it. -/
theorem received_of_sent {n : UInt64} {sendSocket recvSocket : Int} {mem : Nat → UInt8}
    {target : Option (Nat → UInt8)} {sends recvs : Returns} {stream : Nat → UInt8}
    {out : Transfer (List UInt8)} {box : Transfer Inbox}
    (hsend : sendAllData sendSocket (some mem) n sends = some (.success, out))
    (hrecv : recvAllData recvSocket target n recvs stream = some (.success, box))
    (hstream : out.data <+: read stream 0 n.toNat) :
    read box.data.buffer 0 n.toNat = read mem 0 n.toNat := by
  obtain ⟨code, t, hrun, -, hdata, -⟩ := sendAllData_spec sendSocket (some mem) n sends
  rw [hsend] at hrun
  obtain ⟨rfl, rfl⟩ := Prod.mk.inj (Option.some.inj hrun)
  obtain ⟨mem', hmem, hout⟩ := hdata rfl
  obtain ⟨code', t', hrun', -, hbox, -⟩ := recvAllData_spec recvSocket target n recvs stream
  rw [hrecv] at hrun'
  obtain ⟨rfl, rfl⟩ := Prod.mk.inj (Option.some.inj hrun')
  rw [hbox rfl, Option.some.inj hmem, ← hout]
  refine (hstream.eq_of_length ?_).symm
  rw [hout, length_read, length_read]

end CmakeTemplate
