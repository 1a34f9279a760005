/-
Sending and receiving whole buffers: `send_all_data` and `recv_all_data` of `socket_io.c`.

A buffer is memory from its first byte on; nothing keeps a call from a byte behind its end, so
that none does is for the proofs to say.  What the calls of `send` or `recv` return comes from
outside: an error, the end of the connection, or a number of bytes that may be less than what
was asked for.  Each call is kept with what it was made with.

The two loops are one, around a different effect of the bytes that a call has moved, and with
a different exit code for a connection that was closed.  `send` puts bytes on a stream, and
`recv` takes the next ones from it, so what has been received is judged by how far the stream
has been taken.
-/
import CmakeTemplate.Core
import CmakeTemplate.Lib.Memory
import Mathlib.Algebra.Ring.Int.Defs

namespace CmakeTemplate

open Lib

/-- `MIN_SOCKET`. -/
def minSocket : Int := 3

/-- `MAX_BYTES`. -/
def maxBytes : UInt64 := 1400

/-- `calculate_chunk`. -/
def calculateChunk (bytesToProcess bytesProcessed : UInt64) : UInt64 :=
  if maxBytes < bytesToProcess - bytesProcessed then maxBytes else bytesToProcess - bytesProcessed

/-- What the calls of `send` or of `recv` return: the `k`-th, made for `c` bytes. -/
structure Returns where
  /-- What the `k`-th call returns, made for `c` bytes. -/
  ret : Nat → UInt64 → Int
  /-- An error, the end of the connection, or a number of bytes. -/
  valid : ∀ k c, ret k c = -1 ∨ ret k c = 0 ∨ 1 ≤ ret k c ∧ ret k c ≤ c.toNat

/-- A call of `send` or `recv` on `count` bytes at `offset` in the buffer. -/
structure IoCall where
  /-- Where in the buffer it begins. -/
  offset : UInt64
  /-- How many bytes it is made for. -/
  count : UInt64
  /-- What it returns. -/
  result : Int

/-- Where a loop is: `total` is `total_bytes_sent` or `total_bytes_received`. -/
structure Transfer (σ : Type) where
  /-- How many bytes have been moved. -/
  total : UInt64
  /-- The calls so far. -/
  calls : List IoCall
  /-- What they have had an effect on. -/
  data : σ

variable {σ : Type}

/-- The loops of `send_all_data` and `recv_all_data`, with what is returned when a call returns 0,
and the effect of a call that has moved some bytes at an offset. -/
def transferLoop (io : Returns) (moved : Nat → Nat → σ → σ) (closed : ExitCode) (n : UInt64) :
    Nat → Transfer σ → Option (ExitCode × Transfer σ)
  | 0, t => if t.total < n then none else some (.success, t)
  | fuel + 1, t =>
    if t.total < n then
      let chunk := calculateChunk n t.total
      let byteResult := io.ret t.calls.length chunk
      let calls := t.calls ++ [⟨t.total, chunk, byteResult⟩]
      if byteResult = -1 then some (.failure, { t with calls })
      else if byteResult = 0 then
        if t.total < n then some (closed, { t with calls }) else some (.success, { t with calls })
      else
        transferLoop io moved closed n fuel
          { total := t.total + UInt64.ofInt byteResult, calls,
            data := moved t.total.toNat byteResult.toNat t.data }
    else some (.success, t)

/-- A transfer of `n` bytes that are not NULL, on a socket. -/
def transferAll (socket : Int) (isNull : Bool) (n : UInt64) (io : Returns)
    (moved : Nat → Nat → σ → σ) (closed : ExitCode) (data : σ) :
    Option (ExitCode × Transfer σ) :=
  if isNull then some (.failure, ⟨0, [], data⟩)
  else if n = 0 then some (.failure, ⟨0, [], data⟩)
  else if minSocket > socket then some (.failure, ⟨0, [], data⟩)
  -- a call that the loop goes on from has moved a byte
  else transferLoop io moved closed n n.toNat ⟨0, [], data⟩

/-- The bytes of a call of `send` go on the stream. -/
def sent (buffer : Nat → UInt8) (offset r : Nat) (stream : List UInt8) : List UInt8 :=
  stream ++ read buffer offset r

/-- `send_all_data`, with what it puts on the stream. -/
def sendAllData (socket : Int) (buffer : Option (Nat → UInt8)) (bytesToSend : UInt64)
    (io : Returns) : Option (ExitCode × Transfer (List UInt8)) :=
  transferAll socket buffer.isNone bytesToSend io (sent (buffer.getD fun _ => 0)) .failure []

/-- The buffer of a receiver, and how much it has taken from the stream. -/
structure Inbox where
  /-- The buffer. -/
  buffer : Nat → UInt8
  /-- How many bytes have been taken from the stream. -/
  taken : Nat

/-- A call of `recv` stores what is next on the stream. -/
def received (stream : Nat → UInt8) (offset r : Nat) (inbox : Inbox) : Inbox :=
  { buffer := write inbox.buffer offset r fun j => stream (inbox.taken + j)
    taken := inbox.taken + r }

/-- `recv_all_data` on what is left of a stream. -/
def recvAllData (socket : Int) (buffer : Option (Nat → UInt8)) (bytesToRecv : UInt64)
    (io : Returns) (stream : Nat → UInt8) : Option (ExitCode × Transfer Inbox) :=
  transferAll socket buffer.isNone bytesToRecv io (received stream) .connectionClosed
    ⟨buffer.getD fun _ => 0, 0⟩

/-! ### What a transfer is held to

Bounds on the calls that are made, and the outcomes that decide how a transfer ends.
-/

/-- The calls are few enough, small enough, and inside a buffer of `n` bytes. -/
structure InBuffer (n : UInt64) (calls : List IoCall) : Prop where
  /-- No more calls than bytes have moved something. -/
  few : calls.countP (fun call => 0 < call.result) ≤ n.toNat
  /-- None is made for more than 1400 bytes. -/
  small : ∀ call ∈ calls, call.count.toNat ≤ 1400
  /-- None goes over the end of the buffer. -/
  inside : ∀ call ∈ calls, call.offset.toNat + call.count.toNat ≤ n.toNat

/-- There is a buffer, there are bytes to move, and the descriptor is none of the standard ones. -/
def CanStart (socket : Int) (isNull : Bool) (n : UInt64) : Prop :=
  isNull = false ∧ n ≠ 0 ∧ minSocket ≤ socket

/-- Every call that was made has moved something. -/
def AllMoved (calls : List IoCall) : Prop := ∀ call ∈ calls, 1 ≤ call.result

/-- A call returned 0, and those before it had not moved `n` bytes. -/
def ClosedEarly (n : UInt64) (calls : List IoCall) : Prop :=
  ∃ before call after, calls = before ++ call :: after ∧ call.result = 0 ∧
    (before.map IoCall.result).sum < (n.toNat : Int)

/-! ### Calls that would block

A call of `recv` that returns -1 may have found nothing to receive, or may have been
interrupted; `again k` says so of the `k`-th.
-/

/-- How many bytes the first calls have delivered, for a loop over `n` bytes. -/
def delivered (n : UInt64) (io : Returns) : Nat → UInt64
  | 0 => 0
  | k + 1 => delivered n io k + UInt64.ofInt (io.ret k (calculateChunk n (delivered n io k)))

/-- What the `k`-th call returns, if it is made. -/
def answer (n : UInt64) (io : Returns) (k : Nat) : Int :=
  io.ret k (calculateChunk n (delivered n io k))

/-- Every call so far has delivered something, and there are bytes to come. -/
def Pending (n : UInt64) (io : Returns) (k : Nat) : Prop :=
  (∀ j < k, 0 < answer n io j) ∧ delivered n io k < n

/-- No call finds nothing while there are bytes to come. -/
def NeverAgain (n : UInt64) (io : Returns) (again : Nat → Bool) : Prop :=
  ∀ k, Pending n io k → answer n io k = -1 → again k = false

/-- A call found the connection closed, or reported an error that is not to try again. -/
def GivenUp (again : Nat → Bool) (calls : List IoCall) : Prop :=
  ∃ k call, calls[k]? = some call ∧ (call.result = 0 ∨ call.result = -1 ∧ again k = false)

/-- `recv_all_data` delivers the first `n` bytes of the stream, unless the connection is closed
or reports an error. -/
def LosesNothing (socket : Int) (buffer : Nat → UInt8) (n : UInt64) (io : Returns)
    (again : Nat → Bool) (stream : Nat → UInt8) : Prop :=
  ∃ code t, recvAllData socket (some buffer) n io stream = some (code, t) ∧
    (code = .success ∧ t.data.taken = n.toNat ∧
        read t.data.buffer 0 n.toNat = read stream 0 n.toNat ∨
      code ≠ .success ∧ GivenUp again t.calls)

end CmakeTemplate
