/-
Chunks encrypted by `encryption.c` with the secret box of `tweetnacl.c`.

A buffer is memory from its first byte on, and two buffers do not overlap.  The Salsa20
core and the one-time authenticator are taken as they come: they depend on what they are
given, and nothing else is known of them.  `crypto_stream_xor` is the loop of
`crypto_stream_salsa20_xor` over blocks of 64 bytes, with a counter in the input of the
core.

The secret box is written over any key stream; that of the loop is one.
-/
import CmakeTemplate.Core
import CmakeTemplate.Lib.Memory

namespace CmakeTemplate

open Lib

/-- A buffer, from its first byte on. -/
abbrev Bytes := Nat → UInt8

/-! ### The stream cipher

The loop takes the message in blocks of 64 bytes, the last one as long as it is, and counts
the block up between two of them.
-/

/-- The cores of Salsa20, with the constant `sigma` for the last argument. -/
structure Cores where
  /-- `crypto_core_salsa20`, by its input and its key. -/
  coreSalsa20 : Bytes → Bytes → Bytes
  /-- `crypto_core_hsalsa20`, likewise. -/
  coreHsalsa20 : Bytes → Bytes → Bytes

/-- The loop that counts the block up, from `z[i]` on, for `k` bytes. -/
def countFrom : Nat → Nat → UInt64 → Bytes → Bytes
  | 0, _, _, z => z
  | k + 1, i, u, z =>
    countFrom k (i + 1) ((u + (z i).toUInt64) >>> 8)
      (Function.update z i (u + (z i).toUInt64).toUInt8)

/-- The input of the core for the next block. -/
def nextBlock (z : Bytes) : Bytes := countFrom 8 8 1 z

/-- The input of the core for the first block. -/
def firstBlock (n : Bytes) : Bytes := fun i => if i < 8 then n i else 0

/-- `m ? m[i] : 0`. -/
def byteOf (m : Option Bytes) (i : Nat) : UInt8 := m.elim 0 fun m => m i

/-- The loop of `crypto_stream_salsa20_xor`, with `b` bytes left from `off` on. -/
def salsa20XorLoop (p : Cores) (m : Option Bytes) (k : Bytes) :
    Nat → Bytes → Nat → Nat → Bytes → Bytes
  | 0, _, _, _, c => c
  | fuel + 1, z, off, b, c =>
    if 64 ≤ b then
      salsa20XorLoop p m k fuel (nextBlock z) (off + 64) (b - 64)
        (write c off 64 fun i => byteOf m (off + i) ^^^ p.coreSalsa20 z k i)
    else if b ≠ 0 then write c off b fun i => byteOf m (off + i) ^^^ p.coreSalsa20 z k i
    else c

/-- `crypto_stream_salsa20_xor`. -/
def cryptoStreamSalsa20Xor (p : Cores) (c : Bytes) (m : Option Bytes) (b : Nat) (n k : Bytes) :
    Bytes :=
  -- every turn but the last takes 64 bytes
  salsa20XorLoop p m k (b + 1) (firstBlock n) 0 b c

/-- `crypto_stream_xor`, and `crypto_stream` where `m` is NULL. -/
def cryptoStreamXor (p : Cores) (c : Bytes) (m : Option Bytes) (d : Nat) (n k : Bytes) : Bytes :=
  cryptoStreamSalsa20Xor p c m d (fun i => n (16 + i)) (p.coreHsalsa20 n k)

/-! ### The secret box

The first 32 bytes of a chunk are padding: the stream's bytes there are the key of the
authenticator, and the tag goes into the second half of the place.
-/

/-- A key stream, and `crypto_onetimeauth` as a function of the data and the key. -/
structure Secretbox where
  /-- The key stream, by the nonce and the key. -/
  stream : Bytes → Bytes → Bytes
  /-- The tag, by the data and the key. -/
  onetimeauth : List UInt8 → List UInt8 → Bytes

/-- The first `d` bytes of `c`, by exclusive or of `m` and the key stream. -/
def Secretbox.streamXor (p : Secretbox) (c : Bytes) (m : Option Bytes) (d : Nat) (n k : Bytes) :
    Bytes :=
  write c 0 d fun i => byteOf m i ^^^ p.stream n k i

/-- `vn`: 0 if the first `count` bytes are the same, and -1 otherwise. -/
def vn (x y : Bytes) (count : Nat) : Int :=
  let d : UInt64 := (List.range count).foldl (fun d i => d ||| (x i ^^^ y i).toUInt64) 0
  (((1 : UInt64) &&& ((d - 1) >>> 8)).toNat : Int) - 1

/-- `crypto_verify_16`. -/
def cryptoVerify16 (x y : Bytes) : Int := vn x y 16

/-- `crypto_secretbox`. -/
def cryptoSecretbox (p : Secretbox) (c m : Bytes) (d : UInt64) (n k : Bytes) : Int × Bytes :=
  if d < 32 then (-1, c)
  else
    let c := p.streamXor c (some m) d.toNat n k
    let c := write c 16 16 (p.onetimeauth (read c 32 (d.toNat - 32)) (read c 0 32))
    (0, write c 0 16 fun _ => 0)

/-- `crypto_secretbox_open`. -/
def cryptoSecretboxOpen (p : Secretbox) (m c : Bytes) (d : UInt64) (n k : Bytes) : Int × Bytes :=
  if d < 32 then (-1, m)
  else
    let x := p.streamXor (fun _ => 0) none 32 n k
    if cryptoVerify16 (fun i => c (16 + i))
        (p.onetimeauth (read c 32 (d.toNat - 32)) (read x 0 32)) ≠ 0 then (-1, m)
    else
      let m := p.streamXor m (some c) d.toNat n k
      (0, write m 0 32 fun _ => 0)

/-- `encryption_encrypt_chunk`, with the cipher text behind it. -/
def encryptionEncryptChunk (p : Secretbox) (plainText : Option Bytes) (length : UInt64)
    (nonce key cipherText : Option Bytes) : ExitCode × Option Bytes :=
  match plainText, nonce, key, cipherText with
  | some plainText, some nonce, some key, some cipherText =>
    -- what `crypto_secretbox` returns is dropped
    (.success, some (cryptoSecretbox p cipherText plainText length nonce key).2)
  | _, _, _, _ => (.failure, cipherText)

/-- `encryption_decrypt_chunk`, with the plain text behind it. -/
def encryptionDecryptChunk (p : Secretbox) (cipherText : Option Bytes) (length : UInt64)
    (nonce key plainText : Option Bytes) : ExitCode × Option Bytes :=
  match cipherText, nonce, key, plainText with
  | some cipherText, some nonce, some key, some plainText =>
    let (r, plainText) := cryptoSecretboxOpen p plainText cipherText length nonce key
    if r ≠ 0 then (.failure, some plainText) else (.success, some plainText)
  | _, _, _, _ => (.failure, plainText)

/-! ### The round trip

A chunk is encrypted, and what has come of it is decrypted with the same nonce and the same
key.  `encryption_encrypt_chunk` returns E_SUCCESS even where the secret box has refused the
chunk for its length.
-/

/-- What is encrypted is decrypted again, in buffers that are not NULL. -/
def RoundTrip (p : Secretbox) (plainText : Bytes) (length : UInt64)
    (nonce key cipherText out : Bytes) : Prop :=
  ∀ cipherText',
    encryptionEncryptChunk p (some plainText) length (some nonce) (some key) (some cipherText) =
        (.success, some cipherText') →
      ∃ out', encryptionDecryptChunk p (some cipherText') length (some nonce) (some key) (some out) =
          (.success, some out') ∧
        ∀ i, i < length.toNat → out' i = plainText i

/-- The chunk begins with the padding that the secret box wants in front of a message. -/
def Padded (plainText : Bytes) (length : UInt64) : Prop :=
  32 ≤ length.toNat ∧ ∀ i, i < 32 → plainText i = 0

end CmakeTemplate
