/-
The session key of `encryption.c`, in the memories of the two sides.

The scalar multiplication of Curve25519, the core of HSalsa20 and the hash are taken as they
come, as functions of the bytes they are given; what they compute is elsewhere.  How many
bytes of a result are written is what `tweetnacl.c` does: 32 for a key, and
`crypto_hash_BYTES` for a hash.

A side derives the session key by hashing the shared secret into the buffer of the caller.
The buffer has `SESSION_KEY_SIZE` bytes and the hash is twice as long, so what is behind the
buffer in memory matters: a side is its memory and the places of its keys in there, and what a
call leaves is memory again.
-/
import CmakeTemplate.Encryption

namespace CmakeTemplate

open Lib

/-- `crypto_box_PUBLICKEYBYTES`, which is `PUBLIC_KEY_SIZE`. -/
abbrev publicKeySize : Nat := 32

/-- `crypto_box_SECRETKEYBYTES`, which is `SECRET_KEY_SIZE`. -/
abbrev secretKeySize : Nat := 32

/-- `crypto_secretbox_KEYBYTES`, which is `SESSION_KEY_SIZE`. -/
abbrev sessionKeySize : Nat := 32

/-- `crypto_hash_BYTES`. -/
abbrev hashBytes : Nat := 64

/-- What `tweetnacl.c` computes the keys with. -/
structure KeyCores where
  /-- `crypto_scalarmult`, by the scalar and the point. -/
  scalarmult : List UInt8 → List UInt8 → Bytes
  /-- `crypto_core_hsalsa20`, by the input and the key. -/
  coreHsalsa20 : List UInt8 → List UInt8 → Bytes
  /-- `crypto_hash`. -/
  hash : List UInt8 → Bytes

/-- `_9`, the base point. -/
def basePoint : List UInt8 := 9 :: List.replicate 31 0

/-- `crypto_box_keypair`, with what `randombytes` returns. -/
def cryptoBoxKeypair (p : KeyCores) (random mem : Bytes) (y x : Nat) : Bytes :=
  let mem := write mem x 32 random
  write mem y 32 (p.scalarmult (read mem x 32) basePoint)

/-- `crypto_box_beforenm`. -/
def cryptoBoxBeforenm (p : KeyCores) (y x : List UInt8) : List UInt8 :=
  let s := read (p.scalarmult x y) 0 32
  read (p.coreHsalsa20 (List.replicate 16 0) s) 0 32

/-- `crypto_hash`. -/
def cryptoHash (p : KeyCores) (mem : Bytes) (out : Nat) (m : List UInt8) : Bytes :=
  write mem out hashBytes (p.hash m)

/-- `encryption_generate_key_pair`. -/
def encryptionGenerateKeyPair (p : KeyCores) (random mem : Bytes)
    (publicKey secretKey : Option Nat) : ExitCode × Bytes :=
  match publicKey, secretKey with
  | some publicKey, some secretKey =>
    (.success, cryptoBoxKeypair p random mem publicKey secretKey)
  | _, _ => (.failure, mem)

/-- `encryption_derive_session_key`; `shared_secret` is an array of its own. -/
def encryptionDeriveSessionKey (p : KeyCores) (mem : Bytes)
    (clientPublic serverPrivate sessionKey : Option Nat) : ExitCode × Bytes :=
  match clientPublic, serverPrivate, sessionKey with
  | some clientPublic, some serverPrivate, some sessionKey =>
    let sharedSecret := cryptoBoxBeforenm p (read mem clientPublic publicKeySize)
      (read mem serverPrivate secretKeySize)
    (.success, cryptoHash p mem sessionKey sharedSecret)
  | _, _, _ => (.failure, mem)

/-! ### Two sides

Each side has made a pair of keys and has the public key of the other.  They should then come
to one key, and change nothing but the place for it.
-/

/-- The public and the secret key of a pair made by `crypto_box_keypair`. -/
structure IsKeyPair (p : KeyCores) (pk sk : List UInt8) : Prop where
  /-- The secret key has its length. -/
  length : sk.length = secretKeySize
  /-- The public key is the multiple of the base point. -/
  eq : pk = read (p.scalarmult sk basePoint) 0 publicKeySize

/-- Two pairs give the same shared secret, whichever secret key is used. -/
def KeyCores.Agrees (p : KeyCores) : Prop :=
  ∀ pkA skA pkB skB, IsKeyPair p pkA skA → IsKeyPair p pkB skB →
    cryptoBoxBeforenm p pkB skA = cryptoBoxBeforenm p pkA skB

/-- The memory of a side, and where it has the other side's public key, its own secret key and
the buffer for the session key. -/
structure Side where
  /-- The memory of the side. -/
  memory : Bytes
  /-- Where the public key of the other side is. -/
  publicKey : Nat
  /-- Where its own secret key is. -/
  secretKey : Nat
  /-- Where the buffer for the session key is. -/
  sessionKey : Nat

/-- The call of a side. -/
def Side.derive (p : KeyCores) (s : Side) : ExitCode × Bytes :=
  encryptionDeriveSessionKey p s.memory (some s.publicKey) (some s.secretKey) (some s.sessionKey)

/-- The shared secret of a side. -/
def Side.sharedSecret (p : KeyCores) (s : Side) : List UInt8 :=
  cryptoBoxBeforenm p (read s.memory s.publicKey publicKeySize)
    (read s.memory s.secretKey secretKeySize)

/-- Each side has its own secret key, and the public key of the other. -/
structure Peers (p : KeyCores) (a b : Side) : Prop where
  /-- The second side has the public key that belongs to the first one's secret key. -/
  first : IsKeyPair p (read b.memory b.publicKey publicKeySize)
    (read a.memory a.secretKey secretKeySize)
  /-- And the other way round. -/
  second : IsKeyPair p (read a.memory a.publicKey publicKeySize)
    (read b.memory b.secretKey secretKeySize)

/-- Both sides have the same session key, and have changed nothing but its buffer. -/
def DeriveOneKey (p : KeyCores) (a b : Side) : Prop :=
  ∃ memA memB, a.derive p = (.success, memA) ∧ b.derive p = (.success, memB) ∧
    read memA a.sessionKey sessionKeySize = read memB b.sessionKey sessionKeySize ∧
    ChangedWithin a.sessionKey sessionKeySize a.memory memA ∧
    ChangedWithin b.sessionKey sessionKeySize b.memory memB

/-- Behind the buffer there already is the second half of the hash. -/
def Side.HashBehind (p : KeyCores) (s : Side) : Prop :=
  read s.memory (s.sessionKey + sessionKeySize) (hashBytes - sessionKeySize) =
    read (p.hash (s.sharedSecret p)) sessionKeySize (hashBytes - sessionKeySize)

end CmakeTemplate
