/-
Two sides that make their keys, exchange the public ones and derive a session key.

Each side has memory of its own, and four places in it: for its public key, its secret key,
the public key of the other side, and the session key.  The places may overlap in any way, as
long as nothing that is written before the session key is derived goes over the secret key;
`Layout` says that.

A side calls `encryption_generate_key_pair`, sends its public key, writes what it receives
into its memory as it comes, and calls `encryption_derive_session_key`.  Nothing is known of
what happens on the way between the two sides but that the bytes arrive.  A chunk that is
encrypted afterwards is conveyed if the other side's call decrypts it to what it was.
-/
import CmakeTemplate.Tweetnacl

namespace CmakeTemplate

open Lib

/-- Where a side keeps its keys: nothing that is written before the session key is derived goes over
its secret key. -/
structure Layout where
  /-- Where its own public key is. -/
  publicKey : Nat
  /-- Where its own secret key is. -/
  secretKey : Nat
  /-- Where the public key of the other side is written. -/
  otherKey : Nat
  /-- Where the session key is written. -/
  sessionKey : Nat
  /-- The public key is not written over the secret one. -/
  disjoint_public : secretKey + secretKeySize ≤ publicKey ∨ publicKey + publicKeySize ≤ secretKey
  /-- Neither is what the other side has sent. -/
  disjoint_other : secretKey + secretKeySize ≤ otherKey ∨ otherKey + publicKeySize ≤ secretKey

namespace Layout

/-- A side's call of `encryption_generate_key_pair`. -/
def generate (l : Layout) (random mem : Bytes) : ExitCode × Bytes :=
  encryptionGenerateKeyPair tweetnaclKeys random mem (some l.publicKey) (some l.secretKey)

/-- What is sent to the other side. -/
def sent (l : Layout) (mem : Bytes) : Bytes := fun i => mem (l.publicKey + i)

/-- What the other side has sent. -/
def receive (l : Layout) (mem key : Bytes) : Bytes := write mem l.otherKey publicKeySize key

/-- A side's call of `encryption_derive_session_key`. -/
def derive (l : Layout) (mem : Bytes) : ExitCode × Bytes :=
  encryptionDeriveSessionKey tweetnaclKeys mem (some l.otherKey) (some l.secretKey)
    (some l.sessionKey)

/-- The session key, as an argument of the functions for chunks. -/
def key (l : Layout) (mem : Bytes) : Bytes := fun i => mem (l.sessionKey + i)

end Layout

/-- A chunk that one side encrypts is what the other side decrypts. -/
def Conveys (keyA keyB : Bytes) : Prop :=
  ∀ (plainText nonce cipherText out : Bytes) (length : UInt64), Padded plainText length →
    ∃ c m, encryptionEncryptChunk tweetnaclBox (some plainText) length (some nonce) (some keyA)
          (some cipherText) = (.success, some c) ∧
      encryptionDecryptChunk tweetnaclBox (some c) length (some nonce) (some keyB) (some out)
        = (.success, some m) ∧
      ∀ i, i < length.toNat → m i = plainText i

end CmakeTemplate
