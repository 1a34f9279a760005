/-
`tweetnacl.c`, put together: the functions that keys and secret boxes are computed with.

The modules on encryption and on session keys take the scalar multiplication, the cores of
Salsa20, the authenticator and the hash as they come.  Here they are those of `tweetnacl.c`,
each of which has a module of its own, so that what was said of any functions is said of
these.

A function that is given as many bytes as it reads takes them as a list.  Where it returns a
buffer, that is what it writes to a buffer of zeroes; none of them reads what it writes over,
so it makes no difference what was in the buffer before.  The cores are called with the
constant `sigma` everywhere in the source.
-/
import CmakeTemplate.Curve25519
import CmakeTemplate.Poly1305
import CmakeTemplate.Salsa20
import CmakeTemplate.SessionKey
import CmakeTemplate.Sha512
import CmakeTemplate.Proofs.Crypto.RoundTrip

namespace CmakeTemplate

open Lib

/-- A buffer that begins with the bytes of a list. -/
def bytesOf (l : List UInt8) : Bytes := fun i => l.getD i 0

/-- A buffer of zeroes. -/
def zeroBytes : Bytes := fun _ => 0

/-- The cores of Salsa20. -/
def tweetnaclCores : Cores where
  coreSalsa20 z k := cryptoCoreSalsa20 zeroBytes z k sigma
  coreHsalsa20 n k := cryptoCoreHsalsa20 zeroBytes n k sigma

/-- The secret box. -/
def tweetnaclBox : Secretbox :=
  tweetnaclCores.secretbox fun m k =>
    cryptoOnetimeauth zeroBytes (bytesOf m) m.length (bytesOf k)

/-- What the keys are computed with. -/
def tweetnaclKeys : KeyCores where
  -- `cryptoScalarmult` always has a result
  scalarmult n p := (cryptoScalarmult zeroBytes (bytesOf n) (bytesOf p)).getD zeroBytes
  coreHsalsa20 n k := cryptoCoreHsalsa20 zeroBytes (bytesOf n) (bytesOf k) sigma
  hash m := cryptoHash512 zeroBytes (bytesOf m) (UInt64.ofNat m.length)

/-! ### What they are for

XSalsa20 as it is published: a key is derived from the first 16 bytes of the nonce, and the
blocks of Salsa20 for that key, the rest of the nonce and the number of the block are the
stream.
-/

/-- The constant of the cipher for keys of 32 bytes. -/
def expand32 : Bytes :=
  bytesOf (['e', 'x', 'p', 'a', 'n', 'd', ' ', '3', '2', '-', 'b', 'y', 't', 'e', ' ', 'k'].map
    fun letter => UInt8.ofNat letter.toNat)

/-- A byte of a word, the least one first. -/
def byteOfWord (w : UInt32) (i : Nat) : UInt8 := UInt8.ofNat (w.toNat / 256 ^ i)

/-- The input of the core for the `j`-th block: a nonce of 8 bytes and the number of the block. -/
def counterBlock (n : Bytes) (j : Nat) : Bytes := fun i =>
  if i < 8 then n i else UInt8.ofNat (j / 256 ^ (i - 8))

/-- The key that HSalsa20 derives from the first 16 bytes of a nonce. -/
def xsalsa20Key (n k : Bytes) : Bytes := fun i =>
  byteOfWord ((hsalsa20 n k expand32).toList.getD (i / 4) 0) (i % 4)

/-- The key stream of XSalsa20. -/
def xsalsa20 (n k : Bytes) : Bytes := fun i =>
  let block := counterBlock (fun i => n (16 + i)) (i / 64)
  byteOfWord ((salsa20 block (xsalsa20Key n k) expand32).toList.getD (i % 64 / 4) 0) (i % 4)

end CmakeTemplate
