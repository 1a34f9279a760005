/-
Two sides get one session key, and what one encrypts the other decrypts.

A public key is the x-coordinate of a multiple of the base point, and what a side makes of the
other's public key with its own secret key is the x-coordinate of a multiple of that multiple.
The two orders of multiplying give the same point, and so the same coordinate; that the
clamped scalars are what both sides use does not matter for it.  A coordinate that has been
packed is unpacked again, so that sending it loses nothing.

The key of the box is a hash of that coordinate.  Of the memory where it is kept only the
first 32 bytes are looked at, so whatever is behind them, the two sides have one stream, and a
chunk with the padding makes the round trip.
-/
import CmakeTemplate.Exchange
import CmakeTemplate.Proofs.Crypto.Curve25519
import CmakeTemplate.Proofs.Crypto.SessionKey
import CmakeTemplate.Proofs.Crypto.Xsalsa20

namespace CmakeTemplate

open Lib Lib.Montgomery

/-! ### The shared secret

The group of the curve is commutative, which is all that the agreement needs.
-/

theorem basePoint_coordinate : coordinate (bytesOf basePoint) = 9 := by
  have hnumber : littleEndian (bytesOf basePoint) 0 32 % 2 ^ 255 = 9 := by decide
  rw [coordinate, hnumber]
  rfl

/-- The base point is on the curve. -/
theorem exists_basePoint : ∃ D : (curve a25519).Point, xOf D = 9 := by
  have hsquare : ((14781619447589544791020593568409986887264606134616475288964881837755586237401 : Nat)
      : ZMod p25519) ^ 2 = 9 ^ 3 + a25519 * 9 ^ 2 + 9 := by
    have hright : (9 ^ 3 + a25519 * 9 ^ 2 + 9 : ZMod p25519) = (9 ^ 3 + 486662 * 9 ^ 2 + 9 : Nat) := by
      push_cast
      rfl
    rw [hright, ← Nat.cast_pow, ZMod.natCast_eq_natCast_iff']
    decide
  exact ⟨.some 9 _ (nonsingular_curve two_ne_zero_25519 a25519_sq_ne hsquare), rfl⟩

/-- The multiple that a secret key stands for. -/
def scalarOf (sk : List UInt8) : Nat := clamp25519 (littleEndian (bytesOf sk) 0 32)

/-- What `crypto_scalarmult` writes, for the x-coordinate of a point. -/
theorem scalarmult_point (sk pk : List UInt8) {D : (curve a25519).Point}
    (hD : coordinate (bytesOf pk) = xOf D) :
    littleEndian (tweetnaclKeys.scalarmult sk pk) 0 32 = (xOf (scalarOf sk • D)).val := by
  obtain ⟨q, hq, -, hbytes⟩ := cryptoScalarmult_ladder zeroBytes (bytesOf sk) (bytesOf pk)
  have hpoint := multiply_xOf (n := scalarOf sk) two_ne_zero_25519 a25519_sq_ne D
    (show 0 < 255 by decide)
  have hscalarmult : tweetnaclKeys.scalarmult sk pk = q := by
    have hgetD : tweetnaclKeys.scalarmult sk pk
        = (cryptoScalarmult zeroBytes (bytesOf sk) (bytesOf pk)).getD zeroBytes := rfl
    rw [hgetD, hq, Option.getD_some]
  have hlt : scalarOf sk < 2 ^ 255 := clamp25519_lt _
  rw [Nat.mod_eq_of_lt hlt] at hpoint
  rw [hscalarmult, hbytes, hD, ← hpoint, scalarOf]

/-- A packed coordinate is unpacked again. -/
theorem coordinate_read {b : Bytes} {x : ZMod p25519} (hb : littleEndian b 0 32 = x.val) :
    coordinate (bytesOf (read b 0 32)) = x := by
  have hbytes : littleEndian (bytesOf (read b 0 32)) 0 32 = x.val := by
    rw [← hb]
    exact littleEndian_congr fun i hi => by rw [Nat.zero_add, bytesOf_read b 0 32 hi, Nat.zero_add]
  have hlt : x.val < 2 ^ 255 := (ZMod.val_lt x).trans (by decide)
  rw [coordinate, hbytes, Nat.mod_eq_of_lt hlt, ZMod.natCast_zmod_val]

/-- The two sides agree. -/
theorem agrees_tweetnaclKeys : tweetnaclKeys.Agrees := by
  intro pkA skA pkB skB hA hB
  obtain ⟨D, hD⟩ := exists_basePoint
  have hbase : coordinate (bytesOf basePoint) = xOf D := by rw [basePoint_coordinate, hD]
  have hpkA : coordinate (bytesOf pkA) = xOf (scalarOf skA • D) := by
    rw [hA.eq]
    exact coordinate_read (scalarmult_point skA basePoint hbase)
  have hpkB : coordinate (bytesOf pkB) = xOf (scalarOf skB • D) := by
    rw [hB.eq]
    exact coordinate_read (scalarmult_point skB basePoint hbase)
  have hsecret : littleEndian (tweetnaclKeys.scalarmult skA pkB) 0 32
      = littleEndian (tweetnaclKeys.scalarmult skB pkA) 0 32 := by
    rw [scalarmult_point skA pkB hpkB, scalarmult_point skB pkA hpkA, smul_comm]
  have hread : read (tweetnaclKeys.scalarmult skA pkB) 0 32
      = read (tweetnaclKeys.scalarmult skB pkA) 0 32 :=
    read_congr fun i hi => littleEndian_inj.mp hsecret i hi
  rw [cryptoBoxBeforenm, cryptoBoxBeforenm, hread]

/-! ### The session key

Each call is followed in the memory of its side.
-/

variable {l : Layout}

/-- Behind its keys a side has what the other one has sent, and its secret key is still the one that
was made. -/
theorem receive_keys (l : Layout) (random mem key : Bytes) :
    ∃ mem₁, l.generate random mem = (.success, mem₁) ∧
      IsKeyPair tweetnaclKeys (read (l.sent mem₁) 0 publicKeySize)
        (read (l.receive mem₁ key) l.secretKey secretKeySize) ∧
      read (l.receive mem₁ key) l.otherKey publicKeySize = read key 0 publicKeySize := by
  obtain ⟨mem₁, hgenerate, hpair, -⟩ := encryptionGenerateKeyPair_spec tweetnaclKeys random mem
    l.disjoint_public
  have hsent : read (l.sent mem₁) 0 publicKeySize = read mem₁ l.publicKey publicKeySize :=
    read_congr fun i _ => by rw [Layout.sent, Nat.zero_add]
  have hsecret : read (l.receive mem₁ key) l.secretKey secretKeySize
      = read mem₁ l.secretKey secretKeySize := by
    refine read_congr fun i hi => ?_
    rw [Layout.receive]
    refine write_changed _ ?_
    have hdisjoint := l.disjoint_other
    omega
  refine ⟨mem₁, hgenerate, ?_, read_write_at (Nat.le_refl publicKeySize)⟩
  rw [hsent, hsecret]
  exact hpair

/-- What is in the buffer behind a call. -/
theorem encryptionDeriveSessionKey_at (p : KeyCores) (mem : Bytes) (y x s : Nat) :
    ∃ mem₂, encryptionDeriveSessionKey p mem (some y) (some x) (some s) = (.success, mem₂) ∧
      ∀ i, i < hashBytes → mem₂ (s + i)
        = p.hash (cryptoBoxBeforenm p (read mem y publicKeySize) (read mem x secretKeySize)) i :=
  ⟨_, rfl, fun _ hi => write_at hi⟩

/-- What is in a side's buffer behind its call. -/
theorem derive_key (l : Layout) (mem : Bytes) :
    ∃ mem₂, l.derive mem = (.success, mem₂) ∧ ∀ i, i < hashBytes →
      l.key mem₂ i = tweetnaclKeys.hash (cryptoBoxBeforenm tweetnaclKeys
        (read mem l.otherKey publicKeySize) (read mem l.secretKey secretKeySize)) i :=
  encryptionDeriveSessionKey_at tweetnaclKeys mem l.otherKey l.secretKey l.sessionKey

/-! ### Chunks

Boxes whose keys agree in the bytes that are read are the same.
-/

theorem hsalsa20_congr {input k k' c : Bytes} (hk : ∀ i, i < 32 → k i = k' i) :
    hsalsa20 input k c = hsalsa20 input k' c := by
  have hinput : ∀ i, i < 16 → input i = input i := fun _ _ => rfl
  exact congrArg (fun x => (fun z : Words => #v[z[0], z[5], z[10], z[15], z[6], z[7], z[8], z[9]])
    (doubleround^[10] x)) (salsa20Input_congr hinput hk)

/-- The box has the stream of the first 32 bytes of its key. -/
theorem stream_congr (n : Bytes) {k k' : Bytes} (hk : ∀ i, i < 32 → k i = k' i) :
    tweetnaclBox.stream n k = tweetnaclBox.stream n k' := by
  have hkey : xsalsa20Key n k = xsalsa20Key n k' := by
    funext i
    rw [xsalsa20Key, hsalsa20_congr hk, xsalsa20Key]
  funext i
  rw [tweetnaclBox_stream, tweetnaclBox_stream, xsalsa20, hkey, xsalsa20]

theorem cryptoSecretboxOpen_congr (p : Secretbox) (m c n : Bytes) (d : UInt64) {k k' : Bytes}
    (hstream : p.stream n k = p.stream n k') :
    cryptoSecretboxOpen p m c d n k = cryptoSecretboxOpen p m c d n k' := by
  have hxor : ∀ m c len, p.streamXor c m len n k = p.streamXor c m len n k' := fun m c len => by
    rw [Secretbox.streamXor, Secretbox.streamXor, hstream]
  rw [cryptoSecretboxOpen, cryptoSecretboxOpen, hxor, hxor]

theorem conveys_of_key {keyA keyB : Bytes} (h : ∀ i, i < sessionKeySize → keyA i = keyB i) :
    Conveys keyA keyB := by
  intro plainText nonce cipherText out length hpadded
  have hround : RoundTrip tweetnaclBox plainText length nonce keyA cipherText out :=
    roundTrip_of_padded hpadded
  obtain ⟨m, hdecrypt, hm⟩ := hround _ rfl
  refine ⟨_, m, rfl, ?_, hm⟩
  rw [encryptionDecryptChunk_success] at hdecrypt ⊢
  rw [← cryptoSecretboxOpen_congr _ _ _ _ _ (stream_congr nonce h)]
  exact hdecrypt

/-- Two sides that exchange their public keys derive one session key, and each decrypts what the other
one encrypts. -/
theorem exchange_conveys (a b : Layout) (randomA randomB memA memB : Bytes) :
    ∃ memA₁ memB₁ memA₂ memB₂, a.generate randomA memA = (.success, memA₁) ∧
      b.generate randomB memB = (.success, memB₁) ∧
      a.derive (a.receive memA₁ (b.sent memB₁)) = (.success, memA₂) ∧
      b.derive (b.receive memB₁ (a.sent memA₁)) = (.success, memB₂) ∧
      (∀ i, i < sessionKeySize → a.key memA₂ i = b.key memB₂ i) ∧
      Conveys (a.key memA₂) (b.key memB₂) ∧ Conveys (b.key memB₂) (a.key memA₂) := by
  obtain ⟨memB₁, hgenerateB, -, -⟩ := receive_keys b randomB memB zeroBytes
  obtain ⟨memA₁, hgenerateA, hpairA, hotherA⟩ := receive_keys a randomA memA (b.sent memB₁)
  obtain ⟨memB₁', hgenerateB', hpairB, hotherB⟩ := receive_keys b randomB memB (a.sent memA₁)
  have hsame : memB₁' = memB₁ := by
    rw [hgenerateB] at hgenerateB'
    exact (Prod.mk.inj hgenerateB').2.symm
  subst hsame
  obtain ⟨memA₂, hderiveA, hkeyA⟩ := derive_key a (a.receive memA₁ (b.sent memB₁'))
  obtain ⟨memB₂, hderiveB, hkeyB⟩ := derive_key b (b.receive memB₁' (a.sent memA₁))
  rw [hotherA] at hkeyA
  rw [hotherB] at hkeyB
  have hkeys : ∀ i, i < sessionKeySize → a.key memA₂ i = b.key memB₂ i := by
    intro i hi
    have hlt : i < hashBytes := Nat.lt_of_lt_of_le hi (by decide)
    rw [hkeyA i hlt, hkeyB i hlt, agrees_tweetnaclKeys _ _ _ _ hpairA hpairB]
  exact ⟨memA₁, memB₁', memA₂, memB₂, hgenerateA, hgenerateB, hderiveA, hderiveB, hkeys,
    conveys_of_key hkeys, conveys_of_key fun i hi => (hkeys i hi).symm⟩

/-- Two sides that keep their keys one behind the other, in either order. -/
theorem exchange_conveys_run :
    ∃ a b : Layout, (a.publicKey, a.secretKey, a.otherKey, a.sessionKey) = (0, 32, 64, 96) ∧
      (b.publicKey, b.secretKey, b.otherKey, b.sessionKey) = (32, 0, 96, 64) ∧
      ∃ memA₁ memB₁ memA₂ memB₂, a.generate zeroBytes zeroBytes = (.success, memA₁) ∧
        b.generate (fun _ => 1) zeroBytes = (.success, memB₁) ∧
        a.derive (a.receive memA₁ (b.sent memB₁)) = (.success, memA₂) ∧
        b.derive (b.receive memB₁ (a.sent memA₁)) = (.success, memB₂) ∧
        (∀ i, i < sessionKeySize → a.key memA₂ i = b.key memB₂ i) ∧
        Conveys (a.key memA₂) (b.key memB₂) ∧ Conveys (b.key memB₂) (a.key memA₂) :=
  ⟨⟨0, 32, 64, 96, by decide, by decide⟩, ⟨32, 0, 96, 64, by decide, by decide⟩, rfl, rfl,
    exchange_conveys _ _ zeroBytes (fun _ => 1) zeroBytes zeroBytes⟩

end CmakeTemplate
