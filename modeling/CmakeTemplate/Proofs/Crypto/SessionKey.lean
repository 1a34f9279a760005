/-
When both sides derive one session key and leave the memory behind it.

Both hash the same shared secret, so the keys agree, if the scalar multiplication does: that
is a hypothesis here, on functions that are otherwise arbitrary.  `crypto_hash` writes 64
bytes, and the buffer has 32: what is behind it stays as it is only where the rest of the hash
is there already.  So the memory before the call decides whether the call stays inside, and
the condition names what has to be in it.

A key pair is made by `encryption_generate_key_pair` in two buffers, which must not overlap
for the pair to be one.  The run at the end has two sides with concrete keys, with the hash
behind one pair of buffers and zeroes behind the other.
-/
import CmakeTemplate.SessionKey

namespace CmakeTemplate

open Lib

variable {p : KeyCores} {a b : Side}

/-! ### Key pairs

The public key is computed from the secret one where that stands in memory.
-/

/-- Two buffers that do not overlap hold a key pair behind `encryption_generate_key_pair`, and
nothing else has changed. -/
theorem encryptionGenerateKeyPair_spec (p : KeyCores) (random mem : Bytes) {y x : Nat}
    (hdisjoint : x + 32 ≤ y ∨ y + 32 ≤ x) :
    ∃ mem', encryptionGenerateKeyPair p random mem (some y) (some x) = (.success, mem') ∧
      IsKeyPair p (read mem' y publicKeySize) (read mem' x secretKeySize) ∧
      ∀ i, ¬ (x ≤ i ∧ i < x + 32) → ¬ (y ≤ i ∧ i < y + 32) → mem' i = mem i := by
  refine ⟨_, rfl, ⟨length_read, ?_⟩, ?_⟩
  · -- the public key is written behind the secret key, and elsewhere
    have hsecret : ∀ (src : Bytes), read (write (write mem x 32 random) y 32 src) x 32 =
        read (write mem x 32 random) x 32 := by
      intro src
      refine read_congr ?_
      intro j hj
      rcases hdisjoint with hlt | hlt
      · exact write_before (by omega)
      · exact write_behind (by omega)
    unfold cryptoBoxKeypair
    rw [hsecret, read_write_at (Nat.le_refl 32)]
  · intro i hx hy
    unfold cryptoBoxKeypair
    rw [write, if_neg hy, write, if_neg hx]

/-! ### Session keys

A side's call is a write of 64 bytes, of which the first 32 are the key.
-/

/-- What a side's call leaves. -/
theorem Side.derive_eq (s : Side) : s.derive p =
    (.success, write s.memory s.sessionKey hashBytes (p.hash (s.sharedSecret p))) := rfl

/-- What is in a side's buffer behind the call. -/
theorem Side.read_sessionKey (s : Side) :
    read (write s.memory s.sessionKey hashBytes (p.hash (s.sharedSecret p))) s.sessionKey
      sessionKeySize = read (p.hash (s.sharedSecret p)) 0 sessionKeySize :=
  read_write_at (by decide)

/-- The call changes nothing outside the buffer if and only if the hash is there already. -/
theorem Side.changedWithin_iff (s : Side) :
    ChangedWithin s.sessionKey sessionKeySize s.memory
      (write s.memory s.sessionKey hashBytes (p.hash (s.sharedSecret p))) ↔ s.HashBehind p :=
  changedWithin_write_iff (by decide)

theorem Peers.sharedSecret_eq (hagrees : p.Agrees) (h : Peers p a b) :
    a.sharedSecret p = b.sharedSecret p :=
  hagrees _ _ _ _ h.first h.second

/-- Both sides always have one session key; its buffer is all they change if and only if the
second half of the hash already is behind it. -/
theorem deriveOneKey_iff (hagrees : p.Agrees) (hpeers : Peers p a b) :
    DeriveOneKey p a b ↔ a.HashBehind p ∧ b.HashBehind p := by
  have hsecret := hpeers.sharedSecret_eq hagrees
  unfold DeriveOneKey
  simp only [Side.derive_eq, Prod.mk.injEq, true_and]
  constructor
  · rintro ⟨memA, memB, rfl, rfl, -, ha, hb⟩
    exact ⟨a.changedWithin_iff.mp ha, b.changedWithin_iff.mp hb⟩
  · rintro ⟨ha, hb⟩
    refine ⟨_, _, rfl, rfl, ?_, a.changedWithin_iff.mpr ha, b.changedWithin_iff.mpr hb⟩
    rw [Side.read_sessionKey, Side.read_sessionKey, hsecret]

/-! ### Two sides

The cores of the run are functions that return what the real ones return for these keys.
-/

/-- The bytes of a number, the lowest first. -/
def numberBytes (n : Nat) : Bytes := fun i => (n >>> (8 * i)).toUInt8

/-- The secret keys of 32 zeros, and of an 8 and zeros behind it. -/
def secretA : List UInt8 := List.replicate 32 0

def secretB : List UInt8 := 8 :: List.replicate 31 0

def publicA : Bytes :=
  numberBytes 0x743bcb585f9990edc2cfc4af84f6ff300729bb5facda28154362cd47a37de52f

def publicB : Bytes :=
  numberBytes 0x7930ae1103e8603c784b85b67bb897789f27b72b3e0b35a1bcd727627a8e2c42

/-- The hash of the shared secret of the two. -/
def hashAB : Bytes :=
  numberBytes <|
    0x0c863eee267ac06fda471db8f3312e2c44e6bde0d5019c716f9ca31b886a755f <<< 256 +
      0xab10e42e1f9f2b6983f0a3c55be71ffe57c4410056dc1d37dc66229f20b6ac34

/-- What the cores return for these keys. -/
def coresAB : KeyCores where
  scalarmult n q :=
    if q = basePoint ∧ n = secretA then publicA
    else if q = basePoint ∧ n = secretB then publicB
    else numberBytes 0x5dacd73faf05e5505124cf6ec169ef7f749a45719773a762e3a8ee7a4f33bde1
  coreHsalsa20 _ _ :=
    numberBytes 0x0571e975a74085765ca1c23b7bcb569d64ab8e9858679673f9b900bafa8735fb
  hash _ := hashAB

/-- The keys, one behind the other, a buffer, and what is behind it. -/
def sideWith (other : Bytes) (own : List UInt8) (behind : Bytes) : Side where
  memory := write (write (write (fun _ => 0) 0 32 other) 32 32 fun i => own.getD i 0) 96 32 behind
  publicKey := 0
  secretKey := 32
  sessionKey := 64

theorem sideWith_publicKey (other : Bytes) (own : List UInt8) (behind : Bytes) :
    read (sideWith other own behind).memory 0 publicKeySize = read other 0 32 := by
  refine read_congr ?_
  intro j hj
  have hlt : j < 32 := hj
  unfold sideWith
  dsimp only
  rw [Nat.zero_add, write_before (by omega), write_before hlt, write_zero_at hlt]

theorem sideWith_secretKey (other : Bytes) {own : List UInt8} (hlen : own.length = 32)
    (behind : Bytes) : read (sideWith other own behind).memory 32 secretKeySize = own := by
  refine List.ext_getElem (by rw [length_read, hlen]) ?_
  intro j hj hj'
  have hat : (sideWith other own behind).memory (32 + j) = own.getD j 0 := by
    unfold sideWith
    dsimp only
    rw [write_before (by omega), write_at (by omega)]
  simp [Lib.read, hat, hj']

theorem coresAB_agrees : coresAB.Agrees := by
  intro pkA skA pkB skB _ _
  rfl

theorem keyPairA : IsKeyPair coresAB (read publicA 0 32) secretA := by
  refine ⟨rfl, ?_⟩
  unfold coresAB
  dsimp only
  rw [if_pos ⟨rfl, rfl⟩]

theorem keyPairB : IsKeyPair coresAB (read publicB 0 32) secretB := by
  refine ⟨rfl, ?_⟩
  unfold coresAB
  dsimp only
  rw [if_neg (by decide), if_pos ⟨rfl, rfl⟩]

theorem peersAB (behind behind' : Bytes) :
    Peers coresAB (sideWith publicB secretA behind) (sideWith publicA secretB behind') := by
  constructor
  · show IsKeyPair _ (read _ 0 _) (read _ 32 _)
    rw [sideWith_publicKey, sideWith_secretKey _ rfl]
    exact keyPairA
  · show IsKeyPair _ (read _ 0 _) (read _ 32 _)
    rw [sideWith_publicKey, sideWith_secretKey _ rfl]
    exact keyPairB

/-- With its second half behind the buffer, the hash is all there. -/
theorem sideWith_hashBehind (other : Bytes) (own : List UInt8) :
    (sideWith other own fun i => hashAB (32 + i)).HashBehind coresAB := by
  refine read_congr ?_
  intro j hj
  have hlt : j < 32 := hj
  have hat : (sideWith other own fun i => hashAB (32 + i)).memory (96 + j) = hashAB (32 + j) := by
    unfold sideWith
    dsimp only
    rw [write_at hlt]
  exact hat

/-- The hash is behind both buffers already. -/
theorem deriveOneKey_there :
    DeriveOneKey coresAB
      (sideWith publicB secretA fun i => hashAB (32 + i))
      (sideWith publicA secretB fun i => hashAB (32 + i)) :=
  (deriveOneKey_iff coresAB_agrees (peersAB _ _)).mpr
    ⟨sideWith_hashBehind _ _, sideWith_hashBehind _ _⟩

/-- There are zeros behind the buffers, and the call overwrites them. -/
theorem sessionKey_overrun :
    ((sideWith publicB secretA fun _ => 0).derive coresAB).2 96 = 0x5f ∧
      ¬ DeriveOneKey coresAB (sideWith publicB secretA fun _ => 0)
        (sideWith publicA secretB fun _ => 0) := by
  have hbyte : ((sideWith publicB secretA fun _ => 0).derive coresAB).2 96 =
      0x5f := by rfl
  refine ⟨hbyte, ?_⟩
  rintro ⟨memA, memB, hrun, -, -, hchanged, -⟩
  have hsame := hchanged 96 (.inr (Nat.le_refl 96))
  rw [hrun] at hbyte
  rw [show memA 96 = 0x5f from hbyte] at hsame
  exact absurd hsame (by decide)

end CmakeTemplate
