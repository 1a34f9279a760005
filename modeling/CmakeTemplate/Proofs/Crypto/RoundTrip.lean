/-
Which chunks survive encryption and decryption.

The secret box takes a message with 32 bytes of padding in front, and nothing checks that the
padding is zero.  The key of the authenticator is what stands in the first 32 bytes of the
cipher text when it is computed: the key stream, if the chunk begins with 32 zeroes, and
something else if it does not.  When the box is opened, the key is taken from the stream.  So
a chunk without the zeroes gets a tag that the other side does not compute, unless the two
keys have the same tag by chance, and then the same 32 bytes come out as zeroes, whatever went
in.

None of that depends on the stream or on the authenticator, so both are arbitrary.  The loop
of the source is shown to be an exclusive or with a stream, whatever its core.
-/
import CmakeTemplate.Encryption
import Mathlib.Algebra.Group.Nat.Defs

namespace CmakeTemplate

open Lib

/-! ### The key stream of the loop

A byte of the stream is found by the number of its block, and by its place in there.
-/

/-- The key stream that the loop goes through. -/
def salsa20Stream (p : Cores) (n k : Bytes) : Bytes :=
  fun i => p.coreSalsa20 (nextBlock^[i / 64] (firstBlock n)) k (i % 64)

/-- The secret box with the stream of `crypto_stream_xor`. -/
def Cores.secretbox (p : Cores) (onetimeauth : List UInt8 → List UInt8 → Bytes) : Secretbox where
  stream n k := salsa20Stream p (fun i => n (16 + i)) (p.coreHsalsa20 n k)
  onetimeauth := onetimeauth

/-- The bytes of one block. -/
theorem salsa20Stream_block (p : Cores) (n k : Bytes) (j : Nat) {i : Nat} (hi : i < 64) :
    salsa20Stream p n k (64 * j + i) = p.coreSalsa20 (nextBlock^[j] (firstBlock n)) k i := by
  have hdiv : (64 * j + i) / 64 = j := by omega
  have hmod : (64 * j + i) % 64 = i := by omega
  rw [salsa20Stream, hdiv, hmod]

/-- From a block on, the loop writes the bytes that are left of the stream. -/
theorem salsa20XorLoop_spec (p : Cores) (m : Option Bytes) (n k : Bytes) :
    ∀ (fuel j b : Nat) (c : Bytes), b < fuel →
      salsa20XorLoop p m k fuel (nextBlock^[j] (firstBlock n)) (64 * j) b c =
        write c (64 * j) b fun i => byteOf m (64 * j + i) ^^^ salsa20Stream p n k (64 * j + i) := by
  intro fuel
  induction fuel with
  | zero =>
      intro j b c hb
      omega
  | succ fuel ih =>
      intro j b c hb
      rw [salsa20XorLoop]
      by_cases hfull : 64 ≤ b
      · rw [if_pos hfull, ← Function.iterate_succ_apply' nextBlock j (firstBlock n),
          show 64 * j + 64 = 64 * (j + 1) from rfl, ih (j + 1) (b - 64) _ (by omega)]
        funext a
        by_cases hblock : 64 * j ≤ a ∧ a < 64 * j + 64
        · obtain ⟨i, rfl⟩ := Nat.exists_eq_add_of_le hblock.1
          rw [write_before (by omega), write_at (by omega), write_at (by omega),
            salsa20Stream_block p n k j (by omega)]
        · by_cases hrest : 64 * (j + 1) ≤ a ∧ a < 64 * (j + 1) + (b - 64)
          · obtain ⟨i, rfl⟩ := Nat.exists_eq_add_of_le hrest.1
            have hat : 64 * (j + 1) + i = 64 * j + (64 + i) := by omega
            rw [write_at (by omega), hat, write_at (by omega)]
          · have hout : ¬ (64 * j ≤ a ∧ a < 64 * j + b) := by omega
            rw [write, if_neg hrest, write, if_neg hblock, write, if_neg hout]
      · rw [if_neg hfull]
        by_cases hzero : b = 0
        · subst hzero
          funext a
          rw [if_neg (by simp), write, if_neg (by omega)]
        · rw [if_pos hzero]
          funext a
          by_cases hin : 64 * j ≤ a ∧ a < 64 * j + b
          · obtain ⟨i, rfl⟩ := Nat.exists_eq_add_of_le hin.1
            rw [write_at (by omega), write_at (by omega), salsa20Stream_block p n k j (by omega)]
          · rw [write, if_neg hin, write, if_neg hin]

/-- `crypto_stream_xor` is the exclusive or with a key stream. -/
theorem cryptoStreamXor_eq (p : Cores) (onetimeauth : List UInt8 → List UInt8 → Bytes) (c : Bytes)
    (m : Option Bytes) (d : Nat) (n k : Bytes) :
    cryptoStreamXor p c m d n k = (p.secretbox onetimeauth).streamXor c m d n k := by
  have hloop := salsa20XorLoop_spec p m (fun i => n (16 + i)) (p.coreHsalsa20 n k) (d + 1) 0 d c
    (Nat.lt_succ_self d)
  simpa [cryptoStreamXor, cryptoStreamSalsa20Xor, Secretbox.streamXor, Cores.secretbox]
    using hloop

/-! ### Verification

The differences of all bytes are collected by `|`, and the result is 0 where there are none.
-/

/-- The differences of two buffers, in the bytes of a list of indices. -/
theorem foldl_or_eq_zero_iff (x y : Bytes) :
    ∀ (l : List Nat) (d : UInt64),
      l.foldl (fun d i => d ||| (x i ^^^ y i).toUInt64) d = 0 ↔ d = 0 ∧ ∀ i ∈ l, x i = y i := by
  intro l
  induction l with
  | nil =>
      intro d
      simp
  | cons i l ih =>
      intro d
      have hzero : (x i ^^^ y i).toUInt64 = 0 ↔ x i = y i := by
        rw [← UInt8.xor_eq_zero_iff]
        exact UInt8.toUInt64_inj (b := 0)
      rw [List.foldl_cons, ih, UInt64.or_eq_zero_iff, hzero]
      simp [and_assoc]

theorem foldl_or_lt (x y : Bytes) :
    ∀ (l : List Nat) (d : UInt64), d.toNat < 2 ^ 8 →
      (l.foldl (fun d i => d ||| (x i ^^^ y i).toUInt64) d).toNat < 2 ^ 8 := by
  intro l
  induction l with
  | nil =>
      intro d hd
      exact hd
  | cons i l ih =>
      intro d hd
      refine ih _ ?_
      rw [UInt64.toNat_or]
      exact Nat.or_lt_two_pow hd (by rw [UInt8.toNat_toUInt64]; exact (x i ^^^ y i).toNat_lt)

/-- `vn` compares. -/
theorem vn_eq_zero_iff (x y : Bytes) (count : Nat) :
    vn x y count = 0 ↔ ∀ i, i < count → x i = y i := by
  have hall := foldl_or_eq_zero_iff x y (List.range count) 0
  have hlt := foldl_or_lt x y (List.range count) 0 (by decide)
  simp only [List.mem_range, true_and] at hall
  rw [← hall, vn]
  generalize (List.range count).foldl _ _ = d at hlt
  by_cases hd : d = 0
  · subst hd
    exact iff_of_true (by decide) rfl
  · refine iff_of_false ?_ hd
    have hpos : 0 < d.toNat := Nat.pos_of_ne_zero fun h => hd (UInt64.toNat_inj.mp h)
    have hsub : (d - 1).toNat = d.toNat - 1 :=
      UInt64.toNat_sub_of_le d 1 (UInt64.le_iff_toNat_le.mpr hpos)
    have hshift : (d - 1) >>> 8 = 0 := by
      apply UInt64.toNat_inj.mp
      rw [UInt64.toNat_shiftRight, hsub]
      show (d.toNat - 1) >>> 8 = 0
      rw [Nat.shiftRight_eq_div_pow]
      omega
    rw [hshift]
    decide

/-! ### The secret box

The bytes of a box are the padding, the tag and the cipher text.
-/

variable {p : Secretbox} {plainText cipherText out nonce key : Bytes} {length : UInt64}

theorem Secretbox.streamXor_at {m : Option Bytes} {len i : Nat} (hi : i < len) :
    p.streamXor out m len nonce key i = byteOf m i ^^^ p.stream nonce key i := write_zero_at hi

/-- Behind the padding a chunk is encrypted by the key stream. -/
theorem cryptoSecretbox_spec (p : Secretbox) (cipherText plainText nonce key : Bytes)
    (hlen : 32 ≤ length.toNat) :
    ∃ c', cryptoSecretbox p cipherText plainText length nonce key = (0, c') ∧
      (∀ i, 32 ≤ i → i < length.toNat → c' i = plainText i ^^^ p.stream nonce key i) ∧
      ∀ i, i < 16 → c' (16 + i) = p.onetimeauth (read c' 32 (length.toNat - 32))
        (read (fun i => plainText i ^^^ p.stream nonce key i) 0 32) i := by
  have hlt : ¬ length < 32 := by
    rw [UInt64.lt_iff_toNat_lt]
    exact Nat.not_lt.mpr hlen
  have hstream : ∀ i, i < length.toNat →
      p.streamXor cipherText (some plainText) length.toNat nonce key i =
        plainText i ^^^ p.stream nonce key i := by
    intro i hi
    exact Secretbox.streamXor_at hi
  refine ⟨_, by rw [cryptoSecretbox, if_neg hlt], ?_, ?_⟩
  · intro i hi hlast
    rw [write_behind (by omega), write_behind (by omega)]
    exact hstream i hlast
  · intro i hi
    rw [write_behind (by omega), write_at hi]
    congr 1
    · refine read_congr ?_
      intro j hj
      rw [write_behind (by omega), write_behind (by omega)]
    · refine read_congr ?_
      intro j hj
      exact hstream (0 + j) (by omega)

/-- A box is opened if the first 32 bytes of the key stream are the key it was closed with. -/
theorem cryptoSecretboxOpen_spec (p : Secretbox) (out nonce key : Bytes)
    (hlen : 32 ≤ length.toNat)
    (htag : ∀ i, i < 16 → cipherText (16 + i) =
      p.onetimeauth (read cipherText 32 (length.toNat - 32)) (read (p.stream nonce key) 0 32) i) :
    ∃ m', cryptoSecretboxOpen p out cipherText length nonce key = (0, m') ∧
      (∀ i, i < 32 → m' i = 0) ∧
      ∀ i, 32 ≤ i → i < length.toNat → m' i = cipherText i ^^^ p.stream nonce key i := by
  have hlt : ¬ length < 32 := by
    rw [UInt64.lt_iff_toNat_lt]
    exact Nat.not_lt.mpr hlen
  have hkey : read (p.streamXor (fun _ => 0) none 32 nonce key) 0 32 =
      read (p.stream nonce key) 0 32 := by
    refine read_congr ?_
    intro i hi
    rw [Nat.zero_add, Secretbox.streamXor_at hi]
    exact UInt8.zero_xor
  have hverify : cryptoVerify16 (fun i => cipherText (16 + i))
      (p.onetimeauth (read cipherText 32 (length.toNat - 32))
        (read (p.streamXor (fun _ => 0) none 32 nonce key) 0 32)) = 0 := by
    rw [hkey]
    exact (vn_eq_zero_iff _ _ 16).mpr htag
  refine ⟨_, by rw [cryptoSecretboxOpen, if_neg hlt]; exact if_neg (by simp [hverify]), ?_, ?_⟩
  · intro i hi
    exact write_zero_at hi
  · intro i hi hlast
    rw [write_behind (by omega)]
    exact Secretbox.streamXor_at hlast

/-- What opens comes out with 32 zeroes in front, from a chunk of 32 bytes at least. -/
theorem zeros_of_open {m' : Bytes}
    (h : cryptoSecretboxOpen p out cipherText length nonce key = (0, m')) :
    32 ≤ length.toNat ∧ ∀ i, i < 32 → m' i = 0 := by
  rw [cryptoSecretboxOpen] at h
  split at h
  · cases h
  rename_i hlt
  dsimp only at h
  split at h
  · cases h
  refine ⟨Nat.not_lt.mp fun hc => hlt (UInt64.lt_iff_toNat_lt.mpr hc), ?_⟩
  intro i hi
  rw [← (Prod.mk.inj h).2]
  exact write_zero_at hi

/-! ### The wrappers

The wrappers look at NULL pointers only, and pass on whether a box could be opened.
-/

theorem encryptionDecryptChunk_success {out' : Bytes} :
    encryptionDecryptChunk p (some cipherText) length (some nonce) (some key) (some out) =
        (.success, some out') ↔
      cryptoSecretboxOpen p out cipherText length nonce key = (0, out') := by
  rw [encryptionDecryptChunk]
  obtain ⟨r, m⟩ := cryptoSecretboxOpen p out cipherText length nonce key
  dsimp only
  by_cases hr : r = 0
  · simp [hr]
  · simp [hr]

/-- A chunk without the padding does not come back. -/
theorem padded_of_roundTrip (h : RoundTrip p plainText length nonce key cipherText out) :
    Padded plainText length := by
  obtain ⟨out', hdecrypt, hout⟩ := h _ rfl
  obtain ⟨hlen, hzeros⟩ := zeros_of_open (encryptionDecryptChunk_success.mp hdecrypt)
  refine ⟨hlen, ?_⟩
  intro i hi
  rw [← hout i (Nat.lt_of_lt_of_le hi hlen), hzeros i hi]

/-- A chunk with the padding comes back. -/
theorem roundTrip_of_padded (h : Padded plainText length) :
    RoundTrip p plainText length nonce key cipherText out := by
  obtain ⟨hlen, hzeros⟩ := h
  intro c hencrypt
  obtain ⟨c', hbox, hdata, htag⟩ := cryptoSecretbox_spec p cipherText plainText nonce key hlen
  have hc : c' = c := by
    have hsnd := Option.some.inj (Prod.mk.inj hencrypt).2
    rw [hbox] at hsnd
    exact hsnd
  subst hc
  have hkey : read (fun i => plainText i ^^^ p.stream nonce key i) 0 32 =
      read (p.stream nonce key) 0 32 := by
    refine read_congr ?_
    intro i hi
    rw [Nat.zero_add, hzeros i hi]
    exact UInt8.zero_xor
  obtain ⟨m', hopen, hfirst, hrest⟩ := cryptoSecretboxOpen_spec p out nonce key hlen
    fun i hi => (htag i hi).trans (by rw [hkey])
  refine ⟨m', encryptionDecryptChunk_success.mpr hopen, ?_⟩
  intro i hi
  by_cases hpad : i < 32
  · rw [hfirst i hpad, hzeros i hpad]
  · rw [hrest i (Nat.not_lt.mp hpad) hi, hdata i (Nat.not_lt.mp hpad) hi, UInt8.xor_assoc,
      UInt8.xor_self, UInt8.xor_zero]

/-- A chunk makes the round trip if and only if it has at least 32 bytes and the first 32 of
them are zero, whatever the key stream and the authenticator are. -/
theorem roundTrip_iff (p : Secretbox) (plainText : Bytes) (length : UInt64)
    (nonce key cipherText out : Bytes) :
    RoundTrip p plainText length nonce key cipherText out ↔ Padded plainText length :=
  ⟨padded_of_roundTrip, roundTrip_of_padded⟩

/-- "Hello, World!" in a buffer of zeroes. -/
def helloWorld : Bytes := fun i =>
  [72, 101, 108, 108, 111, 44, 32, 87, 111, 114, 108, 100, 33].getD i 0

/-- The message of the repository's own test, with an authenticator that is the first byte of
its key. -/
theorem hello_lost :
    ¬ RoundTrip ⟨fun _ _ _ => 0, fun _ key _ => key.headD 0⟩ helloWorld 64 (fun _ => 0)
      (fun _ => 0) (fun _ => 0) (fun _ => 0) := by
  intro h
  have hfirst := (padded_of_roundTrip h).2 0 (by decide)
  exact absurd hfirst (by decide)

end CmakeTemplate
