/-
The secret box is XSalsa20 with Poly1305.

The bytes from the eighth on of the core's input are the number of the block, least byte
first, and the loop counts them up with a carry from byte to byte.  So the stream of the loop
is the one of the cipher, and no input comes twice before the counter runs over, which is
behind `2 ^ 70` bytes of stream.  The key of the blocks is derived from the first 16 bytes of
the nonce by the other core.

A box opens for the one tag that Poly1305 computes with the first bytes of the stream, as a
tag of 16 bytes is a number below `2 ^ 128` and the comparison looks at every byte.  That is
both halves of what a receiver relies on: a chunk with the tag is decrypted, and any other is
refused, with the buffer as it was.
-/
import CmakeTemplate.Tweetnacl
import CmakeTemplate.Proofs.Crypto.Poly1305
import CmakeTemplate.Proofs.Crypto.Salsa20

namespace CmakeTemplate

open Lib

/-! ### The counter

A number in bytes is counted up by one, wherever the carry ends.
-/

theorem littleEndian_succ (b : Bytes) (off n : Nat) :
    littleEndian b off (n + 1) = (b off).toNat + 256 * littleEndian b (off + 1) n := by
  have hsplit := digitSum_split (b := 256) (n := n) (a := fun i => (b (off + i)).toNat) 1
  rw [digitSum_succ (n := 0), digitSum_zero, pow_zero, mul_one, zero_add, pow_one,
    Nat.add_comm 1 n] at hsplit
  rw [littleEndian, hsplit, littleEndian, Nat.add_zero]
  simp only [Nat.add_assoc]

theorem littleEndian_congr {b b' : Bytes} {off off' n : Nat}
    (h : ∀ i, i < n → b (off + i) = b' (off' + i)) :
    littleEndian b off n = littleEndian b' off' n :=
  digitSum_congr fun i hi => by rw [h i hi]

/-- The loop adds `u` to the number, and leaves the other bytes. -/
theorem countFrom_spec (k : Nat) {i : Nat} {u : UInt64} (hu : u.toNat ≤ 2 ^ 32) (z : Bytes) :
    littleEndian (countFrom k i u z) i k = (u.toNat + littleEndian z i k) % 256 ^ k ∧
      ∀ a, a < i ∨ i + k ≤ a → countFrom k i u z a = z a := by
  induction k generalizing i u z with
  | zero => exact ⟨by rw [pow_zero, Nat.mod_one]; rfl, fun _ _ => rfl⟩
  | succ k ih =>
      have hbyte := UInt8.toNat_lt (z i)
      have hsum : (u + (z i).toUInt64).toNat = u.toNat + (z i).toNat := by
        rw [toNat_add_of_lt (by rw [UInt8.toNat_toUInt64]; omega), UInt8.toNat_toUInt64]
      have hcarry : ((u + (z i).toUInt64) >>> 8).toNat = (u.toNat + (z i).toNat) / 256 := by
        rw [toNat_shiftRight_8, hsum]
      obtain ⟨hnumber, hrest⟩ := ih (i := i + 1) (u := (u + (z i).toUInt64) >>> 8)
        (by rw [hcarry]; omega) (Function.update z i (u + (z i).toUInt64).toUInt8)
      have hsame : littleEndian (Function.update z i (u + (z i).toUInt64).toUInt8) (i + 1) k
          = littleEndian z (i + 1) k :=
        littleEndian_congr fun j _ => Function.update_of_ne (by omega) _ _
      rw [countFrom]
      constructor
      · have hslot := hrest i (.inl (Nat.lt_succ_self i))
        have hdiv : (u.toNat + ((z i).toNat + 256 * littleEndian z (i + 1) k)) / 256
            = (u.toNat + (z i).toNat) / 256 + littleEndian z (i + 1) k := by omega
        have hsplit : ∀ m, m % 256 ^ (k + 1) = m % 256 + 256 * (m / 256 % 256 ^ k) :=
          fun m => by rw [Nat.pow_succ', Nat.mod_mul]
        rw [Function.update_self] at hslot
        rw [littleEndian_succ, hslot, hnumber, hsame, hcarry, UInt64.toNat_toUInt8, hsum,
          littleEndian_succ, hsplit, hdiv]
        omega
      · intro a ha
        rw [hrest a (by omega), Function.update_of_ne (by omega)]

/-- The input of the core for the next block has the next number. -/
theorem nextBlock_spec (z : Bytes) :
    littleEndian (nextBlock z) 8 8 = (1 + littleEndian z 8 8) % 256 ^ 8 ∧
      ∀ a, a < 8 ∨ 16 ≤ a → nextBlock z a = z a :=
  countFrom_spec 8 (u := 1) (by decide) z

/-- The `j`-th block. -/
theorem iterate_nextBlock (n : Bytes) (j : Nat) {i : Nat} (hi : i < 16) :
    nextBlock^[j] (firstBlock n) i = counterBlock n j i := by
  have hblock : littleEndian (nextBlock^[j] (firstBlock n)) 8 8 = j % 256 ^ 8 ∧
      ∀ a, a < 8 → nextBlock^[j] (firstBlock n) a = n a := by
    induction j with
    | zero =>
        have hzero : littleEndian (firstBlock n) 8 8 = littleEndian zeroBytes 0 8 :=
          littleEndian_congr fun i _ => if_neg (by omega)
        exact ⟨hzero, fun a ha => if_pos ha⟩
    | succ j ih =>
        obtain ⟨hnumber, hnonce⟩ := ih
        obtain ⟨hnext, hrest⟩ := nextBlock_spec (nextBlock^[j] (firstBlock n))
        rw [Function.iterate_succ_apply']
        refine ⟨by rw [hnext, hnumber, Nat.add_mod_mod, Nat.add_comm], fun a ha => ?_⟩
        rw [hrest a (.inl ha), hnonce a ha]
  rw [counterBlock]
  split
  case isTrue h => exact hblock.2 i h
  case isFalse h =>
    obtain ⟨e, rfl⟩ := Nat.exists_eq_add_of_le (Nat.le_of_not_lt h)
    have hdigit : littleEndian (nextBlock^[j] (firstBlock n)) 8 8 / 256 ^ e % 256
        = (nextBlock^[j] (firstBlock n) (8 + e)).toNat :=
      digitSum_digit (by decide) (fun i _ => UInt8.toNat_lt _) (by omega)
    rw [hblock.1, mod_pow_digit j (by omega)] at hdigit
    refine UInt8.toNat_inj.mp ?_
    rw [← hdigit, UInt8.toNat_ofNat', Nat.add_sub_cancel_left]

/-- Different blocks have different inputs, as long as the counter has not run over. -/
theorem counterBlock_injective (n : Bytes) {i j : Nat} (hi : i < 2 ^ 64) (hj : j < 2 ^ 64)
    (h : ∀ a, a < 16 → counterBlock n i a = counterBlock n j a) : i = j := by
  have hdigits : ∀ e, e < 8 → i / 256 ^ e % 256 = j / 256 ^ e % 256 := by
    intro e he
    have hbyte := congrArg UInt8.toNat (h (8 + e) (by omega))
    rw [counterBlock, counterBlock, if_neg (by omega), if_neg (by omega), UInt8.toNat_ofNat',
      UInt8.toNat_ofNat', Nat.add_sub_cancel_left] at hbyte
    exact hbyte
  have hi' := digitSum_digits 256 8 i
  have hj' := digitSum_digits 256 8 j
  have hi₈ : i < 256 ^ 8 := hi
  have hj₈ : j < 256 ^ 8 := hj
  rw [digitSum_congr hdigits, hj', Nat.mod_eq_of_lt hi₈, Nat.mod_eq_of_lt hj₈] at hi'
  exact hi'.symm

/-! ### The stream

A byte of the stream is a byte of a word of a block.
-/

/-- The words of the constant, the key and the input in their places. -/
def inputWords (c k input : Nat → UInt32) : Words :=
  #v[c 0, k 0, k 1, k 2, k 3, c 1, input 0, input 1, input 2, input 3, c 2, k 4, k 5, k 6, k 7, c 3]

theorem inputWords_congr {c k k' input input' : Nat → UInt32} (hk : ∀ t, t < 8 → k t = k' t)
    (hinput : ∀ t, t < 4 → input t = input' t) : inputWords c k input = inputWords c k' input' := by
  unfold inputWords
  rw [hk 0 (by decide), hk 1 (by decide), hk 2 (by decide), hk 3 (by decide), hk 4 (by decide),
    hk 5 (by decide), hk 6 (by decide), hk 7 (by decide), hinput 0 (by decide),
    hinput 1 (by decide), hinput 2 (by decide), hinput 3 (by decide)]

section
variable {input input' k k' c : Bytes}

theorem salsa20Input_congr (hinput : ∀ i, i < 16 → input i = input' i)
    (hk : ∀ i, i < 32 → k i = k' i) : salsa20Input input k c = salsa20Input input' k' c := by
  have hwords : ∀ input k : Bytes, salsa20Input input k c = inputWords (fun t => wordAt c (4 * t))
      (fun t => wordAt k (4 * t)) fun t => wordAt input (4 * t) := fun _ _ => rfl
  rw [hwords, hwords]
  exact inputWords_congr (fun t ht => wordAt_congr fun i hi => hk _ (by omega))
    fun t ht => wordAt_congr fun i hi => hinput _ (by omega)

theorem salsa20_congr (hinput : ∀ i, i < 16 → input i = input' i)
    (hk : ∀ i, i < 32 → k i = k' i) : salsa20 input k c = salsa20 input' k' c := by
  rw [salsa20, salsa20, salsa20Input_congr hinput hk]

end

/-- The bytes of a word. -/
theorem byteOfWord_wordAt (b : Bytes) (off : Nat) {i : Nat} (hi : i < 4) :
    byteOfWord (wordAt b off) i = b (off + i) := by
  have hlt : digitSum 256 4 (fun i => (b (off + i)).toNat) < 2 ^ 32 :=
    digitSum_lt fun _ _ => UInt8.toNat_lt _
  have hdigit : digitSum 256 4 (fun i => (b (off + i)).toNat) / 256 ^ i % 256 = (b (off + i)).toNat :=
    digitSum_digit (by decide) (fun _ _ => UInt8.toNat_lt _) hi
  refine UInt8.toNat_inj.mp ?_
  rw [byteOfWord, wordAt, UInt32.toNat_ofNat', Nat.mod_eq_of_lt hlt, UInt8.toNat_ofNat', ← hdigit]

/-- The source writes the constant of the cipher in numbers. -/
theorem sigma_eq : sigma = expand32 := by
  have hletters : ['e', 'x', 'p', 'a', 'n', 'd', ' ', '3', '2', '-', 'b', 'y', 't', 'e', ' ', 'k'].map
      (fun letter => UInt8.ofNat letter.toNat)
        = [101, 120, 112, 97, 110, 100, 32, 51, 50, 45, 98, 121, 116, 101, 32, 107] := by decide
  rw [expand32, hletters]
  rfl

theorem xsalsa20Key_eq (n k : Bytes) {i : Nat} (hi : i < 32) :
    tweetnaclCores.coreHsalsa20 n k i = xsalsa20Key n k i := by
  have hword := wordAt_cryptoCoreHsalsa20 zeroBytes n k sigma ⟨i / 4, by omega⟩
  have hbyte := byteOfWord_wordAt (cryptoCoreHsalsa20 zeroBytes n k sigma) (4 * (i / 4))
    (Nat.mod_lt i (by decide))
  rw [Nat.div_add_mod, hword] at hbyte
  have hget : (hsalsa20 n k sigma).toList.getD (i / 4) 0 = (hsalsa20 n k sigma)[i / 4] := by
    simp [List.getD_eq_getElem?_getD, show i / 4 < 8 by omega]
  rw [xsalsa20Key, ← sigma_eq, hget]
  exact hbyte.symm

/-- The stream of the secret box. -/
theorem tweetnaclBox_stream (n k : Bytes) (i : Nat) :
    tweetnaclBox.stream n k i = xsalsa20 n k i := by
  have hlt : i % 64 / 4 < 16 := by omega
  have hword := wordAt_salsa20 zeroBytes (nextBlock^[i / 64] (firstBlock fun i => n (16 + i)))
    (tweetnaclCores.coreHsalsa20 n k) sigma hlt
  have hbyte := byteOfWord_wordAt (cryptoCoreSalsa20 zeroBytes
    (nextBlock^[i / 64] (firstBlock fun i => n (16 + i))) (tweetnaclCores.coreHsalsa20 n k) sigma)
    (4 * (i % 64 / 4)) (Nat.mod_lt (i % 64) (by decide))
  have hmod : i % 64 % 4 = i % 4 := by omega
  rw [Nat.div_add_mod, hword, hmod] at hbyte
  have hblock := salsa20_congr (c := sigma)
    (fun _ h => iterate_nextBlock (fun i => n (16 + i)) (i / 64) h) fun _ h => xsalsa20Key_eq n k h
  have hget : ∀ z : Words, z.toList.getD (i % 64 / 4) 0 = z[i % 64 / 4] := fun z => by
    simp [List.getD_eq_getElem?_getD, hlt]
  simp only [hblock] at hbyte
  rw [xsalsa20, ← sigma_eq, hget]
  exact hbyte.symm

/-- `crypto_stream_xor` is XSalsa20, with a block for every number below `2 ^ 64`. -/
theorem cryptoStreamXor_xsalsa20 (c : Bytes) (m : Option Bytes) (d : Nat) (n k : Bytes) :
    (∀ i, i < d → cryptoStreamXor tweetnaclCores c m d n k i = byteOf m i ^^^ xsalsa20 n k i) ∧
      ChangedWithin 0 d c (cryptoStreamXor tweetnaclCores c m d n k) ∧
      ∀ i j, i < 2 ^ 70 → j < 2 ^ 70 → i / 64 ≠ j / 64 →
        ∃ a, a < 16 ∧ counterBlock (fun i => n (16 + i)) (i / 64) a
          ≠ counterBlock (fun i => n (16 + i)) (j / 64) a := by
  rw [cryptoStreamXor_eq tweetnaclCores tweetnaclBox.onetimeauth]
  refine ⟨fun i hi => ?_, write_changed, fun i j hi hj hne => ?_⟩
  · rw [Secretbox.streamXor_at hi, ← tweetnaclBox_stream]
    rfl
  · by_contra hall
    push Not at hall
    exact hne (counterBlock_injective _ (by omega) (by omega) hall)

/-! ### The box

The tag is over the cipher text alone, and its key is the first 32 bytes of the stream.
-/

/-- The tag that belongs to a cipher text. -/
def boxTag (c : Bytes) (length : Nat) (n k : Bytes) : Nat :=
  poly1305 (fun i => c (32 + i)) (length - 32) (xsalsa20 n k)

theorem poly1305_congr {m m' k k' : Bytes} {n : Nat} (hm : ∀ i, i < n → m i = m' i)
    (hk : ∀ i, i < 32 → k i = k' i) : poly1305 m n k = poly1305 m' n k' := by
  have hblocks : blockNumbers m n = blockNumbers m' n := by
    refine List.map_congr_left fun i hi => ?_
    have hcount := List.mem_range.mp hi
    rw [blockNumber, blockNumber, littleEndian_congr fun j hj => hm _ (by omega)]
  have hfirst : littleEndian k 0 16 = littleEndian k' 0 16 :=
    littleEndian_congr fun i hi => hk _ (by omega)
  have hsecond : littleEndian k 16 16 = littleEndian k' 16 16 :=
    littleEndian_congr fun i hi => hk _ (by omega)
  rw [poly1305, poly1305, hblocks, hfirst, hsecond]

theorem bytesOf_read (b : Bytes) (off len : Nat) {i : Nat} (hi : i < len) :
    bytesOf (read b off len) i = b (off + i) := by
  simp [bytesOf, Lib.read, List.getD_eq_getElem?_getD, hi]

/-- Sixteen bytes are the same if they are the same number. -/
theorem littleEndian_inj {b b' : Bytes} {off off' n : Nat} :
    littleEndian b off n = littleEndian b' off' n ↔ ∀ i, i < n → b (off + i) = b' (off' + i) := by
  constructor
  · intro h i hi
    exact UInt8.toNat_inj.mp
      (digitSum_inj (by decide) (fun _ _ => UInt8.toNat_lt _) (fun _ _ => UInt8.toNat_lt _) h i hi)
  · exact littleEndian_congr

/-- The comparison in `crypto_secretbox_open`. -/
theorem verify_iff (c n k : Bytes) (length : Nat) :
    cryptoVerify16 (fun i => c (16 + i)) (tweetnaclBox.onetimeauth (read c 32 (length - 32))
        (read (tweetnaclBox.streamXor (fun _ => 0) none 32 n k) 0 32)) = 0
      ↔ littleEndian c 16 16 = boxTag c length n k := by
  have htag : littleEndian (tweetnaclBox.onetimeauth (read c 32 (length - 32))
      (read (tweetnaclBox.streamXor (fun _ => 0) none 32 n k) 0 32)) 0 16 = boxTag c length n k := by
    refine (littleEndian_cryptoOnetimeauth _ _ _ _).trans ?_
    rw [length_read]
    refine poly1305_congr (fun i hi => bytesOf_read c 32 _ hi) fun i hi => ?_
    rw [bytesOf_read _ 0 32 hi, Nat.zero_add, Secretbox.streamXor_at hi, tweetnaclBox_stream]
    exact UInt8.zero_xor
  rw [cryptoVerify16, vn_eq_zero_iff, ← htag, littleEndian_inj]
  simp only [Nat.zero_add]

/-- `encryption_decrypt_chunk` accepts a chunk if and only if the 16 bytes in front of the cipher text
are its tag; then the plain text is zeroes and the exclusive or with the stream, and otherwise the
buffer stays as it is. -/
theorem encryptionDecryptChunk_accepts_iff (c out n k : Bytes) (length : UInt64) :
    if 32 ≤ length.toNat ∧ littleEndian c 16 16 = boxTag c length.toNat n k then
      ∃ m, encryptionDecryptChunk tweetnaclBox (some c) length (some n) (some k) (some out)
          = (.success, some m) ∧ ChangedWithin 0 length.toNat out m ∧
        ∀ i, i < length.toNat → m i = if i < 32 then 0 else c i ^^^ xsalsa20 n k i
    else
      encryptionDecryptChunk tweetnaclBox (some c) length (some n) (some k) (some out)
        = (.failure, some out) := by
  have hlt : length < 32 ↔ ¬ 32 ≤ length.toNat := by
    rw [UInt64.lt_iff_toNat_lt, Nat.not_le]
    rfl
  have hverify := verify_iff c n k length.toNat
  split
  case isTrue h =>
    obtain ⟨hlen, htag⟩ := h
    have hopen : cryptoSecretboxOpen tweetnaclBox out c length n k
        = (0, write (tweetnaclBox.streamXor out (some c) length.toNat n k) 0 32 fun _ => 0) := by
      rw [cryptoSecretboxOpen, if_neg fun hshort => hlt.mp hshort hlen]
      exact if_neg (not_not.mpr (hverify.mpr htag))
    refine ⟨_, encryptionDecryptChunk_success.mpr hopen, fun a ha => ?_, fun i hi => ?_⟩
    · rw [write_changed a (by omega)]
      exact write_changed a ha
    · split
      case isTrue h32 => exact write_zero_at h32
      case isFalse h32 =>
        rw [write_behind (by omega), Secretbox.streamXor_at hi, tweetnaclBox_stream]
        rfl
  case isFalse h =>
    have hopen : cryptoSecretboxOpen tweetnaclBox out c length n k = (-1, out) := by
      rw [cryptoSecretboxOpen]
      by_cases hshort : length < 32
      · rw [if_pos hshort]
      · rw [if_neg hshort]
        refine if_pos fun hzero => h ⟨not_not.mp fun hlen => hshort (hlt.mpr hlen), hverify.mp hzero⟩
    rw [encryptionDecryptChunk]
    simp [hopen]

end CmakeTemplate
