/-
The hash is SHA-512.

The 16 words that `crypto_hashblocks` keeps are the ones of the schedule from the last
multiple of 16 on, so the slot of a round always has the word of that round; behind every 16th
round they are all replaced, each from slots that have been replaced already and from slots
that have not.  That is the invariant of the rounds, next to the eight words of the state.

The two buffers that `crypto_hash` goes over are, one behind the other, the padded message:
the blocks that the message fills are hashed where it stands, and the rest of it is copied and
padded.  The number of blocks is the same as in the definition of the hash, which pads the
whole message first.  The length is written as a number of bits in 128 bits, most of them
zeroes.
-/
import CmakeTemplate.Proofs.Crypto.Salsa20
import CmakeTemplate.Proofs.Crypto.Sha512Words

namespace CmakeTemplate

open Lib

/-! ### Words and bytes

Loading and storing go from the highest byte to the least.
-/

/-- `dl64` loads eight bytes, the highest one first. -/
theorem dl64_eq (x : Bytes) (off : Nat) : dl64 x off = bigEndianAt x off := by
  have hloop := forUp_invariant (n := 8) (s := (0 : UInt64))
    (f := fun i (u : UInt64) => (u <<< 8) ||| (x (off + i)).toUInt64)
    (I := fun i (u : UInt64) => i ≤ 8 → u.toNat = digitSum 256 i fun k => (x (off + (i - 1 - k))).toNat)
    (fun _ => rfl)
    (by
      intro i u hi hu _
      have hnumber := hu (by omega)
      have hlt : digitSum 256 i (fun k => (x (off + (i - 1 - k))).toNat) < 256 ^ i :=
        digitSum_lt fun k _ => UInt8.toNat_lt _
      have hpow : 256 ^ i ≤ 256 ^ 7 := Nat.pow_le_pow_right (by decide) (by omega)
      have hsplit := digitSum_split (b := 256) (n := i)
        (a := fun k => (x (off + (i + 1 - 1 - k))).toNat) 1
      rw [digitSum_succ (n := 0), digitSum_zero, pow_zero, mul_one, zero_add, pow_one,
        Nat.add_comm 1 i] at hsplit
      rw [toNat_shiftLeft_or (by omega), hnumber, hsplit, Nat.add_sub_cancel, Nat.sub_zero]
      have hrest : (fun k => (x (off + (i - (1 + k)))).toNat)
          = fun k => (x (off + (i - 1 - k))).toNat := by
        funext k
        rw [Nat.sub_add_eq]
      rw [hrest]
      omega)
  refine UInt64.toNat_inj.mp ?_
  have hlt : digitSum 256 8 (fun i => (x (off + (7 - i))).toNat) < 2 ^ 64 :=
    digitSum_lt fun k _ => UInt8.toNat_lt _
  rw [dl64, hloop (Nat.le_refl 8), bigEndianAt, UInt64.toNat_ofNat', Nat.mod_eq_of_lt hlt]

/-- `ts64` writes eight bytes. -/
theorem ts64_eq (x : Bytes) (off : Nat) (u : UInt64) :
    ts64 x off u = write x off 8 fun i => UInt8.ofNat (u.toNat / 256 ^ (7 - i)) := by
  have hloop := forUp_invariant (n := 8) (s := (x, u))
    (f := fun k (s : Bytes × UInt64) =>
      (Function.update s.1 (off + (7 - k)) s.2.toUInt8, s.2 >>> 8))
    (I := fun k (s : Bytes × UInt64) => k ≤ 8 → s.2 = UInt64.ofNat (u.toNat / 256 ^ k) ∧
      ∀ a, s.1 a = if off + (8 - k) ≤ a ∧ a < off + 8
        then UInt8.ofNat (u.toNat / 256 ^ (7 - (a - off))) else x a)
    (fun _ => ⟨by rw [Nat.pow_zero, Nat.div_one, UInt64.ofNat_toNat],
      fun a => (if_neg (by omega)).symm⟩)
    (by
      intro k s hk hs _
      obtain ⟨hword, hbytes⟩ := hs (by omega)
      have hlt : u.toNat / 256 ^ k < 2 ^ 64 := (Nat.div_le_self _ _).trans_lt (UInt64.toNat_lt u)
      refine ⟨?_, fun a => ?_⟩
      · rw [hword, ofNat_shiftRight_8 hlt, Nat.div_div_eq_div_mul, ← Nat.pow_succ]
      · dsimp only
        rcases eq_or_ne a (off + (7 - k)) with rfl | hne
        · have hexp : 7 - (off + (7 - k) - off) = k := by omega
          rw [Function.update_self, if_pos (by omega), hexp, hword, UInt64.toUInt8_ofNat']
        · rw [Function.update_of_ne hne, hbytes a]
          split
          case isTrue h => rw [if_pos (by omega)]
          case isFalse h => rw [if_neg (by omega)])
  funext a
  rw [ts64, (hloop (Nat.le_refl 8)).2 a]
  split
  case isTrue h =>
    obtain ⟨i, rfl⟩ := Nat.exists_eq_add_of_le h.1
    have hi : off + (8 - 8) + i = off + i := by omega
    rw [hi, write_at (by omega), Nat.add_sub_cancel_left]
  case isFalse h => exact (write_changed a (by omega)).symm

theorem bigEndianAt_ts64 (x : Bytes) (off : Nat) (u : UInt64) :
    bigEndianAt (ts64 x off u) off = u := by
  have hbytes : digitSum 256 8 (fun i => (ts64 x off u (off + (7 - i))).toNat) = u.toNat % 256 ^ 8 := by
    rw [← digitSum_digits]
    refine digitSum_congr fun i hi => ?_
    have hexp : 7 - (7 - i) = i := by omega
    rw [ts64_eq, write_at (by omega), UInt8.toNat_ofNat', hexp]
  have hlt : u.toNat < 256 ^ 8 := UInt64.toNat_lt u
  rw [bigEndianAt, hbytes, Nat.mod_eq_of_lt hlt, UInt64.ofNat_toNat]

theorem bigEndianAt_congr {x x' : Bytes} {off off' : Nat}
    (h : ∀ i, i < 8 → x (off + i) = x' (off' + i)) : bigEndianAt x off = bigEndianAt x' off' := by
  rw [bigEndianAt, bigEndianAt, digitSum_congr fun i hi => by rw [h (7 - i) (by omega)]]

/-- The words behind the last loop of `crypto_hashblocks`. -/
theorem bigEndianAt_stores (v : Nat → UInt64) (x : Bytes) {n i : Nat} (hi : i < n) :
    bigEndianAt (forUp (fun i x => ts64 x (8 * i) (v i)) n x) (8 * i) = v i := by
  induction n with
  | zero => exact absurd hi (Nat.not_lt_zero i)
  | succ n ih =>
      rw [forUp_succ]
      rcases Nat.lt_succ_iff_lt_or_eq.mp hi with hlt | rfl
      · rw [← ih hlt]
        refine bigEndianAt_congr fun j hj => ?_
        rw [ts64_eq]
        exact write_before (by omega)
      · exact bigEndianAt_ts64 _ _ _

theorem bigStores_changed (v : Nat → UInt64) (x : Bytes) (n : Nat) :
    ChangedWithin 0 (8 * n) x (forUp (fun i x => ts64 x (8 * i) (v i)) n x) := by
  intro a ha
  refine forUp_invariant (I := fun _ (x' : Bytes) => x' a = x a) rfl fun i x' hi hx => ?_
  rw [ts64_eq, write_behind (by omega), hx]

/-! ### The schedule

The loop that replaces the words goes through them in their order.
-/

theorem schedule_of_lt (block : Nat → UInt64) {t : Nat} (h : t < 16) :
    schedule block t = block t := by
  rw [schedule, if_pos h]

theorem schedule_add (block : Nat → UInt64) (t : Nat) :
    schedule block (t + 16) = sha512Mix1 (schedule block (t + 14)) + schedule block (t + 9) +
      sha512Mix0 (schedule block (t + 1)) + schedule block t := by
  rw [schedule, if_neg (by omega)]
  rfl

/-- The slots have the words of the schedule from `t` on. -/
def Scheduled (block : Nat → UInt64) (t : Nat) (w : Arr UInt64) : Prop :=
  ∀ j, j < 16 → w j = schedule block (t + j)

theorem extend_spec {block : Nat → UInt64} {t : Nat} {w : Arr UInt64} (hw : Scheduled block t w) :
    Scheduled block (t + 16) (Sha512.extend w) := by
  -- the slots below `j` have been rewritten already
  have hloop := forUp_invariant (n := 16) (s := w)
    (f := fun j w => w.set j (w j + (w ((j + 9) % 16) + Sha512.sigma0 (w ((j + 1) % 16)) +
      Sha512.sigma1 (w ((j + 14) % 16)))))
    (I := fun j (w : Arr UInt64) => ∀ k, k < 16 →
      w k = schedule block (if k < j then t + 16 + k else t + k))
    (fun k hk => by rw [if_neg (Nat.not_lt_zero k)]; exact hw k hk)
    (by
      intro j w hj hw k hk
      have hslot : ∀ c, 0 < c → c < 16 → w ((j + c) % 16) = schedule block (t + j + c) := by
        intro c hpos hc
        rw [hw _ (Nat.mod_lt _ (by decide))]
        congr 1
        split <;> omega
      rcases eq_or_ne k j with rfl | hne
      · have hself := hw k hk
        have hadd : t + 16 + k = t + k + 16 := by omega
        rw [if_neg (Nat.lt_irrefl k)] at hself
        rw [Arr.set_self, if_pos (Nat.lt_succ_self k), hself, hslot 9 (by decide) (by decide),
          hslot 1 (by decide) (by decide), hslot 14 (by decide) (by decide), sigma0_eq, sigma1_eq,
          hadd, schedule_add]
        ac_rfl
      · rw [Arr.set_of_ne hne, hw k hk]
        congr 1
        split <;> split <;> omega)
  intro j hj
  rw [Sha512.extend, hloop j hj, if_pos hj]

/-! ### The rounds

A round puts two new words into the state and moves the others up.
-/

/-- The eight words in an array. -/
def eightWords (a : Arr UInt64) : Vector UInt64 8 := Vector.ofFn fun i => a i

theorem eightWords_get (a : Arr UInt64) {i : Nat} (hi : i < 8) : (eightWords a)[i] = a i := by
  simp [eightWords]

theorem eightWords_eq {a : Arr UInt64} {h : Vector UInt64 8} (heq : ∀ i (hi : i < 8), a i = h[i]) :
    eightWords a = h :=
  Vector.ext fun i hi => by rw [eightWords_get a hi, heq i hi]

/-- Moving the words up by one slot. -/
theorem rotate_spec (a b : Arr UInt64) {i : Nat} (hi : i < 8) :
    forUp (fun j a => a.set ((j + 1) % 8) (b j)) 8 a i = b ((i + 7) % 8) := by
  have hloop := forUp_invariant (n := 8) (s := a)
    (f := fun j (a : Arr UInt64) => a.set ((j + 1) % 8) (b j))
    (I := fun j (a : Arr UInt64) => ∀ k, k < 8 → (k + 7) % 8 < j → a k = b ((k + 7) % 8))
    (fun k _ hk => absurd hk (Nat.not_lt_zero _))
    (by
      intro j a hj ha k hk hlt
      rcases eq_or_ne k ((j + 1) % 8) with rfl | hne
      · have hback : ((j + 1) % 8 + 7) % 8 = j := by omega
        rw [Arr.set_self, hback]
      · rw [Arr.set_of_ne hne, ha k hk (by omega)])
  exact hloop i hi (Nat.mod_lt _ (by decide))

/-- A round of the code is one of the hash. -/
theorem round_spec {i : Nat} (hi : i < 80) (a w : Arr UInt64) :
    eightWords (Sha512.round i (a, w)).1
      = sha512Round (sha512Constant i) (w (i % 16)) (eightWords a) := by
  have hfill : ∀ j, j < 8 → ((Arr.of fun _ => 0).fill 8 a) j = a j := fun j hj => Arr.fill_of_lt hj
  refine Vector.ext fun j hj => ?_
  rw [eightWords_get _ hj, Sha512.round]
  dsimp only
  rw [rotate_spec _ _ hj, K_getD hi, Sigma0_eq, Sigma1_eq, Ch_eq, Maj_eq]
  interval_cases j <;>
    simp [hfill, sha512Round, eightWords_get, UInt64.add_assoc]

/-- The slots keep up with the rounds. -/
theorem rounds_spec {block : Nat → UInt64} {a w : Arr UInt64} (hw : Scheduled block 0 w) {n : Nat}
    (hn : n ≤ 80) : eightWords (forUp Sha512.round n (a, w)).1 = sha512Rounds block (eightWords a) n ∧
      Scheduled block (16 * (n / 16)) (forUp Sha512.round n (a, w)).2 := by
  induction n with
  | zero => exact ⟨rfl, hw⟩
  | succ n ih =>
      obtain ⟨hwords, hscheduled⟩ := ih (Nat.le_of_succ_le hn)
      have hslot := hscheduled (n % 16) (Nat.mod_lt _ (by decide))
      rw [Nat.div_add_mod] at hslot
      rw [forUp_succ]
      refine ⟨?_, ?_⟩
      · rw [round_spec hn, hslot, hwords, sha512Rounds]
      · rw [Sha512.round]
        dsimp only
        split
        case isTrue h =>
          have hnext : 16 * ((n + 1) / 16) = 16 * (n / 16) + 16 := by omega
          rw [hnext]
          exact extend_spec hscheduled
        case isFalse h =>
          have hsame : 16 * ((n + 1) / 16) = 16 * (n / 16) := by omega
          rw [hsame]
          exact hscheduled

/-! ### The blocks

The state behind a block is the one before it, with the words of the rounds added.
-/

/-- The last loop over the block adds what was there before. -/
theorem addWords_spec (a z : Arr UInt64) {i : Nat} (hi : i < 8) :
    let s := forUp (fun i (s : Arr UInt64 × Arr UInt64) =>
      let a := s.1.set i (s.1 i + s.2 i)
      (a, s.2.set i (a i))) 8 (a, z)
    s.1 i = a i + z i ∧ s.2 i = a i + z i := by
  have hloop := forUp_invariant (n := 8) (s := (a, z))
    (f := fun i (s : Arr UInt64 × Arr UInt64) =>
      let a := s.1.set i (s.1 i + s.2 i)
      (a, s.2.set i (a i)))
    (I := fun j (s : Arr UInt64 × Arr UInt64) =>
      (∀ k, k < j → s.1 k = a k + z k ∧ s.2 k = a k + z k) ∧
        ∀ k, j ≤ k → s.1 k = a k ∧ s.2 k = z k)
    ⟨fun k hk => absurd hk (Nat.not_lt_zero k), fun _ _ => ⟨rfl, rfl⟩⟩
    (by
      intro j s hj ⟨hdone, hrest⟩
      obtain ⟨haj, hzj⟩ := hrest j (Nat.le_refl j)
      refine ⟨fun k hk => ?_, fun k hk => ?_⟩
      · rcases Nat.lt_succ_iff_lt_or_eq.mp hk with hlt | rfl
        · dsimp only
          rw [Arr.set_of_ne (Nat.ne_of_lt hlt), Arr.set_of_ne (Nat.ne_of_lt hlt)]
          exact hdone k hlt
        · dsimp only
          rw [Arr.set_self, Arr.set_self, haj, hzj]
          exact ⟨rfl, rfl⟩
      · dsimp only
        rw [Arr.set_of_ne (by omega), Arr.set_of_ne (by omega)]
        exact hrest k (by omega))
  exact hloop.1 i hi

/-- `a` and `z` both have the words of the hash so far. -/
def Hashed (h : Vector UInt64 8) (s : Arr UInt64 × Arr UInt64) : Prop :=
  ∀ i (hi : i < 8), s.1 i = h[i] ∧ s.2 i = h[i]

theorem hashBlock_spec (m : Bytes) (off : Nat) {h : Vector UInt64 8} {s : Arr UInt64 × Arr UInt64}
    (hs : Hashed h s) :
    Hashed (sha512Compress h fun t => bigEndianAt m (off + 8 * t)) (hashBlock m off s) := by
  intro i hi
  have hscheduled : Scheduled (fun t => bigEndianAt m (off + 8 * t)) 0
      ((Arr.of fun _ => 0).fill 16 fun i => dl64 m (off + 8 * i)) := by
    intro j hj
    rw [Arr.fill_of_lt hj, Nat.zero_add, schedule_of_lt _ hj, dl64_eq]
  have hrounds := (rounds_spec (a := s.1) hscheduled (Nat.le_refl 80)).1
  rw [eightWords_eq fun i hi => (hs i hi).1] at hrounds
  have hadd := addWords_spec (forUp Sha512.round 80
    (s.1, (Arr.of fun _ => 0).fill 16 fun i => dl64 m (off + 8 * i))).1 s.2 hi
  have hslot := eightWords_get (forUp Sha512.round 80
    (s.1, (Arr.of fun _ => 0).fill 16 fun i => dl64 m (off + 8 * i))).1 hi
  rw [hrounds] at hslot
  rw [← hslot, (hs i hi).2] at hadd
  simp only [sha512Compress, Vector.getElem_zipWith]
  exact hadd

theorem hashblocksLoop_spec (m : Bytes) (h : Vector UInt64 8) (fuel : Nat) {k n : Nat}
    (hfuel : n ≤ fuel) {s : Arr UInt64 × Arr UInt64} (hs : Hashed (sha512Blocks m h k) s) :
    Hashed (sha512Blocks m h (k + n / 128)) (hashblocksLoop m fuel (128 * k) n s) := by
  induction fuel generalizing k n s with
  | zero =>
      obtain rfl : n = 0 := by omega
      exact hs
  | succ fuel ih =>
      rw [hashblocksLoop]
      split
      case isTrue hge =>
        have hcount : k + n / 128 = k + 1 + (n - 128) / 128 := by omega
        rw [hcount]
        exact ih (by omega) (hashBlock_spec m (128 * k) hs)
      case isFalse hlt =>
        have hcount : k + n / 128 = k := by omega
        rw [hcount]
        exact hs

/-- The words in a buffer. -/
def hashWords (x : Bytes) : Vector UInt64 8 := Vector.ofFn fun i => bigEndianAt x (8 * i)

theorem hashWords_iv : hashWords iv = sha512Initial := by
  rw [← iv_eq, hashWords]
  simp only [dl64_eq]

/-- `crypto_hashblocks` goes over the whole blocks. -/
theorem cryptoHashblocks_spec (x m : Bytes) (n : Nat) :
    hashWords (cryptoHashblocks x m n) = sha512Blocks m (hashWords x) (n / 128) ∧
      ChangedWithin 0 64 x (cryptoHashblocks x m n) := by
  have hinit : Hashed (sha512Blocks m (hashWords x) 0)
      ((Arr.of fun _ => 0).fill 8 fun i => dl64 x (8 * i),
        (Arr.of fun _ => 0).fill 8 fun i => dl64 x (8 * i)) := by
    intro i hi
    have hslot : (Arr.of fun _ => (0 : UInt64)).fill 8 (fun i => dl64 x (8 * i)) i
        = (sha512Blocks m (hashWords x) 0)[i] := by
      rw [Arr.fill_of_lt hi, dl64_eq]
      simp [sha512Blocks, hashWords]
    exact ⟨hslot, hslot⟩
  have hloop := hashblocksLoop_spec m (hashWords x) n (k := 0) (Nat.le_refl n) hinit
  rw [Nat.zero_add] at hloop
  constructor
  · refine Vector.ext fun i hi => ?_
    simp only [hashWords, Vector.getElem_ofFn]
    rw [cryptoHashblocks, bigEndianAt_stores _ _ hi]
    exact (hloop i hi).2
  · exact bigStores_changed _ x 8

/-! ### The padding

The rest of the message has room in front of the length, or takes one block more.
-/

section
variable {block block' : Nat → UInt64}

theorem schedule_congr (h : ∀ t, t < 16 → block t = block' t) (t : Nat) :
    schedule block t = schedule block' t := by
  induction t using Nat.strong_induction_on with
  | _ t ih =>
      rcases Nat.lt_or_ge t 16 with hlt | hge
      · rw [schedule_of_lt _ hlt, schedule_of_lt _ hlt, h t hlt]
      · obtain ⟨u, rfl⟩ := Nat.exists_eq_add_of_le' hge
        rw [schedule_add, schedule_add, ih (u + 14) (by omega), ih (u + 9) (by omega),
          ih (u + 1) (by omega), ih u (by omega)]

theorem sha512Compress_congr (h : Vector UInt64 8) (heq : ∀ t, t < 16 → block t = block' t) :
    sha512Compress h block = sha512Compress h block' := by
  have hrounds : ∀ n, sha512Rounds block h n = sha512Rounds block' h n := by
    intro n
    induction n with
    | zero => rfl
    | succ n ih => rw [sha512Rounds, sha512Rounds, ih, schedule_congr heq]
  rw [sha512Compress, sha512Compress, hrounds]

end

/-- Blocks of the same bytes. -/
theorem sha512Blocks_congr {b b' : Bytes} (h : Vector UInt64 8) {k : Nat}
    (heq : ∀ i, i < 128 * k → b i = b' i) : sha512Blocks b h k = sha512Blocks b' h k := by
  induction k with
  | zero => rfl
  | succ k ih =>
      rw [sha512Blocks, sha512Blocks, ih fun i hi => heq i (by omega)]
      exact sha512Compress_congr _ fun t ht => bigEndianAt_congr fun i hi => heq _ (by omega)

/-- The blocks behind the first `j`. -/
theorem sha512Blocks_add (b : Bytes) (h : Vector UInt64 8) (j k : Nat) :
    sha512Blocks b h (j + k) = sha512Blocks (fun i => b (128 * j + i)) (sha512Blocks b h j) k := by
  induction k with
  | zero => rfl
  | succ k ih =>
      rw [← Nat.add_assoc, sha512Blocks, ih, sha512Blocks]
      congr 1
      funext t
      refine bigEndianAt_congr fun i _ => ?_
      congr 1
      omega

theorem and_127 (n : UInt64) : (n &&& 127).toNat = n.toNat % 128 := by
  rw [UInt64.toNat_and]
  exact Nat.and_two_pow_sub_one_eq_mod n.toNat 7

/-- The length of the second buffer. -/
def tailLength (n : Nat) : Nat := if n % 128 < 112 then 128 else 256

theorem tailLength_cases (n : Nat) :
    n % 128 < 112 ∧ tailLength n = 128 ∨ 112 ≤ n % 128 ∧ tailLength n = 256 := by
  unfold tailLength
  split
  case isTrue h => exact .inl ⟨h, rfl⟩
  case isFalse h => exact .inr ⟨Nat.le_of_not_lt h, rfl⟩

theorem hashTail_length (m : Bytes) (off : Nat) (n : UInt64) :
    (hashTail m off (n &&& 127) n).2 = tailLength n.toNat := by
  have hlt : n &&& 127 < 112 ↔ n.toNat % 128 < 112 := by
    rw [UInt64.lt_iff_toNat_lt, and_127]
    rfl
  rw [hashTail, tailLength]
  dsimp only
  by_cases h : n &&& 127 < 112
  · rw [if_pos h, if_pos (hlt.mp h)]
    rfl
  · rw [if_neg h, if_neg fun hless => h (hlt.mpr hless)]
    rfl

theorem tailLength_sub (n : UInt64) :
    ((256 : UInt64) - 128 * (if n &&& 127 < 112 then 1 else 0) - 9).toNat = tailLength n.toNat - 9 ∧
      ((256 : UInt64) - 128 * (if n &&& 127 < 112 then 1 else 0) - 8).toNat
        = tailLength n.toNat - 8 := by
  have hlength := hashTail_length (fun _ => 0) 0 n
  rw [← hlength, hashTail]
  dsimp only
  split <;> exact ⟨rfl, rfl⟩

/-- The digits of a length that are within its lower 64 bits. -/
theorem ofNat_shiftLeft_3 (n : UInt64) {e : Nat} (he : e < 8) :
    UInt8.ofNat ((n <<< 3).toNat / 256 ^ e) = UInt8.ofNat (8 * n.toNat / 256 ^ e) := by
  have hconst : (3 : UInt64).toNat % 64 = 3 := rfl
  have hshift : (n <<< 3).toNat = 8 * n.toNat % 256 ^ 8 := by
    rw [UInt64.toNat_shiftLeft, hconst, Nat.shiftLeft_eq, Nat.mul_comm]
    rfl
  refine UInt8.toNat_inj.mp ?_
  rw [UInt8.toNat_ofNat', UInt8.toNat_ofNat', hshift]
  exact mod_pow_digit _ he

/-- What is in the second buffer: the rest of the message, a bit, and the length of all of it. -/
theorem hashTail_bytes (m : Bytes) (off : Nat) (n : UInt64) {i : Nat} (hi : i < tailLength n.toNat) :
    (hashTail m off (n &&& 127) n).1 i =
      if i < n.toNat % 128 then m (off + i)
      else if i = n.toNat % 128 then 128
      else UInt8.ofNat (8 * n.toNat / 256 ^ (tailLength n.toNat - 1 - i)) := by
  have hbits := UInt64.toNat_lt n
  have hroom : n.toNat % 128 < tailLength n.toNat - 9 := by
    have hcases := tailLength_cases n.toNat
    omega
  obtain ⟨hnine, height⟩ := tailLength_sub n
  rw [hashTail]
  dsimp only
  rw [hnine, height, and_127, ts64_eq]
  rcases Nat.lt_or_ge i (tailLength n.toNat - 8) with hlt | hge
  · rw [write_before hlt]
    rcases eq_or_ne i (tailLength n.toNat - 9) with rfl | hne
    · -- the byte above the last eight
      have hexp : tailLength n.toNat - 1 - (tailLength n.toNat - 9) = 8 := by omega
      have hconst : (61 : UInt64).toNat % 64 = 61 := rfl
      rw [Function.update_self, if_neg (by omega), if_neg (by omega), hexp]
      refine UInt8.toNat_inj.mp ?_
      rw [UInt64.toNat_toUInt8, UInt64.toNat_shiftRight, hconst, Nat.shiftRight_eq_div_pow,
        UInt8.toNat_ofNat']
      omega
    · rw [Function.update_of_ne hne]
      rcases Nat.lt_trichotomy i (n.toNat % 128) with hless | rfl | hmore
      · rw [Function.update_of_ne hless.ne, write_zero_at hless, if_pos hless]
      · rw [Function.update_self, if_neg (Nat.lt_irrefl _), if_pos rfl]
      · -- above that it is too short to have any
        have hpow : 256 ^ 9 ≤ 256 ^ (tailLength n.toNat - 1 - i) :=
          Nat.pow_le_pow_right (by decide) (by omega)
        have hzero : 8 * n.toNat / 256 ^ (tailLength n.toNat - 1 - i) = 0 :=
          Nat.div_eq_of_lt (by omega)
        rw [Function.update_of_ne hmore.ne', write_behind (by omega), if_neg (by omega),
          if_neg hmore.ne', hzero]
        rfl
  · obtain ⟨j, rfl⟩ := Nat.exists_eq_add_of_le hge
    have hexp : tailLength n.toNat - 1 - (tailLength n.toNat - 8 + j) = 7 - j := by omega
    rw [write_at (by omega), if_neg (by omega), if_neg (by omega), hexp]
    exact ofNat_shiftLeft_3 n (by omega)

theorem sha512Count_eq (n : Nat) : n / 128 + tailLength n / 128 = sha512Count n := by
  have hcases := tailLength_cases n
  rw [sha512Count]
  omega

/-- The two buffers are the padded message. -/
theorem sha512Padded_tail (m : Bytes) (n : UInt64) {i : Nat} (hi : i < tailLength n.toNat) :
    (hashTail m (128 * (n.toNat / 128)) (n &&& 127) n).1 i
      = sha512Padded m n.toNat (128 * (n.toNat / 128) + i) := by
  have hcount := sha512Count_eq n.toNat
  have hcases := tailLength_cases n.toNat
  have hexp : tailLength n.toNat - 1 - i
      = 128 * sha512Count n.toNat - 1 - (128 * (n.toNat / 128) + i) := by
    omega
  rw [hashTail_bytes m _ n hi, sha512Padded, hexp]
  rcases Nat.lt_trichotomy i (n.toNat % 128) with hless | heq | hmore
  · rw [if_pos hless, if_pos (by omega)]
  · rw [if_neg (by omega), if_pos heq, if_neg (by omega), if_pos (by omega)]
  · rw [if_neg (by omega), if_neg (by omega), if_neg (by omega), if_neg (by omega)]

/-- The words that `crypto_hash` writes are those of SHA-512. -/
theorem cryptoHash512_eq (out m : Bytes) (n : UInt64) :
    hashWords (cryptoHash512 out m n) = sha512 m n.toNat ∧
      ChangedWithin 0 64 out (cryptoHash512 out m n) := by
  have hoff : (n - (n &&& 127)).toNat = 128 * (n.toNat / 128) := by
    have hle : n &&& 127 ≤ n := by
      rw [UInt64.le_iff_toNat_le, and_127]
      exact Nat.mod_le _ _
    rw [UInt64.toNat_sub_of_le _ _ hle, and_127]
    omega
  have hwords : ∀ {b b' : Bytes}, (∀ i, i < 64 → b i = b' i) → hashWords b = hashWords b' :=
    fun h => Vector.ext fun i hi => by
      simp only [hashWords, Vector.getElem_ofFn]
      exact bigEndianAt_congr fun j hj => h _ (by omega)
  have hiv : hashWords (write (fun _ => 0) 0 64 iv) = hashWords iv :=
    hwords fun i hi => write_zero_at hi
  obtain ⟨hfirst, -⟩ := cryptoHashblocks_spec (write (fun _ => 0) 0 64 iv) m n.toNat
  rw [hiv] at hfirst
  rw [cryptoHash512, hoff]
  dsimp only
  refine ⟨?_, write_changed⟩
  rw [hwords fun i hi => write_zero_at hi, (cryptoHashblocks_spec _ _ _).1, hfirst, hashTail_length,
    sha512, ← sha512Count_eq, sha512Blocks_add]
  have hwhole : sha512Blocks (sha512Padded m n.toNat) (hashWords iv) (n.toNat / 128)
      = sha512Blocks m (hashWords iv) (n.toNat / 128) :=
    sha512Blocks_congr _ fun i hi => by rw [sha512Padded, if_pos (by omega)]
  rw [← hashWords_iv, hwhole]
  refine sha512Blocks_congr _ fun i hi => sha512Padded_tail m n ?_
  have hcases := tailLength_cases n.toNat
  omega

end CmakeTemplate
