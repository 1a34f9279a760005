/-
The scalar multiplication multiplies points of the curve.

The loop of `crypto_scalarmult` is the ladder: a turn of it does to the four numbers what a
rung does to the two fractions, and keeps the limbs small.  A sum or a difference of two
products is small enough for the next product, so no word overflows in any turn, however many
there are.

What is packed at the end is the x-coordinate of the multiple, for whatever coordinate the 32
bytes stand for.  Half of the coordinates are not those of points over the field, but each is
that of a point over a larger one; the ladder never leaves the field, and its formulas hold in
the larger one, so the coordinate it computes is that of the multiple there.  The algebraic
closure has a point for each coordinate.
-/
import CmakeTemplate.Proofs.Crypto.Field25519
import Mathlib.FieldTheory.Finite.Basic
import Mathlib.FieldTheory.IsAlgClosed.AlgebraicClosure

namespace CmakeTemplate

open Lib Lib.Montgomery

/-! ### The prime

A chain of certificates, from the prime of the field down to primes that are small enough to
be tried.
-/

theorem prime_2773320623 : Nat.Prime 2773320623 := by
  refine prime_of_factors 5 64 [2, 2437, 569003] (by decide) (by decide) (by decide)
    (by decide +kernel) (by decide +kernel) ?_
  simp only [List.forall_mem_cons]
  norm_num

theorem prime_72106336199 : Nat.Prime 72106336199 := by
  refine prime_of_factors 7 64 [2, 13, 2773320623] (by decide) (by decide) (by decide)
    (by decide +kernel) (by decide +kernel) ?_
  simp only [List.forall_mem_cons, prime_2773320623]
  norm_num

theorem prime_1919519569386763 : Nat.Prime 1919519569386763 := by
  refine prime_of_factors 2 64 [2, 3, 7, 19, 47, 47, 127, 8574133] (by decide) (by decide)
    (by decide) (by decide +kernel) (by decide +kernel) ?_
  simp only [List.forall_mem_cons]
  norm_num

theorem prime_31757755568855353 : Nat.Prime 31757755568855353 := by
  refine prime_of_factors 10 64 [2, 2, 2, 3, 31, 107, 223, 4153, 430751] (by decide) (by decide)
    (by decide) (by decide +kernel) (by decide +kernel) ?_
  simp only [List.forall_mem_cons]
  norm_num

theorem prime_75445702479781427272750846543864801 :
    Nat.Prime 75445702479781427272750846543864801 := by
  refine prime_of_factors 7 128
    [2, 2, 2, 2, 2, 3, 3, 5, 5, 75707, 72106336199, 1919519569386763] (by decide) (by decide)
    (by decide) (by decide +kernel) (by decide +kernel) ?_
  simp only [List.forall_mem_cons, prime_72106336199,
    prime_1919519569386763]
  norm_num

theorem prime_74058212732561358302231226437062788676166966415465897661863160754340907 :
    Nat.Prime 74058212732561358302231226437062788676166966415465897661863160754340907 := by
  refine prime_of_factors 2 256 [2, 3, 353, 57467, 132049, 1923133, 31757755568855353,
    75445702479781427272750846543864801] (by decide) (by decide) (by decide)
    (by decide +kernel) (by decide +kernel) ?_
  simp only [List.forall_mem_cons, prime_31757755568855353,
    prime_75445702479781427272750846543864801]
  norm_num

theorem p25519_prime : Nat.Prime p25519 := by
  refine prime_of_factors 2 256 [2, 2, 3, 65147,
    74058212732561358302231226437062788676166966415465897661863160754340907] (by decide) (by decide)
    (by decide) (by decide +kernel) (by decide +kernel) ?_
  simp only [List.forall_mem_cons,
    prime_74058212732561358302231226437062788676166966415465897661863160754340907]
  norm_num

instance : Fact (Nat.Prime p25519) := ⟨p25519_prime⟩

/-! ### A turn of the loop

Eighteen operations on four numbers, each with its bound on the limbs.
-/

/-- The four numbers are small enough to be added and multiplied. -/
structure Rungs.Small (s : Rungs) : Prop where
  /-- `a` is small. -/
  a : Gf.Within (2 ^ 17) s.a
  /-- `b` is. -/
  b : Gf.Within (2 ^ 17) s.b
  /-- `c` is. -/
  c : Gf.Within (2 ^ 17) s.c
  /-- `d` is. -/
  d : Gf.Within (2 ^ 17) s.d

/-- The two fractions: `a / c` and `b / d`. -/
def Rungs.fractions (s : Rungs) : (ZMod p25519 × ZMod p25519) × (ZMod p25519 × ZMod p25519) :=
  ((Gf.value s.a, Gf.value s.c), (Gf.value s.b, Gf.value s.d))

/-- Two numbers have the same limbs. -/
def Gf.Same (g h : Gf) : Prop := ∀ i, i < 16 → g i = h i

theorem Gf.Same.within {c : Int} {g h : Gf} (hsame : Gf.Same g h) (hh : Gf.Within c h) :
    Gf.Within c g := by
  intro i hi
  rw [hsame i hi]
  exact hh i hi

theorem Gf.Same.value {g h : Gf} (hsame : Gf.Same g h) : Gf.value g = Gf.value h := by
  rw [Gf.value, Gf.number, digitSum_congr hsame]
  rfl

theorem bind_of_some {α β : Type} {x : Option α} {f : α → Option β} {a : α} (h : x = some a) :
    (x >>= f) = f a := by
  rw [h]
  rfl

theorem Rungs.sel_spec {s : Rungs} (hs : s.Small) (b : Bool) :
    (s.sel b.toNat).Small ∧
      (s.sel b.toNat).fractions = if b then s.fractions.swap else s.fractions := by
  have hab := sel25519_spec (hs.a.mono (by decide)).words (hs.b.mono (by decide)).words b
  have hcd := sel25519_spec (hs.c.mono (by decide)).words (hs.d.mono (by decide)).words b
  have ha : Gf.Same (s.sel b.toNat).a (if b then s.b else s.a) := fun i hi => by
    rw [apply_ite Arr.get, ite_apply]
    exact (hab i hi).1
  have hb : Gf.Same (s.sel b.toNat).b (if b then s.a else s.b) := fun i hi => by
    rw [apply_ite Arr.get, ite_apply]
    exact (hab i hi).2
  have hc : Gf.Same (s.sel b.toNat).c (if b then s.d else s.c) := fun i hi => by
    rw [apply_ite Arr.get, ite_apply]
    exact (hcd i hi).1
  have hd : Gf.Same (s.sel b.toNat).d (if b then s.c else s.d) := fun i hi => by
    rw [apply_ite Arr.get, ite_apply]
    exact (hcd i hi).2
  cases b with
  | false =>
      refine ⟨⟨ha.within hs.a, hb.within hs.b, hc.within hs.c, hd.within hs.d⟩, ?_⟩
      rw [Rungs.fractions, ha.value, hb.value, hc.value, hd.value]
      rfl
  | true =>
      refine ⟨⟨ha.within hs.b, hb.within hs.a, hc.within hs.d, hd.within hs.c⟩, ?_⟩
      rw [Rungs.fractions, ha.value, hb.value, hc.value, hd.value]
      rfl

/-- `a` of the curve; `_121665` is `(a - 2) / 4`. -/
abbrev a25519 : ZMod p25519 := 486662

theorem value_121665 : Gf.Within (2 ^ 17) _121665 ∧ Gf.value _121665 = 121665 := by
  constructor
  · unfold Gf.Within
    decide
  · have hnumber : Gf.number _121665 = 121665 := by decide
    rw [Gf.value, hnumber]
    norm_num

/-- The first fraction is doubled, and the second one becomes the sum. -/
theorem Rungs.step_spec {x : Gf} (hx : Gf.Within (2 ^ 17) x) {s : Rungs} (hs : s.Small) :
    ∃ s', s.step x = some s' ∧ s'.Small ∧
      s'.fractions = (double a25519 s.fractions.1,
        addDiff (Gf.value x) s.fractions.1 s.fractions.2) := by
  have h18 : ∀ {g : Gf}, Gf.Carried 38 g → Gf.Within (2 ^ 18) g :=
    fun h => (h.within (by decide)).mono (by decide)
  have h17 : ∀ {g : Gf}, Gf.Carried 38 g → Gf.Within (2 ^ 17) g := fun h => h.within (by decide)
  obtain ⟨h121665, hv121665⟩ := value_121665
  obtain ⟨e, he, hew, hev⟩ := A_spec hs.a hs.c
  obtain ⟨a, ha, haw, hav⟩ := Z_spec hs.a hs.c
  obtain ⟨c, hc, hcw, hcv⟩ := A_spec hs.b hs.d
  obtain ⟨b, hb, hbw, hbv⟩ := Z_spec hs.b hs.d
  obtain ⟨d, hd, hdw, hdv⟩ := S_spec hew
  obtain ⟨f, hf, hfw, hfv⟩ := S_spec haw
  obtain ⟨a₂, ha₂, haw₂, hav₂⟩ := M_spec hcw haw
  obtain ⟨c₂, hc₂, hcw₂, hcv₂⟩ := M_spec hbw hew
  obtain ⟨e₂, he₂, hew₂, hev₂⟩ := A_spec (h17 haw₂) (h17 hcw₂)
  obtain ⟨a₃, ha₃, haw₃, hav₃⟩ := Z_spec (h17 haw₂) (h17 hcw₂)
  obtain ⟨b₂, hb₂, hbw₂, hbv₂⟩ := S_spec haw₃
  obtain ⟨c₃, hc₃, hcw₃, hcv₃⟩ := Z_spec (h17 hdw) (h17 hfw)
  obtain ⟨a₄, ha₄, haw₄, hav₄⟩ := M_spec hcw₃ (h121665.mono (by decide))
  obtain ⟨a₅, ha₅, haw₅, hav₅⟩ := A_spec (h17 haw₄) (h17 hdw)
  obtain ⟨c₄, hc₄, hcw₄, hcv₄⟩ := M_spec hcw₃ haw₅
  obtain ⟨a₆, ha₆, haw₆, hav₆⟩ := M_spec (h18 hdw) (h18 hfw)
  obtain ⟨d₂, hd₂, hdw₂, hdv₂⟩ := M_spec (h18 hbw₂) (hx.mono (by decide))
  obtain ⟨b₃, hb₃, hbw₃, hbv₃⟩ := S_spec hew₂
  refine ⟨⟨a₆, b₃, c₄, d₂⟩, ?_, ⟨h17 haw₆, h17 hbw₃, h17 hcw₄, h17 hdw₂⟩, ?_⟩
  · rw [Rungs.step, bind_of_some he, bind_of_some ha, bind_of_some hc, bind_of_some hb,
      bind_of_some hd, bind_of_some hf, bind_of_some ha₂, bind_of_some hc₂, bind_of_some he₂,
      bind_of_some ha₃, bind_of_some hb₂, bind_of_some hc₃, bind_of_some ha₄, bind_of_some ha₅,
      bind_of_some hc₄, bind_of_some ha₆, bind_of_some hd₂, bind_of_some hb₃]
    rfl
  · simp only [Rungs.fractions, double, addDiff]
    refine Prod.ext (Prod.ext ?_ ?_) (Prod.ext ?_ ?_)
    · rw [hav₆, hdv, hfv, hev, hav]
      ring
    · rw [hcv₄, hav₅, hav₄, hcv₃, hdv, hfv, hev, hav, hv121665]
      ring
    · rw [hbv₃, hev₂, hav₂, hcv₂, hcv, hbv, hev, hav]
      ring
    · rw [hdv₂, hbv₂, hav₃, hav₂, hcv₂, hcv, hbv, hev, hav]
      ring

/-! ### The loop

The bits are taken from the highest down, as the ladder takes them.
-/

theorem scalarBit_eq (z : Bytes) {i : Nat} (hi : i < 255) :
    scalarBit z i = (((littleEndian z 0 32).testBit i).toNat : Int) := by
  have hbyte : ∀ j, j < 32 → (z (0 + j)).toNat < 2 ^ 8 := fun j _ => UInt8.toNat_lt _
  have hbit := digitSum_testBit (by decide) hbyte i
  have hlt : i / 8 < 32 := by omega
  rw [Nat.zero_add, decide_eq_true hlt, Bool.true_and] at hbit
  have hnumber : littleEndian z 0 32 = digitSum (2 ^ 8) 32 fun j => (z (0 + j)).toNat := rfl
  rw [hnumber, hbit, Nat.toNat_testBit, scalarBit]
  push_cast
  rfl

theorem one_within : Gf.Within (2 ^ 17) (gf0.set 0 1) ∧ Gf.value (gf0.set 0 1) = 1 := by
  constructor
  · unfold Gf.Within
    decide
  · have hnumber : Gf.number (gf0.set 0 1) = 1 := by decide
    rw [Gf.value, hnumber, Int.cast_one]

theorem gf0_within : Gf.Within (2 ^ 17) gf0 ∧ Gf.value gf0 = 0 := by
  constructor
  · unfold Gf.Within
    decide
  · have hnumber : Gf.number gf0 = 0 := by decide
    rw [Gf.value, hnumber, Int.cast_zero]

/-- A turn of the loop is a rung of the ladder. -/
theorem scalarmultTurn_spec (z : Bytes) {x : Gf} (hx : Gf.Within (2 ^ 17) x) {i : Nat} (hi : i < 255)
    {s : Rungs} (hs : s.Small) :
    ∃ s', (do
        let r := scalarBit z i
        let s ← (s.sel r).step x
        return s.sel r) = some s' ∧ s'.Small ∧
      s'.fractions = ladderStep a25519 (Gf.value x) ((littleEndian z 0 32).testBit i) s.fractions := by
  rw [scalarBit_eq z hi]
  generalize (littleEndian z 0 32).testBit i = b
  obtain ⟨hsel, hfractions⟩ := Rungs.sel_spec hs b
  obtain ⟨s₁, hs₁, hsmall₁, hfractions₁⟩ := Rungs.step_spec hx hsel
  obtain ⟨hsmall₂, hfractions₂⟩ := Rungs.sel_spec hsmall₁ b
  refine ⟨s₁.sel b.toNat, by rw [bind_of_some hs₁]; rfl, hsmall₂, ?_⟩
  rw [hfractions₂, hfractions₁, hfractions, ladderStep]

/-- The loop is the ladder. -/
theorem scalarmultLoop_spec (z : Bytes) {x : Gf} (hx : Gf.Within (2 ^ 17) x) :
    ∃ s, scalarmultLoop z x = some s ∧ s.Small ∧
      s.fractions = ladder a25519 (Gf.value x) (littleEndian z 0 32) 255
        ((1, 0), (Gf.value x, 1)) := by
  obtain ⟨h0, hv0⟩ := gf0_within
  obtain ⟨h1, hv1⟩ := one_within
  have hsmall : Rungs.Small ⟨gf0.set 0 1, gf0.fill 16 x, gf0, gf0.set 0 1⟩ :=
    ⟨h1, fill_within hx, h0, h1⟩
  have hfractions : Rungs.fractions ⟨gf0.set 0 1, gf0.fill 16 x, gf0, gf0.set 0 1⟩
      = ((1, 0), (Gf.value x, 1)) := by
    rw [Rungs.fractions, hv1, fill_value, hv0]
  rw [← hfractions]
  -- the rungs that are left lead to the same end
  obtain ⟨s, hs, hsmall', hladder⟩ := forDownM_invariant
    (I := fun i (s : Rungs) => s.Small ∧
      ladder a25519 (Gf.value x) (littleEndian z 0 32) i s.fractions
        = ladder a25519 (Gf.value x) (littleEndian z 0 32) 255
            (Rungs.fractions ⟨gf0.set 0 1, gf0.fill 16 x, gf0, gf0.set 0 1⟩))
    ⟨hsmall, rfl⟩
    (by
      intro i s hi ⟨hsmall, hladder⟩
      obtain ⟨s', hs', hsmall', hstep⟩ := scalarmultTurn_spec z hx hi hsmall
      refine ⟨s', hs', hsmall', ?_⟩
      rw [hstep, ← hladder, ladder_succ])
  exact ⟨s, hs, hsmall', hladder⟩

/-! ### The scalar

Three bits are cleared at the bottom and one at the top, and one is set.
-/

theorem and_248 : ∀ v, v < 256 → v &&& 248 = v / 8 * 8 := by decide +kernel

theorem and_127_or_64 : ∀ v, v < 256 → v &&& 127 ||| 64 = v % 64 + 64 := by
  decide +kernel

/-- The scalar that is used. -/
theorem clampScalar_spec (n : Bytes) :
    littleEndian (clampScalar n) 0 32 = clamp25519 (littleEndian n 0 32) := by
  have hsplit : ∀ b : Bytes, littleEndian b 0 32
      = (b 0).toNat + 256 * digitSum 256 30 (fun i => (b (i + 1)).toNat) + (b 31).toNat * 256 ^ 31 := by
    intro b
    have hfirst := digitSum_split (b := 256) (n := 30) (a := fun i => (b i).toNat) 1
    rw [digitSum_succ (n := 0), digitSum_zero, pow_zero, mul_one, zero_add, pow_one] at hfirst
    simp only [littleEndian, Nat.zero_add]
    rw [digitSum_succ, hfirst]
    simp only [Nat.add_comm 1]
  have hz0 : (clampScalar n 0).toNat = (n 0).toNat / 8 * 8 := by
    have hslot : clampScalar n 0 = n 0 &&& 248 := rfl
    rw [hslot, UInt8.toNat_and]
    exact and_248 _ (UInt8.toNat_lt _)
  have hz31 : (clampScalar n 31).toNat = (n 31).toNat % 64 + 64 := by
    have hslot : clampScalar n 31 = n 31 &&& 127 ||| 64 := rfl
    rw [hslot, UInt8.toNat_or, UInt8.toNat_and]
    exact and_127_or_64 _ (UInt8.toNat_lt _)
  have hmiddle : digitSum 256 30 (fun i => (clampScalar n (i + 1)).toNat)
      = digitSum 256 30 fun i => (n (i + 1)).toNat := by
    refine digitSum_congr fun i hi => ?_
    have hslot : clampScalar n (i + 1) = n (i + 1) := by
      rw [clampScalar, Function.update_of_ne (Nat.succ_ne_zero i), Function.update_of_ne (by omega),
        write_zero_at (by omega)]
    rw [hslot]
  have hlt : digitSum 256 30 (fun i => (n (i + 1)).toNat) < 256 ^ 30 :=
    digitSum_lt fun i _ => UInt8.toNat_lt _
  have hfirst := UInt8.toNat_lt (n 0)
  rw [hsplit, hsplit, hz0, hz31, hmiddle, clamp25519]
  omega

theorem clamp25519_lt (n : Nat) : clamp25519 n < 2 ^ 255 := by
  rw [clamp25519]
  omega

/-! ### The multiple

The fraction is divided out by a power, as an inverse modulo the prime.
-/

theorem pow_sub_two (x : ZMod p25519) : x ^ (p25519 - 2) = x⁻¹ := by
  rcases eq_or_ne x 0 with rfl | hx
  · rw [zero_pow (by decide), inv_zero]
  · refine eq_inv_of_mul_eq_one_left ?_
    rw [← pow_succ]
    exact ZMod.pow_card_sub_one_eq_one hx

/-- `crypto_scalarmult` does not overflow, and packs what the ladder computes. -/
theorem cryptoScalarmult_ladder (q n p : Bytes) :
    ∃ q', cryptoScalarmult q n p = some q' ∧ ChangedWithin 0 32 q q' ∧
      littleEndian q' 0 32
        = (multiply a25519 (coordinate p) (clamp25519 (littleEndian n 0 32)) 255).val := by
  obtain ⟨hreduced, hnumber⟩ := unpack25519_spec p
  have hx : Gf.value (unpack25519 p) = coordinate p := by
    rw [Gf.value, hnumber, Int.cast_natCast, coordinate]
  obtain ⟨s, hs, hsmall, hladder⟩ := scalarmultLoop_spec (clampScalar n) hreduced.within
  obtain ⟨c, hc, hcw, hcv⟩ := inv25519_spec hsmall.c
  obtain ⟨a, ha, haw, hav⟩ := M_spec (hsmall.a.mono (by decide)) (hcw.mono (by decide))
  obtain ⟨q', hq', hbytes, hchanged⟩ := pack25519_spec q ((haw.within (by decide)).mono (by decide))
  refine ⟨q', ?_, hchanged, ?_⟩
  · rw [cryptoScalarmult, bind_of_some hs, bind_of_some hc, bind_of_some ha, hq']
  · have hfirst : (Gf.value s.a, Gf.value s.c) = s.fractions.1 := rfl
    rw [hbytes, hav, hcv, pow_sub_two, ← div_eq_mul_inv, multiply, ← clampScalar_spec, ← hx,
      ← hladder, ← hfirst]

theorem two_ne_zero_25519 : (2 : ZMod p25519) ≠ 0 := by
  have hcast : (2 : ZMod p25519) = (2 : Nat) := rfl
  rw [hcast, ne_eq, ZMod.natCast_eq_zero_iff]
  decide

theorem a25519_sq_ne : a25519 ^ 2 ≠ 4 := by
  have hcast : a25519 ^ 2 = (486662 ^ 2 : Nat) := by push_cast; rfl
  have hfour : (4 : ZMod p25519) = (4 : Nat) := rfl
  rw [hcast, hfour, ne_eq, ZMod.natCast_eq_natCast_iff']
  decide

section
variable {K : Type} [Field K] [Algebra (ZMod p25519) K]

theorem two_ne_zero_algebra : (2 : K) ≠ 0 := by
  rw [← map_ofNat (algebraMap (ZMod p25519) K) 2]
  exact (map_ne_zero _).mpr two_ne_zero_25519

theorem a25519_sq_ne_algebra : (486662 : K) ^ 2 ≠ 4 := by
  have hsub := sub_ne_zero.mpr a25519_sq_ne
  have hmap := (map_ne_zero (algebraMap (ZMod p25519) K)).mpr hsub
  rw [map_sub, map_pow, map_ofNat, map_ofNat] at hmap
  exact sub_ne_zero.mp hmap

theorem multiply_algebraMap (x : ZMod p25519) (n : Nat) :
    multiply (486662 : K) (algebraMap (ZMod p25519) K x) n 255
      = algebraMap (ZMod p25519) K (multiply a25519 x n 255) := by
  rw [← multiply_map, map_ofNat]

/-- The x-coordinate of the multiple, where the point has its coordinates in a larger field. -/
theorem multiply_point [DecidableEq K] {D : (curve (486662 : K)).Point} {x : ZMod p25519}
    (hD : xOf D = algebraMap (ZMod p25519) K x) (n : Nat) :
    algebraMap (ZMod p25519) K (multiply a25519 x (clamp25519 n) 255)
      = xOf (clamp25519 n • D) := by
  have hmultiply := multiply_xOf (n := clamp25519 n) two_ne_zero_algebra a25519_sq_ne_algebra D
    (show 0 < 255 by decide)
  rw [Nat.mod_eq_of_lt (clamp25519_lt _)] at hmultiply
  rw [← hmultiply, hD, multiply_algebraMap]

end

/-- Every coordinate is that of a point over the algebraic closure. -/
theorem exists_point (x : ZMod p25519) :
    ∃ D : (curve (486662 : AlgebraicClosure (ZMod p25519))).Point,
      xOf D = algebraMap (ZMod p25519) (AlgebraicClosure (ZMod p25519)) x := by
  generalize algebraMap (ZMod p25519) (AlgebraicClosure (ZMod p25519)) x = u
  obtain ⟨y, hy⟩ := IsAlgClosed.exists_pow_nat_eq (u ^ 3 + 486662 * u ^ 2 + u) (show 0 < 2 by decide)
  exact ⟨.some u y (nonsingular_curve two_ne_zero_algebra a25519_sq_ne_algebra hy), rfl⟩

open Classical in
/-- What `crypto_scalarmult` writes is the x-coordinate of a multiple of any point that has the
coordinate it is given. -/
theorem cryptoScalarmult_point (q n p : Bytes) :
    ∃ q', cryptoScalarmult q n p = some q' ∧ ChangedWithin 0 32 q q' ∧
      littleEndian q' 0 32 < p25519 ∧
      (∃ D : (curve (486662 : AlgebraicClosure (ZMod p25519))).Point,
        xOf D = algebraMap (ZMod p25519) _ (coordinate p)) ∧
      ∀ D : (curve (486662 : AlgebraicClosure (ZMod p25519))).Point,
        xOf D = algebraMap (ZMod p25519) _ (coordinate p) →
          (littleEndian q' 0 32 : AlgebraicClosure (ZMod p25519))
            = xOf (clamp25519 (littleEndian n 0 32) • D) := by
  obtain ⟨q', hq', hchanged, hbytes⟩ := cryptoScalarmult_ladder q n p
  refine ⟨q', hq', hchanged, by rw [hbytes]; exact ZMod.val_lt _, exists_point _, fun D hD => ?_⟩
  rw [← multiply_point hD, hbytes, ← map_natCast (algebraMap (ZMod p25519) _), ZMod.natCast_zmod_val]

end CmakeTemplate
