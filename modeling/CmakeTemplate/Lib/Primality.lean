/-
Primes that are too large to try all divisors.

A number `p` is a prime if something has the order of the whole group modulo `p`: its power is
1 for the number less one, and for no quotient of that by a prime.  That is Lucas' test, which
Mathlib has; what is left is to compute the powers.

`powMod` computes a power modulo a number by squaring, one bit of the exponent at a time, so a
prime of 255 bits takes some hundreds of multiplications for each power.  The bits are counted
by a fuel that the recursion is structural in.  The prime factors of `p - 1` are given as a
list, and the list is right if its product is `p - 1` and its members are primes; those that
are large need a list of their own, which makes a certificate of a few levels.
-/
import Mathlib.Data.List.Prime
import Mathlib.NumberTheory.LucasPrimality
import Mathlib.Tactic.NormNum.Prime

namespace CmakeTemplate.Lib

/-- `g ^ e` modulo `m`, by squaring; `e` has `t` bits. -/
def powMod (m g : Nat) : Nat → Nat → Nat
  | 0, _ => 1 % m
  | t + 1, e =>
    let r := powMod m g t (e / 2)
    if e % 2 = 1 then r * r % m * g % m else r * r % m

theorem powMod_eq (m g : Nat) {t e : Nat} (he : e < 2 ^ t) : powMod m g t e = g ^ e % m := by
  induction t generalizing e with
  | zero =>
      obtain rfl : e = 0 := by simpa using he
      rfl
  | succ t ih =>
      have hhalf : powMod m g t (e / 2) = g ^ (e / 2) % m := ih (by omega)
      have hsquare : powMod m g t (e / 2) * powMod m g t (e / 2) % m = g ^ (2 * (e / 2)) % m := by
        rw [hhalf, ← Nat.mul_mod, ← pow_add, ← two_mul]
      rw [powMod, hsquare]
      split
      case isTrue hodd =>
        have he : e = 2 * (e / 2) + 1 := by omega
        nth_rewrite 2 [he]
        rw [pow_succ, Nat.mod_mul_mod]
      case isFalse heven =>
        have he : e = 2 * (e / 2) := by omega
        nth_rewrite 2 [he]
        rfl

theorem natCast_pow_eq_one_iff {p : Nat} (hp : 1 < p) (g n : Nat) :
    (g : ZMod p) ^ n = 1 ↔ g ^ n % p = 1 := by
  rw [← Nat.cast_pow, ← Nat.cast_one, ZMod.natCast_eq_natCast_iff', Nat.one_mod_eq_one.mpr hp.ne']

/-- `fs` are the prime factors of `p - 1`, each as often as it divides it. -/
theorem prime_of_factors {p : Nat} (g t : Nat) (fs : List Nat) (hp : 1 < p) (ht : p ≤ 2 ^ t)
    (hprod : fs.prod = p - 1) (hone : powMod p g t (p - 1) = 1)
    (hne : ∀ q ∈ fs, powMod p g t ((p - 1) / q) ≠ 1) (hfs : ∀ q ∈ fs, q.Prime) : p.Prime := by
  refine lucas_primality p (g : ZMod p) ?_ ?_
  · rw [natCast_pow_eq_one_iff hp, ← powMod_eq p g (t := t) (by omega)]
    exact hone
  · intro q hq hdvd
    rw [← hprod] at hdvd
    obtain ⟨f, hf, hqf⟩ := (Prime.dvd_prod_iff hq.prime).mp hdvd
    obtain rfl : q = f := (Nat.prime_dvd_prime_iff_eq hq (hfs f hf)).mp hqf
    have hlt : (p - 1) / q < 2 ^ t := (Nat.div_le_self _ _).trans_lt (by omega)
    rw [ne_eq, natCast_pow_eq_one_iff hp, ← powMod_eq p g hlt]
    exact hne q hf

end CmakeTemplate.Lib
