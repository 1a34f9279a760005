/-
Polynomials by their coefficients, the first one the leading one.

A string hash that multiplies by a constant and adds a character is the value of a polynomial
whose coefficients are the characters, in the order of the string.  Horner's rule computes it
with one coefficient at a time, and that is how a program does it.

Reducing what it has so far modulo a number at every step keeps it small and only reduces the
result: the steps modulo `m` give the value of the polynomial modulo `m`.  The intermediate
results stay below `m`, and so every product and sum on the way is bounded by what one step
can make of a number below `m`.  That is what decides whether a machine word overflows on the
way, so the bound is stated for the loop at every place, not for its result alone.
-/
import Mathlib.Algebra.BigOperators.Fin
import Mathlib.Tactic.Ring

namespace CmakeTemplate.Lib

/-- The polynomial with the coefficients `cs` at `x`. -/
def polynomial (x : Nat) (cs : List Nat) : Nat :=
  ∑ i : Fin cs.length, cs[i] * x ^ (cs.length - 1 - i)

@[simp] theorem polynomial_nil (x : Nat) : polynomial x [] = 0 := by
  simp [polynomial]

theorem polynomial_cons (x c : Nat) (cs : List Nat) :
    polynomial x (c :: cs) = c * x ^ cs.length + polynomial x cs := by
  have hsum := Fin.sum_univ_succ fun i : Fin (c :: cs).length =>
    (c :: cs)[i] * x ^ ((c :: cs).length - 1 - i)
  refine hsum.trans ?_
  unfold polynomial
  congr 1
  refine Finset.sum_congr rfl fun i _ => ?_
  have hexp : (c :: cs).length - 1 - i.succ = cs.length - 1 - i := by
    rw [List.length_cons, Fin.val_succ]
    omega
  rw [hexp]
  rfl

/-- The same sum over the list that the coefficients come from. -/
theorem polynomial_map {β : Type} (f : β → Nat) (x : Nat) (bs : List β) :
    polynomial x (bs.map f) = ∑ i : Fin bs.length, f bs[i] * x ^ (bs.length - 1 - i) := by
  unfold polynomial
  refine Fintype.sum_equiv (finCongr (List.length_map f)) _ _ fun i => ?_
  simp

/-- One step of Horner's rule modulo `m`. -/
def hornerStep (m x value c : Nat) : Nat := (value * x + c) % m

theorem hornerStep_lt {m : Nat} (hm : 0 < m) (x value c : Nat) : hornerStep m x value c < m :=
  Nat.mod_lt _ hm

theorem foldl_hornerStep_lt {m : Nat} (x : Nat) (cs : List Nat) {value : Nat} (hvalue : value < m) :
    cs.foldl (hornerStep m x) value < m := by
  induction cs generalizing value with
  | nil => exact hvalue
  | cons c cs ih => exact ih (hornerStep_lt (Nat.zero_lt_of_lt hvalue) x value c)

/-- The rest of the coefficients is read behind a value as if it were their leading part. -/
theorem foldl_hornerStep_mod (m x : Nat) (cs : List Nat) (value : Nat) :
    cs.foldl (hornerStep m x) value % m = (value * x ^ cs.length + polynomial x cs) % m := by
  induction cs generalizing value with
  | nil => simp
  | cons c cs ih =>
      have hsplit : value * x ^ (c :: cs).length + polynomial x (c :: cs)
          = (value * x + c) * x ^ cs.length + polynomial x cs := by
        rw [polynomial_cons, List.length_cons, pow_succ]
        ring
      rw [List.foldl_cons, ih, hornerStep, hsplit]
      rw [Nat.add_mod, Nat.mod_mul_mod, ← Nat.add_mod]

/-- Horner's rule modulo `m` gives the value of the polynomial modulo `m`. -/
theorem foldl_hornerStep {m : Nat} (hm : 0 < m) (x : Nat) (cs : List Nat) :
    cs.foldl (hornerStep m x) 0 = polynomial x cs % m := by
  have h := foldl_hornerStep_mod m x cs 0
  rw [Nat.mod_eq_of_lt (foldl_hornerStep_lt x cs hm)] at h
  rw [h, Nat.zero_mul, Nat.zero_add]

end CmakeTemplate.Lib
