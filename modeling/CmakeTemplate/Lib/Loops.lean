/-
Loops that count, and loops that go along an array.

The body of a loop takes the counter and the state; where it may go wrong it has no result,
and neither has the loop.  Each kind of loop comes with the rule for its invariant: what holds
before the first turn and is kept by every turn holds at the end, with the counter at its last
value.  For a body that may go wrong the rule also says that it does not.

An array is a function from its indices and what has been written since, in this order; it
computes where a chain of updated functions would not, as a read goes back to the last write
only.  A sweep goes along an array and rewrites each slot in place, with something that it
carries from one slot to the next, as a propagation of carries does.  What it leaves in a slot
depends on the slot and on what it carried there.
-/
import Mathlib.Data.Option.Basic
import Mathlib.Logic.Function.Basic

namespace CmakeTemplate.Lib

variable {σ : Type}

/-- `for (i = 0; i < n; ++i)`. -/
def forUp (body : Nat → σ → σ) : Nat → σ → σ
  | 0, s => s
  | n + 1, s => body n (forUp body n s)

/-- `for (i = 0; i < n; ++i)`, with a body that may go wrong. -/
def forUpM (body : Nat → σ → Option σ) : Nat → σ → Option σ
  | 0, s => some s
  | n + 1, s => (forUpM body n s).bind (body n)

/-- `for (i = n - 1; i >= 0; --i)`, with a body that may go wrong. -/
def forDownM (body : Nat → σ → Option σ) : Nat → σ → Option σ
  | 0, s => some s
  | n + 1, s => (body n s).bind (forDownM body n)

section
variable {f : Nat → σ → σ} {g : Nat → σ → Option σ} {n : Nat} {s : σ}

@[simp] theorem forUp_zero : forUp f 0 s = s := rfl

@[simp] theorem forUp_succ : forUp f (n + 1) s = f n (forUp f n s) := rfl

/-- What holds of the first state and is kept by each turn holds of the last one. -/
theorem forUp_invariant {I : Nat → σ → Prop} (hinit : I 0 s)
    (hstep : ∀ i s, i < n → I i s → I (i + 1) (f i s)) : I n (forUp f n s) := by
  induction n with
  | zero => exact hinit
  | succ n ih => exact hstep n _ (Nat.lt_succ_self n) (ih fun i s hi => hstep i s (Nat.lt_succ_of_lt hi))

theorem forUpM_invariant {I : Nat → σ → Prop} (hinit : I 0 s)
    (hstep : ∀ i s, i < n → I i s → ∃ s', g i s = some s' ∧ I (i + 1) s') :
    ∃ s', forUpM g n s = some s' ∧ I n s' := by
  induction n with
  | zero => exact ⟨s, rfl, hinit⟩
  | succ n ih =>
      obtain ⟨t, ht, hinv⟩ := ih fun i s hi => hstep i s (Nat.lt_succ_of_lt hi)
      obtain ⟨s', hs', hinv'⟩ := hstep n t (Nat.lt_succ_self n) hinv
      exact ⟨s', by rw [forUpM, ht, Option.bind_some, hs'], hinv'⟩

/-- The invariant of a loop that counts down speaks of the turns that are left. -/
theorem forDownM_invariant {I : Nat → σ → Prop} (hinit : I n s)
    (hstep : ∀ i s, i < n → I (i + 1) s → ∃ s', g i s = some s' ∧ I i s') :
    ∃ s', forDownM g n s = some s' ∧ I 0 s' := by
  induction n generalizing s with
  | zero => exact ⟨s, rfl, hinit⟩
  | succ n ih =>
      obtain ⟨t, ht, hinv⟩ := hstep n s (Nat.lt_succ_self n) hinit
      obtain ⟨s', hs', hinv'⟩ := ih hinv fun i s hi => hstep i s (Nat.lt_succ_of_lt hi)
      exact ⟨s', by rw [forDownM, ht, Option.bind_some, hs'], hinv'⟩

end

/-! ### Arrays

The writes are data, so two arrays that hold the same may be different terms; nothing below
compares arrays but slot by slot.
-/

inductive Arr (α : Type)
  | of (f : Nat → α)
  | set (a : Arr α) (i : Nat) (v : α)

namespace Arr

variable {α : Type}

def get : Arr α → Nat → α
  | of f, j => f j
  | set a i v, j => if j = i then v else a.get j

instance : CoeFun (Arr α) fun _ => Nat → α := ⟨get⟩

variable {a : Arr α} {f : Nat → α} {i j : Nat} {v : α}

@[simp] theorem set_self : a.set i v i = v := if_pos rfl

@[simp] theorem set_of_ne (h : j ≠ i) : a.set i v j = a j := if_neg h

theorem get_set : (a.set i v).get = Function.update a.get i v := by
  funext j
  rcases eq_or_ne j i with rfl | h
  · rw [set_self, Function.update_self]
  · rw [set_of_ne h, Function.update_of_ne h]

/-- The first `n` slots, computed one after the other. -/
def fill (n : Nat) (f : Nat → α) (a : Arr α) : Arr α := forUp (fun i a => a.set i (f i)) n a

theorem fill_of_lt {n : Nat} {f : Nat → α} (h : i < n) : fill n f a i = f i := by
  induction n with
  | zero => exact absurd h (Nat.not_lt_zero i)
  | succ n ih =>
      rw [fill, forUp_succ]
      rcases Nat.lt_succ_iff_lt_or_eq.mp h with hlt | rfl
      · rw [set_of_ne (Nat.ne_of_lt hlt)]
        exact ih hlt
      · exact set_self

theorem fill_of_le {n : Nat} {f : Nat → α} (h : n ≤ i) : fill n f a i = a i := by
  induction n with
  | zero => rfl
  | succ n ih =>
      have hne : i ≠ n := by omega
      rw [fill, forUp_succ, set_of_ne hne]
      exact ih (by omega)

end Arr

/-! ### Along an array

A slot that the sweep has not come to holds what it held, and one behind it what the sweep
left there.
-/

variable {α υ : Type}

/-- A loop over the first `n` slots: `f` takes the slot's index, what is carried and what the slot
holds, and gives what is carried on and what the slot holds then. -/
def sweep (f : Nat → υ → α → υ × α) (n : Nat) (u : υ) (a : Arr α) : υ × Arr α :=
  forUp (fun i s => let r := f i s.1 (s.2 i); (r.1, s.2.set i r.2)) n (u, a)

section
variable {f : Nat → υ → α → υ × α} {n i : Nat} {u : υ} {a : Arr α}

/-- Slots that the sweep has not come to. -/
theorem sweep_of_le (h : n ≤ i) : (sweep f n u a).2 i = a i := by
  induction n with
  | zero => rfl
  | succ n ih =>
      have hne : i ≠ n := by omega
      rw [sweep, forUp_succ, Arr.set_of_ne hne]
      exact ih (by omega)

theorem sweep_succ_fst : (sweep f (n + 1) u a).1 = (f n (sweep f n u a).1 (a n)).1 := by
  rw [← sweep_of_le (f := f) (u := u) (a := a) (Nat.le_refl n)]
  rfl

theorem sweep_succ_snd :
    (sweep f (n + 1) u a).2 = (sweep f n u a).2.set n (f n (sweep f n u a).1 (a n)).2 := by
  rw [← sweep_of_le (f := f) (u := u) (a := a) (Nat.le_refl n)]
  rfl

/-- A slot holds what the sweep left there when it came by. -/
theorem sweep_of_lt (h : i < n) : (sweep f n u a).2 i = (f i (sweep f i u a).1 (a i)).2 := by
  induction n with
  | zero => exact absurd h (Nat.not_lt_zero i)
  | succ n ih =>
      rw [sweep_succ_snd]
      rcases Nat.lt_succ_iff_lt_or_eq.mp h with hlt | rfl
      · rw [Arr.set_of_ne (Nat.ne_of_lt hlt), ih hlt]
      · rw [Arr.set_self]

end

end CmakeTemplate.Lib
