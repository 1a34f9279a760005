/-
Counting the threads that are in a given place.

The threads are a finite type, and `pc` says where each of them is.  `count pc p` is the
number of threads whose place satisfies `p`: those that wait on a condition variable, those
that are in a critical section, those that have exited.

A step of the system changes the place of one thread, and some steps (a broadcast) change
many.  What is needed of them is how the count moves, so a change of places is compared with
the count before it in three ways: nobody left, so the count has not fallen; one may have
left, so it has fallen by one at most; or nobody left and somebody came, so it has risen.  The
thread that may have left is named, and the others are asked for by an implication, so a step
needs no look at the threads it does not touch.
-/
import Mathlib.Data.Fintype.Card

namespace CmakeTemplate.Lib

variable {T κ : Type} [Fintype T]

/-- The number of threads whose place satisfies `p`. -/
def count (pc : T → κ) (p : κ → Bool) : Nat := (Finset.univ.filter fun u => p (pc u)).card

variable {pc pc' : T → κ} {p : κ → Bool}

theorem count_le (h : ∀ u, p (pc u) → p (pc' u)) : count pc p ≤ count pc' p :=
  Finset.card_le_card fun u hu => by
    simp only [Finset.mem_filter, Finset.mem_univ, true_and] at hu ⊢
    exact h u hu

theorem count_le_succ [DecidableEq T] (t : T) (h : ∀ u, u ≠ t → p (pc u) → p (pc' u)) :
    count pc p ≤ count pc' p + 1 := by
  refine (Finset.card_le_card (t := insert t (Finset.univ.filter fun u => p (pc' u))) ?_).trans
    (Finset.card_insert_le _ _)
  intro u hu
  simp only [Finset.mem_filter, Finset.mem_univ, true_and, Finset.mem_insert] at hu ⊢
  by_cases hut : u = t
  · exact .inl hut
  · exact .inr (h u hut hu)

theorem count_lt (h : ∀ u, p (pc u) → p (pc' u)) (v : T) (hv : p (pc v) = false)
    (hv' : p (pc' v) = true) : count pc p < count pc' p := by
  refine Finset.card_lt_card (Finset.ssubset_iff_of_subset ?_ |>.mpr ⟨v, ?_, ?_⟩)
  · intro u hu
    simp only [Finset.mem_filter, Finset.mem_univ, true_and] at hu ⊢
    exact h u hu
  · simp [hv']
  · simp [hv]

end CmakeTemplate.Lib
