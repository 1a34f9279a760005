/-
Lists kept in buckets.

A table with separate chaining is a list that was cut up: the elements that fall into the
bucket `i` are a filter of it, in the order they have there.  All the buckets together hold
the list in another order, as every element falls into one bucket and every bucket is met once
(`flatMap_filter_perm`).

What is looked up by a predicate is found in one bucket, if the predicate fits elements of
that bucket alone.  So a search, and the removal of the first element that is found, may be
carried out on the bucket instead of the list.  The lemmas for that say that two predicates
which agree on the elements of a list make no difference to what is erased from it or found in
it; that they agree is a matter of the table, and is left to where it is used.
-/
import Mathlib.Data.List.Perm.Basic
import Mathlib.Data.List.FinRange

namespace CmakeTemplate.Lib

variable {α ι : Type} [DecidableEq ι]

/-- One bucket after the other, every element is met once. -/
theorem flatMap_filter_perm (f : α → ι) {is : List ι} (hnd : is.Nodup) {l : List α}
    (hl : ∀ x ∈ l, f x ∈ is) : (is.flatMap fun i => l.filter fun x => f x = i).Perm l := by
  induction is generalizing l with
  | nil =>
      cases l with
      | nil => exact .refl _
      | cons x l => exact absurd (hl x (by simp)) (by simp)
  | cons i is ih =>
      obtain ⟨hi, hnd⟩ := List.nodup_cons.mp hnd
      have hrest : (is.flatMap fun j => l.filter fun x => f x = j)
          = is.flatMap fun j => (l.filter fun x => !decide (f x = i)).filter fun x => f x = j := by
        refine List.flatMap_congr fun j hj => ?_
        rw [List.filter_filter]
        refine List.filter_congr fun x _ => ?_
        by_cases hx : f x = j
        · have hne : f x ≠ i := fun hc => hi (hc ▸ hx ▸ hj)
          simp [hx, hx ▸ hne]
        · simp [hx]
      rw [List.flatMap_cons, hrest]
      have hmem : ∀ x ∈ l.filter (fun x => !decide (f x = i)), f x ∈ is := by
        intro x hx
        obtain ⟨hxl, hne⟩ := List.mem_filter.mp hx
        exact (List.mem_cons.mp (hl x hxl)).resolve_left (by simpa using hne)
      exact ((ih hnd hmem).append_left _).trans (List.filter_append_perm _ l)

theorem eraseP_congr {p q : α → Bool} {l : List α} (h : ∀ x ∈ l, p x = q x) :
    l.eraseP p = l.eraseP q := by
  induction l with
  | nil => rfl
  | cons x l ih =>
      rw [List.eraseP_cons, List.eraseP_cons, h x (by simp), ih fun y hy => h y (by simp [hy])]

theorem any_congr_mem {p q : α → Bool} {l : List α} (h : ∀ x ∈ l, p x = q x) : l.any p = l.any q := by
  rw [Bool.eq_iff_iff, List.any_eq_true, List.any_eq_true]
  exact exists_congr fun x => and_congr_right fun hx => by rw [h x hx]

end CmakeTemplate.Lib
