/-
Finding all occurrences is filtering.

The result is made with as many slots as the vector has elements, and behind `idx` turns of
the loop it holds at most `idx` of them.  So there is always room for one more, nothing is
reallocated, and the branch that deletes the vector is not taken.  The loop appends each
element that the comparator finds EQUAL to the searched datum, in the order of the vector.

So what is returned is a new vector of the matching elements, or NULL where there are none,
and the vector that was searched is as it was.  That is so for every vector that holds a
sequence, every comparator and every datum, whatever lies in the slots without an element.
-/
import CmakeTemplate.Proofs.Vector.Refines
import CmakeTemplate.VectorBlocks

namespace CmakeTemplate

open Lib

variable {α : Type} {v r : VectorT α} {xs : List α}

/-- The result behind some turns of the loop. -/
structure Collected (v : VectorT α) (found : List α) (r : VectorT α) : Prop where
  /-- The result holds what was found. -/
  rep : VecRep r found
  /-- It has as many slots as the vector has elements. -/
  capacity : r.capacity = v.size
  /-- It has the comparator of the vector. -/
  compareFunc : r.compareFunc = v.compareFunc

/-- With room for it, an element is appended and nothing is allocated. -/
theorem Collected.append {found : List α} (h : Collected v found r)
    (hlt : (found.length : Int) < v.size) (behind : Int → Option α) (x : α)
    (realloc : Option (Nat → Option α)) :
    ∃ r', vectorAppend r behind (some x) realloc = some (.success, r') ∧
      r.resizesFor (some x) = false ∧ Collected v (found ++ [x]) r' := by
  have hcap := h.capacity
  have hsize := h.rep.size
  obtain ⟨r', hrun, hcap', hcmp', hrep'⟩ :=
    vectorAppend_room behind h.rep (by omega) x realloc
  refine ⟨r', hrun, ?_, hrep', hcap'.trans hcap, hcmp'.trans h.compareFunc⟩
  rw [VectorT.resizesFor, decide_eq_false (by omega), Bool.and_false]

/-- The loop over the elements that are left, behind those that are done. -/
theorem occurrencesLoop_spec (hv : VecRep v xs) (outside behind : Int → Option α)
    (d : α) (realloc : Nat → Option (Nat → Option α)) :
    ∀ (rest : List α) (done : List α) (r : VectorT α), xs = done ++ rest →
      Collected v (v.matching d done) r →
      ∃ r', occurrencesLoop v outside behind (some d) realloc rest.length done.length r false =
          some (.success, r', false) ∧ Collected v (v.matching d xs) r' := by
  intro rest
  induction rest with
  | nil =>
      intro done r hxs h
      rw [List.append_nil] at hxs
      subst hxs
      exact ⟨r, rfl, h⟩
  | cons x rest ih =>
      intro done r hxs h
      have hsize := hv.size
      have hlen := congrArg List.length hxs
      rw [List.length_append, List.length_cons] at hlen
      have hslot : v.slot outside done.length = some x := by
        rw [hv.slot outside (by omega)]
        simp [hxs]
      have hnext : xs = (done ++ [x]) ++ rest := by
        rw [hxs, List.append_assoc, List.singleton_append]
      have hstep := ih (done ++ [x])
      rw [List.length_append, List.length_singleton] at hstep
      rw [List.length_cons, occurrencesLoop]
      simp only [hslot]
      by_cases hmatch : v.compareFunc (some d) (some x) = .equal
      · have hfound : v.matching d (done ++ [x]) = v.matching d done ++ [x] := by
          simp [VectorT.matching, hmatch]
        -- at most as many were found as were looked at
        have hle : (v.matching d done).length ≤ done.length := List.length_filter_le _ _
        obtain ⟨r₁, hrun, hunresized, h₁⟩ := h.append (by omega) behind x (realloc done.length)
        obtain ⟨r', hrest, h'⟩ := hstep r₁ hnext (hfound ▸ h₁)
        refine ⟨r', ?_, h'⟩
        rw [if_pos hmatch]
        simp [hrun, hunresized, hrest]
      · have hfound : v.matching d (done ++ [x]) = v.matching d done := by
          simp [VectorT.matching, hmatch]
        obtain ⟨r', hrest, h'⟩ := hstep r hnext (hfound.symm ▸ h)
        refine ⟨r', ?_, h'⟩
        rw [if_neg hmatch]
        exact hrest

/-- `vector_find_all_occurrences` filters the elements, and leaves the vector it is given. -/
theorem vectorFindAllOccurrences_filters (hv : v.Holds xs) (hpos : 1 ≤ v.size)
    (hroom : v.size ≤ v.capacity) (outside behind : Int → Option α) (d : α)
    (realloc : Nat → Option (Nat → Option α)) :
    ∃ out, vectorFindAllOccurrences v outside behind (some d) true realloc = some out ∧
      FiltersInto v (v.matching d xs) out := by
  have hsize := hv.size
  have hnew : Collected v (v.matching d []) (vectorNew v.compareFunc v.size) :=
    ⟨vectorNew_rep v.compareFunc hpos, rfl, rfl⟩
  obtain ⟨r, hloop, hr⟩ :=
    occurrencesLoop_spec (hv.rep hpos hroom) outside behind d realloc xs [] _ rfl hnew
  have hrsize := hr.rep.size
  rw [vectorFindAllOccurrences, if_neg (by simp), if_neg (by omega), if_neg (by simp), hsize,
    Int.toNat_natCast, ← hsize]
  rw [List.length_nil] at hloop
  simp only [hloop, Option.bind_eq_bind, Option.bind_some]
  rw [if_neg (by simp)]
  by_cases hnone : v.matching d xs = []
  · have hempty : r.size = 0 := by
      rw [hrsize, hnone]
      rfl
    refine ⟨_, if_pos hempty, rfl, ?_, rfl, ?_⟩
    · simp [vectorDelete, vectorClear, VectorT.slots, hempty]
    · rw [if_pos hnone]
  · have hsome : r.size ≠ 0 := by
      have hlen : 0 < (v.matching d xs).length := List.length_pos_iff.mpr hnone
      omega
    refine ⟨_, if_neg hsome, rfl, rfl, rfl, ?_⟩
    rw [if_neg hnone]
    exact ⟨r, rfl, hr.rep.holds, hr.capacity, hr.compareFunc⟩

/-- Three elements, compared as numbers. -/
def threeIn (xs : List Nat) : VectorT Nat where
  elements idx := xs[idx]?
  size := xs.length
  capacity := xs.length
  compareFunc a b := if a = b then .equal else .notEqual

/-- Two of the elements of a full vector. -/
theorem vectorFindAllOccurrences_two :
    ∃ out, vectorFindAllOccurrences (threeIn [7, 8, 7]) (fun _ => none) (fun _ => none) (some 7)
        true (fun _ => none) = some out ∧ FiltersInto (threeIn [7, 8, 7]) [7, 7] out := by
  have hv : (threeIn [7, 8, 7]).Holds [7, 8, 7] := ⟨rfl, rfl⟩
  exact vectorFindAllOccurrences_filters hv (by decide) (by decide) (fun _ => none)
    (fun _ => none) 7 (fun _ => none)

end CmakeTemplate
