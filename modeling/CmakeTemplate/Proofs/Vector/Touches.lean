/-
Which calls stay inside the array.

Both directions of the shift move as many slots as there are elements from the index on.  To
the right that is right, as there is a free slot at the end.  To the left that is one too
many: the last one it reads is the slot behind the elements, and a full array has none.  So a
removal from a full array reads behind it, although the vector is right afterwards.

An insertion into an array without slots is the other exception: the growth asks for no bytes,
and where `realloc` returns something all the same the element is written there.  A valid call
stays inside the array exactly when it is neither of the two.  A call that does so is not
changed by what lies outside.
-/
import CmakeTemplate.SlotTouches
import CmakeTemplate.Proofs.Vector.Bounds

namespace CmakeTemplate

open Lib

variable {α : Type} {v v' : VectorT α}

/-- Everything that is touched lies inside the array. -/
def AllInside (ts : List Touch) : Prop := ∀ t ∈ ts, t.Inside

theorem allInside_nil : AllInside [] := by
  intro t ht
  exact absurd ht List.not_mem_nil

theorem allInside_append {ts us : List Touch} :
    AllInside (ts ++ us) ↔ AllInside ts ∧ AllInside us := List.forall_mem_append

theorem allInside_cons {t : Touch} {ts : List Touch} :
    AllInside (t :: ts) ↔ t.Inside ∧ AllInside ts := List.forall_mem_cons

/-- A range is inside when its ends are. -/
theorem allInside_touchRange {first : Int} {count : Nat} :
    AllInside (v.touchRange first count) ↔ count = 0 ∨ 0 ≤ first ∧ first + count ≤ v.capacity := by
  unfold VectorT.touchRange AllInside
  constructor
  · intro h
    by_cases hcount : count = 0
    · exact .inl hcount
    · have hbegin := h (v.touch (first + (0 : Nat)))
        (List.mem_map_of_mem (List.mem_range.mpr (Nat.pos_of_ne_zero hcount)))
      have hend := h (v.touch (first + (count - 1 : Nat)))
        (List.mem_map_of_mem (List.mem_range.mpr (by omega)))
      unfold Touch.Inside VectorT.touch at hbegin hend
      dsimp only at hbegin hend
      right
      omega
  · intro h t ht
    obtain ⟨j, hj, rfl⟩ := List.mem_map.mp ht
    rw [List.mem_range] at hj
    show 0 ≤ first + (j : Int) ∧ first + (j : Int) < v.capacity
    omega

/-- To the right, the shift needs a free slot. -/
theorem shiftTouches_right {index : Int} (h0 : 0 ≤ index) (hle : index ≤ v.size)
    (hroom : v.size < v.capacity) : AllInside (shiftTouches v index .right) := by
  unfold shiftTouches
  rw [if_neg (by omega)]
  dsimp only
  rw [allInside_append, allInside_touchRange, allInside_touchRange]
  omega

/-- To the left, it reads the slot behind the elements. -/
theorem shiftTouches_left {index : Int} (h0 : 0 ≤ index) (hlt : index < v.size)
    (hbounded : v.Bounded) :
    AllInside (shiftTouches v index .left) ↔ v.size ≠ v.capacity := by
  obtain ⟨-, hle⟩ := hbounded
  unfold shiftTouches
  rw [if_neg (by omega)]
  dsimp only
  rw [allInside_append, allInside_touchRange, allInside_touchRange]
  omega

theorem shiftTouches_none : shiftTouches v v.size .left = [] := by
  unfold shiftTouches
  rw [Int.sub_self]
  exact ite_self _

/-! ### The calls

The growth, the shift and the slot of the element, one behind the other.
-/

/-- Behind `growIfFull` there is a free slot. -/
theorem growIfFull_room {realloc : Option (Nat → Option α)} (hbounded : v.Bounded)
    (hpos : v.capacity ≠ 0) (h : growIfFull v realloc = some (.success, v')) :
    v'.size = v.size ∧ v'.size < v'.capacity := by
  obtain ⟨h0, hle⟩ := hbounded
  unfold growIfFull at h
  split at h
  · exact (vectorResize_bounded ⟨h0, hle⟩ (by omega) h).imp_right fun hr => hr.2.2 rfl
  · obtain ⟨-, rfl⟩ := Prod.mk.inj (Option.some.inj h)
    exact ⟨rfl, by omega⟩

theorem insertTouches_inside {data : Option α} {index : Int} {realloc : Option (Nat → Option α)}
    (hbounded : v.Bounded) (hpos : v.capacity ≠ 0) (h0 : 0 ≤ index) (hle : index ≤ v.size) :
    AllInside (insertTouches v data index realloc) := by
  unfold insertTouches
  split
  · exact allInside_nil
  split
  · exact allInside_nil
  split
  · rename_i v' hgrow
    obtain ⟨hsize, hroom⟩ := growIfFull_room hbounded hpos hgrow
    rw [allInside_append, allInside_cons]
    refine ⟨shiftTouches_right h0 (hsize ▸ hle) hroom, ⟨h0, ?_⟩, allInside_nil⟩
    show index < v'.capacity
    omega
  · exact allInside_nil

/-- With no slots, the insertion writes where `realloc` returns something. -/
theorem insertTouches_empty {data : Option α} {realloc : Option (Nat → Option α)}
    (hsize : v.size = 0) (hzero : v.capacity = 0) :
    AllInside (insertTouches v data 0 realloc) ↔ (data.isSome → realloc = none) := by
  -- twice no slots is no `int` overflow
  have hgrow : growIfFull v realloc = vectorResize v realloc := if_pos (hsize.trans hzero.symm)
  have hint : ¬ intMax < v.capacity * 2 := by
    rw [hzero]
    decide
  cases data with
  | none => exact iff_of_true allInside_nil fun hc => by cases hc
  | some d =>
      unfold insertTouches
      rw [if_neg (by simp), if_neg (by omega), hgrow]
      unfold vectorResize
      rw [if_neg hint]
      cases realloc with
      | none => exact iff_of_true allInside_nil fun _ => rfl
      | some fresh =>
          refine iff_of_false (fun hall => ?_) fun hc => by simp at hc
          have hlast := ((allInside_append.mp hall).2 _ List.mem_cons_self).2
          have hlt : (0 : Int) < v.capacity * 2 := hlast
          omega

theorem insertTouches_iff {data : Option α} {index : Int} {realloc : Option (Nat → Option α)}
    (hbounded : v.Bounded) (h0 : 0 ≤ index) (hle : index ≤ v.size) :
    AllInside (insertTouches v data index realloc) ↔
      (v.capacity = 0 → data.isSome → realloc = none) := by
  by_cases hzero : v.capacity = 0
  · have hsize : v.size = 0 := by
      obtain ⟨hnonneg, hroom⟩ := hbounded
      omega
    obtain rfl : index = 0 := by omega
    rw [insertTouches_empty hsize hzero]
    exact ⟨fun h _ => h, fun h => h hzero⟩
  · exact iff_of_true (insertTouches_inside hbounded hzero h0 hle) fun hc => absurd hc hzero

/-- A valid call stays inside the array exactly when it does not remove from a full one, nor
insert into one without slots. -/
theorem touches_inside_iff (hbounded : v.Bounded) {call : ShiftCall α} (hvalid : call.Valid v) :
    AllInside (touches v call) ↔ call.Fits v := by
  cases call with
  | insert data index realloc => exact insertTouches_iff hbounded hvalid.1 hvalid.2
  | append data realloc =>
      have hinsert : AllInside (insertTouches v data v.size realloc) ↔
          (v.capacity = 0 → data.isSome → realloc = none) :=
        insertTouches_iff hbounded hbounded.1 (Int.le_refl v.size)
      simp only [touches]
      split
      · rename_i hnone
        refine iff_of_true allInside_nil fun _ hsome => ?_
        simp [Option.isNone_iff_eq_none.mp hnone] at hsome
      · exact hinsert
  | remove index =>
      obtain ⟨h0, hlt⟩ := hvalid
      have hle := hbounded.2
      simp only [touches]
      rw [if_neg (by omega), allInside_cons, shiftTouches_left h0 hlt hbounded]
      refine and_iff_right ⟨h0, ?_⟩
      show index < v.capacity
      omega
  | pop =>
      have hpos : 0 < v.size := hvalid
      have hle := hbounded.2
      simp only [touches, shiftTouches_none, allInside_cons]
      refine iff_of_true ⟨⟨?_, ?_⟩, allInside_nil⟩ trivial
      · show 0 ≤ v.size - 1
        omega
      · show v.size - 1 < v.capacity
        omega

/-- Two elements in an array of this many slots. -/
def pairIn (capacity : Int) : VectorT Nat :=
  { elements := fun idx => some idx, size := 2, capacity, compareFunc := fun _ _ => .equal }

/-- With a free slot behind the elements, a removal stays inside. -/
theorem touches_inside_remove : AllInside (touches (pairIn 3) (.remove 0)) := by
  have hbounded : (pairIn 3).Bounded := ⟨by decide, by decide⟩
  have hvalid : (ShiftCall.remove 0 : ShiftCall Nat).Valid (pairIn 3) := ⟨by decide, by decide⟩
  refine (touches_inside_iff hbounded hvalid).mpr ?_
  show (2 : Int) ≠ 3
  decide

/-- A removal from a full array reads the slot behind it. -/
theorem full_array_overread :
    ((pairIn 2).Bounded ∧ (ShiftCall.remove 0 : ShiftCall Nat).Valid (pairIn 2)) ∧
      ⟨2, 2⟩ ∈ touches (pairIn 2) (.remove 0) ∧ ¬ AllInside (touches (pairIn 2) (.remove 0)) := by
  have hmem : (⟨2, 2⟩ : Touch) ∈ touches (pairIn 2) (.remove 0) :=
    List.mem_cons_of_mem _ (List.mem_append_left _ (List.mem_map.mpr ⟨1, by decide, rfl⟩))
  refine ⟨⟨⟨by decide, by decide⟩, by decide, by decide⟩, hmem, fun hall => ?_⟩
  exact absurd (hall _ hmem).2 (by decide)

/-! ### What is not touched does not matter

Two runs of a call with different contents outside the array.
-/

theorem slot_congr {idx : Int} (h : (v.touch idx).Inside) (outside outside' : Int → Option α) :
    v.slot outside idx = v.slot outside' idx := by
  have hin : 0 ≤ idx ∧ idx < v.capacity := h
  unfold VectorT.slot
  rw [if_pos hin, if_pos hin]

theorem moveSlots_congr {destination source : Int} {count : Nat}
    (h : AllInside (v.touchRange source count)) (outside outside' : Int → Option α) :
    moveSlots v outside destination source count =
      moveSlots v outside' destination source count := by
  have hsrc : ∀ a, write v.elements destination.toNat count
      (fun j => v.slot outside (source + j)) a =
        write v.elements destination.toNat count (fun j => v.slot outside' (source + j)) a := by
    intro a
    unfold write
    split
    · exact slot_congr (h _ (List.mem_map_of_mem (List.mem_range.mpr (by omega)))) _ _
    · rfl
  unfold moveSlots
  rw [funext hsrc]

theorem vectorShiftElements_congr {index : Int} {direction : Direction}
    (h : AllInside (shiftTouches v index direction)) (outside outside' : Int → Option α) :
    vectorShiftElements v outside index direction =
      vectorShiftElements v outside' index direction := by
  unfold shiftTouches at h
  unfold vectorShiftElements
  split
  · rfl
  · rename_i hin
    rw [if_neg hin] at h
    cases direction with
    | left =>
        dsimp only at h ⊢
        rw [moveSlots_congr (allInside_append.mp h).1 outside outside']
    | right =>
        dsimp only at h ⊢
        rw [moveSlots_congr (allInside_append.mp h).1 outside outside']

theorem vectorInsert_congr {data : Option α} {index : Int} {realloc : Option (Nat → Option α)}
    (h : AllInside (insertTouches v data index realloc)) (outside outside' : Int → Option α) :
    vectorInsert v outside data index realloc = vectorInsert v outside' data index realloc := by
  unfold insertTouches at h
  unfold vectorInsert
  split
  · rfl
  · rename_i hdata
    split
    · rfl
    · rename_i hin
      rw [if_neg hdata, if_neg hin] at h
      cases hgrow : growIfFull v realloc with
      | none => rfl
      | some r =>
          obtain ⟨c, v'⟩ := r
          by_cases hc : c = .success
          · subst hc
            rw [hgrow] at h
            have hshift := (allInside_append.mp h).1
            simp only [Option.bind_eq_bind, Option.bind_some, if_true, vectorShiftElementsRight]
            rw [vectorShiftElements_congr hshift outside outside']
          · simp only [Option.bind_eq_bind, Option.bind_some]
            rw [if_neg hc, if_neg hc]

/-- A call that stays inside the array does the same whatever lies outside. -/
theorem vectorExec_congr {call : ShiftCall α} (h : AllInside (touches v call))
    (outside outside' : Int → Option α) :
    vectorExec v outside call.op = vectorExec v outside' call.op := by
  cases call with
  | insert data index realloc =>
      simp only [ShiftCall.op, vectorExec]
      rw [vectorInsert_congr h outside outside']
  | append data realloc =>
      simp only [ShiftCall.op, vectorExec, vectorAppend]
      split
      · rfl
      · rename_i hdata
        simp only [touches] at h
        rw [if_neg hdata] at h
        rw [vectorInsert_congr h outside outside']
  | remove index =>
      simp only [ShiftCall.op, vectorExec, vectorRemove]
      split
      · rfl
      · rename_i hin
        simp only [touches] at h
        rw [if_neg hin, allInside_cons] at h
        rw [slot_congr h.1 outside outside', vectorShiftElementsLeft,
          vectorShiftElements_congr h.2 outside outside', ← vectorShiftElementsLeft]
  | pop =>
      obtain ⟨hslot, hshift⟩ := allInside_cons.mp h
      simp only [ShiftCall.op, vectorExec, vectorPop]
      rw [slot_congr hslot outside outside', vectorShiftElementsLeft,
        vectorShiftElements_congr hshift outside outside', ← vectorShiftElementsLeft]

end CmakeTemplate
