/-
The vector is a sequence.

`VecRep` says that the first slots hold the sequence and that there is room for it.  What the
shifts do to the slots is said once, in front; each call is then one lemma about them, and the
sequence behind it is compared with the slots position by position.

A removal moves one slot too many, from behind the elements, to the slot that becomes free.
What lies there may be anything, and is in the array or not; it does not become an element, so
the sequence does not depend on it.  A run may find something else in such slots at every
call.  What the calls return, what they free, and the capacity a caller can read are those of
the sequence, on every run of valid calls that stays below `2 ^ 30` slots.
-/
import CmakeTemplate.Elements

namespace CmakeTemplate

open Lib

variable {α : Type} {v : VectorT α} {xs : List α} (outside : Int → Option α)

/-- The vector holds the sequence. -/
structure VecRep (v : VectorT α) (xs : List α) : Prop where
  /-- The size is the length. -/
  size : v.size = xs.length
  /-- There is room for all elements. -/
  room : (xs.length : Int) ≤ v.capacity
  /-- There is a slot. -/
  pos : 1 ≤ v.capacity
  /-- Each element is in its slot. -/
  elements : ∀ i, i < xs.length → v.elements i = xs[i]?

theorem vectorNew_rep (cmp : Option α → Option α → CompRtns) {capacity : Int} (h : 1 ≤ capacity) :
    VecRep (vectorNew cmp capacity) ([] : List α) :=
  ⟨rfl, Int.le_trans (Int.zero_le_ofNat 1) h, h, fun _ hi => absurd hi (Nat.not_lt_zero _)⟩

/-- Slots without an element do not matter. -/
theorem VecRep.withJunk (h : VecRep v xs) (junk : Int → Option α) :
    VecRep (v.withJunk junk) xs := by
  refine ⟨h.size, h.room, h.pos, ?_⟩
  intro i hi
  have hlt : (i : Int) < v.size := by
    rw [h.size]
    exact Int.ofNat_lt.mpr hi
  rw [← h.elements i hi]
  exact if_pos hlt

/-- Read one after the other, the first slots are the sequence. -/
theorem VecRep.holds (h : VecRep v xs) : v.Holds xs := by
  refine ⟨h.size, List.ext_getElem? ?_⟩
  intro i
  by_cases hi : i < xs.length
  · simp [Lib.read, hi, h.elements i hi]
  · simp [Lib.read, hi]

/-- And the other way round, where there is a slot for each of them. -/
theorem VectorT.Holds.rep (h : v.Holds xs) (hpos : 1 ≤ v.size) (hroom : v.size ≤ v.capacity) :
    VecRep v xs := by
  refine ⟨h.size, h.size ▸ hroom, Int.le_trans hpos hroom, ?_⟩
  intro i hi
  have hat : (Lib.read v.elements 0 xs.length)[i]? = (xs.map some)[i]? := by rw [h.elements]
  simpa [Lib.read, hi] using hat

/-- The slot of an element. -/
theorem VecRep.slot (h : VecRep v xs) {i : Nat} (hi : i < xs.length) :
    v.slot outside i = xs[i]? := by
  have hroom := h.room
  rw [VectorT.slot, if_pos ⟨by omega, by omega⟩, Int.toNat_natCast]
  exact h.elements i hi

theorem VecRep.slots (h : VecRep v xs) :
    v.slots outside = xs.map some := by
  refine List.ext_getElem? ?_
  intro i
  rw [VectorT.slots, h.size, Int.toNat_natCast]
  by_cases hi : i < xs.length
  · simp [hi, h.slot outside hi]
  · simp [hi]

/-! ### Growing

The array is doubled, and the elements are where they were.
-/

/-- Resizing leaves the elements, and there is room behind it. -/
theorem VecRep.resize (h : VecRep v xs) (hcap : v.capacity * 2 ≤ intMax)
    (fresh : Nat → Option α) :
    ∃ v', vectorResize v (some fresh) = some (.success, v') ∧ VecRep v' xs ∧
      v'.capacity = v.capacity * 2 ∧ v'.compareFunc = v.compareFunc := by
  have hroom := h.room
  have hpos := h.pos
  refine ⟨{ v with
      elements := fun idx => if (idx : Int) < v.capacity then v.elements idx else fresh idx
      capacity := v.capacity * 2 }, ?_, ⟨h.size, ?_, ?_, ?_⟩, rfl, rfl⟩
  · rw [vectorResize, if_neg (Int.not_lt.mpr hcap)]
  · show (xs.length : Int) ≤ v.capacity * 2
    omega
  · show 1 ≤ v.capacity * 2
    omega
  · intro i hi
    rw [← h.elements i hi]
    exact if_pos (by omega)

/-! ### Shifting

A move of a range by one slot, in either direction.
-/

/-- What shifting to the right leaves, with a free slot at the index. -/
theorem VecRep.shiftRight (h : VecRep v xs) (hlt : (xs.length : Int) < v.capacity) {i : Nat}
    (hi : i ≤ xs.length) :
    ∃ v', vectorShiftElementsRight v outside i = some (.success, v') ∧
      v'.size = xs.length + 1 ∧ v'.capacity = v.capacity ∧ v'.compareFunc = v.compareFunc ∧
      (∀ j, j < i → v'.elements j = xs[j]?) ∧
      ∀ j, i ≤ j → j < xs.length → v'.elements (j + 1) = xs[j]? := by
  have hsize := h.size
  have hcount : (v.size - (i : Int)).toNat = xs.length - i := by omega
  rw [vectorShiftElementsRight, vectorShiftElements, if_neg (by omega)]
  by_cases hzero : xs.length - i = 0
  · refine ⟨{ v with size := v.size + 1 }, ?_, by rw [hsize], rfl, rfl, ?_, ?_⟩
    · simp [moveSlots, hcount, hzero]
    · intro j hj
      exact h.elements j (by omega)
    · intro j hij hj
      omega
  · have hdest : ((i : Int) + 1).toNat = i + 1 := by omega
    refine ⟨{ v with
        elements := write v.elements (i + 1) (xs.length - i) fun j => v.slot outside (i + j)
        size := v.size + 1 }, ?_, by rw [hsize], rfl, rfl, ?_, ?_⟩
    · have hfits : (0 : Int) ≤ i + 1 ∧ (i : Int) + 1 + ((xs.length - i : Nat) : Int) ≤ v.capacity :=
        ⟨by omega, by omega⟩
      simp [moveSlots, hcount, hzero, hfits, hdest]
    · intro j hj
      dsimp only
      rw [write_before (by omega)]
      exact h.elements j (by omega)
    · intro j hij hj
      have hat : j + 1 = i + 1 + (j - i) := by omega
      have hfrom : (i : Int) + ((j - i : Nat) : Int) = (j : Int) := by omega
      dsimp only
      rw [hat, write_at (by omega), hfrom]
      exact h.slot outside hj

/-- What shifting to the left leaves: the element at the index is gone.  The last slot that
is moved need not be one of the array. -/
theorem VecRep.shiftLeft (h : VecRep v xs) {i : Nat} (hi : i < xs.length) :
    ∃ v', vectorShiftElementsLeft v outside i = some (.success, v') ∧
      v'.capacity = v.capacity ∧ v'.compareFunc = v.compareFunc ∧ VecRep v' (xs.eraseIdx i) := by
  have hsize := h.size
  have hroom := h.room
  have hlen := List.length_eraseIdx_of_lt hi
  have hcount : (v.size - (i : Int)).toNat = xs.length - i := by omega
  have hfits : (0 : Int) ≤ i ∧ (i : Int) + ((xs.length - i : Nat) : Int) ≤ v.capacity :=
    ⟨by omega, by omega⟩
  have hsome : ¬ xs.length - i = 0 := by omega
  rw [vectorShiftElementsLeft, vectorShiftElements, if_neg (by omega)]
  refine ⟨{ v with
      elements := write v.elements i (xs.length - i) fun j => v.slot outside (i + 1 + j)
      size := v.size - 1 }, ?_, rfl, rfl, ⟨?_, ?_, h.pos, ?_⟩⟩
  · simp [moveSlots, hcount, hsome, hfits]
  · show v.size - 1 = _
    omega
  · show ((xs.eraseIdx i).length : Int) ≤ v.capacity
    omega
  · intro j hj
    dsimp only
    rw [List.getElem?_eraseIdx]
    by_cases hji : j < i
    · rw [if_pos hji, write_before hji]
      exact h.elements j (by omega)
    · have hat : j = i + (j - i) := by omega
      have hfrom : (i : Int) + 1 + ((j - i : Nat) : Int) = ((j + 1 : Nat) : Int) := by omega
      have hmoved : write v.elements i (xs.length - i) (fun j => v.slot outside (i + 1 + j))
          (i + (j - i)) = v.slot outside (i + 1 + ((j - i : Nat) : Int)) := write_at (by omega)
      rw [if_neg hji]
      rw [← hat, hfrom] at hmoved
      rw [hmoved]
      exact h.slot outside (by omega)

/-! ### The calls

A lemma for each, on a vector that holds a sequence.
-/

/-- Writing the free slot. -/
theorem VecRep.insert (h : VecRep v xs) (hlt : (xs.length : Int) < v.capacity) {i : Nat}
    (hi : i ≤ xs.length) (d : α) :
    ∃ v₁ v', vectorShiftElementsRight v outside i = some (.success, v₁) ∧
      v₁.setSlot i (some d) = some v' ∧ v'.capacity = v.capacity ∧
      v'.compareFunc = v.compareFunc ∧ VecRep v' (xs.insertIdx i d) := by
  obtain ⟨v₁, hshift, hsize, hcap, hcmp, hbefore, hbehind⟩ := h.shiftRight outside hlt hi
  have hlen := List.length_insertIdx_of_le_length (a := d) hi
  have hpos := h.pos
  refine ⟨v₁, { v₁ with elements := Function.update v₁.elements i (some d) }, hshift, ?_, hcap,
    hcmp, ⟨?_, ?_, ?_, ?_⟩⟩
  · rw [VectorT.setSlot, if_pos ⟨by omega, by omega⟩, Int.toNat_natCast]
  · show v₁.size = _
    omega
  · show ((xs.insertIdx i d).length : Int) ≤ v₁.capacity
    omega
  · show 1 ≤ v₁.capacity
    omega
  · intro j hj
    show Function.update v₁.elements i (some d) j = _
    rw [List.getElem?_insertIdx]
    rcases Nat.lt_trichotomy j i with hji | rfl | hji
    · rw [if_pos hji, Function.update_of_ne (Nat.ne_of_lt hji)]
      exact hbefore j hji
    · rw [if_neg (Nat.lt_irrefl j), if_pos rfl, if_pos hi, Function.update_self]
    · rw [if_neg (by omega), if_neg (by omega), Function.update_of_ne (by omega)]
      have hat : j = j - 1 + 1 := by omega
      rw [hat]
      exact hbehind (j - 1) (by omega) (by omega)

/-- `vector_insert` where there is room: nothing is allocated. -/
theorem vectorInsert_room (h : VecRep v xs) (hlt : (xs.length : Int) < v.capacity) {i : Nat}
    (hi : i ≤ xs.length) (d : α) (realloc : Option (Nat → Option α)) :
    ∃ v', vectorInsert v outside (some d) i realloc = some (.success, v') ∧
      v'.capacity = v.capacity ∧ v'.compareFunc = v.compareFunc ∧
      VecRep v' (xs.insertIdx i d) := by
  have hsize := h.size
  obtain ⟨v₂, v₃, hshift, hset, hcap₂, hcmp₂, hrep'⟩ := h.insert outside hlt hi d
  refine ⟨v₃, ?_, hcap₂, hcmp₂, hrep'⟩
  rw [vectorInsert, if_neg (by simp), if_neg (by omega), growIfFull, if_neg (by omega)]
  simp [hshift, hset]

/-- `vector_insert` at a position that there is. -/
theorem vectorInsert_spec (h : VecRep v xs) {i : Nat} (hi : i ≤ xs.length) (d : α)
    (fresh : Nat → Option α) (hcap : (xs.length : Int) = v.capacity → v.capacity * 2 ≤ intMax) :
    ∃ v', vectorInsert v outside (some d) i (some fresh) = some (.success, v') ∧
      v'.capacity = grown xs v.capacity ∧ v'.compareFunc = v.compareFunc ∧
      VecRep v' (xs.insertIdx i d) := by
  have hsize := h.size
  have hroom := h.room
  rw [grown]
  by_cases hfull : (xs.length : Int) = v.capacity
  · rw [if_pos hfull]
    have hpos := h.pos
    obtain ⟨v₁, hresize, hrep, hcap₁, hcmp₁⟩ := h.resize (hcap hfull) fresh
    obtain ⟨v₂, v₃, hshift, hset, hcap₂, hcmp₂, hrep'⟩ :=
      hrep.insert outside (by omega) hi d
    refine ⟨v₃, ?_, hcap₂.trans hcap₁, hcmp₂.trans hcmp₁, hrep'⟩
    rw [vectorInsert, if_neg (by simp), if_neg (by omega), growIfFull, if_pos (by omega)]
    simp [hresize, hshift, hset]
  · rw [if_neg hfull]
    exact vectorInsert_room outside h (by omega) hi d (some fresh)

/-- `vector_append` is an insertion behind the last element. -/
theorem vectorAppend_eq (h : VecRep v xs) (d : α) (realloc : Option (Nat → Option α)) :
    vectorAppend v outside (some d) realloc =
      vectorInsert v outside (some d) xs.length realloc := by
  rw [vectorAppend, if_neg (by simp), h.size]

theorem vectorAppend_room (h : VecRep v xs) (hlt : (xs.length : Int) < v.capacity) (d : α)
    (realloc : Option (Nat → Option α)) :
    ∃ v', vectorAppend v outside (some d) realloc = some (.success, v') ∧
      v'.capacity = v.capacity ∧ v'.compareFunc = v.compareFunc ∧ VecRep v' (xs ++ [d]) := by
  rw [vectorAppend_eq outside h, ← List.insertIdx_length_self]
  exact vectorInsert_room outside h hlt (Nat.le_refl xs.length) d realloc

theorem vectorAppend_spec (h : VecRep v xs) (d : α) (fresh : Nat → Option α)
    (hcap : (xs.length : Int) = v.capacity → v.capacity * 2 ≤ intMax) :
    ∃ v', vectorAppend v outside (some d) (some fresh) = some (.success, v') ∧
      v'.capacity = grown xs v.capacity ∧ v'.compareFunc = v.compareFunc ∧
      VecRep v' (xs ++ [d]) := by
  rw [vectorAppend_eq outside h, ← List.insertIdx_length_self]
  exact vectorInsert_spec outside h (Nat.le_refl xs.length) d fresh hcap

theorem vectorPop_spec (h : VecRep v xs) (hne : xs ≠ []) :
    ∃ v', vectorPop v outside = some (xs.getLast?, v') ∧ v'.capacity = v.capacity ∧
      v'.compareFunc = v.compareFunc ∧ VecRep v' xs.dropLast := by
  have hsize := h.size
  have hroom := h.room
  have hlen : 0 < xs.length := List.length_pos_iff.mpr hne
  have hlast : v.slot outside (v.size - 1) = xs.getLast? := by
    have hat : v.size - 1 = ((xs.length - 1 : Nat) : Int) := by omega
    rw [hat, h.slot outside (by omega), List.getLast?_eq_getElem?]
  refine ⟨{ v with size := v.size - 1 }, ?_, rfl, rfl, ⟨?_, ?_, h.pos, ?_⟩⟩
  · have hin : ¬ v.size < 0 := by omega
    simp [vectorPop, vectorShiftElementsLeft, vectorShiftElements, moveSlots, hin, hlast]
  · show v.size - 1 = _
    rw [List.length_dropLast]
    omega
  · show (xs.dropLast.length : Int) ≤ v.capacity
    rw [List.length_dropLast]
    omega
  · intro i hi
    rw [List.length_dropLast] at hi
    rw [List.getElem?_dropLast, if_pos hi]
    exact h.elements i (by omega)

theorem vectorRemove_spec (h : VecRep v xs) {i : Nat} (hi : i < xs.length) :
    ∃ v', vectorRemove v outside i = some (.success, [xs[i]?], v') ∧ v'.capacity = v.capacity ∧
      v'.compareFunc = v.compareFunc ∧ VecRep v' (xs.eraseIdx i) := by
  have hsize := h.size
  obtain ⟨v', hshift, hcap, hcmp, hrep⟩ := h.shiftLeft outside hi
  refine ⟨v', ?_, hcap, hcmp, hrep⟩
  rw [vectorRemove, if_neg (by omega)]
  simp [hshift, h.slot outside hi]

theorem vectorSetElement_spec (h : VecRep v xs) {i : Nat} (hi : i < xs.length) (d : α) :
    ∃ v', vectorSetElement v (some d) i = some (.success, v') ∧ v'.capacity = v.capacity ∧
      v'.compareFunc = v.compareFunc ∧ VecRep v' (xs.set i d) := by
  have hsize := h.size
  have hroom := h.room
  refine ⟨{ v with elements := Function.update v.elements i (some d) }, ?_, rfl, rfl,
    ⟨?_, ?_, h.pos, ?_⟩⟩
  · rw [vectorSetElement, if_neg (by simp), if_neg (by omega), VectorT.setSlot,
      if_pos ⟨by omega, by omega⟩, Int.toNat_natCast]
    rfl
  · rw [List.length_set]
    exact hsize
  · rw [List.length_set]
    exact hroom
  · intro j hj
    rw [List.length_set] at hj
    dsimp only
    by_cases hji : j = i
    · subst hji
      rw [Function.update_self, List.getElem?_set_self hj]
    · rw [Function.update_of_ne hji, List.getElem?_set_ne (Ne.symm hji)]
      exact h.elements j hj

theorem vectorGetElement_spec (h : VecRep v xs) {i : Nat} (hi : i < xs.length) :
    vectorGetElement v outside i = xs[i]? := by
  have hsize := h.size
  rw [vectorGetElement, if_neg (by omega)]
  exact h.slot outside hi

theorem vectorFind_spec (h : VecRep v xs) (d : α) :
    vectorFindFirstOccurrence v outside (some d) =
      xs.find? fun x => v.compareFunc (some d) (some x) = .equal := by
  rw [vectorFindFirstOccurrence, if_neg (by simp), h.slots outside, List.find?_map]
  show ((xs.find? fun x => v.compareFunc (some d) (some x) = .equal).map some).join = _
  cases xs.find? fun x => v.compareFunc (some d) (some x) = .equal with
  | none => rfl
  | some x => rfl

theorem vectorClear_spec (h : VecRep v xs) :
    vectorClear v outside = (.success, xs.map some, { v with size := 0 }) ∧
      VecRep { v with size := 0 } ([] : List α) := by
  refine ⟨by rw [vectorClear, h.slots outside], ⟨rfl, ?_, h.pos, ?_⟩⟩
  · exact Int.le_trans (Int.natCast_nonneg _) h.room
  · intro i hi
    exact absurd hi (Nat.not_lt_zero _)

/-- A capacity behind the call that is below the bound was an `int` to begin with. -/
theorem double_le_of_grown {capacity : Int} (h : grown xs capacity < 2 ^ 30)
    (hfull : (xs.length : Int) = capacity) : capacity * 2 ≤ intMax := by
  rw [grown, if_pos hfull] at h
  rw [intMax]
  omega

/-- One valid call. -/
theorem vectorExec_refines {op : VecOp α} (h : VecRep v xs) (hvalid : ValidCall xs op)
    (hcap : capacityBehind xs v.capacity op < 2 ^ 30) :
    ∃ ret freed v', vectorExec v outside op = some (ret, freed, v') ∧
      (ret, freed) = ((elemExec v.compareFunc xs op).1, (elemExec v.compareFunc xs op).2.1) ∧
      v'.capacity = capacityBehind xs v.capacity op ∧ v'.compareFunc = v.compareFunc ∧
      VecRep v' (elemExec v.compareFunc xs op).2.2 := by
  cases op with
  | append data realloc =>
      obtain ⟨hdata, hrealloc⟩ := hvalid
      obtain ⟨d, rfl⟩ := Option.isSome_iff_exists.mp hdata
      obtain ⟨fresh, rfl⟩ := Option.isSome_iff_exists.mp hrealloc
      obtain ⟨v', hrun, hrest⟩ := vectorAppend_spec outside h d fresh (double_le_of_grown hcap)
      exact ⟨_, _, v', by rw [vectorExec, hrun]; rfl, rfl, hrest⟩
  | insert data index realloc =>
      obtain ⟨hdata, hrealloc, hnonneg, hle⟩ := hvalid
      obtain ⟨d, rfl⟩ := Option.isSome_iff_exists.mp hdata
      obtain ⟨fresh, rfl⟩ := Option.isSome_iff_exists.mp hrealloc
      obtain ⟨i, rfl⟩ := Int.eq_ofNat_of_zero_le hnonneg
      obtain ⟨v', hrun, hrest⟩ :=
        vectorInsert_spec outside h (Int.ofNat_le.mp hle) d fresh (double_le_of_grown hcap)
      exact ⟨_, _, v', by rw [vectorExec, hrun]; rfl, rfl, hrest⟩
  | pop =>
      obtain ⟨v', hrun, hrest⟩ := vectorPop_spec outside h hvalid
      exact ⟨_, _, v', by rw [vectorExec, hrun]; rfl, rfl, hrest⟩
  | remove index =>
      obtain ⟨hnonneg, hlt⟩ := hvalid
      obtain ⟨i, rfl⟩ := Int.eq_ofNat_of_zero_le hnonneg
      obtain ⟨v', hrun, hrest⟩ := vectorRemove_spec outside h (Int.ofNat_lt.mp hlt)
      exact ⟨_, _, v', by rw [vectorExec, hrun]; rfl, rfl, hrest⟩
  | getElement index =>
      obtain ⟨hnonneg, hlt⟩ := hvalid
      obtain ⟨i, rfl⟩ := Int.eq_ofNat_of_zero_le hnonneg
      refine ⟨_, _, v, rfl, ?_, rfl, rfl, h⟩
      rw [vectorGetElement_spec outside h (Int.ofNat_lt.mp hlt)]
      rfl
  | setElement data index =>
      obtain ⟨hdata, hnonneg, hlt⟩ := hvalid
      obtain ⟨d, rfl⟩ := Option.isSome_iff_exists.mp hdata
      obtain ⟨i, rfl⟩ := Int.eq_ofNat_of_zero_le hnonneg
      obtain ⟨v', hrun, hrest⟩ := vectorSetElement_spec h (Int.ofNat_lt.mp hlt) d
      exact ⟨_, _, v', by rw [vectorExec, hrun]; rfl, rfl, hrest⟩
  | findFirstOccurrence searchData =>
      cases searchData with
      | none => exact ⟨_, _, v, rfl, rfl, rfl, rfl, h⟩
      | some d =>
          refine ⟨_, _, v, rfl, ?_, rfl, rfl, h⟩
          rw [vectorFind_spec outside h d]
          rfl
  | clear =>
      obtain ⟨hrun, hrep⟩ := vectorClear_spec outside h
      exact ⟨_, _, { v with size := 0 }, by rw [vectorExec, hrun]; rfl, rfl, rfl, rfl, hrep⟩

/-! ### Runs

By induction on the calls, from `vector_new` on.
-/

theorem vecRun_refines {cmp : Option α → Option α → CompRtns} :
    ∀ (calls : List (VecCall α)) (v : VectorT α) (xs : List α), VecRep v xs →
      v.compareFunc = cmp → VecFits cmp xs v.capacity calls →
      ∃ v', vecRun v calls = some (v', (elemRun cmp xs calls).2) ∧
        VecRep v' (elemRun cmp xs calls).1 := by
  intro calls
  induction calls with
  | nil =>
      intro v xs h _ _
      exact ⟨v, rfl, h⟩
  | cons call calls ih =>
      intro v xs h hcmp hfits
      obtain ⟨⟨hvalid, hcap⟩, hrest⟩ := hfits
      subst hcmp
      obtain ⟨ret, freed, v₁, hrun, hout, hcap₁, hcmp₁, hrep⟩ :=
        vectorExec_refines call.junk (h.withJunk call.junk) hvalid hcap
      obtain ⟨v₂, hruns, hrep₂⟩ := ih v₁ _ hrep hcmp₁ (hcap₁ ▸ hrest)
      obtain ⟨rfl, rfl⟩ := Prod.mk.inj hout
      refine ⟨v₂, ?_, hrep₂⟩
      simp only [vecRun, hrun, Option.bind_eq_bind, Option.bind_some, hruns]
      rfl

/-- A vector made by `vector_new` answers every run of valid calls the way a sequence does, and
holds that sequence afterwards. -/
theorem vector_refines_sequence (cmp : Option α → Option α → CompRtns) (initialCapacity : Int)
    (calls : List (VecCall α)) (hcap : 1 ≤ initialCapacity)
    (hfits : VecFits cmp [] initialCapacity calls) :
    ∃ v, vecRun (vectorNew cmp initialCapacity) calls = some (v, (elemRun cmp [] calls).2) ∧
      VecRep v (elemRun cmp [] calls).1 :=
  vecRun_refines calls _ [] (vectorNew_rep cmp hcap) rfl hfits

/-- Growth, an insertion in front, and two removals: from a full array, and from one with a free
slot behind a pop. -/
theorem vector_refines_sequence_run :
    ∃ v, vecRun (vectorNew (fun _ _ => .equal) 1)
        [⟨.append (some 5) (some fun _ => none), fun _ => some 9⟩,
          ⟨.insert (some 4) 0 (some fun _ => some 8), fun _ => none⟩,
          ⟨.remove 1, fun _ => some 7⟩, ⟨.append (some 6) (some fun _ => none), fun _ => none⟩,
          ⟨.pop, fun _ => none⟩, ⟨.remove 0, fun _ => some 8⟩]
      = some (v, [(.code .success, []), (.code .success, []), (.code .success, [some 5]),
          (.code .success, []), (.data (some 6), []), (.code .success, [some 4])]) ∧ VecRep v [] :=
  vector_refines_sequence (fun _ _ => .equal) 1
    [⟨.append (some 5) (some fun _ => none), fun _ => some 9⟩,
      ⟨.insert (some 4) 0 (some fun _ => some 8), fun _ => none⟩,
      ⟨.remove 1, fun _ => some 7⟩, ⟨.append (some 6) (some fun _ => none), fun _ => none⟩,
      ⟨.pop, fun _ => none⟩, ⟨.remove 0, fun _ => some 8⟩]
    (by decide) (by simp [VecFits, ValidCall, capacityBehind, grown, elemExec])

end CmakeTemplate
