/-
Which calls out of bounds a vector survives.

A call with an index that there is no element for, or a pop of an empty vector, should fail
and leave the vector as it is.  The bounds checks compare the index with the size and let the
size itself pass: `vector_get_element` reads the slot there, `vector_set_element` writes it
and `vector_remove` removes what is not there.  `vector_pop` has no check at all, and takes
the size to -1.

A shift inside the bounds changes the size by one, and a shift to the right is made only where
there is room.  So only a removal with nothing to remove takes the size out of its bounds, and
on a run of checked calls it stays there.  On such a run a call is refused if and only if it
is checked.
-/
import CmakeTemplate.Vector

namespace CmakeTemplate

open Lib

variable {α : Type} {v v' : VectorT α} {outside : Int → Option α}

/-! ### What one call does to the size

The size is written behind a shift, and a shift checks where it shifts.
-/

theorem moveSlots_size {destination source : Int} {count : Nat}
    (h : moveSlots v outside destination source count = some v') :
    v'.size = v.size ∧ v'.capacity = v.capacity := by
  rw [moveSlots] at h
  split at h
  · rw [← Option.some.inj h]
    exact ⟨rfl, rfl⟩
  split at h
  · rw [← Option.some.inj h]
    exact ⟨rfl, rfl⟩
  · cases h

/-- A shift outside the bounds fails, and one inside them leaves the size. -/
theorem vectorShiftElements_size {index : Int} {direction : Direction} {c : ExitCode}
    (h : vectorShiftElements v outside index direction = some (c, v')) :
    v'.size = v.size ∧ v'.capacity = v.capacity ∧ (c = .success → 0 ≤ index ∧ index ≤ v.size) := by
  rw [vectorShiftElements] at h
  split at h
  · obtain ⟨rfl, rfl⟩ := Prod.mk.inj (Option.some.inj h)
    exact ⟨rfl, rfl, fun hc => by cases hc⟩
  · rename_i hin
    cases direction <;>
    · obtain ⟨v₁, hmove, hret⟩ := Option.bind_eq_some_iff.mp h
      obtain ⟨rfl, rfl⟩ := Prod.mk.inj (Option.some.inj hret)
      obtain ⟨hsize, hcap⟩ := moveSlots_size hmove
      exact ⟨hsize, hcap, fun _ => by omega⟩

/-- The size is changed behind a shift that has succeeded. -/
theorem shift_size {index : Int} {direction : Direction} {f : Int → Int} {c : ExitCode}
    (h : ((vectorShiftElements v outside index direction).bind fun r =>
      if r.1 = .success then some (.success, { r.2 with size := f r.2.size }) else some r) =
      some (c, v')) :
    v'.capacity = v.capacity ∧ v'.size = if c = .success then f v.size else v.size := by
  obtain ⟨⟨c₁, v₁⟩, hshift, hret⟩ := Option.bind_eq_some_iff.mp h
  obtain ⟨hsize, hcap, -⟩ := vectorShiftElements_size hshift
  dsimp only at hret
  split at hret
  · obtain ⟨rfl, rfl⟩ := Prod.mk.inj (Option.some.inj hret)
    rw [if_pos rfl]
    exact ⟨hcap, congrArg f hsize⟩
  · rename_i hne
    obtain ⟨rfl, rfl⟩ := Prod.mk.inj (Option.some.inj hret)
    rw [if_neg hne]
    exact ⟨hcap, hsize⟩

theorem vectorShiftElementsRight_size {index : Int} {c : ExitCode}
    (h : vectorShiftElementsRight v outside index = some (c, v')) :
    v'.capacity = v.capacity ∧ v'.size = if c = .success then v.size + 1 else v.size :=
  shift_size (f := fun n => n + 1) h

theorem vectorShiftElementsLeft_size {index : Int} {c : ExitCode}
    (h : vectorShiftElementsLeft v outside index = some (c, v')) :
    v'.capacity = v.capacity ∧ v'.size = if c = .success then v.size - 1 else v.size :=
  shift_size (f := fun n => n - 1) h

theorem setSlot_size {idx : Int} {data : Option α} (h : v.setSlot idx data = some v') :
    v'.size = v.size ∧ v'.capacity = v.capacity := by
  rw [VectorT.setSlot] at h
  split at h
  · rw [← Option.some.inj h]
    exact ⟨rfl, rfl⟩
  · cases h

/-- Resizing keeps the bounds, and leaves room where it succeeds. -/
theorem vectorResize_bounded {realloc : Option (Nat → Option α)} {c : ExitCode}
    (h : v.Bounded) (hpos : 1 ≤ v.capacity) (hr : vectorResize v realloc = some (c, v')) :
    v'.size = v.size ∧ 1 ≤ v'.capacity ∧ v.capacity ≤ v'.capacity ∧
      (c = .success → v'.size < v'.capacity) := by
  obtain ⟨-, hroom⟩ := h
  unfold vectorResize at hr
  split at hr
  · cases hr
  split at hr
  · obtain ⟨rfl, rfl⟩ := Prod.mk.inj (Option.some.inj hr)
    exact ⟨rfl, hpos, Int.le_refl _, fun hc => by cases hc⟩
  · obtain ⟨rfl, rfl⟩ := Prod.mk.inj (Option.some.inj hr)
    refine ⟨rfl, ?_, ?_, ?_⟩
    · show 1 ≤ v.capacity * 2
      omega
    · show v.capacity ≤ v.capacity * 2
      omega
    · intro _
      show v.size < v.capacity * 2
      omega

/-- A state from which the size has not left its bounds. -/
structure Sized (v : VectorT α) : Prop where
  /-- The size is within its bounds. -/
  bounded : v.Bounded
  /-- There is a slot. -/
  pos : 1 ≤ v.capacity

theorem vectorInsert_sized {data : Option α} {index : Int} {realloc : Option (Nat → Option α)}
    {c : ExitCode} (h : Sized v)
    (hr : vectorInsert v outside data index realloc = some (c, v')) : Sized v' := by
  obtain ⟨hbounded, hpos⟩ := h
  rw [vectorInsert] at hr
  split at hr
  · obtain ⟨rfl, rfl⟩ := Prod.mk.inj (Option.some.inj hr)
    exact ⟨hbounded, hpos⟩
  split at hr
  · obtain ⟨rfl, rfl⟩ := Prod.mk.inj (Option.some.inj hr)
    exact ⟨hbounded, hpos⟩
  obtain ⟨⟨c₁, v₁⟩, hgrow, hr⟩ := Option.bind_eq_some_iff.mp hr
  -- behind the growth there is room, or the call has failed
  have hroom : v₁.size = v.size ∧ 1 ≤ v₁.capacity ∧ v.capacity ≤ v₁.capacity ∧
      (c₁ = .success → v₁.size < v₁.capacity) := by
    rw [growIfFull] at hgrow
    split at hgrow
    · exact vectorResize_bounded hbounded hpos hgrow
    · rename_i hne
      obtain ⟨rfl, rfl⟩ := Prod.mk.inj (Option.some.inj hgrow)
      obtain ⟨-, hle⟩ := hbounded
      exact ⟨rfl, hpos, Int.le_refl _, fun _ => by omega⟩
  obtain ⟨hsize₁, hpos₁, hcap₁, hlt⟩ := hroom
  obtain ⟨hnonneg, hle⟩ := hbounded
  dsimp only at hr
  split at hr
  · rename_i hok
    obtain ⟨⟨c₂, v₂⟩, hshift, hr⟩ := Option.bind_eq_some_iff.mp hr
    obtain ⟨hcap₂, hsize₂⟩ := vectorShiftElementsRight_size hshift
    have hfree := hlt hok
    dsimp only at hr
    split at hr
    · rename_i hok₂
      obtain ⟨v₃, hset, hr⟩ := Option.bind_eq_some_iff.mp hr
      obtain ⟨hsize₃, hcap₃⟩ := setSlot_size hset
      obtain ⟨rfl, rfl⟩ := Prod.mk.inj (Option.some.inj hr)
      rw [if_pos hok₂] at hsize₂
      exact ⟨⟨by omega, by omega⟩, by omega⟩
    · rename_i hne₂
      obtain ⟨rfl, rfl⟩ := Prod.mk.inj (Option.some.inj hr)
      rw [if_neg hne₂] at hsize₂
      exact ⟨⟨by omega, by omega⟩, by omega⟩
  · obtain ⟨rfl, rfl⟩ := Prod.mk.inj (Option.some.inj hr)
    exact ⟨⟨by omega, by omega⟩, hpos₁⟩

/-- A shift to the left where there is an element. -/
theorem Sized.shrink (h : Sized v) (hsome : 0 < v.size) {index : Int} {c : ExitCode}
    (hr : vectorShiftElementsLeft v outside index = some (c, v')) : Sized v' := by
  obtain ⟨⟨hnonneg, hle⟩, hpos⟩ := h
  obtain ⟨hcap, hsize⟩ := vectorShiftElementsLeft_size hr
  split at hsize <;> exact ⟨⟨by omega, by omega⟩, by omega⟩

/-- One call that is checked keeps the size in its bounds. -/
theorem vectorExec_sized {op : VecOp α} {out : VecOutcome α (VectorT α)} (h : Sized v)
    (hc : Checked v (op, outside)) (hr : vectorExec v outside op = some out) : Sized out.2.2 := by
  obtain ⟨hnonneg, hle⟩ := h.bounded
  cases op with
  | append data realloc =>
      obtain ⟨⟨c, v₁⟩, happend, rfl⟩ := Option.map_eq_some_iff.mp hr
      rw [vectorAppend] at happend
      split at happend
      · obtain ⟨rfl, rfl⟩ := Prod.mk.inj (Option.some.inj happend)
        exact h
      · exact vectorInsert_sized h happend
  | insert data index realloc =>
      obtain ⟨⟨c, v₁⟩, hinsert, rfl⟩ := Option.map_eq_some_iff.mp hr
      exact vectorInsert_sized h hinsert
  | pop =>
      obtain ⟨⟨p, v₁⟩, hpop, rfl⟩ := Option.map_eq_some_iff.mp hr
      obtain ⟨⟨c, v₂⟩, hshift, hret⟩ := Option.bind_eq_some_iff.mp hpop
      have hsome : 0 < v.size := by
        have : v.size ≠ 0 := hc
        omega
      have hsized := h.shrink hsome hshift
      dsimp only at hret
      split at hret <;> obtain ⟨rfl, rfl⟩ := Prod.mk.inj (Option.some.inj hret) <;> exact hsized
  | remove index =>
      obtain ⟨⟨c, freed, v₁⟩, hremove, rfl⟩ := Option.map_eq_some_iff.mp hr
      rw [vectorRemove] at hremove
      split at hremove
      · obtain ⟨rfl, hrest⟩ := Prod.mk.inj (Option.some.inj hremove)
        obtain ⟨rfl, rfl⟩ := Prod.mk.inj hrest
        exact h
      · rename_i hin
        obtain ⟨⟨c, v₂⟩, hshift, hret⟩ := Option.bind_eq_some_iff.mp hremove
        have hsome : 0 < v.size := by
          have : index ≠ v.size := hc
          omega
        have hsized := h.shrink hsome hshift
        dsimp only at hret
        split at hret <;> obtain ⟨rfl, hrest⟩ := Prod.mk.inj (Option.some.inj hret) <;>
          obtain ⟨rfl, rfl⟩ := Prod.mk.inj hrest <;> exact hsized
  | getElement index =>
      rw [← Option.some.inj hr]
      exact h
  | setElement data index =>
      obtain ⟨⟨c, v₁⟩, hset, rfl⟩ := Option.map_eq_some_iff.mp hr
      rw [vectorSetElement] at hset
      split at hset
      · obtain ⟨rfl, rfl⟩ := Prod.mk.inj (Option.some.inj hset)
        exact h
      split at hset
      · obtain ⟨rfl, rfl⟩ := Prod.mk.inj (Option.some.inj hset)
        exact h
      obtain ⟨v₂, hslot, hret⟩ := Option.bind_eq_some_iff.mp hset
      obtain ⟨rfl, rfl⟩ := Prod.mk.inj (Option.some.inj hret)
      obtain ⟨hsize, hcap⟩ := setSlot_size hslot
      have hpos := h.pos
      dsimp only
      exact ⟨⟨by omega, by omega⟩, by omega⟩
  | findFirstOccurrence searchData =>
      rw [← Option.some.inj hr]
      exact h
  | clear =>
      rw [← Option.some.inj hr]
      exact ⟨⟨Int.le_refl _, Int.le_trans hnonneg hle⟩, h.pos⟩

/-! ### What is refused

Each function by its own check.
-/

theorem not_in_of_out {v : VectorT α} {index : Int} (h : ¬ (0 ≤ index ∧ index < v.size))
    (hne : index ≠ v.size) : 0 > index ∨ index > v.size := by
  omega

/-- `vector_get_element` lets the size pass for an index, and reads the slot there. -/
theorem getElement_refuses_iff {index : Int} (h : Sized v) :
    Refuses v (.getElement index, outside) ↔ Checked v (.getElement index, outside) := by
  obtain ⟨hnonneg, hle⟩ := h.bounded
  refine ⟨?_, ?_⟩
  · intro hr hindex
    subst hindex
    have hout : OutOfBounds v (.getElement v.size) := fun hin => Int.lt_irrefl _ hin.2
    have hrun := Option.some.inj (hr hout)
    have hdata : vectorGetElement v outside v.size = none := VecRet.data.inj (Prod.mk.inj hrun).1
    rwa [vectorGetElement, if_neg (by omega)] at hdata
  · intro hc hout
    have hnone : vectorGetElement v outside index = none := by
      rw [vectorGetElement]
      split
      · rfl
      · exact hc (by have : ¬ (0 ≤ index ∧ index < v.size) := hout; omega)
    show some (VecRet.data (vectorGetElement v outside index), [], v) = _
    rw [hnone]
    rfl

/-- `vector_set_element` lets the size pass for an index, and writes the slot there. -/
theorem setElement_refuses_iff {data : Option α} {index : Int} (h : Sized v) :
    Refuses v (.setElement data index, outside) ↔ Checked v (.setElement data index, outside) := by
  obtain ⟨hnonneg, hle⟩ := h.bounded
  refine ⟨?_, ?_⟩
  · intro hr hindex
    subst hindex
    have hout : OutOfBounds v (.setElement data v.size) := fun hin => Int.lt_irrefl _ hin.2
    obtain ⟨⟨c, v₁⟩, hset, hret⟩ := Option.map_eq_some_iff.mp (hr hout)
    have hc : c = .failure := VecRet.code.inj (Prod.mk.inj hret).1
    by_contra hdata
    rw [vectorSetElement, if_neg (by simpa using hdata), if_neg (by omega)] at hset
    obtain ⟨v₂, -, hret⟩ := Option.bind_eq_some_iff.mp hset
    have hok : c = .success := (Prod.mk.inj (Option.some.inj hret)).1.symm
    rw [hc] at hok
    cases hok
  · intro hc hout
    have hfail : vectorSetElement v data index = some (.failure, v) := by
      rw [vectorSetElement]
      split
      · rfl
      · rename_i hdata
        refine if_pos (not_in_of_out hout fun hindex => hdata ?_)
        rw [hc hindex]
        rfl
    show (vectorSetElement v data index).map _ = _
    rw [hfail]
    rfl

/-- `vector_remove` lets the size pass for an index, and removes what is not there. -/
theorem remove_refuses_iff {index : Int} (h : Sized v) :
    Refuses v (.remove index, outside) ↔ Checked v (.remove index, outside) := by
  obtain ⟨hnonneg, hle⟩ := h.bounded
  refine ⟨?_, ?_⟩
  · intro hr hindex
    subst hindex
    have hout : OutOfBounds v (.remove v.size) := fun hin => Int.lt_irrefl _ hin.2
    have hrun := hr hout
    rw [vectorExec, vectorRemove, if_neg (by omega), vectorShiftElementsLeft, vectorShiftElements,
      if_neg (by omega)] at hrun
    simp [moveSlots, failureRet] at hrun
  · intro hne hout
    have hfail : vectorRemove v outside index = some (.failure, [], v) := by
      rw [vectorRemove]
      exact if_pos (not_in_of_out hout hne)
    show (vectorRemove v outside index).map _ = _
    rw [hfail]
    rfl

/-- `vector_pop` has no check at all. -/
theorem pop_refuses_iff : Refuses v (.pop, outside) ↔ Checked v (.pop, outside) := by
  refine ⟨?_, ?_⟩
  · intro hr hzero
    obtain ⟨⟨p, v₁⟩, hpop, hret⟩ := Option.map_eq_some_iff.mp (hr hzero)
    have hsame : v₁ = v := (Prod.mk.inj (Prod.mk.inj hret).2).2
    rw [vectorPop, vectorShiftElementsLeft, vectorShiftElements, if_neg (by omega)] at hpop
    simp only [Int.sub_self, Int.toNat_zero, moveSlots, if_true, Option.bind_eq_bind,
      Option.bind_some, Option.some.injEq, Prod.mk.injEq] at hpop
    have hsize := congrArg VectorT.size hpop.2
    rw [hsame] at hsize
    have : v.size - 1 = v.size := hsize
    omega
  · intro hne hzero
    exact absurd hzero hne

theorem insert_refuses {data : Option α} {index : Int} {realloc : Option (Nat → Option α)} :
    Refuses v (.insert data index realloc, outside) := by
  intro hout
  have hin : 0 > index ∨ index > v.size := by
    have : ¬ (0 ≤ index ∧ index ≤ v.size) := hout
    omega
  have hfail : vectorInsert v outside data index realloc = some (.failure, v) := by
    rw [vectorInsert, if_pos hin, ite_self]
  show (vectorInsert v outside data index realloc).map _ = _
  rw [hfail]
  rfl

/-- A call out of bounds is refused if and only if the checks of its function cover it. -/
theorem refuses_iff {call : VecOp α × (Int → Option α)} (h : Sized v) :
    Refuses v call ↔ Checked v call := by
  obtain ⟨op, outside⟩ := call
  cases op with
  | append data realloc => exact iff_of_true (fun hout => hout.elim) trivial
  | insert data index realloc => exact iff_of_true insert_refuses trivial
  | pop => exact pop_refuses_iff
  | remove index => exact remove_refuses_iff h
  | getElement index => exact getElement_refuses_iff h
  | setElement data index => exact setElement_refuses_iff h
  | findFirstOccurrence searchData => exact iff_of_true (fun hout => hout.elim) trivial
  | clear => exact iff_of_true (fun hout => hout.elim) trivial

/-! ### Runs

The size stays in its bounds as long as every call is checked.
-/

theorem vectorSystem_sized {cmp : Option α → Option α → CompRtns} {initialCapacity : Int}
    (hcap : 1 ≤ initialCapacity) (h : (vectorSystem cmp initialCapacity).ReachIf Checked v) :
    Sized v := by
  refine h.invariant ?_ ?_
  · intro v hv
    rw [hv]
    exact ⟨⟨Int.le_refl _, Int.le_trans (Int.zero_le_ofNat 1) hcap⟩, hcap⟩
  · intro v call v' hv hc hs
    obtain ⟨out, hout, rfl⟩ := Option.map_eq_some_iff.mp hs
    exact vectorExec_sized hv hc hout

/-- In every run of checked calls the size stays in its bounds, and a call out of bounds is
refused if and only if it is checked. -/
theorem vectorSystem_refuses {cmp : Option α → Option α → CompRtns} {initialCapacity : Int}
    (hcap : 1 ≤ initialCapacity) (h : (vectorSystem cmp initialCapacity).ReachIf Checked v) :
    v.Bounded ∧ ∀ call, Refuses v call ↔ Checked v call :=
  ⟨(vectorSystem_sized hcap h).bounded, fun _ => refuses_iff (vectorSystem_sized hcap h)⟩

/-- An append to a full array, and an insertion out of bounds. -/
theorem vectorSystem_refuses_run :
    ∃ v : VectorT Nat, (vectorSystem (fun _ _ => .equal) 1).run (vectorNew (fun _ _ => .equal) 1)
        [(.append (some 5) (some fun _ => none), fun _ => none),
          (.append (some 6) (some fun _ => none), fun _ => none),
          (.insert (some 7) 3 none, fun _ => none)]
      = some v ∧ v.size = 2 ∧ (v.Bounded ∧ ∀ call, Refuses v call ↔ Checked v call) := by
  have hrun : ∃ v : VectorT Nat, (vectorSystem (fun _ _ => .equal) 1).run
      (vectorNew (fun _ _ => .equal) 1) [(.append (some 5) (some fun _ => none), fun _ => none),
        (.append (some 6) (some fun _ => none), fun _ => none),
        (.insert (some 7) 3 none, fun _ => none)] = some v ∧ v.size = 2 := ⟨_, rfl, rfl⟩
  obtain ⟨v, hv, hsize⟩ := hrun
  refine ⟨v, hv, hsize, vectorSystem_refuses (by decide) (System.ReachIf.run (.init rfl) ?_ hv)⟩
  intro call hcall
  simp only [List.mem_cons, List.not_mem_nil, or_false] at hcall
  rcases hcall with rfl | rfl | rfl <;> exact fun _ => trivial

/-- A pop of an empty vector leaves it with the size -1. -/
theorem pop_of_empty :
    ∃ v : VectorT Nat, (vectorSystem (fun _ _ => .equal) 1).run (vectorNew (fun _ _ => .equal) 1)
        [(.pop, fun _ => none)] = some v ∧ ¬ v.Bounded :=
  ⟨_, rfl, by simp [VectorT.Bounded, vectorNew]⟩

end CmakeTemplate
