/-
When appending works.

A full array is doubled before an append, and doubling leaves room unless there was no slot to
begin with.  From the capacity 0 the new array has no bytes: `realloc` frees the block and
returns NULL, `vector_resize` takes that for a failure, and the vector keeps a pointer to a
block that is gone.  The append has failed, and the next one has no result.

With a slot to begin with, an append finds room or makes it, and any number of them puts the
data into the array in their order, up to `2 ^ 30` elements, behind which the capacity is no
`int` any more.  So appending works if and only if there is a slot to begin with, or nothing
is appended.  `vector_new` lets a vector without slots be made.
-/
import CmakeTemplate.Proofs.Vector.Refines
import CmakeTemplate.VectorBlocks
import Mathlib.Algebra.Group.Nat.Defs

namespace CmakeTemplate

open Lib

variable {α : Type}

/-- A vector with room for elements, in a block that is there. -/
structure HeldRep (h : HeldVector α) (xs : List α) : Prop where
  /-- The vector holds the elements. -/
  vector : VecRep h.vector xs
  /-- Its block is there. -/
  kept : h.freed = false

/-- One append, while there are fewer than `2 ^ 30` elements. -/
theorem vectorAppendHeld_spec {h : HeldVector α} {xs : List α} (hrep : HeldRep h xs)
    (hlen : xs.length < 2 ^ 30) (call : AppendCall α) :
    ∃ h', vectorAppendHeld h call = some (.success, h') ∧ HeldRep h' (xs ++ [call.data]) := by
  have hpos := hrep.vector.pos
  -- an array that is full has as many slots as there are elements
  have hfits : (xs.length : Int) = h.vector.capacity → h.vector.capacity * 2 ≤ intMax := by
    intro hfull
    rw [intMax]
    omega
  have hsome : reallocDoubled h.vector.capacity call.fresh = some call.fresh := by
    rw [reallocDoubled, if_neg (by omega)]
  obtain ⟨v', hrun, -, -, hrep'⟩ :=
    vectorAppend_spec call.outside hrep.vector call.data call.fresh hfits
  refine ⟨⟨v', h.vector.resizesFor (some call.data) && decide (h.vector.capacity * 2 = 0)⟩, ?_,
    hrep', ?_⟩
  · rw [vectorAppendHeld, if_neg (by simp [hrep.kept])]
    simp [hsome, hrun]
  · rw [decide_eq_false (by omega), Bool.and_false]

/-- Any number of appends, up to `2 ^ 30` elements in all. -/
theorem appendAll_spec : ∀ (calls : List (AppendCall α)) {h : HeldVector α} {xs : List α},
    HeldRep h xs → xs.length + calls.length ≤ 2 ^ 30 →
      ∃ exitCodes h', appendAll h calls = some (exitCodes, h') ∧
        (∀ c ∈ exitCodes, c = .success) ∧ HeldRep h' (xs ++ calls.map AppendCall.data) := by
  intro calls
  induction calls with
  | nil =>
      intro h xs hrep _
      refine ⟨[], h, rfl, fun _ hc => absurd hc List.not_mem_nil, ?_⟩
      rwa [List.map_nil, List.append_nil]
  | cons call calls ih =>
      intro h xs hrep hlen
      rw [List.length_cons] at hlen
      obtain ⟨h₁, hcall, hrep₁⟩ := vectorAppendHeld_spec hrep (by omega) call
      have hlen₁ : (xs ++ [call.data]).length + calls.length ≤ 2 ^ 30 := by
        rw [List.length_append, List.length_singleton]
        omega
      obtain ⟨exitCodes, h₂, hcalls, hall, hrep₂⟩ := ih hrep₁ hlen₁
      refine ⟨.success :: exitCodes, h₂, ?_, ?_, ?_⟩
      · simp [appendAll, hcall, hcalls]
      · intro c hc
        rcases List.mem_cons.mp hc with rfl | hc
        · rfl
        · exact hall c hc
      · rwa [List.append_assoc, List.singleton_append] at hrep₂

/-- A vector behind `vector_new`. -/
def heldNew (cmp : Option α → Option α → CompRtns) (initialCapacity : Int) : HeldVector α :=
  ⟨vectorNew cmp initialCapacity, false⟩

/-- Without a slot, the first append frees the block and fails. -/
theorem vectorAppendHeld_empty (cmp : Option α → Option α → CompRtns) (call : AppendCall α) :
    vectorAppendHeld (heldNew cmp 0) call = some (.failure, ⟨vectorNew cmp 0, true⟩) := by
  simp [vectorAppendHeld, heldNew, vectorAppend, vectorInsert, growIfFull, vectorResize,
    reallocDoubled, vectorNew, VectorT.resizesFor, intMax]

theorem not_appends_empty (cmp : Option α → Option α → CompRtns) (call : AppendCall α)
    (calls : List (AppendCall α)) : ¬ Appends (heldNew cmp 0) (call :: calls) := by
  intro h
  obtain ⟨exitCodes, h', hrun, hall, -⟩ := h [call] ⟨calls, rfl⟩
  have hfail : appendAll (heldNew cmp 0) [call] = some ([.failure], ⟨vectorNew cmp 0, true⟩) := by
    simp [appendAll, vectorAppendHeld_empty]
  rw [hfail] at hrun
  obtain ⟨rfl, -⟩ := Prod.mk.inj (Option.some.inj hrun)
  exact absurd (hall .failure List.mem_cons_self) ExitCode.noConfusion

/-- Appending works if and only if there is a slot to begin with, or nothing is appended. -/
theorem appends_iff (cmp : Option α → Option α → CompRtns) {initialCapacity : Int}
    (hcap : 0 ≤ initialCapacity) {calls : List (AppendCall α)} (hlen : calls.length < 2 ^ 30) :
    Appends (heldNew cmp initialCapacity) calls ↔ initialCapacity = 0 → calls = [] := by
  constructor
  · intro h hzero
    subst hzero
    cases calls with
    | nil => rfl
    | cons call calls =>
        exact absurd h (not_appends_empty cmp call calls)
  · intro h made hmade
    by_cases hzero : initialCapacity = 0
    · obtain rfl := h hzero
      obtain rfl := List.prefix_nil.mp hmade
      exact ⟨[], _, rfl, fun _ hc => absurd hc List.not_mem_nil, ⟨rfl, rfl⟩, hcap, rfl⟩
    · have hrep : HeldRep (heldNew cmp initialCapacity) ([] : List α) :=
        ⟨vectorNew_rep cmp (by omega), rfl⟩
      have hle := hmade.length_le
      obtain ⟨exitCodes, h', hrun, hall, hrep'⟩ := appendAll_spec made hrep (by
        rw [List.length_nil]
        omega)
      rw [List.nil_append] at hrep'
      have hroom := hrep'.vector.room
      rw [← hrep'.vector.size] at hroom
      exact ⟨exitCodes, h', hrun, hall, hrep'.vector.holds, hroom, hrep'.kept⟩

/-- Two appends from one slot on. -/
theorem appends_from_one : Appends (heldNew (fun _ _ => .equal) 1)
    [⟨4, fun _ => none, fun _ => none⟩, ⟨5, fun _ => none, fun _ => none⟩] :=
  (appends_iff (fun _ _ => .equal) (by decide) (by decide)).mpr fun hzero => by cases hzero

/-- A vector that is made without a slot loses its block to the first append. -/
theorem append_frees_block :
    vectorAppendHeld (heldNew (fun _ _ => .equal) 0) ⟨4, fun _ => none, fun _ => none⟩ =
        some (.failure, ⟨vectorNew (fun _ _ => .equal) 0, true⟩) ∧
      ¬ Appends (heldNew (fun _ _ => .equal) 0) [⟨4, fun _ => none, fun _ => none⟩] :=
  ⟨vectorAppendHeld_empty _ _, not_appends_empty _ _ _⟩

end CmakeTemplate
