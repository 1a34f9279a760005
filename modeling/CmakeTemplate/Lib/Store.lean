/-
A store of heap cells.

An address is an allocation identity: `alloc` hands out a number that was never
handed out before, so a cell that has been freed is never confused with a later
one, and reading it is an error rather than a read of somebody else's data.
`next` is the next number, and the field `fresh` says nothing lives at or above
it, so a store with a cell beyond its own counter cannot be built.

A pointer is an address or NULL.  Loading or assigning through NULL, or through an
address whose cell is gone, has no result; that is how undefined behaviour shows in
a program written over a store.
-/
import Mathlib.Data.Option.Basic
import Mathlib.Logic.Function.Basic

namespace CmakeTemplate.Lib

/-- A pointer: an address, or NULL. -/
abbrev Ptr := Option Nat

@[ext] structure Store (β : Type) where
  /-- What is in a cell, or nothing where there is no cell. -/
  get : Nat → Option β
  /-- The number of addresses that have been handed out. -/
  next : Nat
  /-- Nothing has been allocated at or above the counter. -/
  fresh : ∀ a, next ≤ a → get a = none

namespace Store

variable {β : Type}

def empty : Store β := ⟨fun _ => none, 0, fun _ _ => rfl⟩

/-- A cell holding `v` at an address never used before. -/
def alloc (s : Store β) (v : β) : Store β × Nat :=
  (⟨fun b => if b = s.next then some v else s.get b, s.next + 1, by
      intro a ha
      rw [if_neg (by omega)]
      exact s.fresh a (by omega)⟩, s.next)

/-- The store with the cell at `a` rewritten. -/
def upd (s : Store β) (a : Nat) (f : β → β) : Store β :=
  ⟨fun b => if b = a then (s.get a).map f else s.get b, s.next, by
      intro b hb
      split
      · rename_i hba
        rw [← hba, s.fresh b hb]; rfl
      · exact s.fresh b hb⟩

/-- The store without the cell at `a`. -/
def drop (s : Store β) (a : Nat) : Store β :=
  ⟨fun b => if b = a then none else s.get b, s.next, by
      intro b hb
      split
      · rfl
      · exact s.fresh b hb⟩

/-- `*p`. -/
def load (s : Store β) (p : Ptr) : Option β := p.bind s.get

/-- `*p = f (*p)`. -/
def assign (s : Store β) (p : Ptr) (f : β → β) : Option (Store β) :=
  p.bind fun a => (s.get a).map fun _ => s.upd a f

/-- `free(p)`: nothing for NULL, an error when the cell is already gone. -/
def free (s : Store β) (p : Ptr) : Option (Store β) :=
  match p with
  | none => some s
  | some a => (s.get a).map fun _ => s.drop a

/-! ### Reading a store after a write

Each operation is known by what it leaves at its own address and at any other.
-/

theorem get_alloc (s : Store β) (v : β) (b : Nat) :
    (s.alloc v).1.get b = if b = s.next then some v else s.get b := rfl

@[simp] theorem alloc_addr (s : Store β) (v : β) : (s.alloc v).2 = s.next := rfl

@[simp] theorem next_alloc (s : Store β) (v : β) : (s.alloc v).1.next = s.next + 1 := rfl

@[simp] theorem get_alloc_self (s : Store β) (v : β) : (s.alloc v).1.get s.next = some v := by
  rw [get_alloc, if_pos rfl]

theorem get_alloc_ne (s : Store β) (v : β) {b : Nat} (h : b ≠ s.next) :
    (s.alloc v).1.get b = s.get b := by
  rw [get_alloc, if_neg h]

theorem get_upd (s : Store β) (a : Nat) (f : β → β) (b : Nat) :
    (s.upd a f).get b = if b = a then (s.get a).map f else s.get b := rfl

@[simp] theorem get_upd_self (s : Store β) (a : Nat) (f : β → β) :
    (s.upd a f).get a = (s.get a).map f := by
  rw [get_upd, if_pos rfl]

theorem get_upd_ne (s : Store β) {a b : Nat} (f : β → β) (h : b ≠ a) :
    (s.upd a f).get b = s.get b := by
  rw [get_upd, if_neg h]

theorem get_drop (s : Store β) (a b : Nat) :
    (s.drop a).get b = if b = a then none else s.get b := rfl

@[simp] theorem get_drop_self (s : Store β) (a : Nat) : (s.drop a).get a = none := by
  rw [get_drop, if_pos rfl]

theorem get_drop_ne (s : Store β) {a b : Nat} (h : b ≠ a) : (s.drop a).get b = s.get b := by
  rw [get_drop, if_neg h]

/-- Nothing is left of a cell that is freed at once. -/
theorem get_drop_alloc (s : Store β) (v : β) : ((s.alloc v).1.drop s.next).get = s.get := by
  funext a
  by_cases ha : a = s.next
  · rw [ha, get_drop_self, s.fresh _ (Nat.le_refl _)]
  · rw [get_drop_ne _ ha, get_alloc_ne s v ha]

/-- Allocating and freeing, as changes of the one function. -/
theorem get_alloc_eq (s : Store β) (v : β) :
    (s.alloc v).1.get = Function.update s.get s.next (some v) := by
  funext a
  rw [get_alloc, Function.update_apply]

theorem get_drop_eq (s : Store β) (a : Nat) :
    (s.drop a).get = Function.update s.get a none := by
  funext b
  rw [get_drop, Function.update_apply]

@[simp] theorem next_drop (s : Store β) (a : Nat) : (s.drop a).next = s.next := rfl

/-- A live address is below the counter. -/
theorem lt_next {s : Store β} {a : Nat} {v : β} (h : s.get a = some v) : a < s.next := by
  by_contra hc
  rw [s.fresh a (Nat.not_lt.mp hc)] at h
  simp at h

/-- Rewriting a cell twice. -/
theorem upd_upd (s : Store β) (a : Nat) (f g : β → β) :
    (s.upd a f).upd a g = s.upd a (g ∘ f) := by
  refine Store.ext ?_ rfl
  funext b
  by_cases hb : b = a
  · simp [hb]
  · rw [get_upd_ne _ g hb, get_upd_ne s f hb, get_upd_ne s (g ∘ f) hb]

/-- Rewriting the newest cell is allocating it with the new value. -/
theorem upd_alloc (s : Store β) (v : β) (f : β → β) :
    (s.alloc v).1.upd s.next f = (s.alloc (f v)).1 := by
  refine Store.ext ?_ rfl
  funext b
  by_cases hb : b = s.next
  · simp [hb]
  · rw [get_upd_ne _ f hb, get_alloc_ne s v hb, get_alloc_ne s (f v) hb]

/-! ### Accesses through a live pointer

A program that holds a pointer to a live cell goes on with a store that can be named.
-/

@[simp] theorem load_null (s : Store β) : s.load none = none := rfl

@[simp] theorem load_some (s : Store β) (a : Nat) : s.load (some a) = s.get a := rfl

theorem assign_live {s : Store β} {a : Nat} {v : β} (f : β → β) (h : s.get a = some v) :
    s.assign (some a) f = some (s.upd a f) := by
  simp [assign, h]

theorem free_live {s : Store β} {a : Nat} {v : β} (h : s.get a = some v) :
    s.free (some a) = some (s.drop a) := by
  simp [free, h]

/-! ### Frames

The list names the cells that may have changed; there may be more than were.
-/

/-- The stores differ at most in the cells `as`. -/
structure SameOff (s t : Store β) (as : List Nat) : Prop where
  /-- As many addresses have been handed out. -/
  next : t.next = s.next
  /-- Every other cell is what it was. -/
  get : ∀ a, a ∉ as → t.get a = s.get a

namespace SameOff

variable {s t u : Store β} {as bs cs : List Nat}

theorem refl (s : Store β) (as : List Nat) : SameOff s s as := ⟨rfl, fun _ _ => rfl⟩

theorem mono (h : SameOff s t as) (hsub : as ⊆ bs) : SameOff s t bs :=
  ⟨h.next, fun a ha => h.get a fun hc => ha (hsub hc)⟩

theorem trans (h : SameOff s t as) (h' : SameOff t u as) : SameOff s u as :=
  ⟨h'.next.trans h.next, fun a ha => (h'.get a ha).trans (h.get a ha)⟩

theorem upd (s : Store β) (a : Nat) (f : β → β) : SameOff s (s.upd a f) [a] :=
  ⟨rfl, fun b hb => get_upd_ne s f fun hc => hb (by simp [hc])⟩

end SameOff

end Store

end CmakeTemplate.Lib
