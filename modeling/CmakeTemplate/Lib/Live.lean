/-
What is in a store.

`live` is the multiset of the values in the cells that are there, however they are linked.  A
program that neither loses nor invents data keeps a balance between this multiset and what it
was given and gave back, and the balance does not depend on any pointer being right.

Allocating puts one value in and freeing takes one out.  Writing changes nothing about a
projection that it keeps: relinking a cell, for one, leaves the data of all cells what it was.
`SameUnder f` says that two stores hold the same under the projection `f`, cell by cell; it is
kept by any number of such writes, and two stores that are related so have the same multiset
under `f`.
-/
import CmakeTemplate.Lib.Store
import Mathlib.Data.Multiset.Filter
import Mathlib.Data.Multiset.Range

namespace CmakeTemplate.Lib.Store

variable {β γ : Type}

theorem filterMap_agree {m : Multiset β} {f g : β → Option γ} (h : ∀ a ∈ m, f a = g a) :
    m.filterMap f = m.filterMap g := by
  induction m using Quotient.inductionOn with
  | h l => exact congrArg _ (List.filterMap_congr h)

/-- What is in the cells. -/
def live (s : Store β) : Multiset β := (Multiset.range s.next).filterMap s.get

theorem live_alloc (s : Store β) (v : β) : (s.alloc v).1.live = v ::ₘ s.live := by
  have hrest : (Multiset.range s.next).filterMap (s.alloc v).1.get = s.live := by
    apply filterMap_agree
    intro a ha
    exact get_alloc_ne s v (Nat.ne_of_lt (Multiset.mem_range.mp ha))
  unfold live
  rw [next_alloc, Multiset.range_succ, Multiset.filterMap_cons_some _ _ _ (get_alloc_self s v), hrest]
  rfl

theorem live_drop (s : Store β) {a : Nat} {v : β} (h : s.get a = some v) :
    v ::ₘ (s.drop a).live = s.live := by
  have hmem : a ∈ Multiset.range s.next := Multiset.mem_range.mpr (lt_next h)
  have hrest : ((Multiset.range s.next).erase a).filterMap (s.drop a).get =
      ((Multiset.range s.next).erase a).filterMap s.get := by
    apply filterMap_agree
    intro b hb
    apply get_drop_ne
    rintro rfl
    exact (Multiset.nodup_range s.next).notMem_erase hb
  unfold live
  rw [next_drop, ← Multiset.cons_erase hmem, Multiset.filterMap_cons_none _ _ (get_drop_self s a),
    Multiset.filterMap_cons_some _ _ _ h, hrest]

theorem mem_live {s : Store β} {a : Nat} {v : β} (h : s.get a = some v) : v ∈ s.live := by
  rw [← live_drop s h]
  exact Multiset.mem_cons_self _ _

/-- The stores hold the same under the projection `f`. -/
structure SameUnder (f : β → γ) (s t : Store β) : Prop where
  /-- As many addresses have been handed out. -/
  next : t.next = s.next
  /-- Every cell looks the same under `f`. -/
  get : ∀ a, (t.get a).map f = (s.get a).map f

namespace SameUnder

variable {f : β → γ} {s t u : Store β}

theorem refl (f : β → γ) (s : Store β) : SameUnder f s s := ⟨rfl, fun _ => rfl⟩

theorem trans (h : SameUnder f s t) (h' : SameUnder f t u) : SameUnder f s u :=
  ⟨h'.next.trans h.next, fun a => (h'.get a).trans (h.get a)⟩

theorem live (h : SameUnder f s t) : t.live.map f = s.live.map f := by
  unfold Store.live
  rw [Multiset.map_filterMap, Multiset.map_filterMap, h.next]
  apply filterMap_agree
  intro a _
  exact h.get a

/-- What is read of a cell. -/
theorem of_get (h : SameUnder f s t) {a : Nat} {v : β} (hv : s.get a = some v) :
    ∃ w, t.get a = some w ∧ f w = f v := by
  have hmap := h.get a
  rw [hv] at hmap
  obtain ⟨w, hw, hf⟩ := Option.map_eq_some_iff.mp hmap
  exact ⟨w, hw, hf⟩

theorem upd (s : Store β) (a : Nat) {g : β → β} (hg : ∀ v, f (g v) = f v) :
    SameUnder f s (s.upd a g) := by
  refine ⟨rfl, ?_⟩
  intro b
  rw [get_upd]
  split
  · rename_i hb
    rw [hb, Option.map_map]
    apply Option.map_congr
    intro v _
    exact hg v
  · rfl

theorem assign {p : Ptr} {g : β → β} (hg : ∀ v, f (g v) = f v) (h : s.assign p g = some t) :
    SameUnder f s t := by
  obtain ⟨a, -, hrest⟩ := Option.bind_eq_some_iff.mp h
  obtain ⟨v, -, rfl⟩ := Option.map_eq_some_iff.mp hrest
  exact upd s a hg

end SameUnder

/-- Freeing a cell that is there takes its value out. -/
theorem live_free {s t : Store β} {p : Ptr} {v : β} (hv : s.load p = some v)
    (h : s.free p = some t) : v ::ₘ t.live = s.live := by
  obtain ⟨a, rfl, ha⟩ := Option.bind_eq_some_iff.mp hv
  rw [free_live ha] at h
  rw [← Option.some.inj h]
  exact live_drop s ha

end CmakeTemplate.Lib.Store
