/-
Lists of names at the vertices of a graph.

A graph that keeps the edges of each node in a list of pointers is a family of lists of names:
`adj v` are the names on the list of `v`.  A name has a record, and the record says how often
the name is on each list: once at its one end if the edge is directed, or once at each of two
if it is not.

`Incident` is that the lists and the records agree: each name on a list has a record, and is
on each list as often as its record says.  Adding an edge puts a name and makes its record,
and removing one takes the name off the lists and the record away.  In between the lists and
the records disagree, but about one name only (`Touches`), so a pair of such steps is judged
by what it does to that name.
-/
import Mathlib.Algebra.BigOperators.Group.List.Lemmas
import Mathlib.Algebra.Order.BigOperators.Group.List
import Mathlib.Algebra.Order.Group.Nat
import Mathlib.Data.List.Basic
import Mathlib.Logic.Function.Basic

namespace CmakeTemplate.Lib

variable {V ι β : Type} [DecidableEq V] [DecidableEq ι]

/-- Every name on a list has a record, and is on each list as often as its record says. -/
def Incident (adj : V → List ι) (record : ι → Option β) (mult : β → V → Nat) : Prop :=
  ∀ v i, i ∈ adj v → ∃ b, record i = some b ∧ ∀ w, (adj w).count i = mult b w

/-- `i` put in front of the list of `v`. -/
def put (adj : V → List ι) (v : V) (i : ι) : V → List ι := Function.update adj v (i :: adj v)

/-- `i` taken off the list of `v`, once. -/
def takeOff (adj : V → List ι) (v : V) (i : ι) : V → List ι :=
  Function.update adj v ((adj v).erase i)

variable {adj adj' : V → List ι} {record record' : ι → Option β} {mult : β → V → Nat} {v w : V}
  {i j : ι}

/-! ### Counting

How often a name is on a list is all that matters, not where on the list it is; so putting a
name on a list and taking it off are changes of a count by one.
-/

theorem count_put (adj : V → List ι) (v w : V) (i j : ι) :
    (put adj v i w).count j = (adj w).count j + if w = v ∧ j = i then 1 else 0 := by
  by_cases hw : w = v
  · subst hw
    rw [put, Function.update_self, List.count_cons]
    simp only [beq_iff_eq, true_and, eq_comm (a := i)]
  · rw [put, Function.update_of_ne hw, if_neg fun h => hw h.1, Nat.add_zero]

theorem count_takeOff (h : i ∈ adj v) (w : V) (j : ι) :
    (takeOff adj v i w).count j + (if w = v ∧ j = i then 1 else 0) = (adj w).count j := by
  by_cases hw : w = v
  · subst hw
    rw [takeOff, Function.update_self, (List.perm_cons_erase h).count_eq j, List.count_cons]
    simp only [beq_iff_eq, true_and, eq_comm (a := i)]
  · rw [takeOff, Function.update_of_ne hw, if_neg fun h => hw h.1, Nat.add_zero]

omit [DecidableEq ι] in
theorem mem_put (hj : j ∈ put adj v i w) : j = i ∨ j ∈ adj w := by
  by_cases hw : w = v
  · subst hw
    rw [put, Function.update_self] at hj
    exact List.mem_cons.mp hj
  · rw [put, Function.update_of_ne hw] at hj
    exact .inr hj

theorem mem_of_mem_takeOff (hj : j ∈ takeOff adj v i w) : j ∈ adj w := by
  by_cases hw : w = v
  · subst hw
    rw [takeOff, Function.update_self] at hj
    exact List.mem_of_mem_erase hj
  · rwa [takeOff, Function.update_of_ne hw] at hj

/-- The other names on the lists are what they were. -/
theorem filter_takeOff (adj : V → List ι) (v : V) (i : ι) (w : V) :
    (takeOff adj v i w).filter (· ≠ i) = (adj w).filter (· ≠ i) := by
  by_cases hw : w = v
  · subst hw
    rw [takeOff, Function.update_self, ← List.erase_filter]
    exact List.erase_of_not_mem fun hmem => by simp at hmem
  · rw [takeOff, Function.update_of_ne hw]

/-- Putting a name on a list and taking it off again. -/
theorem takeOff_put (adj : V → List ι) (v : V) (i : ι) : takeOff (put adj v i) v i = adj := by
  rw [takeOff, put, Function.update_self, List.erase_cons_head, Function.update_idem,
    Function.update_eq_self]

/-- Taking a name off the front of a list and putting it back. -/
theorem put_takeOff (h : (adj v).head? = some i) : put (takeOff adj v i) v i = adj := by
  obtain ⟨l, hl⟩ := List.head?_eq_some_iff.mp h
  rw [put, takeOff, Function.update_self, Function.update_idem, hl, List.erase_cons_head, ← hl,
    Function.update_eq_self]

/-! ### Changing what there is of one name

What holds of all names is kept when one name changes and is right again for that name.
-/

/-- The lists and the records differ at most in `i`. -/
structure Touches (i : ι) (adj adj' : V → List ι) (record record' : ι → Option β) : Prop where
  /-- Any other name is on each list as often as before. -/
  lists : ∀ w j, j ≠ i → (adj' w).count j = (adj w).count j
  /-- Any other name has the record it had. -/
  records : ∀ j, j ≠ i → record' j = record j

theorem Touches.put (ht : Touches i adj adj' record record') (v : V) :
    Touches i adj (put adj' v i) record record' where
  lists w j hj := by rw [count_put, if_neg fun h => hj h.2, Nat.add_zero, ht.lists w j hj]
  records := ht.records

theorem Touches.takeOff (ht : Touches i adj adj' record record') (hi : i ∈ adj' v) :
    Touches i adj (takeOff adj' v i) record record' where
  lists w j hj := by
    have := count_takeOff hi w j
    rw [if_neg fun h => hj h.2, Nat.add_zero] at this
    rw [this, ht.lists w j hj]
  records := ht.records

omit [DecidableEq V] in
theorem Touches.mem (h : Touches i adj adj' record record') (hj : j ≠ i) :
    j ∈ adj' w ↔ j ∈ adj w := by
  rw [← List.count_pos_iff, ← List.count_pos_iff, h.lists w j hj]

namespace Incident

omit [DecidableEq V] in
theorem keeps (h : Incident adj record mult) (ht : Touches i adj adj' record record')
    (hi : ∀ v, i ∈ adj' v → ∃ b, record' i = some b ∧ ∀ w, (adj' w).count i = mult b w) :
    Incident adj' record' mult := by
  intro v j hj
  by_cases hji : j = i
  · subst hji
    exact hi v hj
  · obtain ⟨b, hb, hcount⟩ := h v j ((ht.mem hji).mp hj)
    exact ⟨b, (ht.records j hji).trans hb, fun w => (ht.lists w j hji).trans (hcount w)⟩

omit [DecidableEq V] in
/-- The name has a record, and is where it says. -/
theorem added (h : Incident adj record mult) (ht : Touches i adj adj' record record') {b : β}
    (hi : record' i = some b) (hcount : ∀ w, (adj' w).count i = mult b w) :
    Incident adj' record' mult :=
  h.keeps ht fun _ _ => ⟨b, hi, hcount⟩

omit [DecidableEq V] in
/-- The name is nowhere any more. -/
theorem gone (h : Incident adj record mult) (ht : Touches i adj adj' record record')
    (hno : ∀ w, (adj' w).count i = 0) : Incident adj' record' mult :=
  h.keeps ht fun v hi => absurd hi (List.count_eq_zero.mp (hno v))

omit [DecidableEq V] in
/-- A name without a record is on no list. -/
theorem count_eq_zero (h : Incident adj record mult) (hi : record i = none) (w : V) :
    (adj w).count i = 0 := by
  refine List.count_eq_zero.mpr fun hmem => ?_
  obtain ⟨b, hb, -⟩ := h w i hmem
  exact absurd (hi.symm.trans hb) (Option.some_ne_none b).symm

omit [DecidableEq V] in
theorem count_eq (h : Incident adj record mult) (hi : i ∈ adj v) {b : β} (hb : record i = some b)
    (w : V) : (adj w).count i = mult b w := by
  obtain ⟨b', hb', hcount⟩ := h v i hi
  rw [hcount, Option.some.inj (hb.symm.trans hb')]

end Incident

/-! ### One list

A removal names the first element that an equality test accepts.  It is the removal of one
name, where the test accepts no other on the list.
-/

/-- Removing the first element with a property is removing that element. -/
theorem eraseP_eq_erase {l : List ι} {p : ι → Bool} (h : l.find? p = some i) :
    l.eraseP p = l.erase i := by
  induction l with
  | nil => exact absurd h (by simp)
  | cons x l ih =>
      by_cases hx : p x = true
      · rw [List.find?_cons_of_pos hx] at h
        obtain rfl := Option.some.inj h
        rw [List.eraseP_cons_of_pos hx, List.erase_cons_head]
      · rw [List.find?_cons_of_neg hx] at h
        have hne : x ≠ i := fun hc => hx (hc ▸ List.find?_some h)
        rw [List.eraseP_cons_of_neg hx, ih h, List.erase_cons_tail (by simpa using hne)]

/-- A list on which a name is at most `k` times has at least one in `k` names. -/
theorem length_le_mul_dedup {l : List ι} {k : Nat} (h : ∀ i ∈ l, l.count i ≤ k) :
    l.length ≤ l.dedup.length * k := by
  rw [← List.sum_map_count_dedup_eq_length l]
  have hsum := List.sum_le_card_nsmul (l.dedup.map l.count) k (by
    intro c hc
    obtain ⟨i, hi, rfl⟩ := List.mem_map.mp hc
    exact h i (List.mem_dedup.mp hi))
  simpa using hsum

/-- What another list keeps of `i :: rest`, if `i` is taken off it, when that is the first. -/
theorem filter_cons_iff {l rest : List ι} {p : ι → Bool}
    (honce : l.count i ≤ 1) (hrest : i ∉ rest) :
    l.filter p = (i :: rest).filter (· ∈ l) ↔ (i ∈ l → l.find? p = some i) ∧
      (l.filter (· ≠ i)).filter p = rest.filter (· ∈ l.filter (· ≠ i)) := by
  have hmem : rest.filter (· ∈ l.filter (· ≠ i)) = rest.filter (· ∈ l) := by
    refine List.filter_congr fun j hj => ?_
    have hne : j ≠ i := fun hji => hrest (hji ▸ hj)
    simp [hne]
  rw [hmem, List.filter_filter, ← List.head?_filter]
  by_cases hi : i ∈ l
  · have hcomm : l.filter (fun j => p j && decide (j ≠ i)) = (l.filter p).filter (· ≠ i) := by
      rw [List.filter_filter]
      exact List.filter_congr fun j _ => Bool.and_comm _ _
    have hcount : (l.filter p).count i ≤ 1 := (List.filter_sublist.count_le i).trans honce
    rw [hcomm, List.filter_cons_of_pos (by simpa using hi)]
    constructor
    · intro heq
      rw [heq]
      refine ⟨fun _ => rfl, ?_⟩
      rw [List.filter_cons_of_neg (by simp), List.filter_eq_self]
      intro j hj
      have hne : j ≠ i := fun hji => hrest (hji ▸ List.mem_of_mem_filter hj)
      simpa using hne
    · intro h
      obtain ⟨hhead, hothers⟩ := h
      obtain ⟨l', hl'⟩ := List.head?_eq_some_iff.mp (hhead hi)
      rw [hl', List.count_cons_self] at hcount
      have hnot : i ∉ l' := List.count_eq_zero.mp (by omega)
      rw [hl', List.filter_cons_of_neg (by simp)] at hothers
      rw [hl', ← hothers, eq_comm, List.cons_inj_right, List.filter_eq_self]
      intro j hj
      have hne : j ≠ i := fun hji => hnot (hji ▸ hj)
      simpa using hne
  · have hself : l.filter (fun j => p j && decide (j ≠ i)) = l.filter p := by
      refine List.filter_congr fun j hj => ?_
      have hne : j ≠ i := fun hji => hi (hji ▸ hj)
      simp [hne]
    rw [hself, List.filter_cons_of_neg (by simpa using hi)]
    simp [hi]

end CmakeTemplate.Lib
