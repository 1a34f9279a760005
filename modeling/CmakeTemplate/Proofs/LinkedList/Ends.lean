/-
Removing at an end is removing at its position, unless there is nothing to remove.

`list_remove_position` looks at the size first, and then pops what `list_remove_head` or
`list_remove_tail` would pop.  Those two do not look at what their pop returned: on an empty
list they hand NULL to `custom_free` and report success.  So the removals by end and by
position agree on every list but the empty one, where the ones should refuse as the others do.

All four of them go through `custom_free`, which may be NULL.  On a list with something in it
they have a result just in case it is there, so a list that was made without one can be
compared, but nothing is removed from it.
-/
import CmakeTemplate.Proofs.LinkedList.Refines

namespace CmakeTemplate

open Lib

variable {α : Type} {m : ListMem α} {list : ListT α} {ns : List (Nat × Option α)}
  {s : ListMem α × ListT α} {xs : List α}

/-- What a removal leaves, if it returns. -/
abbrev RemovalResult (α : Type) := Option (ListMem α × ListT α × ExitCode)

/-- Two removals both succeed or both fail, with the same sequence left and the same calls of
`custom_free`; or neither of them returns. -/
def SameRemoval (r r' : RemovalResult α) : Prop :=
  match r, r' with
  | none, none => True
  | some (m, list, c), some (m', list', c') =>
    (c = .success ↔ c' = .success) ∧ listData (m, list) = listData (m', list') ∧
      m.freed = m'.freed
  | _, _ => False

/-- A removal fails without a call of `custom_free`. -/
def FailsQuietly (m : ListMem α) (r : RemovalResult α) : Prop :=
  ∃ m' list' c, r = some (m', list', c) ∧ c ≠ .success ∧ m'.freed = m.freed

/-- The removals at the ends are those at the first and at the last position, and all four of them
refuse just in case there is nothing to remove. -/
structure EndsAgree (s : ListMem α × ListT α) (xs : List α) : Prop where
  /-- Removing the head is removing at position 0. -/
  head : SameRemoval (listRemoveHead s.1 s.2) (listRemovePosition s.1 s.2 0)
  /-- Removing the tail is removing at the last position. -/
  tail : SameRemoval (listRemoveTail s.1 s.2) (listRemovePosition s.1 s.2 (s.2.size - 1))
  /-- Each of the four refuses the empty list, and no other. -/
  refuses : ∀ r ∈ [listRemoveHead s.1 s.2, listRemovePosition s.1 s.2 0, listRemoveTail s.1 s.2,
    listRemovePosition s.1 s.2 (s.2.size - 1)], FailsQuietly s.1 r ↔ xs = []

theorem SameRemoval.refl (r : RemovalResult α) : SameRemoval r r := by
  match r with
  | none => trivial
  | some (m, list, c) => exact ⟨Iff.rfl, rfl, rfl⟩

/-! ### A list with something in it

The first and the last position are the ends, and the only node is both.
-/

theorem listRemoveHead_eq (hsize : list.size ≠ 0) :
    listRemoveHead m list = listRemovePosition m list 0 := by
  have hpos : ¬ (0 : UInt32) ≥ list.size := by
    rw [ge_iff_le, UInt32.le_iff_toNat_le]
    intro hle
    exact hsize (eq_zero_iff.mpr (Nat.le_zero.mp hle))
  unfold listRemoveHead listRemovePosition listPopPosition
  rw [if_neg hpos, if_neg hpos, if_pos rfl]

/-- The only node is popped in the same way from both ends. -/
theorem listPopHead_eq_listPopTail (h : list.head = list.tail) :
    listPopHead m list = listPopTail m list := by
  unfold listPopHead listPopTail
  rw [h]
  simp only [if_true]

theorem listRemoveTail_eq (h : ListRep m list ns) (hne : ns ≠ []) :
    listRemoveTail m list = listRemovePosition m list (list.size - 1) := by
  have hlen : 0 < ns.length := List.length_pos_iff.mpr hne
  have hlast : (list.size - 1).toNat = ns.length - 1 := by
    rw [toNat_pred (by rw [h.size]; exact hlen), h.size]
  have hpos : ¬ list.size - 1 ≥ list.size := by
    rw [ge_iff_le, UInt32.le_iff_toNat_le, hlast, h.size]
    omega
  unfold listRemoveTail listRemovePosition listPopPosition
  rw [if_neg hpos, if_neg hpos, if_pos rfl]
  by_cases hone : list.size - 1 = 0
  · rw [if_pos hone, listPopHead_eq_listPopTail]
    have hlen1 : ns.length = 1 := by
      rw [eq_zero_iff, hlast] at hone
      omega
    obtain ⟨n, rfl⟩ := List.length_eq_one_iff.mp hlen1
    rw [h.head_eq, h.tail_eq]
    rfl
  · rw [if_neg hone]

/-- With something to remove, no removal refuses: it succeeds, or has no `custom_free` to call. -/
theorem not_failsQuietly_of_success {r : RemovalResult α}
    (h : r = none ∨ ∃ m' list', r = some (m', list', .success)) : ¬ FailsQuietly m r := by
  rintro ⟨m', list', c, hr, hc, -⟩
  rcases h with h | ⟨m₁, list₁, h⟩
  · cases h.symm.trans hr
  · cases h.symm.trans hr
    exact hc rfl

theorem listRemoveHead_cases (h : ListRep m list ns) :
    listRemoveHead m list = none ∨
      ∃ m' list', listRemoveHead m list = some (m', list', .success) := by
  cases hf : list.customFree with
  | false => exact .inl (listRemoveHead_stuck h hf)
  | true =>
      obtain ⟨m', list', hrun, -⟩ := listRemoveHead_spec h hf
      exact .inr ⟨m', list', hrun⟩

theorem listRemoveTail_cases (h : ListRep m list ns) :
    listRemoveTail m list = none ∨
      ∃ m' list', listRemoveTail m list = some (m', list', .success) := by
  cases hf : list.customFree with
  | false => exact .inl (listRemoveTail_stuck h hf)
  | true =>
      obtain ⟨m', list', hrun, -⟩ := listRemoveTail_spec h hf
      exact .inr ⟨m', list', hrun⟩

theorem removal_eq_none_iff {r : RemovalResult α} (hstuck : list.customFree = false → r = none)
    (hrun : list.customFree = true → ∃ m' list', r = some (m', list', .success)) :
    r = none ↔ list.customFree = false := by
  refine ⟨fun hnone => ?_, hstuck⟩
  cases hf : list.customFree with
  | false => rfl
  | true =>
      obtain ⟨m', list', hr⟩ := hrun hf
      cases hr.symm.trans hnone

/-- On a list with something in it, a removal at an end has a result just in case there is a
`custom_free`: each of the four goes through the pointer, which may be NULL.  There two removals are
the same by `SameRemoval` because neither of them returns. -/
theorem removals_need_customFree (h : ListRep m list ns) (hne : ns ≠ []) :
    ∀ r ∈ [listRemoveHead m list, listRemovePosition m list 0, listRemoveTail m list,
      listRemovePosition m list (list.size - 1)], r = none ↔ list.customFree = false := by
  have hsize : list.size ≠ 0 := by
    rw [Ne, eq_zero_iff, h.size]
    exact fun hlen => hne (List.length_eq_zero_iff.mp hlen)
  have hhead := removal_eq_none_iff (listRemoveHead_stuck h) fun hf =>
    (listRemoveHead_spec h hf).imp fun m' hm' => hm'.imp fun list' hlist' => hlist'.1
  have htail := removal_eq_none_iff (listRemoveTail_stuck h) fun hf =>
    (listRemoveTail_spec h hf).imp fun m' hm' => hm'.imp fun list' hlist' => hlist'.1
  rw [← listRemoveHead_eq hsize, ← listRemoveTail_eq h hne]
  intro r hr
  simp only [List.mem_cons, List.not_mem_nil, or_false] at hr
  rcases hr with rfl | rfl | rfl | rfl
  · exact hhead
  · exact hhead
  · exact htail
  · exact htail

/-! ### Any list

The empty list is the one that tells them apart.
-/

/-- The removals agree on every list but the empty one. -/
theorem endsAgree_iff (h : ListSeq s xs) : EndsAgree s xs ↔ xs ≠ [] := by
  have hsizeIff := h.size_ne_zero_iff
  obtain ⟨m, list⟩ := s
  obtain ⟨ns, hrep, hmap⟩ := h
  have hlen : ns.length = xs.length := ListSeq.length_eq hmap
  dsimp only at hrep
  constructor
  · rintro ⟨hhead, -, -⟩ hnil
    have hns : ns = [] := List.length_eq_zero_iff.mp (by rw [hlen, hnil, List.length_nil])
    subst hns
    dsimp only at hhead
    rw [listRemovePosition_refused hrep (Nat.zero_le _)] at hhead
    rcases listRemoveHead_cases hrep with hrun | ⟨m', list', hrun⟩
    · rw [hrun] at hhead
      exact hhead
    · rw [hrun] at hhead
      exact absurd (hhead.1.mp rfl) (by decide)
  · intro hne
    have hns : ns ≠ [] := by
      intro hnil
      rw [hnil, List.length_nil] at hlen
      exact hne (List.length_eq_zero_iff.mp hlen.symm)
    have hsize : list.size ≠ 0 := hsizeIff.mpr hne
    have hhead := listRemoveHead_eq (m := m) hsize
    have htail := listRemoveTail_eq hrep hns
    have hnot₁ := not_failsQuietly_of_success (m := m) (listRemoveHead_cases hrep)
    have hnot₂ := not_failsQuietly_of_success (m := m) (listRemoveTail_cases hrep)
    refine ⟨?_, ?_, ?_⟩
    · dsimp only
      rw [← hhead]
      exact .refl _
    · dsimp only
      rw [← htail]
      exact .refl _
    · dsimp only
      rw [← hhead, ← htail]
      intro r hr
      simp only [List.mem_cons, List.not_mem_nil, or_false] at hr
      refine iff_of_false ?_ hne
      rcases hr with rfl | rfl | rfl | rfl
      · exact hnot₁
      · exact hnot₁
      · exact hnot₂
      · exact hnot₂

/-- A list of one element. -/
theorem endsAgree_one :
    ∃ s, listRun (⟨.empty, []⟩, listNew true natEqual) [.pushTail 7] = some (s, [.code .success]) ∧
      EndsAgree s [7] := by
  obtain ⟨s, hrun, hlist⟩ :
      ∃ s, listRun (⟨.empty, []⟩, listNew true natEqual) [.pushTail 7]
          = some (s, [.code .success]) ∧ ListSeq s [7] :=
    ⟨_, rfl, ⟨[(0, some 7)], ⟨⟨rfl, _, rfl, rfl, rfl⟩, rfl⟩, rfl⟩⟩
  exact ⟨s, hrun, (endsAgree_iff hlist).mpr (by decide)⟩

/-- From an empty list, `list_remove_head` removes NULL with success and
`list_remove_position` fails. -/
theorem endsAgree_empty :
    listRemoveHead ⟨.empty, []⟩ (listNew true natEqual)
        = some (⟨.empty, [none]⟩, listNew true natEqual, .success) ∧
      listRemovePosition ⟨.empty, []⟩ (listNew true natEqual) 0
        = some (⟨.empty, []⟩, listNew true natEqual, .failure) ∧
      ¬ EndsAgree (⟨.empty, []⟩, listNew true natEqual) ([] : List Nat) := by
  refine ⟨rfl, rfl, ?_⟩
  rintro ⟨hhead, -, -⟩
  exact absurd (hhead.1.mp rfl) (by decide)

end CmakeTemplate
