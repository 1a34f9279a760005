/-
A merge sort with a strict test.

`List.merge` takes the left element when the test holds and the right one otherwise.
With a strict test the right list therefore wins every tie, and the last element of a
list stays last exactly when every other one is strictly below it.

The result is in order all the same, where the test is the strict part of a total
preorder.  `StrictWeakOn` says so of the elements that are sorted, and of no others.
-/
import Mathlib.Data.List.Basic
import Mathlib.Data.List.Nodup

namespace CmakeTemplate.Lib

variable {α : Type} {lt : α → α → Bool}

/-- A sort of at least two elements is a merge of the sorted halves. -/
theorem mergeSort_halves {xs : List α} (h : 2 ≤ xs.length) :
    xs.mergeSort lt = ((xs.take ((xs.length + 1) / 2)).mergeSort lt).merge
      ((xs.drop ((xs.length + 1) / 2)).mergeSort lt) lt := by
  match xs, h with
  | a :: b :: xs, _ =>
      rw [List.mergeSort]
      simp only [List.MergeSort.Internal.splitInTwo_fst, List.MergeSort.Internal.splitInTwo_snd]

theorem getLast?_of_cons {a z : α} {xs : List α} (hne : xs ≠ [])
    (h : (a :: xs).getLast? = some z) : xs.getLast? = some z := by
  cases xs with
  | nil => exact absurd rfl hne
  | cons x xs => rwa [List.getLast?_cons_cons] at h

theorem merge_ne_nil {as bs : List α} (h : as ≠ [] ∨ bs ≠ []) : as.merge bs lt ≠ [] := by
  intro hc
  have hlen := congrArg List.length hc
  rw [List.length_merge, List.length_nil] at hlen
  rcases h with h | h
  · exact h (List.length_eq_zero_iff.mp (by omega))
  · exact h (List.length_eq_zero_iff.mp (by omega))

/-! ### The last element of a merge

Whoever goes last in a merge is decided by the two last elements alone, so it can be followed
through the recursion.
-/

/-- What everything on the left is below stays behind all of it. -/
theorem merge_concat {as bs : List α} {z : α} (h : ∀ a ∈ as, lt a z) :
    as.merge (bs ++ [z]) lt = as.merge bs lt ++ [z] := by
  induction as generalizing bs with
  | nil => simp
  | cons a as ih =>
      have has : ∀ a ∈ as, lt a z := fun x hx => h x (by simp [hx])
      induction bs with
      | nil =>
          have ha : lt a z := h a (by simp)
          have hrest : as.merge ([] ++ [z]) lt = as.merge [] lt ++ [z] := ih has
          simp only [List.nil_append, List.merge_right] at hrest
          simp [List.cons_merge_cons_pos _ _ _ ha, hrest]
      | cons b bs ihb =>
          simp only [List.cons_append, List.cons_merge_cons]
          by_cases hab : lt a b
          · rw [if_pos hab, if_pos hab, ← List.cons_append, ih has, List.cons_append]
          · rw [if_neg hab, if_neg hab, ihb, List.cons_append]

/-- A last element that is not on the left is the last one on the right. -/
theorem getLast?_merge_right {as bs : List α} {z : α} (hz : z ∉ as)
    (h : (as.merge bs lt).getLast? = some z) : bs.getLast? = some z := by
  induction as generalizing bs with
  | nil => simpa using h
  | cons a as ih =>
      induction bs with
      | nil =>
          rw [List.merge_right] at h
          exact absurd (List.mem_of_getLast? h) hz
      | cons b bs ihb =>
          rw [List.cons_merge_cons] at h
          by_cases hab : lt a b
          · rw [if_pos hab] at h
            exact ih (fun hc => hz (by simp [hc]))
              (getLast?_of_cons (merge_ne_nil (.inr (by simp))) h)
          · rw [if_neg hab] at h
            have hbs := ihb (getLast?_of_cons (merge_ne_nil (.inl (by simp))) h)
            cases bs with
            | nil => simp at hbs
            | cons c cs => rw [List.getLast?_cons_cons, hbs]

/-- The other way round: whoever ends a merge was above everything on the left. -/
theorem lt_of_getLast?_merge (htrans : ∀ a b c, lt a b → lt b c → lt a c) {as bs : List α} {z : α}
    (hz : z ∉ as) (hbs : ∀ b ∈ bs, lt b z)
    (h : (as.merge (bs ++ [z]) lt).getLast? = some z) : ∀ a ∈ as, lt a z := by
  induction as generalizing bs with
  | nil => simp
  | cons a as ih =>
      have has : z ∉ as := fun hc => hz (by simp [hc])
      induction bs with
      | nil =>
          rw [List.nil_append, List.cons_merge_cons] at h
          by_cases haz : lt a z
          · rw [if_pos haz] at h
            have hlast : (as.merge ([] ++ [z]) lt).getLast? = some z :=
              getLast?_of_cons (merge_ne_nil (.inr (by simp))) h
            have hrest := ih has (by simp) hlast
            simpa [haz] using hrest
          · rw [if_neg haz, List.merge_right] at h
            exact absurd (List.mem_of_getLast? (getLast?_of_cons (by simp) h)) hz
      | cons b bs ihb =>
          rw [List.cons_append, List.cons_merge_cons] at h
          by_cases hab : lt a b
          · rw [if_pos hab, ← List.cons_append] at h
            have hrest := ih has hbs (getLast?_of_cons (merge_ne_nil (.inr (by simp))) h)
            have haz : lt a z := htrans a b z hab (hbs b (by simp))
            simpa [haz] using hrest
          · rw [if_neg hab] at h
            exact ihb (fun x hx => hbs x (by simp [hx]))
              (getLast?_of_cons (merge_ne_nil (.inl (by simp))) h)

/-! ### The last element of a sort

A last element that every other one is strictly below stays last, and one that stays last has
every other one strictly below it.
-/

theorem mergeSort_concat {xs : List α} {z : α} (h : ∀ x ∈ xs, lt x z) :
    ∃ ys, (xs ++ [z]).mergeSort lt = ys ++ [z] := by
  induction hn : xs.length using Nat.strongRecOn generalizing xs with
  | _ n ih =>
      by_cases hx : xs = []
      · exact ⟨[], by simp [hx]⟩
      · have hpos : 0 < xs.length := List.length_pos_iff.mpr hx
        have hk : (xs.length + 1 + 1) / 2 ≤ xs.length := by omega
        rw [mergeSort_halves (by simp; omega), List.length_append, List.length_singleton,
          List.take_append_of_le_length hk, List.drop_append_of_le_length hk]
        obtain ⟨ys, hys⟩ := ih (xs.drop ((xs.length + 1 + 1) / 2)).length
          (by rw [List.length_drop]; omega) (fun x hx => h x (List.mem_of_mem_drop hx)) rfl
        have hleft : ∀ a ∈ (xs.take ((xs.length + 1 + 1) / 2)).mergeSort lt, lt a z :=
          fun a ha => h a (List.mem_of_mem_take (List.mem_mergeSort.mp ha))
        rw [hys]
        exact ⟨_, merge_concat hleft⟩

theorem lt_of_getLast?_mergeSort (htrans : ∀ a b c, lt a b → lt b c → lt a c) {xs : List α}
    {z : α} (hz : z ∉ xs) (h : ((xs ++ [z]).mergeSort lt).getLast? = some z) :
    ∀ x ∈ xs, lt x z := by
  induction hn : xs.length using Nat.strongRecOn generalizing xs with
  | _ n ih =>
      by_cases hx : xs = []
      · simp [hx]
      · have hpos : 0 < xs.length := List.length_pos_iff.mpr hx
        have hk : (xs.length + 1 + 1) / 2 ≤ xs.length := by omega
        rw [mergeSort_halves (by simp; omega), List.length_append, List.length_singleton,
          List.take_append_of_le_length hk, List.drop_append_of_le_length hk] at h
        have hleft : z ∉ (xs.take ((xs.length + 1 + 1) / 2)).mergeSort lt :=
          fun hc => hz (List.mem_of_mem_take (List.mem_mergeSort.mp hc))
        have hlast := getLast?_merge_right hleft h
        have hright : ∀ x ∈ xs.drop ((xs.length + 1 + 1) / 2), lt x z :=
          ih (xs.drop ((xs.length + 1 + 1) / 2)).length (by rw [List.length_drop]; omega)
            (fun hc => hz (List.mem_of_mem_drop hc)) hlast rfl
        obtain ⟨ys, hys⟩ := mergeSort_concat hright
        have hmem : ∀ y ∈ ys, lt y z := by
          intro y hy
          have hperm : (ys ++ [z]).Perm (xs.drop ((xs.length + 1 + 1) / 2) ++ [z]) :=
            hys ▸ List.mergeSort_perm _ _
          exact hright y (((List.perm_append_right_iff [z]).mp hperm).mem_iff.mp hy)
        rw [hys] at h
        have htake := lt_of_getLast?_merge htrans hleft hmem h
        intro x hx
        rw [← List.take_append_drop ((xs.length + 1 + 1) / 2) xs] at hx
        rcases List.mem_append.mp hx with hx | hx
        · exact htake x (List.mem_mergeSort.mpr hx)
        · exact hright x hx

/-! ### The order of a sort

A test that may err outside the elements sorted is no matter, so the laws are asked of those
in a set.
-/

/-- Among the elements with `S`, not being below one another is being in order. -/
structure StrictWeakOn (S : α → Prop) (lt : α → α → Bool) : Prop where
  /-- No two elements are below each other. -/
  asymm : ∀ {a b}, S a → S b → lt a b → ¬ lt b a
  /-- Being in order is transitive. -/
  trans : ∀ {a b c}, S a → S b → S c → ¬ lt b a → ¬ lt c b → ¬ lt c a

namespace StrictWeakOn

variable {S : α → Prop}

theorem pairwise_merge (h : StrictWeakOn S lt) {as bs : List α} (has : ∀ a ∈ as, S a)
    (hbs : ∀ b ∈ bs, S b) (ha : as.Pairwise fun x y => ¬ lt y x)
    (hb : bs.Pairwise fun x y => ¬ lt y x) :
    (as.merge bs lt).Pairwise fun x y => ¬ lt y x := by
  induction as generalizing bs with
  | nil => simpa using hb
  | cons a as iha =>
      induction bs with
      | nil => simpa using ha
      | cons b bs ihb =>
          obtain ⟨hSa, hSas⟩ := List.forall_mem_cons.mp has
          obtain ⟨hSb, hSbs⟩ := List.forall_mem_cons.mp hbs
          obtain ⟨haas, has'⟩ := List.pairwise_cons.mp ha
          obtain ⟨hbbs, hbs'⟩ := List.pairwise_cons.mp hb
          rw [List.cons_merge_cons]
          by_cases hab : lt a b
          · rw [if_pos hab]
            refine List.pairwise_cons.mpr ⟨fun x hx => ?_, iha hSas hbs has' hb⟩
            have hba : ¬ lt b a := h.asymm hSa hSb hab
            rcases List.mem_merge.mp hx with hx | hx
            · exact haas x hx
            · rcases List.mem_cons.mp hx with rfl | hx
              · exact hba
              · exact h.trans hSa hSb (hSbs x hx) hba (hbbs x hx)
          · rw [if_neg hab]
            refine List.pairwise_cons.mpr ⟨fun x hx => ?_, ihb hSbs hbs'⟩
            rcases List.mem_merge.mp hx with hx | hx
            · rcases List.mem_cons.mp hx with rfl | hx
              · exact hab
              · exact h.trans hSb hSa (hSas x hx) hab (haas x hx)
            · exact hbbs x hx

theorem pairwise_mergeSort (h : StrictWeakOn S lt) {xs : List α} (hxs : ∀ x ∈ xs, S x) :
    (xs.mergeSort lt).Pairwise fun x y => ¬ lt y x := by
  induction hn : xs.length using Nat.strongRecOn generalizing xs with
  | _ n ih =>
      match xs, hxs, hn with
      | [], _, _ => simp
      | [a], _, _ => simp
      | a :: b :: rest, hxs, hn =>
          have h2 : 2 ≤ (a :: b :: rest).length := by simp
          rw [mergeSort_halves h2]
          refine h.pairwise_merge ?_ ?_ (ih _ ?_ ?_ rfl) (ih _ ?_ ?_ rfl)
          · exact fun x hx => hxs x (List.mem_of_mem_take (List.mem_mergeSort.mp hx))
          · exact fun x hx => hxs x (List.mem_of_mem_drop (List.mem_mergeSort.mp hx))
          · rw [List.length_take]
            omega
          · exact fun x hx => hxs x (List.mem_of_mem_take hx)
          · rw [List.length_drop]
            omega
          · exact fun x hx => hxs x (List.mem_of_mem_drop hx)

end StrictWeakOn

end CmakeTemplate.Lib
