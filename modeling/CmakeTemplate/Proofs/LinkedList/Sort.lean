/-
What `merge_sort` does to a chain.

On the nodes it is `List.mergeSort` with the test LESS_THAN: the same halves, and the same
choice in a tie.  The two recursions go the same way, so the proof is an induction on the
length of the chain, with a lemma for the split and one for the merge.

Every node that is merged has its `next` and `prev` set again, so the result is a doubly
linked chain; nothing outside it is touched.  A chain of one node is left as it is, with
whatever its `prev` was, so the head of the result has `prev` NULL because the last merge has
set it, or because it was the only node.  `list_sort` writes the new head back, and that is
all.
-/
import CmakeTemplate.Proofs.LinkedList.Push
import CmakeTemplate.Lib.MergeSort

namespace CmakeTemplate

open Lib

variable {α : Type} {nodes : Store (ListNode α)} {ns : List (Nat × Option α)}

/-- The test of `merge` on two nodes. -/
def Less (cmp : Option α → Option α → CompRtns) (x y : Nat × Option α) : Bool :=
  cmp x.2 y.2 = .lessThan

/-! ### Splitting

The slow pointer comes to the node in front of the second half, which is cut off there.
-/

/-- The loop of `split` takes one step of `slow` for every two nodes under `fast`. -/
theorem splitLoop_eq {fs : List (Nat × Option α)} {pr fast la slow : Ptr} {fuel : Nat}
    (h : DChain nodes pr fast fs la none) (hfuel : fs.length ≤ fuel) :
    splitLoop nodes fuel slow fast = advance nodes (fs.length / 2) slow := by
  induction fuel generalizing fs pr fast slow with
  | zero =>
      obtain rfl : fs = [] := List.length_eq_zero_iff.mp (Nat.le_zero.mp hfuel)
      rw [h.1]
      simp [splitLoop, advance]
  | succ fuel ih =>
      cases fs with
      | nil =>
          rw [h.1]
          simp [splitLoop, advance]
      | cons a fs =>
          cases fs with
          | nil =>
              obtain ⟨rfl, -, ha⟩ := DChain.single.mp h
              simp [splitLoop, advance, ha]
          | cons b fs =>
              obtain ⟨rfl, k, ha, rfl, k', hb, hrest⟩ := h
              simp only [List.length_cons] at hfuel
              simp only [splitLoop, ha, hb, Option.bind_eq_bind, Option.bind_some, Store.load_some,
                reduceCtorEq, if_false]
              rw [show (a :: b :: fs).length / 2 = fs.length / 2 + 1 by simp; omega, advance]
              refine Option.bind_congr fun s _ => ?_
              exact ih hrest (by omega)

/-- `split` cuts behind the node in the middle. -/
theorem split_spec {pr p la : Ptr} (h : DChain nodes pr p ns la none) (h2 : 2 ≤ ns.length) :
    ∃ nodes' q l, split nodes p = some (nodes', p, q) ∧
      DChain nodes' pr p (ns.take ((ns.length + 1) / 2)) l none ∧
      DChain nodes' l q (ns.drop ((ns.length + 1) / 2)) la none ∧
      nodes.SameOff nodes' (ns.map Prod.fst) := by
  obtain ⟨xs, x, y, ys, hns, hk⟩ := @cut_inside _ ns ((ns.length + 1) / 2)
    (by omega) (by omega)
  have hhalf : (ns.length - 1) / 2 = xs.length := by omega
  have hkx : (ns.length + 1) / 2 = (xs ++ [x]).length := by simp [hk]
  have htake : ns.take ((ns.length + 1) / 2) = xs ++ [x] := by
    rw [hkx, hns, List.take_left]
  have hdrop : ns.drop ((ns.length + 1) / 2) = y :: ys := by
    rw [hkx, hns, List.drop_left]
  rw [htake, hdrop]
  -- the walk of `fast` starts at the second node
  obtain ⟨n, rest, hcons⟩ := List.exists_cons_of_length_pos (l := ns) (by omega)
  have hloop : ∀ h' : DChain nodes pr p (n :: rest) la none, ∃ c, nodes.load p = some c ∧
      splitLoop nodes (walkFuel nodes) p c.next = advance nodes xs.length p := by
    rintro ⟨rfl, k, hn, hrest⟩
    refine ⟨_, hn, ?_⟩
    have hlen : rest.length / 2 = xs.length := by
      rw [hcons, List.length_cons, Nat.add_sub_cancel] at hhalf
      exact hhalf
    exact hlen ▸ splitLoop_eq hrest (Nat.le_succ_of_le hrest.length_le)
  obtain ⟨c, hc, hrun⟩ := hloop (hcons ▸ h)
  rw [hns] at h
  have hnd := h.nodup
  obtain ⟨r, mid, hleft, hright⟩ := DChain.append.mp h
  obtain ⟨l, hxs, rfl, hx⟩ := DChain.snoc.mp hleft
  have hxn : x.1 ∉ xs.map Prod.fst := DChain.notMem_left (DChain.nodup_left hnd) (by simp)
  refine ⟨nodes.upd x.1 fun c => { c with next := none }, mid, some x.1, ?_,
    hleft.setNext none hxn, hright.upd (DChain.notMem_right hnd (by simp)) _,
    (Store.SameOff.upd _ _ _).mono (by simp [hns])⟩
  rw [advance_chain hxs] at hrun
  simp [split, hc, hrun, hx, setNext_live hx]

/-! ### Merging

The recursion is followed from the shorter rest up.
-/

/-- Putting one node in front of a merged rest: the three stores that `merge` makes
after its recursive call. -/
theorem relink {nodes' : Store (ListNode α)} {n : Nat × Option α} {ms : List (Nat × Option α)}
    {as : List Nat} {pr r nx head la : Ptr} (hn : nodes.get n.1 = some ⟨n.2, r, nx⟩)
    (h : DChain nodes' pr head ms la none) (hne : ms ≠ []) (hsame : nodes.SameOff nodes' as)
    (hnot : n.1 ∉ as) (hms : ms.map Prod.fst ⊆ as) :
    ∃ nodes₁ nodes₂ nodes₃, setNext nodes' (some n.1) head = some nodes₁ ∧
      setPrev nodes₁ head (some n.1) = some nodes₂ ∧
      setPrev nodes₂ (some n.1) none = some nodes₃ ∧
      DChain nodes₃ none (some n.1) (n :: ms) la none ∧ nodes.SameOff nodes₃ (n.1 :: as) := by
  obtain ⟨k, ks, rfl⟩ := List.exists_cons_of_ne_nil hne
  obtain ⟨rfl, q, hkget, -⟩ := id h
  have hnms : n.1 ∉ (k :: ks).map Prod.fst := fun hc => hnot (hms hc)
  have hk : k.1 ∉ ks.map Prod.fst := (List.nodup_cons.mp h.nodup).1
  have hkn : k.1 ≠ n.1 := ne_of_notMem_addrs hnms (by simp)
  have hkas : k.1 ∈ as := hms (by simp)
  have hnget : nodes'.get n.1 = some ⟨n.2, r, nx⟩ := by rw [hsame.get _ hnot, hn]
  refine ⟨nodes'.upd n.1 fun c => { c with next := some k.1 },
    (nodes'.upd n.1 fun c => { c with next := some k.1 }).upd k.1 fun c =>
      { c with prev := some n.1 },
    ((nodes'.upd n.1 fun c => { c with next := some k.1 }).upd k.1 fun c =>
      { c with prev := some n.1 }).upd n.1 fun c => { c with prev := none },
    setNext_live hnget _, setPrev_live (c := ⟨k.2, pr, q⟩) ?_ _,
    setPrev_live (c := ⟨n.2, r, some k.1⟩) ?_ _, ⟨rfl, some k.1, ?_, ?_⟩, ?_⟩
  · rw [Store.get_upd_ne _ _ hkn, hkget]
  · rw [Store.get_upd_ne _ _ hkn.symm, Store.get_upd_self, hnget]
    rfl
  · rw [Store.get_upd_self, Store.get_upd_ne _ _ hkn.symm, Store.get_upd_self, hnget]
    rfl
  · exact ((h.upd hnms _).setPrev (some n.1) hk).upd hnms _
  · exact (hsame.mono (by simp)).trans (((Store.SameOff.upd _ _ _).mono (by simp)).trans
      (((Store.SameOff.upd _ _ _).mono (by simp [hkas])).trans
        ((Store.SameOff.upd _ _ _).mono (by simp))))

theorem merge_spec (cmp : Option α → Option α → CompRtns) {as bs : List (Nat × Option α)}
    {r₁ r₂ p q l₁ l₂ : Ptr} {fuel : Nat} (ha : DChain nodes r₁ p as l₁ none)
    (hb : DChain nodes r₂ q bs l₂ none) (hnd : ((as ++ bs).map Prod.fst).Nodup)
    (hfuel : as.length + bs.length ≤ fuel) :
    ∃ nodes' r head la, merge cmp fuel nodes p q = some (nodes', head) ∧
      DChain nodes' r head (as.merge bs (Less cmp)) la none ∧
      nodes.SameOff nodes' ((as ++ bs).map Prod.fst) ∧ (as ≠ [] → bs ≠ [] → r = none) := by
  induction fuel generalizing as bs nodes r₁ r₂ p q l₁ l₂ with
  | zero =>
      obtain rfl : as = [] := List.length_eq_zero_iff.mp (by omega)
      obtain rfl : bs = [] := List.length_eq_zero_iff.mp (by omega)
      rw [ha.1, hb.1]
      refine ⟨nodes, r₂, none, l₂, by simp [merge], ?_, .refl _ _, by simp⟩
      simpa [hb.1] using hb
  | succ fuel ih =>
      match as, bs, ha, hb with
      | [], bs, ha, hb =>
          rw [ha.1]
          exact ⟨nodes, r₂, q, l₂, by simp [merge], by simpa using hb, .refl _ _, by simp⟩
      | a :: as, [], ha, hb =>
          obtain ⟨rfl, -⟩ := id ha
          rw [hb.1]
          exact ⟨nodes, r₁, some a.1, l₁, by simp [merge], by simpa using ha, .refl _ _, by simp⟩
      | a :: as, b :: bs, ha, hb =>
          obtain ⟨rfl, ka, haget, harest⟩ := id ha
          obtain ⟨rfl, kb, hbget, hbrest⟩ := id hb
          simp only [List.length_cons] at hfuel
          by_cases hab : cmp a.2 b.2 = .lessThan
          · -- `a` goes first, in front of the merge of `as` and `b :: bs`
            obtain ⟨hnot, hnd'⟩ := List.nodup_cons.mp hnd
            obtain ⟨nodes', r, head, la, hrun, hchain, hsame, -⟩ := ih harest hb hnd' (by
              simp only [List.length_cons]
              omega)
            obtain ⟨n₁, n₂, n₃, h₁, h₂, h₃, hres, hoff⟩ := relink haget hchain
              (merge_ne_nil (.inr (by simp))) hsame hnot
              ((List.merge_perm_append (Less cmp)).map Prod.fst).subset
            refine ⟨n₃, none, some a.1, la, ?_, ?_, hoff, fun _ _ => rfl⟩
            · simp [merge, haget, hbget, hab, hrun, h₁, h₂, h₃]
            · rw [List.cons_merge_cons_pos _ _ _ (by simpa [Less] using hab)]
              exact hres
          · -- `b` goes first, in front of the merge of `a :: as` and `bs`
            have hperm : ((a :: as ++ b :: bs).map Prod.fst).Perm
                (b.1 :: (a :: as ++ bs).map Prod.fst) :=
              List.perm_middle.map Prod.fst
            obtain ⟨hnot, hnd'⟩ := List.nodup_cons.mp (hperm.nodup_iff.mp hnd)
            obtain ⟨nodes', r, head, la, hrun, hchain, hsame, -⟩ := ih ha hbrest hnd' (by
              simp only [List.length_cons]
              omega)
            obtain ⟨n₁, n₂, n₃, h₁, h₂, h₃, hres, hoff⟩ := relink hbget hchain
              (merge_ne_nil (.inl (by simp))) hsame hnot
              ((List.merge_perm_append (Less cmp)).map Prod.fst).subset
            refine ⟨n₃, none, some b.1, la, ?_, ?_, hoff.mono hperm.symm.subset, fun _ _ => rfl⟩
            · simp [merge, haget, hbget, hab, hrun, h₁, h₂, h₃]
            · rw [List.cons_merge_cons_neg _ _ _ (by simpa [Less] using hab)]
              exact hres

/-! ### Sorting

Two halves that are sorted are merged into one chain.
-/

theorem mergeSort_spec (cmp : Option α → Option α → CompRtns) {pr p la : Ptr} {fuel : Nat}
    (h : DChain nodes pr p ns la none) (hfuel : ns.length ≤ fuel) :
    ∃ nodes' r head la', mergeSort cmp fuel nodes p = some (nodes', head) ∧
      DChain nodes' r head (ns.mergeSort (Less cmp)) la' none ∧
      nodes.SameOff nodes' (ns.map Prod.fst) ∧ (pr = none → r = none) := by
  induction fuel generalizing ns nodes pr p la with
  | zero =>
      obtain rfl : ns = [] := List.length_eq_zero_iff.mp (Nat.le_zero.mp hfuel)
      rw [h.1]
      exact ⟨nodes, pr, none, la, by simp [mergeSort], by simpa [h.1] using h, .refl _ _, id⟩
  | succ fuel ih =>
      match ns, h with
      | [], h =>
          rw [h.1]
          exact ⟨nodes, pr, none, la, by simp [mergeSort], by simpa [h.1] using h, .refl _ _, id⟩
      | [a], h =>
          obtain ⟨rfl, -, ha⟩ := DChain.single.mp h
          exact ⟨nodes, pr, some a.1, la, by simp [mergeSort, ha], by simpa using h, .refl _ _, id⟩
      | a :: b :: rest, h =>
          have hlen : 2 ≤ (a :: b :: rest).length := by simp
          have hnd := h.nodup
          obtain ⟨rfl, k, ha, rfl, -⟩ := id h
          obtain ⟨nodes₁, q, l, hsplit, hfirst, hsecond, hsame₁⟩ := split_spec h hlen
          rw [mergeSort_halves hlen]
          generalize hfs : (a :: b :: rest).take (((a :: b :: rest).length + 1) / 2) = fs at *
          generalize hss : (a :: b :: rest).drop (((a :: b :: rest).length + 1) / 2) = ss at *
          have hns : a :: b :: rest = fs ++ ss := by rw [← hfs, ← hss, List.take_append_drop]
          have hfl : fs.length = ((a :: b :: rest).length + 1) / 2 := by
            rw [← hfs, List.length_take]
            omega
          have hsl : ss.length = (a :: b :: rest).length - ((a :: b :: rest).length + 1) / 2 := by
            rw [← hss, List.length_drop]
          rw [hns] at hnd hsame₁ ⊢
          -- the first half sorted, the second half untouched by it
          obtain ⟨nodes₂, r₁, p₁, l₁, hrun₁, hsort₁, hsame₂, -⟩ := ih hfirst (by omega)
          have hsecond' := hsecond.frame hsame₂ fun x hx hc => by
            rw [List.map_append, List.nodup_append] at hnd
            exact hnd.2.2 x hx x hc rfl
          -- the second half sorted, the first half untouched by it
          obtain ⟨nodes₃, r₂, p₂, l₂, hrun₂, hsort₂, hsame₃, -⟩ := ih hsecond' (by omega)
          have hpf := (List.mergeSort_perm fs (Less cmp)).map Prod.fst
          have hps := (List.mergeSort_perm ss (Less cmp)).map Prod.fst
          have hsort₁' := hsort₁.frame hsame₃ fun x hx hc => by
            rw [List.map_append, List.nodup_append] at hnd
            exact hnd.2.2 x (hpf.subset hc) x hx rfl
          have hperm : ((fs.mergeSort (Less cmp) ++ ss.mergeSort (Less cmp)).map Prod.fst).Perm
              ((fs ++ ss).map Prod.fst) := by
            rw [List.map_append, List.map_append]
            exact hpf.append hps
          have hnext : nodes₃.next = nodes.next :=
            hsame₃.next.trans (hsame₂.next.trans hsame₁.next)
          have hwalk : (fs.mergeSort (Less cmp)).length + (ss.mergeSort (Less cmp)).length ≤
              walkFuel nodes₃ := by
            have := h.length_le
            rw [List.length_mergeSort, List.length_mergeSort, walkFuel, hnext]
            omega
          obtain ⟨nodes₄, r, head, la', hmerge, hchain, hsame₄, hr⟩ := merge_spec cmp hsort₁'
            hsort₂ (hperm.nodup_iff.mpr hnd) hwalk
          refine ⟨nodes₄, r, head, la', ?_, hchain, ?_, fun _ => hr ?_ ?_⟩
          · simp [mergeSort, ha, hsplit, hrun₁, hrun₂, hmerge]
          · exact hsame₁.trans ((hsame₂.mono (by simp)).trans
              ((hsame₃.mono (by simp)).trans (hsame₄.mono hperm.subset)))
          · exact List.length_pos_iff.mp (by rw [List.length_mergeSort]; omega)
          · exact List.length_pos_iff.mp (by rw [List.length_mergeSort]; omega)

/-- `list_sort` orders the chain and leaves `tail` where it was. -/
theorem listSort_spec {m : ListMem α} {list : ListT α} {la : Ptr}
    (h : DChain m.nodes none list.head ns la none) :
    ∃ nodes' head la, listSort m list = some ({ m with nodes := nodes' }, { list with head },
        .success) ∧
      DChain nodes' none head (ns.mergeSort (Less list.compareFunc)) la none := by
  have hfuel : ns.length ≤ walkFuel m.nodes := Nat.le_succ_of_le h.length_le
  obtain ⟨nodes', r, head, la, hrun, hchain, -, hr⟩ :=
    mergeSort_spec list.compareFunc h hfuel
  refine ⟨nodes', head, la, ?_, hr rfl ▸ hchain⟩
  simp [listSort, hrun]

end CmakeTemplate
