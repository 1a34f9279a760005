/-
A random item of a list that is not empty.

The bounds that `list_pick_random_item` passes to `random_number` are 0 and the size less one.
A list that is longer than an `int` can count is refused in front, so these bounds are `int`s
that are never too far apart: the number of values between them is at most `INT_MAX`, and
nothing overflows.

So the index is what `random` returns, modulo the length, and the walk of that many nodes ends
at one of them, whose data are returned.  Every item can come up, since every index below the
length is a remainder.  A list that is refused has no item to hand out, and the seed is then
left alone.
-/
import CmakeTemplate.RandomItem
import CmakeTemplate.Proofs.LinkedList.Refines
import CmakeTemplate.Proofs.Math.NumberGenerator

namespace CmakeTemplate

open Lib

variable {α : Type} {m : ListMem α} {list : ListT α} {xs : List α}

theorem pickLoop_chain {nodes : Store (ListNode α)} {ns : List (Nat × Option α)} {pr p la q : Ptr}
    (h : DChain nodes pr p ns la q) : pickLoop nodes ns.length p = some q := by
  induction ns generalizing pr p with
  | nil =>
      obtain ⟨rfl, -⟩ := h
      cases p <;> rfl
  | cons n ns ih =>
      obtain ⟨rfl, k, hn, hrest⟩ := h
      simp only [List.length_cons, pickLoop, hn, Option.bind_eq_bind, Option.bind_some]
      exact ih hrest

/-- The loop with an index inside the list ends at the node with this index. -/
theorem pickLoop_index {ns : List (Nat × Option α)} (h : ListRep m list ns) {k : Nat}
    (hk : k < ns.length) :
    ∃ node cell, pickLoop m.nodes k list.head = some (some node) ∧
      m.nodes.get node = some cell ∧ cell.data = (ns[k]).2 := by
  have hcut : ns = ns.take k ++ ns[k] :: ns.drop (k + 1) := by
    rw [List.getElem_cons_drop, List.take_append_drop]
  have htake : (ns.take k).length = k := by
    rw [List.length_take]
    omega
  have hchain := h.chain
  rw [hcut] at hchain
  obtain ⟨r, mid, hleft, rfl, next, hn, -⟩ := DChain.append.mp hchain
  have hwalk := pickLoop_chain hleft
  rw [htake] at hwalk
  exact ⟨_, _, hwalk, hn, rfl⟩

theorem data_eq_getElem? {ns : List (Nat × Option α)} (hmap : ns.map Prod.snd = xs.map some)
    {k : Nat} (hk : k < ns.length) : (ns[k]).2 = xs[k]? := by
  have hk' : k < xs.length := ListSeq.length_eq hmap ▸ hk
  have hitem : (ns.map Prod.snd)[k]? = (xs.map some)[k]? := by rw [hmap]
  rw [List.getElem?_map, List.getElem?_map, List.getElem?_eq_getElem hk,
    List.getElem?_eq_getElem hk'] at hitem
  rw [List.getElem?_eq_getElem hk']
  exact Option.some.inj hitem

theorem toInt_lastIndex {size : UInt32} (hsize : size ≠ 0) (hmax : (size.toNat : Int) ≤ int32Max) :
    (Int32.ofNat (size - 1).toNat).toInt = size.toNat - 1 := by
  have hpos : 0 < size.toNat := Nat.pos_of_ne_zero fun hc => hsize (eq_zero_iff.mpr hc)
  unfold int32Max at hmax
  rw [toNat_pred hpos, Int32.toInt_ofNat_of_lt (by omega)]
  omega

/-- A list that holds `xs` hands out the item whose index is the random value modulo the length. -/
theorem listPickRandomItem_spec (h : ListSeq (m, list) xs) (hne : xs ≠ [])
    (hlen : (xs.length : Int) ≤ int32Max) {random : Int} (hmin : 0 ≤ random)
    (hmax : random ≤ int32Max) (state : SeedState) (sources : SeedSources) :
    listPickRandomItem state sources random m (some list)
      = some (xs[(random % xs.length).toNat]?, setSeed state sources) := by
  have hsize : list.size ≠ 0 := h.size_ne_zero_iff.mpr hne
  obtain ⟨ns, hrep, hmap⟩ := h
  dsimp only at hrep
  have hlength : ns.length = xs.length := ListSeq.length_eq hmap
  have hcount : (list.size.toNat : Int) = xs.length := by
    rw [hrep.size, hlength]
  have hlast := toInt_lastIndex hsize (hcount ▸ hlen)
  rw [hcount] at hlast
  have hpos : 0 < (xs.length : Int) := by
    have hpos := List.length_pos_iff.mpr hne
    omega
  have hzero : (0 : Int32).toInt = 0 := rfl
  obtain ⟨r, hcall, hvalue⟩ := randomNumber_success state sources 0 hmin hmax
    (show (0 : Int32).toInt ≤ (Int32.ofNat (list.size - 1).toNat).toInt by omega) (by omega)
  rw [hlast, hzero, Int.zero_add, Int.sub_zero, Int.sub_add_cancel] at hvalue
  have hlt := Int.emod_lt_of_pos random hpos
  have hnonneg := Int.emod_nonneg random hpos.ne'
  have hk : (random % xs.length).toNat < ns.length := by omega
  obtain ⟨node, cell, hloop, hcell, hdata⟩ := pickLoop_index hrep hk
  rw [data_eq_getElem? hmap hk] at hdata
  unfold listPickRandomItem
  simp only [if_neg hsize, hcount, if_neg (Int.not_lt.mpr hlen), hcall, Option.bind_eq_bind,
    Option.bind_some, Option.getD_some, ne_eq, not_true, if_false, hvalue, hloop, reduceCtorEq,
    Store.load_some, hcell, Option.map_some, hdata]

/-- An empty list, and one with more items than an `int` can count, have none to hand out; the seed
is left alone. -/
theorem listPickRandomItem_none (h : ListSeq (m, list) xs)
    (hout : xs = [] ∨ int32Max < (xs.length : Int)) (random : Int) (state : SeedState)
    (sources : SeedSources) :
    listPickRandomItem state sources random m (some list) = some (none, state) := by
  have hsizeIff := h.size_ne_zero_iff
  obtain ⟨ns, hrep, hmap⟩ := h
  dsimp only at hrep hsizeIff
  unfold listPickRandomItem
  by_cases hsize : list.size = 0
  · exact if_pos hsize
  · have hcount : (list.size.toNat : Int) = xs.length := by
      rw [hrep.size, ListSeq.length_eq hmap]
    have hlarge : int32Max < (xs.length : Int) := hout.resolve_left (hsizeIff.mp hsize)
    simp only [if_neg hsize]
    rw [if_pos (by omega)]

end CmakeTemplate
