/-
A sort puts the chain in order.

`merge` asks only whether the first is LESS_THAN the second, so the nodes come out in order
wherever the callback reports a total preorder of their data.  In a tie the second goes first,
which is the other way round than a stable sort; the order is right all the same.  The
callback is asked about the data of the list alone, and may do as it likes with any other.

Neither `tail` nor `size` is looked at, and a list of any length is sorted: the sort returns,
keeps the nodes and their data, and leaves them linked both ways from the new head on, with no
node in front of a lesser one.
-/
import CmakeTemplate.Proofs.LinkedList.Linked

namespace CmakeTemplate

open Lib

variable {α : Type} {m : ListMem α} {list : ListT α} {ns : List (Nat × Option α)} {la : Ptr}
  {cmp : Option α → Option α → CompRtns}

/-- The callback reports a total preorder of the data. -/
structure TotalPreorder (cmp : Option α → Option α → CompRtns) (data : List (Option α)) :
    Prop where
  /-- One of three results is reported. -/
  reports : ∀ x ∈ data, ∀ y ∈ data,
    cmp x y = .lessThan ∨ cmp x y = .equal ∨ cmp x y = .greaterThan
  /-- The order turns round with the arguments. -/
  swap : ∀ x ∈ data, ∀ y ∈ data, cmp x y = .lessThan ↔ cmp y x = .greaterThan
  /-- The order is transitive. -/
  trans : ∀ x ∈ data, ∀ y ∈ data, ∀ z ∈ data,
    cmp x y ≠ .greaterThan → cmp y z ≠ .greaterThan → cmp x z ≠ .greaterThan

theorem TotalPreorder.strictWeakOn (h : TotalPreorder cmp (ns.map Prod.snd)) :
    StrictWeakOn (· ∈ ns) (Less cmp) := by
  have hdata : ∀ {x}, x ∈ ns → x.2 ∈ ns.map Prod.snd := fun hx => List.mem_map_of_mem hx
  have hless : ∀ {x y}, x ∈ ns → y ∈ ns → (Less cmp x y ↔ cmp y.2 x.2 = .greaterThan) := by
    intro x y hx hy
    rw [Less, decide_eq_true_eq]
    exact h.swap _ (hdata hx) _ (hdata hy)
  refine ⟨fun {a b} ha hb hab hba => ?_, fun {a b c} ha hb hc hba hcb hca => ?_⟩
  · rw [hless ha hb] at hab
    rw [Less, decide_eq_true_eq, hab] at hba
    exact absurd hba (by simp)
  · rw [hless hb ha] at hba
    rw [hless hc hb] at hcb
    exact h.trans _ (hdata ha) _ (hdata hb) _ (hdata hc) hba hcb ((hless hc ha).mp hca)

/-- A sort returns, and leaves the same nodes linked both ways with none in front of a lesser
one. -/
theorem listSort_sorted (h : DChain m.nodes none list.head ns la none)
    (hcmp : TotalPreorder list.compareFunc (ns.map Prod.snd)) :
    ∃ nodes' head ns' la', listSort m list =
        some ({ m with nodes := nodes' }, { list with head }, .success) ∧
      ns'.Perm ns ∧ DChain nodes' none head ns' la' none ∧
      ns'.Pairwise fun x y => list.compareFunc x.2 y.2 ≠ .greaterThan := by
  obtain ⟨nodes', head, la', hrun, hchain⟩ := listSort_spec h
  have hperm := List.mergeSort_perm ns (Less list.compareFunc)
  refine ⟨nodes', head, _, la', hrun, hperm, hchain, ?_⟩
  have hpairs := hcmp.strictWeakOn.pairwise_mergeSort fun _ hx => hx
  refine hpairs.imp_of_mem fun {x y} hx hy hyx hgt => hyx ?_
  have hswap := hcmp.swap y.2 (List.mem_map_of_mem (hperm.subset hy)) x.2
    (List.mem_map_of_mem (hperm.subset hx))
  rw [Less, decide_eq_true_eq]
  exact hswap.mpr hgt

theorem natCompare_preorder (xs : List Nat) : TotalPreorder natCompare (xs.map some) := by
  have hgt : ∀ x y : Nat, natCompare (some x) (some y) = .greaterThan ↔ y < x := by
    intro x y
    rcases Nat.lt_trichotomy x y with h | h | h
    · simp [natCompare, h, Nat.lt_asymm h]
    · simp [natCompare, h]
    · simp [natCompare, h, Nat.lt_asymm h]
  refine ⟨?_, ?_, ?_⟩
  · intro x hx y hy
    obtain ⟨x, -, rfl⟩ := List.mem_map.mp hx
    obtain ⟨y, -, rfl⟩ := List.mem_map.mp hy
    simp only [natCompare]
    split_ifs <;> simp
  · intro x hx y hy
    obtain ⟨x, -, rfl⟩ := List.mem_map.mp hx
    obtain ⟨y, -, rfl⟩ := List.mem_map.mp hy
    rw [hgt]
    simp only [natCompare]
    split_ifs <;> simp [*]
  · intro x hx y hy z hz
    obtain ⟨x, -, rfl⟩ := List.mem_map.mp hx
    obtain ⟨y, -, rfl⟩ := List.mem_map.mp hy
    obtain ⟨z, -, rfl⟩ := List.mem_map.mp hz
    simp only [ne_eq, hgt]
    omega

/-- Three nodes, two of them with the same number. -/
theorem listSort_sorted_run :
    ∃ s nodes' head ns' la', numbersAfter [.pushTail 2, .pushTail 1, .pushTail 2] = some s ∧
      listSort s.1 s.2 = some ({ s.1 with nodes := nodes' }, { s.2 with head }, .success) ∧
      ns'.Perm [(0, some 2), (1, some 1), (2, some 2)] ∧ DChain nodes' none head ns' la' none ∧
      ns'.Pairwise fun x y => natCompare x.2 y.2 ≠ .greaterThan := by
  obtain ⟨s, hs, hchain, hcmp⟩ :
      ∃ s, numbersAfter [.pushTail 2, .pushTail 1, .pushTail 2] = some s ∧
        DChain s.1.nodes none s.2.head [(0, some 2), (1, some 1), (2, some 2)] (some 2) none ∧
        s.2.compareFunc = natCompare :=
    ⟨_, rfl, ⟨rfl, _, rfl, rfl, _, rfl, rfl, _, rfl, rfl, rfl⟩, rfl⟩
  obtain ⟨nodes', head, ns', la', hsort, hperm, hlinks, hpairs⟩ :=
    listSort_sorted hchain (hcmp ▸ natCompare_preorder [2, 1, 2])
  rw [hcmp] at hpairs
  exact ⟨s, nodes', head, ns', la', hs, hsort, hperm, hlinks, hpairs⟩

end CmakeTemplate
