/-
The comparators as orders.

A comparator obeys the laws of an order where it reports one of three results for any two
operands, says EQUAL exactly of equal values, and turns round when its operands do.
`OrderLaws` asks that of the operands in a set, since a list only ever compares what is in it.

`int_comp` and `cell_comp` are total orders.  `str_comp` takes a string for EQUAL to every
longer one that it begins, so it is an order of the strings in a set just in case none of them
begins another; there, it is the lexicographic one, and `list_sort` sorts by it.  One
direction is an argument about two strings, and the other about the first place where two
strings differ, which the bound of the comparison does not cut off.
-/
import CmakeTemplate.Comparators
import CmakeTemplate.Proofs.HashTable.Refines
import CmakeTemplate.Proofs.LinkedList.Sorted
import Mathlib.Data.Prod.Lex
import Mathlib.Data.List.Lex

namespace CmakeTemplate

open Lib

/-- The laws of a total order on the operands with `S`, which are equal when their values are. -/
structure OrderLaws {β κ : Type} (S : β → Prop) (value : β → κ) (comp : β → β → CompRtns) :
    Prop where
  /-- One of three results is reported. -/
  reports : ∀ a b, S a → S b →
    comp a b = .equal ∨ comp a b = .lessThan ∨ comp a b = .greaterThan
  /-- EQUAL is equality. -/
  equal : ∀ a b, S a → S b → (comp a b = .equal ↔ value a = value b)
  /-- The order turns round with the operands. -/
  swap : ∀ a b, S a → S b → (comp a b = .lessThan ↔ comp b a = .greaterThan)
  /-- The order is transitive. -/
  trans : ∀ a b c, S a → S b → S c →
    comp a b = .lessThan → comp b c = .lessThan → comp a c = .lessThan

/-- A comparator that reports how values of a linear order compare obeys the laws. -/
theorem OrderLaws.of_linear {β κ : Type} [LinearOrder κ] {S : β → Prop} {value : β → κ}
    {comp : β → β → CompRtns}
    (hless : ∀ a b, S a → S b → (comp a b = .lessThan ↔ value a < value b))
    (hequal : ∀ a b, S a → S b → (comp a b = .equal ↔ value a = value b))
    (hgreater : ∀ a b, S a → S b → (comp a b = .greaterThan ↔ value b < value a)) :
    OrderLaws S value comp := by
  constructor
  · intro a b ha hb
    rw [hless a b ha hb, hequal a b ha hb, hgreater a b ha hb]
    rcases lt_trichotomy (value a) (value b) with h | h | h
    · exact .inr (.inl h)
    · exact .inl h
    · exact .inr (.inr h)
  · exact hequal
  · intro a b ha hb
    rw [hless a b ha hb, hgreater b a hb ha]
  · intro a b c ha hb hc hab hbc
    rw [hless a b ha hb] at hab
    rw [hless b c hb hc] at hbc
    rw [hless a c ha hc]
    exact hab.trans hbc

/-! ### Numbers and cells

Each reports how its values compare in a linear order.
-/

theorem intComp_laws (order : ByteOrder) :
    OrderLaws (fun _ => True) (loadInt order)
      fun one two => intComp order (some one) (some two) := by
  apply OrderLaws.of_linear
  · intro a b _ _
    simp only [intComp]
    split_ifs <;> simp <;> omega
  · intro a b _ _
    simp only [intComp]
    split_ifs <;> simp <;> omega
  · intro a b _ _
    simp only [intComp]
    split_ifs <;> simp <;> omega

/-- The row decides before the column. -/
def CellT.value (cell : CellT) : Lex (Int × Int) := toLex (cell.row.toInt, cell.col.toInt)

theorem CellT.value_lt {a b : CellT} :
    a.value < b.value ↔
      a.row.toInt < b.row.toInt ∨ a.row.toInt = b.row.toInt ∧ a.col.toInt < b.col.toInt :=
  Prod.Lex.toLex_lt_toLex

theorem CellT.value_eq {a b : CellT} :
    a.value = b.value ↔ a.row.toInt = b.row.toInt ∧ a.col.toInt = b.col.toInt := by
  unfold value
  rw [toLex_inj, Prod.mk.injEq]

theorem cellComp_laws :
    OrderLaws (fun _ => True) CellT.value fun one two => cellComp (some one) (some two) := by
  apply OrderLaws.of_linear
  · intro a b _ _
    simp only [cellComp, Int32.lt_iff_toInt_lt, gt_iff_lt, CellT.value_lt]
    split_ifs <;> simp <;> omega
  · intro a b _ _
    simp only [cellComp, Int32.lt_iff_toInt_lt, gt_iff_lt, CellT.value_eq]
    split_ifs <;> simp <;> omega
  · intro a b _ _
    simp only [cellComp, Int32.lt_iff_toInt_lt, gt_iff_lt, CellT.value_lt]
    split_ifs <;> simp <;> omega

/-! ### Strings

`strncmp` is followed along the two strings up to the bound, and the bound is the length of
the first.
-/

/-- The characters of a string as unsigned numbers. -/
def CString.bytes (s : CString) : List Nat := s.chars.map UInt8.toNat

theorem map_toNat_inj {cs ds : List UInt8} : cs.map UInt8.toNat = ds.map UInt8.toNat ↔ cs = ds :=
  List.map_inj_right fun _ _ h => UInt8.toNat_inj.mp h

theorem toNat_ne_zero {c : UInt8} {cs : List UInt8} (h : 0 ∉ c :: cs) : c.toNat ≠ 0 := by
  intro hc
  have hzero : c = 0 := UInt8.toNat_inj.mp hc
  exact h (by simp [hzero])

theorem strncmp_swap (cs ds : List UInt8) (n : Nat) : strncmp ds cs n = - strncmp cs ds n := by
  induction n generalizing cs ds with
  | zero => cases cs <;> cases ds <;> simp [strncmp]
  | succ n ih =>
      cases cs with
      | nil => cases ds <;> simp [strncmp]
      | cons c cs =>
          cases ds with
          | nil => simp [strncmp]
          | cons d ds =>
              by_cases hcd : c = d
              · simp only [strncmp, hcd, if_true]
                exact ih cs ds
              · simp only [strncmp, hcd, Ne.symm hcd, if_false]
                omega

/-- Below zero is first in the lexicographic order of what is compared. -/
theorem strncmp_neg {cs ds : List UInt8} {n : Nat} (hc : 0 ∉ cs) (hd : 0 ∉ ds) :
    strncmp cs ds n < 0 ↔ (cs.take n).map UInt8.toNat < (ds.take n).map UInt8.toNat := by
  induction n generalizing cs ds with
  | zero => cases cs <;> cases ds <;> simp [strncmp]
  | succ n ih =>
      cases cs with
      | nil =>
          cases ds with
          | nil => simp [strncmp]
          | cons d ds =>
              have hpos := toNat_ne_zero hd
              simp only [strncmp, List.take_nil, List.map_nil, List.take_succ_cons, List.map_cons,
                List.nil_lt_cons, iff_true]
              omega
      | cons c cs =>
          cases ds with
          | nil =>
              simp only [strncmp, List.take_nil, List.map_nil, List.not_lt_nil, iff_false]
              omega
          | cons d ds =>
              simp only [strncmp, List.take_succ_cons, List.map_cons, List.cons_lt_cons_iff]
              by_cases hcd : c = d
              · subst hcd
                have hrest := ih (fun h => hc (List.mem_cons_of_mem _ h))
                  (fun h => hd (List.mem_cons_of_mem _ h))
                simp only [if_true, hrest, Nat.lt_irrefl, true_and, false_or]
              · have hne : c.toNat ≠ d.toNat := fun h => hcd (UInt8.toNat_inj.mp h)
                simp only [hcd, if_false, hne, false_and, or_false]
                omega

/-- Cutting the greater list down to the length of the lesser one leaves it greater. -/
theorem take_length_lt_iff (xs ys : List Nat) : ys.take xs.length < xs ↔ ys < xs := by
  induction xs generalizing ys with
  | nil => simp
  | cons x xs ih =>
      cases ys with
      | nil => simp
      | cons y ys =>
          simp only [List.length_cons, List.take_succ_cons, List.cons_lt_cons_iff, ih]

/-- Cutting the greater list may leave nothing of the difference. -/
theorem lt_take_length_iff (xs ys : List Nat) :
    xs < ys.take xs.length ↔ xs < ys ∧ ¬ xs <+: ys := by
  induction xs generalizing ys with
  | nil => simp
  | cons x xs ih =>
      cases ys with
      | nil => simp
      | cons y ys =>
          simp only [List.length_cons, List.take_succ_cons, List.cons_lt_cons_iff, ih,
            List.cons_prefix_cons]
          constructor
          · rintro (h | ⟨rfl, h, hnot⟩)
            · exact ⟨.inl h, fun hp => Nat.ne_of_lt h hp.1⟩
            · exact ⟨.inr ⟨rfl, h⟩, fun hp => hnot hp.2⟩
          · rintro ⟨h | ⟨rfl, h⟩, hnot⟩
            · exact .inl h
            · exact .inr ⟨rfl, h, fun hp => hnot ⟨rfl, hp⟩⟩

theorem map_toNat_prefix {cs ds : List UInt8} :
    cs.map UInt8.toNat <+: ds.map UInt8.toNat ↔ cs <+: ds := by
  rw [List.prefix_iff_eq_take, List.prefix_iff_eq_take, List.length_map, ← List.map_take,
    map_toNat_inj]

/-- What `str_comp` compares of its first string. -/
theorem take_strnlen (a : CString) :
    a.chars.take (strnlen a maxStrLen) = a.chars.take maxStrLen := by
  rw [List.take_eq_take_iff, strnlen]
  omega

/-- EQUAL is being the beginning of the other. -/
theorem strComp_equal (a b : CString) :
    strComp (some a) (some b) = .equal ↔ a.chars.take maxStrLen <+: b.chars := by
  have hzero : strComp (some a) (some b) = .equal ↔
      strncmp a.chars b.chars (strnlen a maxStrLen) = 0 := by
    simp only [strComp]
    split_ifs <;> simp <;> omega
  rw [hzero, strncmp_eq_zero a.noNul b.noNul, take_strnlen, List.prefix_iff_eq_take,
    List.length_take, Nat.min_comm, strnlen]

theorem strComp_less {a : CString} (ha : a.chars.length < maxStrLen) (b : CString) :
    strComp (some a) (some b) = .lessThan ↔ a.bytes < b.bytes ∧ ¬ a.chars <+: b.chars := by
  have hneg : strComp (some a) (some b) = .lessThan ↔
      strncmp a.chars b.chars (strnlen a maxStrLen) < 0 := by
    simp only [strComp]
    split_ifs <;> simp <;> omega
  have hlen : strnlen a maxStrLen = a.chars.length := Nat.min_eq_left (Nat.le_of_lt ha)
  have hbytes : a.bytes.length = a.chars.length := List.length_map _
  rw [hneg, strncmp_neg a.noNul b.noNul, hlen, List.take_length, List.map_take, ← hbytes]
  show a.bytes < b.bytes.take a.bytes.length ↔ _
  rw [lt_take_length_iff]
  exact and_congr_right fun _ => not_congr map_toNat_prefix

theorem strComp_greater {a : CString} (ha : a.chars.length < maxStrLen) (b : CString) :
    strComp (some a) (some b) = .greaterThan ↔ b.bytes < a.bytes := by
  have hpos : strComp (some a) (some b) = .greaterThan ↔
      strncmp b.chars a.chars (strnlen a maxStrLen) < 0 := by
    rw [strncmp_swap a.chars b.chars]
    simp only [strComp]
    split_ifs <;> simp <;> omega
  have hlen : strnlen a maxStrLen = a.chars.length := Nat.min_eq_left (Nat.le_of_lt ha)
  have hbytes : a.bytes.length = a.chars.length := List.length_map _
  rw [hpos, strncmp_neg b.noNul a.noNul, hlen, List.take_length, List.map_take, ← hbytes]
  exact take_length_lt_iff a.bytes b.bytes

/-! ### Strings none of which begins another

Between such strings the bound makes no difference.
-/

variable {S : CString → Prop}

/-- No string of the set begins another one. -/
def PrefixFree (S : CString → Prop) : Prop :=
  ∀ a b, S a → S b → a.chars <+: b.chars → a = b

theorem CString.bytes_inj {a b : CString} : a.bytes = b.bytes ↔ a = b := by
  unfold CString.bytes
  rw [map_toNat_inj, CString.ext_iff]

theorem PrefixFree.equal (hS : ∀ s, S s → s.chars.length < maxStrLen) (hfree : PrefixFree S)
    {a b : CString} (ha : S a) (hb : S b) :
    strComp (some a) (some b) = .equal ↔ a.bytes = b.bytes := by
  rw [strComp_equal, List.take_of_length_le (Nat.le_of_lt (hS a ha)), CString.bytes_inj]
  constructor
  · intro hp
    exact hfree a b ha hb hp
  · intro hab
    exact hab ▸ List.prefix_rfl

theorem PrefixFree.less (hS : ∀ s, S s → s.chars.length < maxStrLen) (hfree : PrefixFree S)
    {a b : CString} (ha : S a) (hb : S b) :
    strComp (some a) (some b) = .lessThan ↔ a.bytes < b.bytes := by
  rw [strComp_less (hS a ha)]
  refine ⟨And.left, fun hlt => ⟨hlt, fun hp => ?_⟩⟩
  rw [hfree a b ha hb hp] at hlt
  exact absurd hlt (lt_irrefl _)

theorem PrefixFree.laws (hS : ∀ s, S s → s.chars.length < maxStrLen) (hfree : PrefixFree S) :
    OrderLaws S CString.bytes fun one two => strComp (some one) (some two) :=
  .of_linear (fun _ _ ha hb => hfree.less hS ha hb) (fun _ _ ha hb => hfree.equal hS ha hb)
    (fun a b ha _ => strComp_greater (hS a ha) b)

/-- Where equal is the same, no string begins another. -/
theorem prefixFree_of_equal
    (h : ∀ a b, S a → S b → (strComp (some a) (some b) = .equal ↔ a.bytes = b.bytes)) :
    PrefixFree S := by
  intro a b ha hb hp
  rw [← CString.bytes_inj, ← h a b ha hb, strComp_equal]
  exact (List.take_prefix _ _).trans hp

/-! ### Sorting strings

A sort compares any two strings of a list in either order, so it can only be right on a set
with the laws.
-/

/-- `list_sort` with `str_comp` leaves every list of strings of the set in lexicographic order. -/
def SortsStrings (S : CString → Prop) : Prop :=
  ∀ (α : Type) [DecidableEq α] (memory : α → CString) (s : ListMem α × ListT α) (xs : List α),
    ListSeq s xs → s.2.compareFunc = (Comparator.strComp memory).compareFunc →
    (∀ x ∈ xs, S (memory x)) →
    ∃ s' : ListMem α × ListT α, ∃ ys : List α,
      listSort s.1 s.2 = some (s'.1, s'.2, .success) ∧ listData s' = ys.map some ∧ ys.Perm xs ∧
      ys.Pairwise fun x y => (memory x).bytes ≤ (memory y).bytes

theorem strComp_preorder {α : Type} [DecidableEq α] {memory : α → CString} {xs : List α}
    (h : OrderLaws S CString.bytes fun one two => strComp (some one) (some two))
    (hS : ∀ s, S s → s.chars.length < maxStrLen) (hxs : ∀ x ∈ xs, S (memory x)) :
    TotalPreorder (Comparator.strComp memory).compareFunc (xs.map some) := by
  refine ⟨?_, ?_, ?_⟩
  · intro x hx y hy
    obtain ⟨a, ha, rfl⟩ := List.mem_map.mp hx
    obtain ⟨b, hb, rfl⟩ := List.mem_map.mp hy
    rcases h.reports _ _ (hxs a ha) (hxs b hb) with he | hl | hg
    · exact .inr (.inl he)
    · exact .inl hl
    · exact .inr (.inr hg)
  · intro x hx y hy
    obtain ⟨a, ha, rfl⟩ := List.mem_map.mp hx
    obtain ⟨b, hb, rfl⟩ := List.mem_map.mp hy
    exact h.swap _ _ (hxs a ha) (hxs b hb)
  · intro x hx y hy z hz
    obtain ⟨a, ha, rfl⟩ := List.mem_map.mp hx
    obtain ⟨b, hb, rfl⟩ := List.mem_map.mp hy
    obtain ⟨c, hc, rfl⟩ := List.mem_map.mp hz
    have hgreater : ∀ u v, u ∈ xs → (strComp (some (memory u)) (some (memory v)) = .greaterThan ↔
        (memory v).bytes < (memory u).bytes) :=
      fun u v hu => strComp_greater (hS _ (hxs u hu)) (memory v)
    show ¬ strComp (some (memory a)) (some (memory b)) = .greaterThan →
      ¬ strComp (some (memory b)) (some (memory c)) = .greaterThan →
      ¬ strComp (some (memory a)) (some (memory c)) = .greaterThan
    rw [hgreater a b ha, hgreater b c hb, hgreater a c ha, not_lt, not_lt, not_lt]
    exact le_trans

theorem OrderLaws.sortsStrings
    (h : OrderLaws S CString.bytes fun one two => strComp (some one) (some two))
    (hS : ∀ s, S s → s.chars.length < maxStrLen) : SortsStrings S := by
  intro α _ memory s xs ⟨ns, hrep, hmap⟩ hcmp hxs
  have hpre := strComp_preorder h hS hxs
  rw [← hcmp, ← hmap] at hpre
  obtain ⟨nodes', head, ns', la', hrun, hperm, hchain, hpairs⟩ := listSort_sorted hrep.chain hpre
  have hdata : (ns'.map Prod.snd).Perm (xs.map some) := hmap ▸ hperm.map Prod.snd
  -- what the nodes hold is not NULL either
  rw [← congrFun (congrFun (List.eq_map_comp_perm some) _) xs] at hdata
  obtain ⟨ys, hys, hperm'⟩ := hdata
  refine ⟨({ s.1 with nodes := nodes' }, { s.2 with head }), ys, hrun, ?_, hperm', ?_⟩
  · rw [← hys]
    exact chainData_eq hchain (Nat.lt_succ_of_le hchain.length_le)
  · have hnot : (ns'.map Prod.snd).Pairwise fun x y => s.2.compareFunc x y ≠ .greaterThan :=
      List.pairwise_map.mpr hpairs
    rw [hys, List.pairwise_map] at hnot
    refine hnot.imp_of_mem fun {x y} hx _ hxy => not_lt.mp fun hlt => hxy ?_
    rw [hcmp]
    exact (strComp_greater (hS _ (hxs x (hperm'.subset hx))) _).mpr hlt

/-! ### The three comparators

All of it in one statement: the two total orders, and the condition under which `str_comp` is
one.
-/

/-- `int_comp` and `cell_comp` are total orders; `str_comp` is one on a set of strings, and
lexicographic, and sorts by it, just in case no string of the set begins another. -/
theorem comparators_order_iff (order : ByteOrder) (S : CString → Prop)
    (hS : ∀ s, S s → s.chars.length < maxStrLen) :
    OrderLaws (fun _ => True) (loadInt order)
        (fun one two => intComp order (some one) (some two)) ∧
      OrderLaws (fun _ => True) CellT.value (fun one two => cellComp (some one) (some two)) ∧
      (OrderLaws S CString.bytes (fun one two => strComp (some one) (some two)) ∧
          (∀ a b, S a → S b → (strComp (some a) (some b) = .lessThan ↔ a.bytes < b.bytes)) ∧
          SortsStrings S ↔
        PrefixFree S) := by
  refine ⟨intComp_laws order, cellComp_laws, ?_⟩
  constructor
  · intro h
    exact prefixFree_of_equal h.1.equal
  · intro hfree
    have hlaws := hfree.laws hS
    exact ⟨hlaws, fun a b ha hb => hfree.less hS ha hb, hlaws.sortsStrings hS⟩

/-- The strings `"a"`, `"ab"` and `"b"`. -/
def stringA : CString := ⟨[97], by decide⟩

def stringAb : CString := ⟨[97, 98], by decide⟩

def stringB : CString := ⟨[98], by decide⟩

theorem comparators_order_two :
    SortsStrings fun s => s = stringAb ∨ s = stringB := by
  have hS : ∀ s, s = stringAb ∨ s = stringB → s.chars.length < maxStrLen := by
    rintro s (rfl | rfl)
    · decide
    · decide
  refine ((comparators_order_iff .littleEndian _ hS).2.2.mpr ?_).2.2
  rintro a b (rfl | rfl) (rfl | rfl) hp
  · rfl
  · exact absurd hp (by decide)
  · exact absurd hp (by decide)
  · rfl

/-- `"a"` is EQUAL to `"ab"` and `"ab"` is not EQUAL to `"a"`, and a list of the two in this order
comes out the other way round. -/
theorem strComp_prefix :
    stringA.bytes < stringAb.bytes ∧ strComp (some stringA) (some stringAb) = .equal ∧
      strComp (some stringAb) (some stringA) = .greaterThan ∧
      ∃ s s', listRun (⟨.empty, []⟩, listNew true (Comparator.strComp id).compareFunc)
          [.pushTail stringA, .pushTail stringAb] = some (s, [.code .success, .code .success]) ∧
        listSort s.1 s.2 = some (s'.1, s'.2, .success) ∧
        listData s' = [some stringAb, some stringA] := by
  refine ⟨by decide, by decide, by decide, ?_⟩
  exact ⟨_, (_, _), rfl, rfl, rfl⟩

end CmakeTemplate
