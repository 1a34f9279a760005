/-
Doubly linked chains in a store.

`DChain s pr p ns la q` is the piece of a doubly linked list that starts at `p`,
holds the cells `ns`, and is left through `q`: `pr` is what its first cell points
back to, and `la` is its last cell (`pr` itself when the piece is empty).  A whole
list is the piece between two NULLs.  Cutting a list anywhere gives two pieces that
agree on two pointers, the one across the cut and the one back (`append`), so a
relinking is a cut, a change at an end of a piece (`setPrev`, `setNext`), and the
pieces put together again.
-/
import CmakeTemplate.Lib.Chain

namespace CmakeTemplate.Lib

/-- A cell of a doubly linked list. -/
structure DCell (δ : Type) where
  /-- What is kept in the cell. -/
  data : δ
  /-- The cell in front of it, or NULL at the head. -/
  prev : Ptr
  /-- The cell behind it, or NULL at the tail. -/
  next : Ptr

/-- The piece of a doubly linked list from `p` to `q` with the cells `ns`. -/
def DChain {δ : Type} (s : Store (DCell δ)) : Ptr → Ptr → List (Nat × δ) → Ptr → Ptr → Prop
  | pr, p, [], la, q => p = q ∧ pr = la
  | pr, p, n :: ns, la, q =>
    p = some n.1 ∧ ∃ m, s.get n.1 = some ⟨n.2, pr, m⟩ ∧ DChain s (some n.1) m ns la q

namespace DChain

variable {δ : Type} {s t : Store (DCell δ)}

theorem append {xs ys : List (Nat × δ)} {pr p la q : Ptr} :
    DChain s pr p (xs ++ ys) la q ↔
      ∃ r m, DChain s pr p xs r m ∧ DChain s r m ys la q := by
  induction xs generalizing pr p with
  | nil =>
      constructor
      · intro h; exact ⟨pr, p, ⟨rfl, rfl⟩, h⟩
      · rintro ⟨r, m, ⟨rfl, rfl⟩, h⟩; exact h
  | cons n xs ih =>
      simp only [List.cons_append, DChain, ih]
      constructor
      · rintro ⟨hp, m, hm, r, k, h1, h2⟩
        exact ⟨r, k, ⟨hp, m, hm, h1⟩, h2⟩
      · rintro ⟨r, k, ⟨hp, m, hm, h1⟩, h2⟩
        exact ⟨hp, m, hm, r, k, h1, h2⟩

/-- A piece of one cell. -/
theorem single {n : Nat × δ} {pr p la q : Ptr} :
    DChain s pr p [n] la q ↔ p = some n.1 ∧ la = some n.1 ∧ s.get n.1 = some ⟨n.2, pr, q⟩ := by
  constructor
  · rintro ⟨hp, m, hm, hq, hla⟩
    exact ⟨hp, hla.symm, by rw [hm, hq]⟩
  · rintro ⟨hp, hla, hm⟩
    exact ⟨hp, q, hm, rfl, hla.symm⟩

theorem snoc {xs : List (Nat × δ)} {n : Nat × δ} {pr p la q : Ptr} :
    DChain s pr p (xs ++ [n]) la q ↔
      ∃ r, DChain s pr p xs r (some n.1) ∧ la = some n.1 ∧ s.get n.1 = some ⟨n.2, r, q⟩ := by
  rw [append]
  constructor
  · rintro ⟨r, m, hxs, hn⟩
    obtain ⟨rfl, hla, hm⟩ := single.mp hn
    exact ⟨r, hxs, hla, hm⟩
  · rintro ⟨r, hxs, hla, hm⟩
    exact ⟨r, _, hxs, single.mpr ⟨rfl, hla, hm⟩⟩

/-! ### The two walks

A piece is met in its order along `next` and in the opposite order along `prev`.  What was
proved of walks then holds of both directions: no cell is met twice, and the ends are the
first and the last address.
-/

theorem walk_next {ns : List (Nat × δ)} {pr p la q : Ptr} (h : DChain s pr p ns la q) :
    Walk (fun a => (s.get a).map DCell.next) p (ns.map Prod.fst) q := by
  induction ns generalizing pr p with
  | nil => exact h.1
  | cons n ns ih =>
      obtain ⟨hp, m, hm, hrest⟩ := h
      exact ⟨hp, m, by simp [hm], ih hrest⟩

theorem walk_prev {ns : List (Nat × δ)} {pr p la q : Ptr} (h : DChain s pr p ns la q) :
    Walk (fun a => (s.get a).map DCell.prev) la (ns.map Prod.fst).reverse pr := by
  induction ns generalizing pr p with
  | nil => exact h.2.symm
  | cons n ns ih =>
      obtain ⟨hp, m, hm, hrest⟩ := h
      simp only [List.map_cons, List.reverse_cons]
      exact Walk.append.mpr ⟨some n.1, ih hrest, rfl, pr, by simp [hm], rfl⟩

theorem nodup {ns : List (Nat × δ)} {pr p la : Ptr} (h : DChain s pr p ns la none) :
    (ns.map Prod.fst).Nodup := h.walk_next.nodup

/-- The last cell of a piece that started from NULL. -/
theorem last_eq {ns : List (Nat × δ)} {p la q : Ptr} (h : DChain s none p ns la q) :
    la = (ns.map Prod.fst).getLast? := by
  rcases List.eq_nil_or_concat ns with rfl | ⟨xs, n, rfl⟩
  · exact h.2.symm
  · rw [List.concat_eq_append] at h ⊢
    obtain ⟨r, -, hla, -⟩ := snoc.mp h
    simp [hla]

theorem first_eq {ns : List (Nat × δ)} {pr p la : Ptr} (h : DChain s pr p ns la none) :
    p = (ns.map Prod.fst).head? := by
  cases ns with
  | nil => exact h.1
  | cons n ns => exact h.1

/-! ### What a change elsewhere leaves alone

A piece depends on its own cells only, so allocating, writing and freeing anywhere else keep
it.  `frame` is the general statement, for a store that differs in a list of addresses.
-/

theorem congr {ns : List (Nat × δ)} {pr p la q : Ptr} (hst : ∀ n ∈ ns, s.get n.1 = t.get n.1)
    (h : DChain s pr p ns la q) : DChain t pr p ns la q := by
  induction ns generalizing pr p with
  | nil => exact h
  | cons n ns ih =>
      obtain ⟨hp, m, hm, hrest⟩ := h
      exact ⟨hp, m, by rw [← hst n (by simp)]; exact hm,
        ih (fun b hb => hst b (by simp [hb])) hrest⟩

theorem live {ns : List (Nat × δ)} {pr p la q : Ptr} (h : DChain s pr p ns la q) :
    ∀ n ∈ ns, ∃ l r, s.get n.1 = some ⟨n.2, l, r⟩ := by
  induction ns generalizing pr p with
  | nil => intro n hn; simp at hn
  | cons a ns ih =>
      obtain ⟨hp, m, hm, hrest⟩ := h
      intro n hn
      rcases List.mem_cons.mp hn with hna | hnr
      · exact ⟨pr, m, by rw [hna]; exact hm⟩
      · exact ih hrest n hnr

theorem lt_next {ns : List (Nat × δ)} {pr p la q : Ptr} (h : DChain s pr p ns la q) :
    ∀ a ∈ ns.map Prod.fst, a < s.next := by
  intro a ha
  obtain ⟨n, hn, rfl⟩ := List.mem_map.mp ha
  obtain ⟨l, r, hlr⟩ := h.live n hn
  exact Store.lt_next hlr

/-- The next address to be handed out is on no chain. -/
theorem next_notMem {ns : List (Nat × δ)} {pr p la q : Ptr} (h : DChain s pr p ns la q) :
    s.next ∉ ns.map Prod.fst := fun hc => Nat.lt_irrefl _ (h.lt_next _ hc)

theorem length_le {ns : List (Nat × δ)} {pr p la : Ptr} (h : DChain s pr p ns la none) :
    ns.length ≤ s.next := by
  have hsub : (ns.map Prod.fst) ⊆ List.range s.next :=
    fun a ha => List.mem_range.mpr (h.lt_next a ha)
  simpa using (List.subperm_of_subset h.nodup hsub).length_le

theorem alloc {ns : List (Nat × δ)} {pr p la q : Ptr} (h : DChain s pr p ns la q) (v : DCell δ) :
    DChain (s.alloc v).1 pr p ns la q := by
  refine h.congr fun n hn => ?_
  rw [Store.get_alloc_ne s v (ne_of_notMem_addrs h.next_notMem hn)]

theorem upd {ns : List (Nat × δ)} {pr p la q : Ptr} (h : DChain s pr p ns la q) {a : Nat}
    (ha : a ∉ ns.map Prod.fst) (f : DCell δ → DCell δ) : DChain (s.upd a f) pr p ns la q := by
  refine h.congr fun n hn => ?_
  rw [Store.get_upd_ne s f (ne_of_notMem_addrs ha hn)]

theorem drop {ns : List (Nat × δ)} {pr p la q : Ptr} (h : DChain s pr p ns la q) {a : Nat}
    (ha : a ∉ ns.map Prod.fst) : DChain (s.drop a) pr p ns la q := by
  refine h.congr fun n hn => ?_
  rw [Store.get_drop_ne s (ne_of_notMem_addrs ha hn)]

/-- A chain survives whatever happens to other cells. -/
theorem frame {ns : List (Nat × δ)} {as : List Nat} {pr p la q : Ptr} (h : DChain s pr p ns la q)
    (hst : s.SameOff t as) (hdis : ∀ a ∈ as, a ∉ ns.map Prod.fst) : DChain t pr p ns la q :=
  h.congr fun n hn => (hst.get n.1 fun hc => hdis n.1 hc (List.mem_map_of_mem hn)).symm

/-! ### Cutting a list in two

The addresses of a list are distinct, so a cell of one part is in no other part, and a change
to it leaves the other part alone.
-/

/-- A cell of the first part is not one of the second. -/
theorem notMem_right {xs ys : List (Nat × δ)} (h : ((xs ++ ys).map Prod.fst).Nodup) {n : Nat × δ}
    (hn : n ∈ xs) : n.1 ∉ ys.map Prod.fst := by
  rw [List.map_append, List.nodup_append] at h
  exact fun hc => h.2.2 n.1 (List.mem_map_of_mem hn) n.1 hc rfl

theorem notMem_left {xs ys : List (Nat × δ)} (h : ((xs ++ ys).map Prod.fst).Nodup) {n : Nat × δ}
    (hn : n ∈ ys) : n.1 ∉ xs.map Prod.fst := by
  rw [List.map_append, List.nodup_append] at h
  exact fun hc => h.2.2 n.1 hc n.1 (List.mem_map_of_mem hn) rfl

theorem nodup_left {xs ys : List (Nat × δ)} (h : ((xs ++ ys).map Prod.fst).Nodup) :
    (xs.map Prod.fst).Nodup := by
  rw [List.map_append, List.nodup_append] at h
  exact h.1

theorem nodup_right {xs ys : List (Nat × δ)} (h : ((xs ++ ys).map Prod.fst).Nodup) :
    (ys.map Prod.fst).Nodup := by
  rw [List.map_append, List.nodup_append] at h
  exact h.2.1

/-! ### Relinking an end

Only two pointers of a piece belong to what is outside it: `prev` of its first cell and `next`
of its last one.  Each can be turned without a change to the rest.
-/

/-- Turning the first cell back to another predecessor. -/
theorem setPrev {n : Nat × δ} {ns : List (Nat × δ)} {pr p la q : Ptr} (r : Ptr)
    (h : DChain s pr p (n :: ns) la q) (hn : n.1 ∉ ns.map Prod.fst) :
    DChain (s.upd n.1 fun c => { c with prev := r }) r p (n :: ns) la q := by
  obtain ⟨hp, m, hm, hrest⟩ := h
  exact ⟨hp, m, by rw [Store.get_upd_self, hm]; rfl, hrest.upd hn _⟩

/-- Turning the last cell on to another successor. -/
theorem setNext {n : Nat × δ} {ns : List (Nat × δ)} {pr p la q : Ptr} (r : Ptr)
    (h : DChain s pr p (ns ++ [n]) la q) (hn : n.1 ∉ ns.map Prod.fst) :
    DChain (s.upd n.1 fun c => { c with next := r }) pr p (ns ++ [n]) la r := by
  obtain ⟨k, hns, hla, hm⟩ := snoc.mp h
  exact snoc.mpr ⟨k, hns.upd hn _, hla, by rw [Store.get_upd_self, hm]; rfl⟩

/-! ### Linking a cell in

The new cell already points both ways; what is left is to turn its neighbours to it.
-/

/-- In front of the first cell. -/
theorem link_first {n : Nat × δ} {ns : List (Nat × δ)} {p la : Ptr} {a : Nat} {e : δ}
    (h : DChain s none p (n :: ns) la none) (ha : s.get a = some ⟨e, none, some n.1⟩)
    (hfresh : a ∉ (n :: ns).map Prod.fst) :
    DChain (s.upd n.1 fun c => { c with prev := some a }) none (some a) ((a, e) :: n :: ns) la
      none := by
  have hn : n.1 ∉ ns.map Prod.fst := (List.nodup_cons.mp h.nodup).1
  have hne : n.1 ≠ a := ne_of_notMem_addrs hfresh (by simp)
  have hp : p = some n.1 := h.1
  refine ⟨rfl, some n.1, ?_, hp ▸ h.setPrev (some a) hn⟩
  rw [Store.get_upd_ne _ _ hne.symm, ha]

/-- Behind the last cell. -/
theorem link_last {n : Nat × δ} {ns : List (Nat × δ)} {p la : Ptr} {a : Nat} {e : δ}
    (h : DChain s none p (ns ++ [n]) la none) (ha : s.get a = some ⟨e, some n.1, none⟩)
    (hfresh : a ∉ (ns ++ [n]).map Prod.fst) :
    DChain (s.upd n.1 fun c => { c with next := some a }) none p (ns ++ [n] ++ [(a, e)]) (some a)
      none := by
  have hn : n.1 ∉ ns.map Prod.fst := notMem_left h.nodup (by simp)
  have hne : n.1 ≠ a := ne_of_notMem_addrs hfresh (by simp)
  obtain ⟨r, -, hla, -⟩ := snoc.mp h
  refine snoc.mpr ⟨some n.1, hla ▸ h.setNext (some a) hn, rfl, ?_⟩
  rw [Store.get_upd_ne _ _ hne.symm, ha]

/-- Between two neighbours. -/
theorem link_between {x y : Nat × δ} {xs ys : List (Nat × δ)} {p la : Ptr} {a : Nat} {e : δ}
    (h : DChain s none p (xs ++ [x] ++ y :: ys) la none)
    (ha : s.get a = some ⟨e, some x.1, some y.1⟩)
    (hfresh : a ∉ (xs ++ [x] ++ y :: ys).map Prod.fst) :
    DChain ((s.upd y.1 fun c => { c with prev := some a }).upd x.1 fun c =>
        { c with next := some a }) none p (xs ++ [x] ++ (a, e) :: y :: ys) la none := by
  have hnd := h.nodup
  obtain ⟨r, mid, hleft, hright⟩ := append.mp h
  obtain ⟨l, -, rfl, -⟩ := snoc.mp hleft
  obtain ⟨rfl, -⟩ := id hright
  have hx : x.1 ∉ xs.map Prod.fst := notMem_left (nodup_left hnd) (by simp)
  have hy : y.1 ∉ ys.map Prod.fst := (List.nodup_cons.mp (nodup_right hnd)).1
  have hxy : x.1 ∉ (y :: ys).map Prod.fst := notMem_right hnd (by simp)
  have hyx : y.1 ∉ (xs ++ [x]).map Prod.fst := notMem_left hnd (by simp)
  have hax : x.1 ≠ a := ne_of_notMem_addrs hfresh (by simp)
  have hay : y.1 ≠ a := ne_of_notMem_addrs hfresh (by simp)
  -- up to `x`, which now goes on to `a`; the cell `a`; from `y` on, turned back to `a`
  have hfst := (hleft.upd hyx fun c => { c with prev := some a }).setNext (some a) hx
  have hsnd := (hright.setPrev (some a) hy).upd hxy fun c => { c with next := some a }
  refine append.mpr ⟨some x.1, some a, hfst, rfl, some y.1, ?_, hsnd⟩
  rw [Store.get_upd_ne _ _ hax.symm, Store.get_upd_ne _ _ hay.symm, ha]

/-! ### Taking a cell out

Its neighbours are turned to each other, or to NULL at an end, and the cell is freed behind
that.
-/

/-- The first cell of at least two. -/
theorem unlink_first {n k : Nat × δ} {ns : List (Nat × δ)} {p la : Ptr}
    (h : DChain s none p (n :: k :: ns) la none) :
    DChain ((s.upd k.1 fun c => { c with prev := none }).drop n.1) none (some k.1) (k :: ns) la
      none := by
  have hnd := h.nodup
  obtain ⟨-, m, -, hrest⟩ := h
  obtain ⟨rfl, -⟩ := id hrest
  exact (hrest.setPrev none (List.nodup_cons.mp (List.nodup_cons.mp hnd).2).1).drop
    (List.nodup_cons.mp hnd).1

/-- The last cell of at least two. -/
theorem unlink_last {n k : Nat × δ} {ns : List (Nat × δ)} {p la : Ptr}
    (h : DChain s none p (ns ++ [k] ++ [n]) la none) :
    DChain ((s.upd k.1 fun c => { c with next := none }).drop n.1) none p (ns ++ [k]) (some k.1)
      none := by
  have hnd := h.nodup
  obtain ⟨r, hleft, -, -⟩ := snoc.mp h
  obtain ⟨l, -, rfl, -⟩ := snoc.mp hleft
  exact (hleft.setNext none (notMem_left (nodup_left hnd) (by simp))).drop
    (notMem_left hnd (by simp))

/-- A cell between two neighbours. -/
theorem unlink_between {x y n : Nat × δ} {xs ys : List (Nat × δ)} {p la : Ptr}
    (h : DChain s none p (xs ++ [x] ++ n :: y :: ys) la none) :
    DChain (((s.upd x.1 fun c => { c with next := some y.1 }).upd y.1 fun c =>
        { c with prev := some x.1 }).drop n.1) none p (xs ++ [x] ++ y :: ys) la none := by
  have hnd := h.nodup
  obtain ⟨r, mid, hleft, hright⟩ := append.mp h
  obtain ⟨l, -, rfl, -⟩ := snoc.mp hleft
  obtain ⟨rfl, m, -, hrest⟩ := hright
  obtain ⟨rfl, -⟩ := id hrest
  have hr := List.nodup_cons.mp (nodup_right hnd)
  have hx : x.1 ∉ xs.map Prod.fst := notMem_left (nodup_left hnd) (by simp)
  have hy : y.1 ∉ ys.map Prod.fst := (List.nodup_cons.mp hr.2).1
  have hxy : x.1 ∉ (y :: ys).map Prod.fst := by
    have := notMem_right hnd (n := x) (by simp)
    exact fun hc => this (List.mem_cons_of_mem _ hc)
  have hyx : y.1 ∉ (xs ++ [x]).map Prod.fst := notMem_left hnd (by simp)
  have hnx : n.1 ∉ (xs ++ [x]).map Prod.fst := notMem_left hnd (by simp)
  have hfst := ((hleft.setNext (some y.1) hx).upd hyx fun c => { c with prev := some x.1 }).drop hnx
  have hsnd := ((hrest.upd hxy fun c => { c with next := some y.1 }).setPrev (some x.1) hy).drop hr.1
  exact append.mpr ⟨some x.1, some y.1, hfst, hsnd⟩

end DChain

end CmakeTemplate.Lib
