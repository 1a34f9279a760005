/-
Singly linked chains in a store.

`Walk` is what a pointer walk sees: starting at `p` and following one field, it
meets exactly the given addresses and then stands at `q`.  `Chain` adds what is
stored there.  Both are recursive in the list, so a proof about a chain is an
induction on its nodes, and `append` cuts a chain at any place: the pointer in the
middle is the only thing the two parts share.

A chain ended by NULL has no repeated address (`Chain.nodup`): a pointer met twice
would be the start of two chains of different lengths, and a walk from one pointer
is unique (`Walk.unique`).
-/
import CmakeTemplate.Lib.Store
import Mathlib.Data.List.Perm.Subperm
import Mathlib.Data.List.Range

namespace CmakeTemplate.Lib

/-- Following `f` from `p` meets `as`, one after the other, and arrives at `q`. -/
def Walk (f : Nat → Option Ptr) : Ptr → List Nat → Ptr → Prop
  | p, [], q => p = q
  | p, a :: as, q => p = some a ∧ ∃ m, f a = some m ∧ Walk f m as q

namespace Walk

variable {f : Nat → Option Ptr}

theorem append {as bs : List Nat} {p q : Ptr} :
    Walk f p (as ++ bs) q ↔ ∃ m, Walk f p as m ∧ Walk f m bs q := by
  induction as generalizing p with
  | nil => simp [Walk]
  | cons a as ih =>
      simp only [List.cons_append, Walk, ih]
      constructor
      · rintro ⟨hp, m, hm, r, h1, h2⟩
        exact ⟨r, ⟨hp, m, hm, h1⟩, h2⟩
      · rintro ⟨r, ⟨hp, m, hm, h1⟩, h2⟩
        exact ⟨hp, m, hm, r, h1, h2⟩

/-- A walk that ends at NULL is the only one from its start. -/
theorem unique {as bs : List Nat} {p : Ptr} (ha : Walk f p as none) (hb : Walk f p bs none) :
    as = bs := by
  induction as generalizing p bs with
  | nil =>
      cases bs with
      | nil => rfl
      | cons b bs =>
          have hp : p = none := ha
          rw [hp] at hb
          exact absurd hb.1 (by simp)
  | cons a as ih =>
      obtain ⟨hp, m, hm, hrest⟩ := ha
      subst hp
      cases bs with
      | nil => exact absurd hb (by simp [Walk])
      | cons b bs =>
          obtain ⟨hp', m', hm', hrest'⟩ := hb
          have hab : a = b := by simpa using hp'
          subst hab
          have hmm : m = m' := by rw [hm] at hm'; simpa using hm'
          subst hmm
          rw [ih hrest hrest']

/-- No address repeats on a walk that ends at NULL. -/
theorem nodup {as : List Nat} {p : Ptr} (h : Walk f p as none) : as.Nodup := by
  induction as generalizing p with
  | nil => exact List.nodup_nil
  | cons a as ih =>
      obtain ⟨hp, m, hm, hrest⟩ := h
      refine List.nodup_cons.mpr ⟨?_, ih hrest⟩
      intro hmem
      -- The part of the walk from the second visit of `a` would also be the whole of it.
      obtain ⟨xs, ys, hsplit⟩ := List.append_of_mem hmem
      rw [hsplit] at hrest
      obtain ⟨r, -, hr⟩ := append.mp hrest
      have hra : r = some a := hr.1
      rw [hra] at hr
      have hwhole : Walk f (some a) (a :: (xs ++ a :: ys)) none := ⟨rfl, m, hm, hrest⟩
      have := congrArg List.length (unique hwhole hr)
      simp at this
      omega

theorem congr {g : Nat → Option Ptr} {as : List Nat} {p q : Ptr}
    (hfg : ∀ a ∈ as, f a = g a) (h : Walk f p as q) : Walk g p as q := by
  induction as generalizing p with
  | nil => exact h
  | cons a as ih =>
      obtain ⟨hp, m, hm, hrest⟩ := h
      exact ⟨hp, m, by rw [← hfg a (by simp)]; exact hm,
        ih (fun b hb => hfg b (by simp [hb])) hrest⟩

end Walk

theorem ne_of_notMem_addrs {δ : Type} {ns : List (Nat × δ)} {n : Nat × δ} {a : Nat}
    (ha : a ∉ ns.map Prod.fst) (hn : n ∈ ns) : n.1 ≠ a := by
  rintro rfl
  exact ha (List.mem_map_of_mem hn)

/-- A cell of a singly linked chain. -/
structure SCell (δ : Type) where
  /-- What is kept in the cell. -/
  data : δ
  /-- The cell behind it, or NULL at the end. -/
  next : Ptr

/-- From `p`, the cells `ns` (address and payload) one after the other, then `q`. -/
def Chain {δ : Type} (s : Store (SCell δ)) : Ptr → List (Nat × δ) → Ptr → Prop
  | p, [], q => p = q
  | p, n :: ns, q => p = some n.1 ∧ ∃ m, s.get n.1 = some ⟨n.2, m⟩ ∧ Chain s m ns q

namespace Chain

variable {δ : Type} {s t : Store (SCell δ)}

theorem append {xs ys : List (Nat × δ)} {p q : Ptr} :
    Chain s p (xs ++ ys) q ↔ ∃ m, Chain s p xs m ∧ Chain s m ys q := by
  induction xs generalizing p with
  | nil => simp [Chain]
  | cons n xs ih =>
      simp only [List.cons_append, Chain, ih]
      constructor
      · rintro ⟨hp, m, hm, r, h1, h2⟩
        exact ⟨r, ⟨hp, m, hm, h1⟩, h2⟩
      · rintro ⟨r, ⟨hp, m, hm, h1⟩, h2⟩
        exact ⟨hp, m, hm, r, h1, h2⟩

/-- A chain survives any change that leaves its own cells alone. -/
theorem congr {ns : List (Nat × δ)} {p q : Ptr} (hst : ∀ n ∈ ns, s.get n.1 = t.get n.1)
    (h : Chain s p ns q) : Chain t p ns q := by
  induction ns generalizing p with
  | nil => exact h
  | cons n ns ih =>
      obtain ⟨hp, m, hm, hrest⟩ := h
      exact ⟨hp, m, by rw [← hst n (by simp)]; exact hm,
        ih (fun b hb => hst b (by simp [hb])) hrest⟩

/-- The chain as a walk along `next`. -/
theorem walk {ns : List (Nat × δ)} {p q : Ptr} (h : Chain s p ns q) :
    Walk (fun a => (s.get a).map SCell.next) p (ns.map Prod.fst) q := by
  induction ns generalizing p with
  | nil => exact h
  | cons n ns ih =>
      obtain ⟨hp, m, hm, hrest⟩ := h
      exact ⟨hp, m, by simp [hm], ih hrest⟩

theorem nodup {ns : List (Nat × δ)} {p : Ptr} (h : Chain s p ns none) :
    (ns.map Prod.fst).Nodup := h.walk.nodup

/-- Every node of a chain is a live cell holding its payload. -/
theorem live {ns : List (Nat × δ)} {p q : Ptr} (h : Chain s p ns q) :
    ∀ n ∈ ns, ∃ m, s.get n.1 = some ⟨n.2, m⟩ := by
  induction ns generalizing p with
  | nil => intro n hn; simp at hn
  | cons a ns ih =>
      obtain ⟨hp, m, hm, hrest⟩ := h
      intro n hn
      rcases List.mem_cons.mp hn with hna | hnr
      · exact ⟨m, by rw [hna]; exact hm⟩
      · exact ih hrest n hnr

theorem lt_next {ns : List (Nat × δ)} {p q : Ptr} (h : Chain s p ns q) :
    ∀ a ∈ ns.map Prod.fst, a < s.next := by
  intro a ha
  obtain ⟨n, hn, rfl⟩ := List.mem_map.mp ha
  obtain ⟨m, hm⟩ := h.live n hn
  exact Store.lt_next hm

theorem alloc {ns : List (Nat × δ)} {p q : Ptr} (h : Chain s p ns q) (v : SCell δ) :
    Chain (s.alloc v).1 p ns q := by
  refine h.congr fun n hn => ?_
  rw [Store.get_alloc_ne s v (Nat.ne_of_lt (h.lt_next n.1 (List.mem_map_of_mem hn)))]

theorem upd {ns : List (Nat × δ)} {p q : Ptr} (h : Chain s p ns q) {a : Nat}
    (ha : a ∉ ns.map Prod.fst) (f : SCell δ → SCell δ) : Chain (s.upd a f) p ns q := by
  refine h.congr fun n hn => ?_
  rw [Store.get_upd_ne s f (ne_of_notMem_addrs ha hn)]

theorem drop {ns : List (Nat × δ)} {p q : Ptr} (h : Chain s p ns q) {a : Nat}
    (ha : a ∉ ns.map Prod.fst) : Chain (s.drop a) p ns q := by
  refine h.congr fun n hn => ?_
  rw [Store.get_drop_ne s (ne_of_notMem_addrs ha hn)]

/-- The chain from NULL is empty. -/
theorem null {ns : List (Nat × δ)} {q : Ptr} (h : Chain s none ns q) : ns = [] ∧ q = none := by
  cases ns with
  | nil => exact ⟨rfl, Eq.symm h⟩
  | cons n ns => exact absurd h.1 (by simp)

/-- Hanging one more cell on the last one. -/
theorem snoc {xs : List (Nat × δ)} {l a : Nat} {d e : δ} {p : Ptr}
    (h : Chain s p (xs ++ [(l, d)]) none) (ha : s.get a = some ⟨e, none⟩)
    (hal : a ∉ (xs ++ [(l, d)]).map Prod.fst) :
    Chain (s.upd l fun c => { c with next := some a }) p (xs ++ [(l, d)] ++ [(a, e)]) none := by
  have hnd := h.nodup
  obtain ⟨m, hxs, hm, r, hr, -⟩ := append.mp h
  have hl : l ∉ xs.map Prod.fst := by
    intro hc
    rw [List.map_append, List.nodup_append] at hnd
    exact hnd.2.2 l hc l (by simp) rfl
  have hne : a ≠ l := fun hc => hal (by simp [hc])
  refine append.mpr ⟨some a, append.mpr ⟨m, hxs.upd hl _, hm, some a, ?_, rfl⟩, ?_⟩
  · rw [Store.get_upd_self, hr]; rfl
  · exact ⟨rfl, none, by rw [Store.get_upd_ne s _ hne]; exact ha, rfl⟩

/-- Taking the first cell out. -/
theorem tail_drop {n : Nat × δ} {ns : List (Nat × δ)} {p : Ptr} (h : Chain s p (n :: ns) none) :
    ∃ m, s.get n.1 = some ⟨n.2, m⟩ ∧ Chain (s.drop n.1) m ns none := by
  obtain ⟨-, m, hm, hrest⟩ := id h
  exact ⟨m, hm, hrest.drop (List.nodup_cons.mp h.nodup).1⟩

/-- Taking a cell out from behind another one. -/
theorem unlink {xs ys : List (Nat × δ)} {l n : Nat × δ} {p : Ptr}
    (h : Chain s p (xs ++ l :: n :: ys) none) :
    ∃ m, s.get n.1 = some ⟨n.2, m⟩ ∧ l.1 ≠ n.1 ∧
      Chain ((s.upd l.1 fun c => { c with next := m }).drop n.1) p (xs ++ l :: ys) none := by
  have hnd := h.nodup
  rw [List.map_append, List.map_cons, List.map_cons, List.nodup_append] at hnd
  obtain ⟨-, hnd, hapart⟩ := hnd
  obtain ⟨hl, hnd⟩ := List.nodup_cons.mp hnd
  obtain ⟨q, hxs, rfl, r, hr, rfl, m, hm, hys⟩ := append.mp h
  have hlxs : l.1 ∉ xs.map Prod.fst := fun hc => hapart l.1 hc l.1 (by simp) rfl
  have hnxs : n.1 ∉ xs.map Prod.fst := fun hc => hapart n.1 hc n.1 (by simp) rfl
  have hln : l.1 ≠ n.1 := fun hc => hl (by simp [hc])
  have hlys : l.1 ∉ ys.map Prod.fst := fun hc => hl (List.mem_cons_of_mem _ hc)
  refine ⟨m, hm, hln, append.mpr ⟨some l.1, (hxs.upd hlxs _).drop hnxs, rfl, m, ?_,
    (hys.upd hlys _).drop (List.nodup_cons.mp hnd).1⟩⟩
  rw [Store.get_drop_ne _ hln, Store.get_upd_self, hr]
  rfl

/-- A chain is no longer than the number of addresses handed out. -/
theorem length_le {ns : List (Nat × δ)} {p : Ptr} (h : Chain s p ns none) :
    ns.length ≤ s.next := by
  have hsub : (ns.map Prod.fst) ⊆ List.range s.next :=
    fun a ha => List.mem_range.mpr (h.lt_next a ha)
  simpa using (List.subperm_of_subset h.nodup hsub).length_le

end Chain

end CmakeTemplate.Lib
