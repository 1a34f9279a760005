/-
A scan over a table from which entries are taken out on the way.

The scan looks at the indices `0, …, n - 1` of a table that starts with `n` entries.  An
entry it takes out is replaced by the last one of the table, and what lies behind the
table is empty.  So an entry that is moved before the scan has come to it is moved to an
index the scan has left, and is not seen.  An entry may also make the table grow by one at
its end: the next one that is taken out is then replaced by the new entry.

`bound` is the end of the entries that are still where they were.  With at most one entry
that grows the table, all that are to be taken out are seen exactly when the last of them
is far enough from the end.
-/
import Mathlib.Data.Nat.Count
import Mathlib.Order.Monotone.Basic

namespace CmakeTemplate.Lib

/-- What the scan does at an entry. -/
inductive ScanKind
  | keep
  | take
  | grow
  deriving DecidableEq

theorem ScanKind.eq_keep {k : ScanKind} (hgrow : k ≠ .grow) (htake : k ≠ .take) : k = .keep := by
  cases k with
  | keep => rfl
  | take => exact absurd rfl htake
  | grow => exact absurd rfl hgrow

structure Scan where
  /-- The end of the entries that are where they were. -/
  bound : ℕ
  /-- How many entries stand behind the bound. -/
  extra : ℕ
  /-- The entries that have been taken out, in the order of the scan. -/
  taken : List ℕ

variable {kind : ℕ → ScanKind} {n : ℕ}

namespace Scan

/-- The table without one entry, the last one moved into its place. -/
def shrink (s : Scan) : Scan :=
  if s.extra = 0 then { s with bound := s.bound - 1 } else { s with extra := s.extra - 1 }

def step (kind : ℕ → ScanKind) (s : Scan) (i : ℕ) : Scan :=
  if i < s.bound then
    match kind i with
    | .keep => s
    | .take => { s.shrink with taken := s.taken ++ [i] }
    | .grow => { s with extra := s.extra + 1 }
  else s

theorem step_out {s : Scan} {i : ℕ} (h : s.bound ≤ i) : s.step kind i = s :=
  if_neg (Nat.not_lt.mpr h)

theorem step_keep {s : Scan} {i : ℕ} (hk : kind i = .keep) : s.step kind i = s := by
  unfold step
  rw [hk]
  exact ite_self _

theorem step_take {s : Scan} {i : ℕ} (h : i < s.bound) (hk : kind i = .take) :
    s.step kind i = { s.shrink with taken := s.taken ++ [i] } := by
  unfold step
  rw [if_pos h, hk]

theorem step_grow {s : Scan} {i : ℕ} (h : i < s.bound) (hk : kind i = .grow) :
    s.step kind i = { s with extra := s.extra + 1 } := by
  unfold step
  rw [if_pos h, hk]

theorem shrink_bound_le (s : Scan) : s.shrink.bound ≤ s.bound := by
  unfold shrink
  split
  · exact Nat.sub_le _ _
  · exact Nat.le_refl _

end Scan

/-- The first `i` steps of the scan over `n` entries. -/
def scan (kind : ℕ → ScanKind) (n : ℕ) : ℕ → Scan
  | 0 => ⟨n, 0, []⟩
  | i + 1 => (scan kind n i).step kind i

theorem scan_succ (kind : ℕ → ScanKind) (n i : ℕ) :
    scan kind n (i + 1) = (scan kind n i).step kind i := rfl

/-- Nothing has changed while all entries are kept. -/
theorem scan_untouched {i : ℕ} (h : ∀ p < i, kind p = .keep) : scan kind n i = ⟨n, 0, []⟩ := by
  induction i with
  | zero => rfl
  | succ i ih =>
      rw [scan_succ, ih fun p hp => h p (Nat.lt_succ_of_lt hp)]
      exact Scan.step_keep (h i (Nat.lt_succ_self i))

/-- How many of the first `i` entries are to be taken out. -/
def takes (kind : ℕ → ScanKind) (i : ℕ) : ℕ := Nat.count (fun j => kind j = .take) i

theorem takes_succ_take {i : ℕ} (hk : kind i = .take) : takes kind (i + 1) = takes kind i + 1 := by
  unfold takes
  rw [Nat.count_succ, if_pos hk]

theorem takes_succ_other {i : ℕ} (hk : kind i ≠ .take) : takes kind (i + 1) = takes kind i := by
  unfold takes
  rw [Nat.count_succ, if_neg hk, Nat.add_zero]

theorem takes_pos {i : ℕ} : 0 < takes kind i ↔ ∃ j < i, kind j = .take :=
  Nat.pos_iff_ne_zero.trans Nat.count_ne_iff_exists

theorem takes_mono {i j : ℕ} (h : i ≤ j) : takes kind i ≤ takes kind j := Nat.count_monotone _ h

/-- The last entry that is to be taken out. -/
theorem exists_last_take {i : ℕ} (hi : i < n) (hk : kind i = .take) :
    ∃ last, i ≤ last ∧ last < n ∧ kind last = .take ∧ takes kind last + 1 = takes kind n := by
  induction n with
  | zero => exact absurd hi (Nat.not_lt_zero i)
  | succ n ih =>
      by_cases hlast : kind n = .take
      · exact ⟨n, Nat.le_of_lt_succ hi, Nat.lt_succ_self n, hlast, (takes_succ_take hlast).symm⟩
      · have hin : i < n := by
          refine Nat.lt_of_le_of_ne (Nat.le_of_lt_succ hi) ?_
          rintro rfl
          exact hlast hk
        obtain ⟨last, hle, hlt, htake, hcount⟩ := ih hin
        refine ⟨last, hle, Nat.lt_succ_of_lt hlt, htake, ?_⟩
        rw [takes_succ_other hlast, hcount]

/-! ### What is taken

Only entries that were there at the start, and each once.
-/

theorem scan_bound_anti (kind : ℕ → ScanKind) (n : ℕ) {i j : ℕ} (h : i ≤ j) :
    (scan kind n j).bound ≤ (scan kind n i).bound := by
  refine antitone_nat_of_succ_le (f := fun i => (scan kind n i).bound) ?_ h
  intro i
  show ((scan kind n i).step kind i).bound ≤ (scan kind n i).bound
  unfold Scan.step
  split
  · split
    · exact Nat.le_refl _
    · exact Scan.shrink_bound_le _
    · exact Nat.le_refl _
  · exact Nat.le_refl _

/-- An entry is taken out when the scan comes to it where it was. -/
theorem mem_scan_taken {i x : ℕ} :
    x ∈ (scan kind n i).taken ↔ x < i ∧ kind x = .take ∧ x < (scan kind n x).bound := by
  induction i with
  | zero => simp [scan]
  | succ i ih =>
      have hkeep : (scan kind n (i + 1)).taken = (scan kind n i).taken →
          ¬ (kind i = .take ∧ i < (scan kind n i).bound) →
          (x ∈ (scan kind n (i + 1)).taken ↔
            x < i + 1 ∧ kind x = .take ∧ x < (scan kind n x).bound) := by
        intro hsame hnot
        rw [hsame, ih]
        refine ⟨fun h => ⟨Nat.lt_succ_of_lt h.1, h.2⟩, fun h => ⟨?_, h.2⟩⟩
        refine Nat.lt_of_le_of_ne (Nat.le_of_lt_succ h.1) ?_
        rintro rfl
        exact hnot h.2
      by_cases hin : i < (scan kind n i).bound
      · cases hk : kind i with
        | keep =>
            refine hkeep (by rw [scan_succ, Scan.step_keep hk]) ?_
            simp [hk]
        | grow =>
            refine hkeep (by rw [scan_succ, Scan.step_grow hin hk]) ?_
            simp [hk]
        | take =>
            rw [scan_succ, Scan.step_take hin hk]
            show x ∈ (scan kind n i).taken ++ [i] ↔ _
            rw [List.mem_append, ih, List.mem_singleton]
            constructor
            · rintro (h | rfl)
              · exact ⟨Nat.lt_succ_of_lt h.1, h.2⟩
              · exact ⟨Nat.lt_succ_self _, hk, hin⟩
            · intro h
              rcases Nat.lt_succ_iff_lt_or_eq.mp h.1 with hlt | heq
              · exact .inl ⟨hlt, h.2⟩
              · exact .inr heq
      · refine hkeep (by rw [scan_succ, Scan.step_out (Nat.not_lt.mp hin)]) ?_
        exact fun h => hin h.2

theorem scan_taken_nodup (kind : ℕ → ScanKind) (n i : ℕ) : (scan kind n i).taken.Nodup := by
  induction i with
  | zero => exact List.nodup_nil
  | succ i ih =>
      rw [scan_succ]
      unfold Scan.step
      split
      · split
        · exact ih
        · refine List.nodup_append.mpr ⟨ih, List.nodup_singleton i, ?_⟩
          intro x hx y hy
          rw [List.mem_singleton.mp hy]
          exact Nat.ne_of_lt (mem_scan_taken.mp hx).1
        · exact ih
      · exact ih

/-- As long as everything is seen, the count of what has been taken out is known. -/
theorem scan_taken_length {i : ℕ}
    (h : ∀ x < i, kind x = .take → x < (scan kind n x).bound) :
    (scan kind n i).taken.length = takes kind i := by
  induction i with
  | zero => rfl
  | succ i ih =>
      have hi := ih fun x hx => h x (Nat.lt_succ_of_lt hx)
      by_cases hk : kind i = .take
      · rw [scan_succ, Scan.step_take (h i (Nat.lt_succ_self i) hk) hk, takes_succ_take hk]
        show ((scan kind n i).taken ++ [i]).length = _
        rw [List.length_append, hi]
        rfl
      · rw [takes_succ_other hk, ← hi, scan_succ]
        unfold Scan.step
        split
        · split
          · rfl
          · exact absurd ‹_› hk
          · rfl
        · rfl

/-! ### Where the bound is

The bound falls with every entry that is taken, and what stands behind it has been moved or
has come since.
-/

/-- The table before it has grown, after it has, and after the new entry has been moved. -/
inductive ScanShape (kind : ℕ → ScanKind) (n i : ℕ) : Prop
  | before (hextra : (scan kind n i).extra = 0)
      (hbound : (scan kind n i).bound + (scan kind n i).taken.length = n)
      (hnone : ∀ p < i, kind p = .grow → (scan kind n p).bound ≤ p)
  | grown (p : ℕ) (hp : p < i) (hk : kind p = .grow) (hextra : (scan kind n i).extra = 1)
      (hbound : (scan kind n i).bound + (scan kind n i).taken.length = n)
      (hsince : ∀ x ∈ (scan kind n i).taken, x < p)
  | after (p : ℕ) (hp : p < i) (hk : kind p = .grow) (hextra : (scan kind n i).extra = 0)
      (hbound : (scan kind n i).bound + (scan kind n i).taken.length = n + 1)
      (hsince : ∃ x ∈ (scan kind n i).taken, p < x)

/-- Nothing changes at an entry that stays, or behind the bound. -/
theorem ScanShape.same {i : ℕ} (h : ScanShape kind n i)
    (hs : scan kind n (i + 1) = scan kind n i)
    (hnone : kind i = .grow → (scan kind n i).bound ≤ i) : ScanShape kind n (i + 1) := by
  cases h with
  | before hextra hbound hbefore =>
      rw [← hs] at hextra hbound
      refine .before hextra hbound fun p hp hk => ?_
      rcases Nat.lt_succ_iff_lt_or_eq.mp hp with hlt | rfl
      · exact hbefore p hlt hk
      · exact hnone hk
  | grown p hp hk hextra hbound hsince =>
      rw [← hs] at hextra hbound hsince
      exact .grown p (Nat.lt_succ_of_lt hp) hk hextra hbound hsince
  | after p hp hk hextra hbound hsince =>
      rw [← hs] at hextra hbound hsince
      exact .after p (Nat.lt_succ_of_lt hp) hk hextra hbound hsince

theorem ScanShape.take {i : ℕ} (h : ScanShape kind n i) (hin : i < (scan kind n i).bound)
    (hk : kind i = .take) : ScanShape kind n (i + 1) := by
  have hstep := Scan.step_take hin hk
  rw [← scan_succ] at hstep
  have hlen : (scan kind n (i + 1)).taken.length = (scan kind n i).taken.length + 1 := by
    rw [hstep]
    exact List.length_append
  cases h with
  | before hextra hbound hnone =>
      have hshrink : (scan kind n i).shrink =
          { scan kind n i with bound := (scan kind n i).bound - 1 } := if_pos hextra
      rw [hshrink] at hstep
      refine .before (by rw [hstep]; exact hextra) ?_ fun p hp hgrow => ?_
      · rw [hlen, hstep]
        show (scan kind n i).bound - 1 + _ = n
        omega
      · refine hnone p (Nat.lt_of_le_of_ne (Nat.le_of_lt_succ hp) ?_) hgrow
        rintro rfl
        rw [hk] at hgrow
        cases hgrow
  | grown p hp hgrow hextra hbound hsince =>
      have hshrink : (scan kind n i).shrink = { scan kind n i with extra := 0 } := by
        unfold Scan.shrink
        rw [hextra, if_neg Nat.one_ne_zero]
      rw [hshrink] at hstep
      refine .after p (Nat.lt_succ_of_lt hp) hgrow (by rw [hstep]) ?_ ⟨i, ?_, hp⟩
      · rw [hlen, hstep]
        show (scan kind n i).bound + _ = n + 1
        omega
      · rw [hstep]
        exact List.mem_append_right _ (List.mem_singleton_self i)
  | after p hp hgrow hextra hbound hsince =>
      obtain ⟨x, hx, hpx⟩ := hsince
      have hshrink : (scan kind n i).shrink =
          { scan kind n i with bound := (scan kind n i).bound - 1 } := if_pos hextra
      rw [hshrink] at hstep
      refine .after p (Nat.lt_succ_of_lt hp) hgrow (by rw [hstep]; exact hextra) ?_ ⟨x, ?_, hpx⟩
      · rw [hlen, hstep]
        show (scan kind n i).bound - 1 + _ = n + 1
        omega
      · rw [hstep]
        exact List.mem_append_left _ hx

/-- The entry that grows the table is the first one to do so. -/
theorem ScanShape.grow {i : ℕ} (h : ScanShape kind n i) (hin : i < (scan kind n i).bound)
    (hk : kind i = .grow) (hone : ∀ p < i, kind p ≠ .grow) : ScanShape kind n (i + 1) := by
  have hstep := Scan.step_grow hin hk
  rw [← scan_succ] at hstep
  cases h with
  | before hextra hbound hnone =>
      refine .grown i (Nat.lt_succ_self i) hk ?_ ?_ ?_
      · rw [hstep, hextra]
      · rw [hstep]
        exact hbound
      · intro x hx
        rw [hstep] at hx
        exact (mem_scan_taken.mp hx).1
  | grown p hp hgrow => exact absurd hgrow (hone p hp)
  | after p hp hgrow => exact absurd hgrow (hone p hp)

/-- At most one entry grows the table. -/
def GrowsOnce (kind : ℕ → ScanKind) (n : ℕ) : Prop :=
  ∀ p < n, ∀ q < n, kind p = .grow → kind q = .grow → p = q

theorem scan_shape (hone : GrowsOnce kind n) {i : ℕ} (hi : i ≤ n) : ScanShape kind n i := by
  induction i with
  | zero => exact .before rfl rfl fun p hp => absurd hp (Nat.not_lt_zero p)
  | succ i ih =>
      have ih := ih (Nat.le_of_succ_le hi)
      by_cases hin : i < (scan kind n i).bound
      · cases hk : kind i with
        | keep =>
            refine ih.same (by rw [scan_succ, Scan.step_keep hk]) fun hc => ?_
            rw [hk] at hc
            cases hc
        | take => exact ih.take hin hk
        | grow =>
            refine ih.grow hin hk fun p hp hgrow => ?_
            exact absurd (hone p (Nat.lt_trans hp hi) i hi hgrow hk) (Nat.ne_of_lt hp)
      · have hout := Nat.not_lt.mp hin
        exact ih.same (by rw [scan_succ, Scan.step_out hout]) fun _ => hout

/-- As long as the table has not grown, what is missing has been taken out. -/
theorem scan_not_grown (hone : GrowsOnce kind n) {i : ℕ} (hi : i ≤ n)
    (hnone : ∀ p < i, kind p ≠ .grow) :
    (scan kind n i).extra = 0 ∧ (scan kind n i).bound + (scan kind n i).taken.length = n := by
  cases scan_shape hone hi with
  | before hextra hbound _ => exact ⟨hextra, hbound⟩
  | grown p hp hgrow => exact absurd hgrow (hnone p hp)
  | after p hp hgrow => exact absurd hgrow (hnone p hp)

/-! ### When all are seen

What is missed is an entry that was moved into the hole of an earlier one, so the question is
how far the entries to be taken out stand from the end.
-/

/-- All that are to be taken out are taken out. -/
def TakesAll (kind : ℕ → ScanKind) (n : ℕ) : Prop :=
  ∀ i < n, kind i = .take → i ∈ (scan kind n n).taken

/-- An entry to take out is as far from the end as there are entries to take out, or one less
where the table grows in front of two of them. -/
def EndClear (kind : ℕ → ScanKind) (n : ℕ) : Prop :=
  ∀ i < n, kind i = .take → i + takes kind n ≤ n ∨
    (i + takes kind n ≤ n + 1 ∧ ∃ p < n, kind p = .grow ∧ takes kind p + 2 ≤ takes kind n)

theorem TakesAll.endClear (hone : GrowsOnce kind n) (h : TakesAll kind n) : EndClear kind n := by
  intro i hi hk
  obtain ⟨last, hle, hlast, htake, hcount⟩ := exists_last_take hi hk
  have hseen : ∀ x < n, kind x = .take → x < (scan kind n x).bound :=
    fun x hx hkx => (mem_scan_taken.mp (h x hx hkx)).2.2
  have hlen := scan_taken_length fun x (hx : x < last) => hseen x (Nat.lt_trans hx hlast)
  have hbelow := hseen last hlast htake
  cases scan_shape hone (Nat.le_of_lt hlast) with
  | before hextra hbound hnone =>
      left
      omega
  | grown p hp hgrow hextra hbound hsince =>
      left
      omega
  | after p hp hgrow hextra hbound hsince =>
      right
      obtain ⟨x, hx, hpx⟩ := hsince
      obtain ⟨hxlast, hkx, -⟩ := mem_scan_taken.mp hx
      -- `x` and `last` are taken out behind `p`
      have hpx' : takes kind p ≤ takes kind x := takes_mono (Nat.le_of_lt hpx)
      have hxl : takes kind (x + 1) ≤ takes kind last := takes_mono hxlast
      rw [takes_succ_take hkx] at hxl
      exact ⟨by omega, p, Nat.lt_trans hp hlast, hgrow, by omega⟩

/-- An entry that is still ahead is not moved by the one taken out now. -/
theorem EndClear.ahead (hone : GrowsOnce kind n) (h : EndClear kind n) {i x : ℕ}
    (hlen : (scan kind n (i + 1)).taken.length = takes kind (i + 1))
    (hin : i < (scan kind n i).bound) (hk : kind i = .take) (hix : i < x) (hx : x < n)
    (hkx : kind x = .take) : x < (scan kind n (i + 1)).bound := by
  have hmore : takes kind x + 1 ≤ takes kind n := by
    rw [← takes_succ_take hkx]
    exact takes_mono hx
  have hix' : takes kind (i + 1) ≤ takes kind x := takes_mono hix
  have hmem : i ∈ (scan kind n (i + 1)).taken :=
    mem_scan_taken.mpr ⟨Nat.lt_succ_self i, hk, hin⟩
  have hle : i + 1 ≤ n := Nat.le_of_lt (Nat.lt_of_le_of_lt hix hx)
  cases scan_shape hone hle with
  | before hextra hbound hnone =>
      rcases h x hx hkx with hfar | ⟨hfar, p, hp, hgrow, htwo⟩
      · omega
      · -- the table has not grown, so it grows later
        have hip : i < p := by
          by_contra hle
          have hlt : p < i := by
            refine Nat.lt_of_le_of_ne (Nat.not_lt.mp hle) ?_
            rintro rfl
            rw [hk] at hgrow
            cases hgrow
          have hpast := hnone p (Nat.lt_succ_of_lt hlt) hgrow
          have hanti := scan_bound_anti kind n (Nat.le_of_lt hlt)
          omega
        have hip' : takes kind (i + 1) ≤ takes kind p := takes_mono hip
        omega
  | grown p hp hgrow hextra hbound hsince =>
      have hpi := hsince i hmem
      have : p = i := by omega
      subst this
      exact absurd hpi (Nat.lt_irrefl _)
  | after p hp hgrow hextra hbound hsince =>
      rcases h x hx hkx with hfar | ⟨hfar, -⟩
      · omega
      · omega

theorem EndClear.takesAll (hone : GrowsOnce kind n) (h : EndClear kind n) : TakesAll kind n := by
  have hahead : ∀ i ≤ n, (∀ x < i, kind x = .take → x < (scan kind n x).bound) ∧
      ∀ x, i ≤ x → x < n → kind x = .take → x < (scan kind n i).bound := by
    intro i
    induction i with
    | zero => exact fun _ => ⟨fun x hx => absurd hx (Nat.not_lt_zero x), fun x _ hx _ => hx⟩
    | succ i ih =>
        intro hi
        obtain ⟨hseen, hstill⟩ := ih (Nat.le_of_succ_le hi)
        have hseen' : ∀ x < i + 1, kind x = .take → x < (scan kind n x).bound := by
          intro x hx hkx
          rcases Nat.lt_succ_iff_lt_or_eq.mp hx with hlt | rfl
          · exact hseen x hlt hkx
          · exact hstill x (Nat.le_refl x) hi hkx
        refine ⟨hseen', fun x hix hx hkx => ?_⟩
        have hxi := hstill x (Nat.le_of_succ_le hix) hx hkx
        by_cases hin : i < (scan kind n i).bound
        · cases hk : kind i with
          | keep =>
              rw [scan_succ, Scan.step_keep hk]
              exact hxi
          | take => exact h.ahead hone (scan_taken_length hseen') hin hk hix hx hkx
          | grow =>
              rw [scan_succ, Scan.step_grow hin hk]
              exact hxi
        · rw [scan_succ, Scan.step_out (Nat.not_lt.mp hin)]
          exact hxi
  intro i hi hk
  exact mem_scan_taken.mpr ⟨hi, hk, (hahead n (Nat.le_refl n)).1 i hi hk⟩

/-- All entries to take out are seen exactly when the end of the table is clear of them. -/
theorem takesAll_iff (hone : GrowsOnce kind n) : TakesAll kind n ↔ EndClear kind n :=
  ⟨fun h => h.endClear hone, fun h => h.takesAll hone⟩

end CmakeTemplate.Lib
