/-
What the threads of a system get done.

Nothing makes a thread take its next step, so that something is done in the end is said in two
halves.  The steps that work towards it are no more than there is to do, together with what the other
steps of the run add to it; and as long as it is not done, one of them can be taken.  A measure that
the working steps lower, and the others raise by no more than they cost, gives the first half.
-/
import CmakeTemplate.Lib.System
import CmakeTemplate.Lib.Ledger
import Mathlib.Algebra.BigOperators.Ring.Finset

namespace CmakeTemplate.Lib

/-! ### Sums over threads

The measure of a system of threads is a sum with a term for each of them.
-/

section Sums

variable {ι : Type} [Fintype ι] {f g : ι → Nat}

/-- All terms but one are no larger. -/
theorem sum_add_le_of_others [DecidableEq ι] (i : ι) (h : ∀ j, j ≠ i → g j ≤ f j) :
    ∑ j, g j + f i ≤ ∑ j, f j + g i := by
  have hrest : ∑ j ∈ Finset.univ.erase i, g j ≤ ∑ j ∈ Finset.univ.erase i, f j :=
    Finset.sum_le_sum fun j hj => h j (Finset.ne_of_mem_erase hj)
  rw [← Finset.add_sum_erase _ g (Finset.mem_univ i), ← Finset.add_sum_erase _ f (Finset.mem_univ i)]
  omega

/-- Every term is larger by `k` at most. -/
theorem sum_le_add_card (k : Nat) (h : ∀ j, g j ≤ f j + k) :
    ∑ j, g j ≤ ∑ j, f j + Fintype.card ι * k :=
  calc ∑ j, g j ≤ ∑ j, (f j + k) := Finset.sum_le_sum fun j _ => h j
    _ = ∑ j, f j + Fintype.card ι * k := by
        rw [Finset.sum_add_distrib, Finset.sum_const, Finset.card_univ, Nat.nsmul_eq_mul]

end Sums

namespace System

variable {σ ι : Type} {S : System σ ι} {C : σ → ι → Prop}

/-- The steps `ls` lead from `s` to `t`, and each of them meets its condition. -/
def RunIf (S : System σ ι) (C : σ → ι → Prop) : σ → List ι → σ → Prop
  | s, [], t => s = t
  | s, l :: ls, t => ∃ s', C s l ∧ S.step s l = some s' ∧ RunIf S C s' ls t

/-- From `s` on, the steps that `own` names come to an end, and they do not end before `done`:
every run has at most `bound` of them, and what its other steps cost; and where it is not done yet,
another one can be taken. -/
structure Settles (S : System σ ι) (C : σ → ι → Prop) (own : ι → Bool) (cost : ι → Nat)
    (done : σ → Prop) (s : σ) (bound : Nat) : Prop where
  /-- A run takes at most `bound` of the steps that `own` names, and what its other steps add.
  -/
  few : ∀ ls t, S.RunIf C s ls t → ls.countP own ≤ bound + (ls.map cost).sum
  /-- As long as it is not done, one of them can be taken. -/
  goesOn : ∀ ls t, S.RunIf C s ls t → ¬ done t →
    ∃ l t', own l = true ∧ C t l ∧ S.step t l = some t'

theorem RunIf.invariant {I : σ → Prop} (hstep : ∀ s l s', I s → C s l → S.step s l = some s' → I s')
    {s t : σ} {ls : List ι} (hr : S.RunIf C s ls t) (hs : I s) : I t := by
  induction ls generalizing s with
  | nil => exact hr ▸ hs
  | cons l ls ih =>
      obtain ⟨s', hc, hs', hrest⟩ := hr
      exact ih hrest (hstep s l s' hs hc hs')

/-- One step more. -/
theorem RunIf.next {s t t' : σ} {l : ι} {ls : List ι} (hr : S.RunIf C s ls t) (hc : C t l)
    (hs : S.step t l = some t') : S.RunIf C s (ls ++ [l]) t' := by
  induction ls generalizing s with
  | nil =>
      obtain rfl : s = t := hr
      exact ⟨t', hc, hs, rfl⟩
  | cons k ls ih =>
      obtain ⟨s', hk, hs', hrest⟩ := hr
      exact ⟨s', hk, hs', ih hrest⟩

theorem RunIf.mono {D : σ → ι → Prop} (hcd : ∀ s l, C s l → D s l) {s t : σ} {ls : List ι}
    (hr : S.RunIf C s ls t) : S.RunIf D s ls t := by
  induction ls generalizing s with
  | nil => exact hr
  | cons l ls ih =>
      obtain ⟨s', hc, hs', hrest⟩ := hr
      exact ⟨s', hcd _ _ hc, hs', ih hrest⟩

/-- Steps that cost less each cost less together. -/
theorem RunIf.cost_le {cost cost' : ι → Nat} (hcost : ∀ s l, C s l → cost l ≤ cost' l) {s t : σ}
    {ls : List ι} (hr : S.RunIf C s ls t) : (ls.map cost).sum ≤ (ls.map cost').sum := by
  induction ls generalizing s with
  | nil => exact Nat.le_refl 0
  | cons l ls ih =>
      obtain ⟨s', hc, hs', hrest⟩ := hr
      rw [List.map_cons, List.map_cons, List.sum_cons, List.sum_cons]
      exact Nat.add_le_add (hcost s l hc) (ih hrest)

/-- What is known of the steps themselves joins their condition. -/
theorem RunIf.and {P : ι → Prop} {s t : σ} {ls : List ι} (hr : S.RunIf C s ls t)
    (hls : ∀ l ∈ ls, P l) : S.RunIf (fun s l => C s l ∧ P l) s ls t := by
  induction ls generalizing s with
  | nil => exact hr
  | cons l ls ih =>
      obtain ⟨s', hc, hs', hrest⟩ := hr
      obtain ⟨hl, hrestP⟩ := List.forall_mem_cons.mp hls
      exact ⟨s', ⟨hc, hl⟩, hs', ih hrest hrestP⟩

/-- Steps are paid for by the measure, or by what they cost. -/
theorem RunIf.countP_le {I : σ → Prop} {own : ι → Bool} {cost : ι → Nat} {φ : σ → Nat}
    (hkeep : ∀ s l s', I s → C s l → S.step s l = some s' → I s')
    (hpay : ∀ s l s', I s → C s l → S.step s l = some s' → (own l).toNat + φ s' ≤ φ s + cost l)
    {s t : σ} {ls : List ι} (hr : S.RunIf C s ls t) (hs : I s) :
    ls.countP own + φ t ≤ φ s + (ls.map cost).sum := by
  induction ls generalizing s with
  | nil =>
      obtain rfl : s = t := hr
      exact Nat.le_of_eq (Nat.zero_add _)
  | cons l ls ih =>
      obtain ⟨s', hc, hs', hrest⟩ := hr
      have hfirst := hpay s l s' hs hc hs'
      have hothers := ih hrest (hkeep s l s' hs hc hs')
      have hcount : (l :: ls).countP own = (own l).toNat + ls.countP own := by
        rw [List.countP_cons, Nat.add_comm]
        cases own l <;> rfl
      rw [hcount, List.map_cons, List.sum_cons]
      omega

/-- An invariant under which the measure pays, and under which a step can be taken. -/
theorem settles {I : σ → Prop} {own : ι → Bool} {cost : ι → Nat} {φ : σ → Nat} {done : σ → Prop}
    (hkeep : ∀ s l s', I s → C s l → S.step s l = some s' → I s')
    (hpay : ∀ s l s', I s → C s l → S.step s l = some s' → (own l).toNat + φ s' ≤ φ s + cost l)
    (hgo : ∀ s, I s → ¬ done s → ∃ l s', own l = true ∧ C s l ∧ S.step s l = some s')
    {s : σ} (hs : I s) : S.Settles C own cost done s (φ s) where
  few _ _ hr := Nat.le_trans (Nat.le_add_right _ _) (hr.countP_le hkeep hpay hs)
  goesOn _ t hr := hgo t (hr.invariant hkeep hs)

namespace Settles

variable {own : ι → Bool} {cost : ι → Nat} {done done' : σ → Prop} {s : σ} {bound : Nat}

theorem imp (h : S.Settles C own cost done s bound)
    (himp : ∀ ls t, S.RunIf C s ls t → done t → done' t) : S.Settles C own cost done' s bound where
  few := h.few
  goesOn ls t hr hnot := h.goesOn ls t hr fun hd => hnot (himp ls t hr hd)

/-- Fewer steps are allowed, but all of those that `own` names; what the others cost may be less too. -/
theorem restrict {D : σ → ι → Prop} {cost' : ι → Nat} (h : S.Settles C own cost done s bound)
    (hless : ∀ s l, D s l → C s l) (hown : ∀ s l, own l = true → C s l → D s l)
    (hcost : ∀ s l, D s l → cost l ≤ cost' l) : S.Settles D own cost' done s bound where
  few ls t hr := by
    have hsum : (ls.map cost).sum ≤ (ls.map cost').sum := hr.cost_le hcost
    exact Nat.le_trans (h.few ls t (hr.mono hless)) (Nat.add_le_add_left hsum bound)
  goesOn ls t hr hnot := by
    obtain ⟨l, t', hl, hc, hs⟩ := h.goesOn ls t (hr.mono hless) hnot
    exact ⟨l, t', hl, hown t l hl hc, hs⟩

/-- Steps that cost nothing lead there by themselves. -/
theorem reaches (h : S.Settles C own cost done s bound) (hfree : ∀ l, own l = true → cost l = 0) :
    ∃ ls t, S.RunIf C s ls t ∧ (∀ l ∈ ls, own l = true) ∧ done t := by
  by_contra hnever
  have hlong : ∀ n, ∃ ls t, S.RunIf C s ls t ∧ (∀ l ∈ ls, own l = true) ∧ ls.length = n := by
    intro n
    induction n with
    | zero => exact ⟨[], s, rfl, fun l hl => absurd hl List.not_mem_nil, rfl⟩
    | succ n ih =>
        obtain ⟨ls, t, hr, hown, hlength⟩ := ih
        obtain ⟨l, t', hl, hc, hs⟩ := h.goesOn ls t hr fun hd => hnever ⟨ls, t, hr, hown, hd⟩
        refine ⟨ls ++ [l], t', hr.next hc hs, fun k hk => ?_, by rw [List.length_append, hlength]; rfl⟩
        rcases List.mem_append.mp hk with hk | hk
        · exact hown k hk
        · exact List.mem_singleton.mp hk ▸ hl
  obtain ⟨ls, t, hr, hown, hlength⟩ := hlong (bound + 1)
  have hfew := h.few ls t hr
  have hcost : (ls.map cost).sum = 0 := by
    refine List.sum_eq_zero fun c hc => ?_
    obtain ⟨l, hl, rfl⟩ := List.mem_map.mp hc
    exact hfree l (hown l hl)
  rw [List.countP_eq_length.mpr hown, hlength, hcost] at hfew
  omega

end Settles

end System

end CmakeTemplate.Lib
