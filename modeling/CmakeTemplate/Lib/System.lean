/-
Systems that take one step after another.

A system is a set of initial states and a partial step function: the label carries
everything that is not determined by the state (which thread moves, which call it
makes, what the environment answers), so a step has at most one outcome, and no
outcome when it is not enabled or when the program's behaviour is undefined.

`ReachIf C` is what the runs reach whose every step satisfies `C` on the state it
starts from and the label; `Reach` puts no condition.  An invariant is proved once
for a step and carried along every run by `ReachIf.invariant`.
-/
import Mathlib.Data.Option.Basic

namespace CmakeTemplate.Lib

structure System (σ ι : Type) where
  /-- The states to begin with. -/
  init : σ → Prop
  /-- What a step makes of a state, if it can be taken there. -/
  step : σ → ι → Option σ

namespace System

variable {σ ι : Type} {S : System σ ι}

/-- Reached by a run all of whose steps satisfy `C`. -/
inductive ReachIf (S : System σ ι) (C : σ → ι → Prop) : σ → Prop
  | init {s : σ} (h : S.init s) : ReachIf S C s
  | step {s s' : σ} {l : ι} (h : ReachIf S C s) (hc : C s l) (hs : S.step s l = some s') :
      ReachIf S C s'

/-- Reached by a run. -/
def Reach (S : System σ ι) : σ → Prop := ReachIf S fun _ _ => True

/-- What holds initially and survives every step that satisfies `C` holds on every
run of such steps. -/
theorem ReachIf.invariant {C : σ → ι → Prop} {I : σ → Prop} (hinit : ∀ s, S.init s → I s)
    (hstep : ∀ s l s', I s → C s l → S.step s l = some s' → I s') {s : σ}
    (h : S.ReachIf C s) : I s := by
  induction h with
  | init h => exact hinit _ h
  | step _ hc hs ih => exact hstep _ _ _ ih hc hs

theorem Reach.invariant {I : σ → Prop} (hinit : ∀ s, S.init s → I s)
    (hstep : ∀ s l s', I s → S.step s l = some s' → I s') {s : σ} (h : S.Reach s) : I s :=
  ReachIf.invariant hinit (fun s l s' hi _ hs => hstep s l s' hi hs) h

theorem Reach.init {s : σ} (h : S.init s) : S.Reach s := ReachIf.init h

theorem Reach.next {s s' : σ} {l : ι} (h : S.Reach s) (hs : S.step s l = some s') : S.Reach s' :=
  ReachIf.step h trivial hs

/-- A weaker condition on the steps. -/
theorem ReachIf.mono {C D : σ → ι → Prop} (hcd : ∀ s l, C s l → D s l) {s : σ}
    (h : S.ReachIf C s) : S.ReachIf D s := by
  induction h with
  | init h => exact .init h
  | step _ hc hs ih => exact .step ih (hcd _ _ hc) hs

/-- Dropping the condition on the steps. -/
theorem ReachIf.reach {C : σ → ι → Prop} {s : σ} (h : S.ReachIf C s) : S.Reach s :=
  h.mono fun _ _ _ => trivial

/-- Taking the steps `ls` one after the other. -/
def run (S : System σ ι) : σ → List ι → Option σ
  | s, [] => some s
  | s, l :: ls => (S.step s l).bind fun s' => run S s' ls

/-- Steps whose condition does not depend on the state. -/
theorem ReachIf.run {C : σ → ι → Prop} {s s' : σ} {ls : List ι} (h : S.ReachIf C s)
    (hc : ∀ l ∈ ls, ∀ s, C s l) (hr : S.run s ls = some s') : S.ReachIf C s' := by
  induction ls generalizing s with
  | nil => rw [← Option.some.inj hr]; exact h
  | cons l ls ih =>
      obtain ⟨t, ht, hrest⟩ := Option.bind_eq_some_iff.mp hr
      obtain ⟨hl, hls⟩ := List.forall_mem_cons.mp hc
      exact ih (h.step (hl s) ht) hls hrest

theorem Reach.run {s s' : σ} {ls : List ι} (h : S.Reach s) (hr : S.run s ls = some s') :
    S.Reach s' :=
  ReachIf.run h (fun _ _ _ => trivial) hr

/-- What every step keeps is kept along a run. -/
theorem run_invariant {I : σ → Prop} (hstep : ∀ s l s', I s → S.step s l = some s' → I s')
    {s t : σ} {ls : List ι} (hr : S.run s ls = some t) (hs : I s) : I t := by
  induction ls generalizing s with
  | nil => rw [← Option.some.inj hr]; exact hs
  | cons l ls ih =>
      obtain ⟨s', hs', hrest⟩ := Option.bind_eq_some_iff.mp hr
      exact ih hrest (hstep s l s' hs hs')

/-- Steps that each use up some of what there is are as few as there is of it. -/
theorem run_countP {I : σ → Prop} {p : ι → Bool} {φ : σ → Nat}
    (hstep : ∀ s l s', I s → S.step s l = some s' → I s' ∧ (p l).toNat + φ s' ≤ φ s)
    {s t : σ} {ls : List ι} (hr : S.run s ls = some t) (hs : I s) : ls.countP p + φ t ≤ φ s := by
  induction ls generalizing s with
  | nil =>
      rw [← Option.some.inj hr]
      exact Nat.le_of_eq (Nat.zero_add _)
  | cons l ls ih =>
      obtain ⟨s', hs', hrest⟩ := Option.bind_eq_some_iff.mp hr
      obtain ⟨hs₁, hfirst⟩ := hstep s l s' hs hs'
      have hothers := ih hrest hs₁
      have hcount : (l :: ls).countP p = (p l).toNat + ls.countP p := by
        rw [List.countP_cons, Nat.add_comm]
        cases p l <;> rfl
      omega

end System

end CmakeTemplate.Lib
