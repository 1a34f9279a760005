/-
Searching a relation level by level.

`distance E s v` is the least number of edges on a way from `s` to `v`.  A breadth-first
search has dealt with the nodes `done`, in this order, and has found those in `queue`
besides; `Frontier` says what it keeps.  The node that is dealt with has the least distance
of all in the queue, and all there are within one of each other, so a node that is found
anew is one edge further away than it: were it nearer, it would have been found from a
node that is done.
-/
import Mathlib.Logic.Relation
import Mathlib.Data.List.Perm.Subperm
import Mathlib.Order.Lattice.Nat

namespace CmakeTemplate.Lib

variable {V : Type} {E : V → V → Prop} {s u v w : V} {n : Nat}

/-! ### Distances

The distance of a node that cannot be reached is not looked at anywhere, so it is left at 0.
-/

/-- A way of `n` edges from `s`. -/
inductive Hops (E : V → V → Prop) (s : V) : Nat → V → Prop
  | here : Hops E s 0 s
  | step {n : Nat} {u v : V} (h : Hops E s n u) (huv : E u v) : Hops E s (n + 1) v

/-- The node can be reached from `s`. -/
abbrev Reaches (E : V → V → Prop) (s v : V) : Prop := Relation.ReflTransGen E s v

theorem Hops.reaches (h : Hops E s n v) : Reaches E s v := by
  induction h with
  | here => exact .refl
  | step _ huv ih => exact ih.tail huv

theorem exists_hops (h : Reaches E s v) : ∃ n, Hops E s n v := by
  induction h with
  | refl => exact ⟨0, .here⟩
  | tail _ huv ih =>
      obtain ⟨n, hn⟩ := ih
      exact ⟨n + 1, hn.step huv⟩

/-- The length of a shortest way from `s`, where there is one. -/
noncomputable def distance (E : V → V → Prop) (s v : V) : Nat := sInf {n | Hops E s n v}

theorem distance_le (h : Hops E s n v) : distance E s v ≤ n := Nat.sInf_le h

theorem hops_distance (h : Reaches E s v) : Hops E s (distance E s v) v :=
  Nat.sInf_mem (exists_hops h)

theorem distance_step (h : Reaches E s u) (huv : E u v) : distance E s v ≤ distance E s u + 1 :=
  distance_le ((hops_distance h).step huv)

/-- Every node but the start is found from one that is nearer. -/
theorem exists_nearer (h : Reaches E s v) (hne : v ≠ s) :
    ∃ u, Reaches E s u ∧ E u v ∧ distance E s v = distance E s u + 1 := by
  obtain ⟨n, hn⟩ : ∃ n, n = distance E s v := ⟨_, rfl⟩
  have hhops := hops_distance h
  rw [← hn] at hhops ⊢
  cases hhops with
  | here => exact absurd rfl hne
  | @step k u _ hu huv =>
      have hle := distance_step hu.reaches huv
      have hge := distance_le hu
      exact ⟨u, hu.reaches, huv, by omega⟩

/-! ### A search

The search is given by two lists, what it has done and its queue, with no program around it:
the steps are the discovery of one node and the end of the work on one.
-/

/-- What a search from `s` has found: the nodes `done`, and those in `queue`. -/
structure Frontier (E : V → V → Prop) (s : V) (done queue : List V) : Prop where
  /-- The search began at `s`. -/
  first : (done ++ queue).head? = some s
  /-- No node is found twice. -/
  nodup : (done ++ queue).Nodup
  /-- What has been found can be reached. -/
  reached : ∀ v ∈ done ++ queue, Reaches E s v
  /-- Nodes are found in the order of their distances. -/
  sorted : (done ++ queue).Pairwise fun u v => distance E s u ≤ distance E s v
  /-- The distances in the queue are within one of each other. -/
  span : ∀ u ∈ queue, ∀ v ∈ queue, distance E s v ≤ distance E s u + 1
  /-- All that a node leads to has been found once it is done. -/
  closed : ∀ u ∈ done, ∀ v, E u v → v ∈ done ++ queue

namespace Frontier

variable {done queue : List V}

theorem start (E : V → V → Prop) (s : V) : Frontier E s [] [s] where
  first := rfl
  nodup := List.pairwise_singleton _ _
  reached v hv := by
    rw [List.mem_singleton.mp hv]
  sorted := List.pairwise_singleton _ _
  span u hu v hv := by
    rw [List.mem_singleton.mp hu, List.mem_singleton.mp hv]
    exact Nat.le_succ _
  closed _ hu := absurd hu List.not_mem_nil

theorem start_mem (h : Frontier E s done queue) : s ∈ done ++ queue :=
  List.mem_of_mem_head? h.first

/-- The first in the queue is the nearest. -/
theorem nearest (h : Frontier E s done (u :: queue)) (hv : v ∈ u :: queue) :
    distance E s u ≤ distance E s v := by
  have hsorted := (List.pairwise_append.mp h.sorted).2.1
  rcases List.mem_cons.mp hv with rfl | hv
  · exact Nat.le_refl _
  · exact List.rel_of_pairwise_cons hsorted hv

/-- What is nearer than the first in the queue is done. -/
theorem done_of_nearer (h : Frontier E s done (u :: queue)) (hw : Reaches E s w)
    (hlt : distance E s w < distance E s u) : w ∈ done := by
  induction hn : distance E s w using Nat.strong_induction_on generalizing w with
  | _ n ih =>
      have hfound : w ∈ done ++ u :: queue := by
        by_cases hstart : w = s
        · rw [hstart]
          exact h.start_mem
        · -- the node it is found from is nearer still
          obtain ⟨x, hx, hxw, hdist⟩ := exists_nearer hw hstart
          exact h.closed x (ih _ (by omega) hx (by omega) rfl) w hxw
      rcases List.mem_append.mp hfound with hdone | hqueue
      · exact hdone
      · exact absurd (h.nearest hqueue) (Nat.not_le.mpr hlt)

/-- A node that has not been found is one further away than the one it is found from. -/
theorem distance_new (h : Frontier E s done (u :: queue)) (huv : E u v)
    (hv : v ∉ done ++ u :: queue) : distance E s v = distance E s u + 1 := by
  have hu : Reaches E s u := h.reached u (by simp)
  have hle := distance_step hu huv
  refine Nat.le_antisymm hle (Nat.succ_le_of_lt (Nat.lt_of_not_le ?_))
  intro hnear
  have hne : v ≠ s := fun hvs => hv (hvs ▸ h.start_mem)
  obtain ⟨x, hx, hxv, hdist⟩ := exists_nearer (hu.tail huv) hne
  exact hv (h.closed x (h.done_of_nearer hx (by omega)) v hxv)

/-- The node that is dealt with leads to a new one. -/
theorem discover (h : Frontier E s done (u :: queue)) (huv : E u v)
    (hv : v ∉ done ++ u :: queue) : Frontier E s done (u :: (queue ++ [v])) := by
  have hassoc : done ++ u :: (queue ++ [v]) = (done ++ u :: queue) ++ [v] := by simp
  have hnew := h.distance_new huv hv
  have hle : ∀ w ∈ done ++ u :: queue, distance E s w ≤ distance E s v := by
    intro w hw
    rw [hnew]
    rcases List.mem_append.mp hw with hw | hw
    · have hsorted := (List.pairwise_append.mp h.sorted).2.2
      exact Nat.le_succ_of_le (hsorted w hw u List.mem_cons_self)
    · exact h.span u List.mem_cons_self w hw
  refine ⟨?_, ?_, ?_, ?_, ?_, ?_⟩
  · rw [hassoc, List.head?_append, h.first]
    rfl
  · rw [hassoc]
    refine List.nodup_append.mpr ⟨h.nodup, List.pairwise_singleton _ _, ?_⟩
    intro a ha b hb hab
    rw [List.mem_singleton.mp hb] at hab
    exact hv (hab ▸ ha)
  · intro w hw
    rw [hassoc] at hw
    rcases List.mem_append.mp hw with hw | hw
    · exact h.reached w hw
    · rw [List.mem_singleton.mp hw]
      exact (h.reached u (by simp)).tail huv
  · rw [hassoc]
    refine List.pairwise_append.mpr ⟨h.sorted, List.pairwise_singleton _ _, ?_⟩
    intro a ha b hb
    rw [List.mem_singleton.mp hb]
    exact hle a ha
  · intro a ha b hb
    have hfar : ∀ w ∈ u :: (queue ++ [v]), distance E s w ≤ distance E s u + 1 := by
      intro w hw
      rcases List.mem_append.mp (List.cons_append ▸ hw : w ∈ (u :: queue) ++ [v]) with hw | hw
      · exact h.span u List.mem_cons_self w hw
      · rw [List.mem_singleton.mp hw, hnew]
    have hnear : distance E s u ≤ distance E s a := by
      rcases List.mem_append.mp (List.cons_append ▸ ha : a ∈ (u :: queue) ++ [v]) with ha | ha
      · exact h.nearest ha
      · rw [List.mem_singleton.mp ha, hnew]
        exact Nat.le_succ _
    exact Nat.le_trans (hfar b hb) (Nat.succ_le_succ hnear)
  · intro a ha b hab
    rw [hassoc]
    exact List.mem_append_left _ (h.closed a ha b hab)

/-- All that the node leads to has been found. -/
theorem finish (h : Frontier E s done (u :: queue))
    (hall : ∀ v, E u v → v ∈ done ++ u :: queue) : Frontier E s (done ++ [u]) queue := by
  have hassoc : done ++ [u] ++ queue = done ++ u :: queue := by simp
  refine ⟨?_, ?_, ?_, ?_, ?_, ?_⟩
  · rw [hassoc]
    exact h.first
  · rw [hassoc]
    exact h.nodup
  · rw [hassoc]
    exact h.reached
  · rw [hassoc]
    exact h.sorted
  · intro a ha b hb
    exact h.span a (List.mem_cons_of_mem _ ha) b (List.mem_cons_of_mem _ hb)
  · intro a ha b hab
    rw [hassoc]
    rcases List.mem_append.mp ha with ha | ha
    · exact h.closed a ha b hab
    · rw [List.mem_singleton.mp ha] at hab
      exact hall b hab

/-- With an empty queue everything that can be reached has been found. -/
theorem mem_iff (h : Frontier E s done []) : v ∈ done ↔ Reaches E s v := by
  have hfound : done ++ [] = done := List.append_nil done
  constructor
  · intro hv
    exact h.reached v (hfound.symm ▸ hv)
  · intro hv
    induction hv with
    | refl => exact hfound ▸ h.start_mem
    | tail _ huv ih => exact hfound ▸ h.closed _ ih _ huv

end Frontier

end CmakeTemplate.Lib
