/-
Searching a graph with a list of nodes that wait.

`succ v` are the nodes that `v` leads to, in an order.  A round takes the first node that
waits and adds those it leads to that have not been found yet, one after the other; where they
are put is what `place` says.  `behind` makes the list a queue, `onTop` a stack.  A node
counts as found from the moment it is put on the list, so none is put there twice.

Whatever the order, a search keeps `Explored`: what it has found begins with the start, has no
node twice, can be reached from the start, and is closed under the edges of the nodes that
have been taken.  When no node waits, that makes it the set of all nodes that can be reached,
each of them once.  For a queue the order is known too, and follows from what is proved of
level order.
-/
import CmakeTemplate.Lib.LevelOrder

namespace CmakeTemplate.Lib

variable {V : Type}

/-- Where a search is: the nodes it has taken, in this order, and those that wait. -/
structure Search (V : Type) where
  /-- The nodes that have been taken, in this order. -/
  done : List V
  /-- The nodes that have been found and not been taken yet. -/
  waiting : List V

namespace Search

/-- The nodes that have been found. -/
def found (S : Search V) : List V := S.done ++ S.waiting

/-- Only the start has been found. -/
def start (s : V) : Search V := ⟨[], [s]⟩

end Search

def behind (waiting : List V) (v : V) : List V := waiting ++ [v]

def onTop (waiting : List V) (v : V) : List V := v :: waiting

variable {succ : V → List V} {place : List V → V → List V} {s u v w : V}
  {found found' vs rest done : List V} {S S' : Search V}

/-! ### Connected nodes

An edge that can be gone back makes the way back: connected nodes then reach each other.
-/

theorem reaches_symm {E : V → V → Prop} (hback : ∀ u v, E u v → Reaches E v u)
    (h : Reaches E u v) : Reaches E v u := by
  induction h with
  | refl => exact .refl
  | tail _ huv ih => exact (hback _ _ huv).trans ih

/-- Where there is a way back along each edge, nodes that are connected can be reached. -/
theorem connected_iff_reaches {E : V → V → Prop} (hback : ∀ u v, E u v → Reaches E v u) :
    Relation.EqvGen E u v ↔ Reaches E u v := by
  constructor
  · intro h
    induction h with
    | rel u v huv => exact .single huv
    | refl u => exact .refl
    | symm u v _ ih => exact reaches_symm hback ih
    | trans u v w _ _ ihuv ihvw => exact ihuv.trans ihvw
  · exact Relation.EqvGen.reflTransGen_le_eqvGen E u v

/-! ### Where they are put

Both places add the same nodes, so what is found does not depend on the place up to order.
-/

theorem foldl_place_perm (hplace : ∀ l v, (place l v).Perm (v :: l)) (new l : List V) :
    (new.foldl place l).Perm (l ++ new) := by
  induction new generalizing l with
  | nil => rw [List.append_nil, List.foldl_nil]
  | cons v new ih =>
      rw [List.foldl_cons]
      exact (ih (place l v)).trans (((hplace l v).append_right new).trans List.perm_middle.symm)

theorem behind_perm (l : List V) (v : V) : (behind l v).Perm (v :: l) :=
  List.perm_append_singleton v l

theorem onTop_perm (l : List V) (v : V) : (onTop l v).Perm (v :: l) := .refl _

theorem foldl_behind (new l : List V) : new.foldl behind l = l ++ new := by
  induction new generalizing l with
  | nil => rw [List.append_nil, List.foldl_nil]
  | cons v new ih => rw [List.foldl_cons, ih, behind, List.append_assoc, List.singleton_append]

theorem foldl_onTop (new l : List V) : new.foldl onTop l = new.reverse ++ l := by
  induction new generalizing l with
  | nil => rfl
  | cons v new ih => rw [List.foldl_cons, ih, onTop, List.reverse_cons, List.append_assoc,
      List.singleton_append]

/-! ### What a search has found

The invariant of a search, with no word about the order in which the waiting nodes are taken.
-/

/-- What a search from `s` has found. -/
structure Explored (succ : V → List V) (s : V) (S : Search V) : Prop where
  /-- The search began at `s`. -/
  first : S.found.head? = some s
  /-- No node is found twice. -/
  nodup : S.found.Nodup
  /-- What has been found can be reached. -/
  reached : ∀ v ∈ S.found, Reaches (fun u v => v ∈ succ u) s v
  /-- All that a node leads to has been found once it has been taken. -/
  closed : ∀ u ∈ S.done, ∀ v ∈ succ u, v ∈ S.found
  /-- A node was found from one that had been taken before. -/
  leadsTo : ∀ v ∈ S.found, v = s ∨ ∃ u ∈ S.done, v ∈ succ u

namespace Explored

theorem start (succ : V → List V) (s : V) : Explored succ s (.start s) where
  first := rfl
  nodup := List.pairwise_singleton _ _
  reached v hv := by
    rw [List.mem_singleton.mp hv]
  closed _ hu := absurd hu List.not_mem_nil
  leadsTo v hv := .inl (List.mem_singleton.mp hv)

/-- When no node waits any more, everything that can be reached has been found. -/
theorem mem_done_iff (h : Explored succ s S) (hempty : S.waiting = []) :
    v ∈ S.done ↔ Reaches (fun u v => v ∈ succ u) s v := by
  have hfound : S.found = S.done := by rw [Search.found, hempty, List.append_nil]
  constructor
  · intro hv
    exact h.reached v (hfound.symm ▸ hv)
  · intro hv
    induction hv with
    | refl => exact hfound ▸ List.mem_of_mem_head? h.first
    | tail _ huv ih => exact hfound ▸ h.closed _ ih _ huv

/-- No more is found than there is. -/
theorem length_le (h : Explored succ s S)
    (hall : ∀ v, Reaches (fun u v => v ∈ succ u) s v → v ∈ vs) : S.found.length ≤ vs.length :=
  (List.subperm_of_subset h.nodup fun v hv => hall v (h.reached v hv)).length_le

end Explored

/-! ### Rounds

One round keeps the invariant, and so does a run of them.
-/

variable [DecidableEq V]

/-- Those of the nodes that have not been found, each once. -/
def fresh : List V → List V → List V
  | _, [] => []
  | found, v :: vs => if v ∈ found then fresh found vs else v :: fresh (found ++ [v]) vs

namespace Search

def round (succ : V → List V) (place : List V → V → List V) (S : Search V) : Option (Search V) :=
  match S.waiting with
  | [] => none
  | u :: rest => some ⟨S.done ++ [u], (fresh S.found (succ u)).foldl place rest⟩

/-- Some rounds later. -/
abbrev Leads (succ : V → List V) (place : List V → V → List V) (S S' : Search V) : Prop :=
  Relation.ReflTransGen (fun S S' => S.round succ place = some S') S S'

end Search

theorem fresh_congr (h : ∀ v, v ∈ found ↔ v ∈ found') (vs : List V) :
    fresh found vs = fresh found' vs := by
  induction vs generalizing found found' with
  | nil => rfl
  | cons v vs ih =>
      unfold fresh
      by_cases hv : v ∈ found
      · rw [if_pos hv, if_pos ((h v).mp hv), ih h]
      · rw [if_neg hv, if_neg fun hc => hv ((h v).mpr hc), ih]
        intro w
        rw [List.mem_append, List.mem_append, h w]

theorem mem_fresh : v ∈ fresh found vs ↔ v ∈ vs ∧ v ∉ found := by
  induction vs generalizing found with
  | nil => simp [fresh]
  | cons w vs ih =>
      unfold fresh
      by_cases hw : w ∈ found
      · rw [if_pos hw, ih, List.mem_cons]
        refine and_congr_left fun hv => ⟨.inr, fun hor => hor.resolve_left ?_⟩
        intro hvw
        exact hv (hvw ▸ hw)
      · rw [if_neg hw, List.mem_cons, ih, List.mem_cons, List.mem_append, List.mem_singleton]
        by_cases hvw : v = w
        · simp [hvw, hw]
        · simp [hvw]

theorem nodup_fresh : (fresh found vs).Nodup := by
  induction vs generalizing found with
  | nil => exact List.nodup_nil
  | cons w vs ih =>
      unfold fresh
      by_cases hw : w ∈ found
      · rw [if_pos hw]
        exact ih
      · rw [if_neg hw]
        refine List.nodup_cons.mpr ⟨?_, ih⟩
        intro hmem
        exact (mem_fresh.mp hmem).2 (by simp)

theorem Search.round_cons (done rest : List V) (u : V) :
    (⟨done, u :: rest⟩ : Search V).round succ place =
      some ⟨done ++ [u], (fresh (done ++ u :: rest) (succ u)).foldl place rest⟩ := rfl

theorem Search.round_eq_some (h : S.round succ place = some S') :
    ∃ u rest, S.waiting = u :: rest ∧ S'.done = S.done ++ [u] ∧
      S'.waiting = (fresh S.found (succ u)).foldl place rest := by
  obtain ⟨done, waiting⟩ := S
  cases waiting with
  | nil => cases h
  | cons u rest =>
      cases h
      exact ⟨u, rest, rfl, rfl, rfl⟩

theorem fresh_eq_self (hnodup : vs.Nodup) (hnew : ∀ v ∈ vs, v ∉ found) : fresh found vs = vs := by
  induction vs generalizing found with
  | nil => rfl
  | cons w vs ih =>
      obtain ⟨hw, hvs⟩ := List.forall_mem_cons.mp hnew
      obtain ⟨hnotin, hnd⟩ := List.nodup_cons.mp hnodup
      unfold fresh
      rw [if_neg hw, ih hnd]
      intro v hv hmem
      rcases List.mem_append.mp hmem with hold | hlast
      · exact hvs v hv hold
      · exact hnotin (List.mem_singleton.mp hlast ▸ hv)

/-- What a round finds. -/
theorem Search.found_round (hplace : ∀ l v, (place l v).Perm (v :: l)) {rest : List V}
    (hs : S.round succ place = some S') (hwaiting : S.waiting = u :: rest) :
    S'.found.Perm (S.found ++ fresh S.found (succ u)) := by
  obtain ⟨done, _⟩ := S
  obtain rfl := hwaiting
  rw [Search.round_cons] at hs
  obtain rfl := Option.some.inj hs
  have hperm := foldl_place_perm hplace (fresh (done ++ u :: rest) (succ u)) rest
  simp only [Search.found, List.append_assoc, List.cons_append]
  exact (hperm.cons u).append_left done

theorem Search.mem_found_round (hplace : ∀ l v, (place l v).Perm (v :: l)) {rest : List V}
    (hs : S.round succ place = some S') (hwaiting : S.waiting = u :: rest) :
    v ∈ S'.found ↔ v ∈ S.found ∨ v ∈ succ u := by
  rw [(Search.found_round hplace hs hwaiting).mem_iff, List.mem_append, mem_fresh]
  by_cases hv : v ∈ S.found
  · simp only [hv, true_or]
  · simp only [hv, not_false_eq_true, and_true]

namespace Explored

theorem round (hplace : ∀ l v, (place l v).Perm (v :: l)) (h : Explored succ s S)
    (hs : S.round succ place = some S') : Explored succ s S' := by
  obtain ⟨u, rest, hwaiting, hdone, -⟩ := Search.round_eq_some hs
  have hfound := Search.found_round hplace hs hwaiting
  have hmem : ∀ v, v ∈ S'.found ↔ v ∈ S.found ∨ v ∈ succ u :=
    fun _ => Search.mem_found_round hplace hs hwaiting
  have hu : u ∈ S.found := by simp [Search.found, hwaiting]
  refine ⟨?_, ?_, ?_, ?_, ?_⟩
  · have hfirst := h.first
    rw [Search.found, hwaiting] at hfirst
    rw [Search.found, hdone, List.append_assoc, List.singleton_append]
    cases hd : S.done with
    | nil => rwa [hd] at hfirst
    | cons d done => rwa [hd] at hfirst
  · refine hfound.nodup_iff.mpr (List.nodup_append.mpr ⟨h.nodup, nodup_fresh, ?_⟩)
    intro a ha b hb hab
    exact (mem_fresh.mp hb).2 (hab ▸ ha)
  · intro v hv
    rcases (hmem v).mp hv with hold | hnew
    · exact h.reached v hold
    · exact (h.reached u hu).tail hnew
  · intro a ha v hv
    refine (hmem v).mpr ?_
    rcases List.mem_append.mp (hdone ▸ ha) with ha | ha
    · exact .inl (h.closed a ha v hv)
    · rw [List.mem_singleton.mp ha] at hv
      exact .inr hv
  · intro v hv
    rcases (hmem v).mp hv with hold | hnew
    · rcases h.leadsTo v hold with hstart | ⟨a, ha, hav⟩
      · exact .inl hstart
      · exact .inr ⟨a, hdone ▸ List.mem_append_left _ ha, hav⟩
    · exact .inr ⟨u, by simp [hdone], hnew⟩

theorem leads (hplace : ∀ l v, (place l v).Perm (v :: l)) (h : Explored succ s S)
    (hs : Search.Leads succ place S S') : Explored succ s S' := by
  induction hs with
  | refl => exact h
  | tail _ hround ih => exact ih.round hplace hround

end Explored

/-! ### A queue

The nodes that a round puts behind the others are found one after the other, each from the
node that is being dealt with.
-/

/-- The nodes that are new are found one after the other. -/
theorem Frontier.discovers {E : V → V → Prop} :
    ∀ (vs rest : List V), Frontier E s done (u :: rest) → (∀ v ∈ vs, E u v) →
      Frontier E s done (u :: (rest ++ fresh (done ++ u :: rest) vs)) := by
  intro vs
  induction vs with
  | nil =>
      intro rest h _
      rwa [fresh, List.append_nil]
  | cons v vs ih =>
      intro rest h hvs
      obtain ⟨hv, hvs⟩ := List.forall_mem_cons.mp hvs
      unfold fresh
      by_cases hold : v ∈ done ++ u :: rest
      · rw [if_pos hold]
        exact ih rest h hvs
      · rw [if_neg hold]
        have hnext := ih (rest ++ [v]) (h.discover hv hold) hvs
        have hassoc : done ++ u :: (rest ++ [v]) = done ++ u :: rest ++ [v] := by simp
        rwa [hassoc, List.append_assoc, List.singleton_append] at hnext

/-- A search with a queue goes level by level. -/
theorem Frontier.round (h : Frontier (fun u v => v ∈ succ u) s S.done S.waiting)
    (hs : S.round succ behind = some S') :
    Frontier (fun u v => v ∈ succ u) s S'.done S'.waiting := by
  obtain ⟨done, waiting⟩ := S
  obtain ⟨done', waiting'⟩ := S'
  obtain ⟨u, rest, rfl, rfl, rfl⟩ := Search.round_eq_some hs
  rw [foldl_behind]
  refine (h.discovers (succ u) rest fun _ hv => hv).finish ?_
  intro v hv
  by_cases hold : v ∈ done ++ u :: rest
  · rw [← List.cons_append, ← List.append_assoc]
    exact List.mem_append_left _ hold
  · rw [← List.cons_append, ← List.append_assoc]
    exact List.mem_append_right _ (mem_fresh.mpr ⟨hv, hold⟩)

theorem Frontier.leads (h : Frontier (fun u v => v ∈ succ u) s S.done S.waiting)
    (hs : Search.Leads succ behind S S') :
    Frontier (fun u v => v ∈ succ u) s S'.done S'.waiting := by
  induction hs with
  | refl => exact h
  | tail _ hround ih => exact ih.round hround

end CmakeTemplate.Lib
