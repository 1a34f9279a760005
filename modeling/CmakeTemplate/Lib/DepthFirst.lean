/-
Searching with a stack, and depth-first order.

In a depth-first order every node is reached from the last one that has a neighbour left.  A
search that marks a node when it puts it on the stack does not always go so: a node that has
been marked stays where it waits, even if a later node leads to it.  `NoneOvertaken` says when
this does no harm.

Both are compared where a node is taken: the nodes above it on the stack are taken before
(`exists_taken`), and they lead to all that is taken in between.
-/
import CmakeTemplate.Lib.Exploration

namespace CmakeTemplate.Lib

variable {V : Type} {succ : V → List V} {E : V → V → Prop}
  {order pre rest post above below : List V} {s u v w x y : V} {S S' F T : Search V}

/-! ### What is meant

Depth-first order is a property of an order of nodes alone, whatever search it came from: a
node is open while it leads to one that has not been visited, and the next node is a neighbour
of the last open one.
-/

/-- A node that leads to one that has not been visited. -/
def Open (E : V → V → Prop) (visited : List V) (u : V) : Prop := ∃ x, E u x ∧ x ∉ visited

/-- Every node after the first is a neighbour of the last one before it that has a neighbour which
has not been visited yet. -/
def DepthFirst (E : V → V → Prop) (order : List V) : Prop :=
  ∀ pre v post, order = pre ++ v :: post → pre ≠ [] →
    ∃ before u after, pre = before ++ u :: after ∧ Open E pre u ∧ (∀ w ∈ after, ¬ Open E pre w) ∧
      E u v

/-- A step from a node that is not in `closed`. -/
def Outside (succ : V → List V) (closed : List V) (u v : V) : Prop := v ∈ succ u ∧ u ∉ closed

variable {closed closed' : List V}

theorem reaches_outside_mono (hsub : closed ⊆ closed')
    (h : Reaches (Outside succ closed') u v) : Reaches (Outside succ closed) u v :=
  Relation.ReflTransGen.mono (fun _ _ huv => ⟨huv.1, fun hc => huv.2 (hsub hc)⟩) u v h

theorem exists_last {p : V → Prop} {l : List V} (h : ∃ u ∈ l, p u) :
    ∃ before u after, l = before ++ u :: after ∧ p u ∧ ∀ w ∈ after, ¬ p w := by
  induction l with
  | nil => simp at h
  | cons a l ih =>
      by_cases hl : ∃ u ∈ l, p u
      · obtain ⟨before, u, after, rfl, hu, hafter⟩ := ih hl
        exact ⟨a :: before, u, after, rfl, hu, hafter⟩
      · obtain ⟨u, hu, hpu⟩ := h
        rcases List.mem_cons.mp hu with rfl | hmem
        · exact ⟨[], u, l, rfl, hpu, fun w hw hpw => hl ⟨w, hw, hpw⟩⟩
        · exact absurd ⟨u, hmem, hpu⟩ hl

/-- With an open node among the last ones, the next is a neighbour of one of those. -/
theorem DepthFirst.exists_parent {taken : List V} (h : DepthFirst E order)
    (horder : order = pre ++ taken ++ y :: post) (hv : v ∈ taken)
    (hopen : Open E (pre ++ taken) v) : ∃ u ∈ taken, E u y := by
  obtain ⟨before, u, after, hsplit, -, hafter, huy⟩ :=
    h _ y post horder (List.append_ne_nil_of_right_ne_nil _ (List.ne_nil_of_mem hv))
  refine ⟨u, ?_, huy⟩
  rcases List.append_eq_append_iff.mp hsplit with ⟨c, -, rfl⟩ | ⟨c, -, hc⟩
  · exact List.mem_append_right _ List.mem_cons_self
  · cases c with
    | nil =>
        rw [List.nil_append] at hc
        exact hc ▸ List.mem_cons_self
    | cons d c =>
        obtain ⟨-, rfl⟩ := List.cons.inj hc
        exact absurd hopen (hafter v (List.mem_append_right _ hv))

variable [DecidableEq V]

/-- When a node is taken that leads to one on the stack, those waiting above can be reached from it
without passing a node that has been taken or waits no higher. -/
def NoneOvertaken (succ : V → List V) (s : V) : Prop :=
  ∀ S, Search.Leads succ onTop (.start s) S → ∀ v above y below,
    S.waiting = v :: (above ++ y :: below) → (∃ x ∈ y :: below, x ∈ succ v) →
      Reaches (Outside succ (S.done ++ y :: below)) v y

/-! ### The rounds of a search

A search is followed from one state to a later one.  It takes every node that waits, in the
end, and it takes each of them once, so there is a state at which a given node is taken.
-/

namespace Search

variable {place : List V → V → List V}

theorem Leads.done_prefix (h : Leads succ place S S') : S.done <+: S'.done := by
  induction h with
  | refl => exact List.prefix_rfl
  | tail _ hround ih =>
      obtain ⟨u, rest, -, hdone, -⟩ := round_eq_some hround
      exact ih.trans ⟨[u], hdone.symm⟩

/-- What is found later, a node led to that has been taken since. -/
theorem Leads.found_since (hplace : ∀ l v, (place l v).Perm (v :: l))
    (h : Leads succ place S S') : ∃ taken, S'.done = S.done ++ taken ∧
      ∀ v ∈ S'.found, v ∈ S.found ∨ ∃ u ∈ taken, v ∈ succ u := by
  induction h with
  | refl => exact ⟨[], (List.append_nil _).symm, fun v hv => .inl hv⟩
  | tail _ hround ih =>
      obtain ⟨taken, hdone, hfound⟩ := ih
      obtain ⟨u, rest, hwaiting, hdone', -⟩ := round_eq_some hround
      refine ⟨taken ++ [u], by rw [hdone', hdone, List.append_assoc], fun v hv => ?_⟩
      rcases (mem_found_round hplace hround hwaiting).mp hv with hold | hnew
      · rcases hfound v hold with hv | ⟨w, hw, hwv⟩
        · exact .inl hv
        · exact .inr ⟨w, List.mem_append_left _ hw, hwv⟩
      · exact .inr ⟨u, by simp, hnew⟩

theorem Leads.total (h : Leads succ place T S) (h' : Leads succ place T S') :
    Leads succ place S S' ∨ Leads succ place S' S := by
  refine Relation.ReflTransGen.total_of_right_unique ?_ h h'
  intro a b c hb hc
  exact Option.some.inj (hb.symm.trans hc)

theorem Leads.eq_of_empty (h : Leads succ place S S') (hempty : S.waiting = []) : S = S' := by
  rcases h.cases_head with rfl | ⟨S₁, hround, -⟩
  · rfl
  · obtain ⟨u, rest, hwaiting, -⟩ := round_eq_some hround
    rw [hempty] at hwaiting
    cases hwaiting

/-- Every search goes on to where no node waits. -/
theorem Leads.to_end (h : Leads succ place T S) (hF : Leads succ place T F)
    (hempty : F.waiting = []) : Leads succ place S F := by
  rcases h.total hF with hl | hl
  · exact hl
  · rw [Leads.eq_of_empty hl hempty]

/-- There is one end. -/
theorem Leads.eq_end (h : Leads succ place T S) (hF : Leads succ place T F)
    (hS : S.waiting = []) (hempty : F.waiting = []) : S = F :=
  Leads.eq_of_empty (Leads.to_end h hF hempty) hS

/-- The node on top is taken next. -/
theorem Leads.exists_post (h : Leads succ place S F) (hempty : F.waiting = [])
    (hwaiting : S.waiting = y :: rest) : ∃ post, F.done = S.done ++ y :: post := by
  rcases h.cases_head with rfl | ⟨S₁, hround, hrest⟩
  · rw [hwaiting] at hempty
    cases hempty
  · obtain ⟨u, rest', hcons, hdone, -⟩ := round_eq_some hround
    obtain ⟨rfl, -⟩ := List.cons.inj (hwaiting.symm.trans hcons)
    obtain ⟨post, hpost⟩ := Leads.done_prefix hrest
    exact ⟨post, by rw [← hpost, hdone, List.append_assoc, List.singleton_append]⟩

/-- A node that waits has not been taken. -/
theorem Leads.not_before (h : Leads succ place S S') (hS' : S'.found.Nodup)
    (hwaiting : S.waiting = y :: rest) (hmem : y ∈ S'.waiting) : S = S' := by
  rcases h.cases_head with rfl | ⟨S₁, hround, hrest⟩
  · rfl
  · obtain ⟨u, rest', hcons, hdone, -⟩ := round_eq_some hround
    obtain ⟨rfl, -⟩ := List.cons.inj (hwaiting.symm.trans hcons)
    have hy : y ∈ S'.done := (Leads.done_prefix hrest).subset (by simp [hdone])
    exact absurd rfl ((List.nodup_append.mp hS').2.2 y hy y hmem)

/-- A node is taken at one time only. -/
theorem Leads.eq_of_next {rest' : List V} (h : Leads succ place T S) (h' : Leads succ place T S')
    (hS : S.found.Nodup) (hS' : S'.found.Nodup) (hwaiting : S.waiting = y :: rest)
    (hwaiting' : S'.waiting = y :: rest') : S = S' := by
  rcases h.total h' with hl | hl
  · exact hl.not_before hS' hwaiting (by simp [hwaiting'])
  · exact (hl.not_before hS hwaiting' (by simp [hwaiting])).symm

/-- A node that none of those taken since leads to has been waiting. -/
theorem Leads.mem_waiting (hplace : ∀ l v, (place l v).Perm (v :: l)) (h : Leads succ place S S')
    {taken : List V} (hdone : S'.done = S.done ++ taken) (hwaiting : y ∈ S'.waiting)
    (hy : y ∉ S'.done) (hnone : ∀ w ∈ taken, y ∉ succ w) : y ∈ S.waiting := by
  obtain ⟨taken', hdone', hfound⟩ := h.found_since hplace
  rw [hdone, List.append_cancel_left_eq] at hdone'
  subst hdone'
  have hold : y ∈ S.found := by
    rcases hfound y (List.mem_append_right _ hwaiting) with hold | ⟨w, hw, hwy⟩
    · exact hold
    · exact absurd hwy (hnone w hw)
  refine (List.mem_append.mp hold).resolve_left fun hmem => hy ?_
  rw [hdone]
  exact List.mem_append_left _ hmem

/-- The search before it takes one of the nodes. -/
theorem Leads.exists_before (h : Leads succ place S F) :
    ∀ pre post, F.done = S.done ++ pre ++ v :: post →
      ∃ S' rest, Leads succ place S S' ∧ Leads succ place S' F ∧ S'.done = S.done ++ pre ∧
        S'.waiting = v :: rest := by
  induction h using Relation.ReflTransGen.head_induction_on with
  | refl =>
      intro pre post hdone
      have hlength := congrArg List.length hdone
      simp only [List.length_append, List.length_cons] at hlength
      omega
  | @head S S₁ hround hleads ih =>
      intro pre post hdone
      obtain ⟨u, rest, hwaiting, hdone₁, -⟩ := round_eq_some hround
      obtain ⟨later, hlater⟩ := Leads.done_prefix hleads
      rw [hdone, hdone₁, List.append_assoc, List.append_assoc, List.append_cancel_left_eq] at hlater
      cases pre with
      | nil =>
          obtain ⟨rfl, -⟩ := List.cons.inj hlater
          exact ⟨S, rest, .refl, .head hround hleads, (List.append_nil _).symm, hwaiting⟩
      | cons p pre =>
          obtain ⟨rfl, -⟩ := List.cons.inj hlater
          obtain ⟨S', rest', hto, hfrom, hdone', hwaiting'⟩ := ih pre post (by
            rw [hdone, hdone₁]
            simp)
          refine ⟨S', rest', .head hround hto, hfrom, ?_, hwaiting'⟩
          rw [hdone', hdone₁]
          simp

end Search

/-! ### What is above on the stack

A node waits until all that lie above it, and all that is pushed on top in the meantime, have
been taken.  Those are the ones that can be reached from above without passing what had been
found before.
-/

/-- The search comes to where the nodes `above` have been taken, and only what they lead to without
passing through what was found. -/
theorem exists_taken (h : Search.Leads succ onTop S F) (hempty : F.waiting = [])
    (hS : Explored succ s S) : ∀ above, S.waiting = above ++ rest →
      ∃ S' taken, Search.Leads succ onTop S S' ∧ Search.Leads succ onTop S' F ∧
        S'.done = S.done ++ taken ∧ S'.waiting = rest ∧ above ⊆ taken ∧
        ∀ d ∈ taken, ∃ a ∈ above, Reaches (Outside succ (S.done ++ rest)) a d := by
  induction h using Relation.ReflTransGen.head_induction_on with
  | refl =>
      intro above hwaiting
      obtain ⟨rfl, rfl⟩ := List.append_eq_nil_iff.mp (hwaiting.symm.trans hempty)
      exact ⟨F, [], .refl, .refl, (List.append_nil _).symm, hempty, by simp, by simp⟩
  | @head S S₁ hround hleads ih =>
      intro above hwaiting
      cases above with
      | nil =>
          exact ⟨S, [], .refl, .head hround hleads, (List.append_nil _).symm, hwaiting, by simp,
            by simp⟩
      | cons a above =>
          obtain ⟨u, rest', hcons, hdone₁, hwaiting₁⟩ := Search.round_eq_some hround
          rw [hwaiting, List.cons_append] at hcons
          obtain ⟨rfl, rfl⟩ := List.cons.inj hcons
          rw [foldl_onTop, ← List.append_assoc] at hwaiting₁
          obtain ⟨S', taken, hto, hfrom, hdone', hwaiting', habove, htaken⟩ :=
            ih (hS.round onTop_perm hround) _ hwaiting₁
          have hnotin : a ∉ S.done ++ rest := by
            have hnodup := hS.nodup
            rw [Search.found, hwaiting] at hnodup
            obtain ⟨-, hwait, hdisjoint⟩ := List.nodup_append.mp hnodup
            intro hmem
            rcases List.mem_append.mp hmem with hd | hr
            · exact hdisjoint a hd a (by simp) rfl
            · exact (List.nodup_cons.mp hwait).1 (List.mem_append_right _ hr)
          have hsub : S.done ++ rest ⊆ S₁.done ++ rest := by
            rw [hdone₁]
            intro w hw
            simp only [List.mem_append] at hw ⊢
            tauto
          refine ⟨S', a :: taken, .head hround hto, hfrom, ?_, hwaiting', ?_, ?_⟩
          · rw [hdone', hdone₁, List.append_assoc, List.singleton_append]
          · exact List.cons_subset_cons a fun b hb => habove (List.mem_append_right _ hb)
          · intro d hd
            rcases List.mem_cons.mp hd with rfl | hd
            · exact ⟨d, by simp, .refl⟩
            · obtain ⟨b, hb, hbd⟩ := htaken d hd
              have hbd' := reaches_outside_mono hsub hbd
              rcases List.mem_append.mp hb with hnew | hold
              · have hb' := (mem_fresh.mp (List.mem_reverse.mp hnew)).1
                exact ⟨a, by simp, .head ⟨hb', hnotin⟩ hbd'⟩
              · exact ⟨b, List.mem_cons_of_mem _ hold, hbd'⟩

/-! ### When the order is depth-first

If a node is overtaken, the one that overtakes it breaks the order; if none is, the parent of
every node is the last open one.
-/

/-- From a node whose neighbours have all been found, the way out of it is through those taken
since. -/
theorem Explored.mem_of_outside {before after : List V} (hS : Explored succ s S)
    (hdone : S.done = before ++ u :: after)
    (h : Reaches (Outside succ (before ++ S.waiting)) u w) (hw : w ∉ before ++ S.waiting) :
    w ∈ u :: after := by
  induction h with
  | refl => exact List.mem_cons_self
  | @tail a b _ hstep ih =>
      have ha : a ∈ S.done := hdone ▸ List.mem_append_right _ (ih hstep.2)
      have hb := hS.closed a ha b hstep.1
      rw [Search.found, hdone] at hb
      simp only [List.mem_append] at hb hw
      tauto

omit [DecidableEq V] in
/-- A node on top that is not the first is led to by one that has been taken. -/
theorem Explored.exists_open (hS : Explored succ s S) (hwaiting : S.waiting = y :: rest)
    (hdone : S.done ≠ []) (hy : y ∉ S.done) :
    ∃ u ∈ S.done, Open (fun u v => v ∈ succ u) S.done u := by
  rcases hS.leadsTo y (by simp [Search.found, hwaiting]) with rfl | ⟨u, hu, huy⟩
  · have hfirst := hS.first
    rw [Search.found, List.head?_append_of_ne_nil _ hdone] at hfirst
    exact absurd (List.mem_of_mem_head? hfirst) hy
  · exact ⟨u, hu, y, huy, hy⟩

theorem NoneOvertaken.depthFirst (h : NoneOvertaken succ s)
    (hF : Search.Leads succ onTop (.start s) F) (hempty : F.waiting = []) :
    DepthFirst (fun u v => v ∈ succ u) F.done := by
  intro pre y post hdone hpre
  obtain ⟨Sy, rest, hto, hfrom, hdoneY, hwaitingY⟩ := hF.exists_before pre post hdone
  rw [Search.start, List.nil_append] at hdoneY
  have hSy := (Explored.start succ s).leads onTop_perm hto
  have hnodup := hSy.nodup
  rw [Search.found, hdoneY, hwaitingY] at hnodup
  have hy : y ∉ pre := fun hmem => (List.nodup_append.mp hnodup).2.2 y hmem y (by simp) rfl
  have hparent := hSy.exists_open hwaitingY (hdoneY ▸ hpre) (hdoneY ▸ hy)
  rw [hdoneY] at hparent
  obtain ⟨before, u, after, rfl, hu, hafter⟩ := exists_last hparent
  refine ⟨before, u, after, rfl, hu, hafter, ?_⟩
  by_contra hnot
  obtain ⟨Su, restU, htoU, hUY, hdoneU, hwaitingU⟩ := hto.exists_before before after hdoneY
  rw [Search.start, List.nil_append] at hdoneU
  have hSu := (Explored.start succ s).leads onTop_perm htoU
  -- `y` was there before `u` was taken, for neither `u` nor a later node leads to it
  have hmem : y ∈ restU := by
    have hwait := Search.Leads.mem_waiting onTop_perm hUY (y := y) (by rw [hdoneY, hdoneU])
      (by simp [hwaitingY]) (hdoneY ▸ hy) fun w hw hwy => ?_
    · rw [hwaitingU] at hwait
      exact (List.mem_cons.mp hwait).resolve_left fun hyu => hy (by simp [hyu])
    · rcases List.mem_cons.mp hw with rfl | hw
      · exact hnot hwy
      · exact hafter w hw ⟨y, hwy, hy⟩
  obtain ⟨above, below, rfl⟩ := List.append_of_mem hmem
  have hend := htoU.to_end hF hempty
  obtain ⟨S', taken, htoS', hfromS', hdoneS', hwaitingS', -, -⟩ :=
    exists_taken hend hempty hSu (u :: above) hwaitingU
  have hS' := hSu.leads onTop_perm htoS'
  have hsame := Search.Leads.eq_of_next (htoU.trans htoS') hto hS'.nodup hSy.nodup hwaitingS' hwaitingY
  rw [hsame] at hwaitingS'
  obtain ⟨x, hux, hx⟩ := hu
  have hxbelow : x ∈ y :: below := by
    have hfound := hSy.closed u (by simp [hdoneY]) x hux
    rw [Search.found, hdoneY, hwaitingS'] at hfound
    exact (List.mem_append.mp hfound).resolve_left hx
  have hway := h Su htoU u above y below hwaitingU ⟨x, hxbelow, hux⟩
  rw [hdoneU, ← hwaitingS'] at hway
  rcases Relation.ReflTransGen.cases_tail hway with rfl | ⟨z, hz, hzy⟩
  · exact hy (by simp)
  · rcases List.mem_cons.mp (hSy.mem_of_outside hdoneY hz hzy.2) with rfl | hmemz
    · exact hnot hzy.1
    · exact hafter z hmemz ⟨y, hzy.1, hy⟩

/-- What is above a node on the stack is reached before it, and so is that node itself if an earlier
node was left open. -/
theorem DepthFirst.reaches_above (h : DepthFirst (fun u v => v ∈ succ u) F.done)
    (hF : Search.Leads succ onTop (.start s) F) (hempty : F.waiting = [])
    (hS : Search.Leads succ onTop (.start s) S) (hx : x ∈ succ v) :
    ∀ (k : Nat) (above : List V) (y : V) (below : List V), above.length = k →
      S.waiting = v :: (above ++ y :: below) → x ∈ y :: below →
      Reaches (Outside succ (S.done ++ y :: below)) v y := by
  have hE := (Explored.start succ s).leads onTop_perm hS
  have hend := hS.to_end hF hempty
  intro k
  induction k using Nat.strong_induction_on with
  | _ k ih =>
      intro above y below hk hwaiting hxmem
      obtain ⟨S', taken, hto, hfrom, hdone', hwaiting', hsub, htaken⟩ :=
        exists_taken hend hempty hE (v :: above) hwaiting
      have hnodup := (hE.leads onTop_perm hto).nodup
      rw [Search.found, hdone', hwaiting'] at hnodup
      have hdisjoint := (List.nodup_append.mp hnodup).2.2
      have hv : v ∈ taken := hsub List.mem_cons_self
      -- all that is taken before `y` is reached from `v`, that above `y` by induction
      have hreach : ∀ d ∈ taken, Reaches (Outside succ (S.done ++ y :: below)) v d := by
        intro d hd
        obtain ⟨a, ha, had⟩ := htaken d hd
        rcases List.mem_cons.mp ha with rfl | ha
        · exact had
        · obtain ⟨a₁, a₂, rfl⟩ := List.append_of_mem ha
          have hlater : x ∈ a :: (a₂ ++ y :: below) :=
            List.mem_cons_of_mem _ (List.mem_append_right _ hxmem)
          have hva := ih a₁.length (by rw [← hk]; simp) a₁ a (a₂ ++ y :: below) rfl
            (by rw [hwaiting]; simp) hlater
          refine (reaches_outside_mono ?_ hva).trans had
          intro w hw
          simp only [List.mem_append, List.mem_cons] at hw ⊢
          tauto
      obtain ⟨post, hpost⟩ := Search.Leads.exists_post hfrom hempty hwaiting'
      have hopen : Open (fun u v => v ∈ succ u) (S.done ++ taken) v :=
        ⟨x, hx, fun hmem => hdisjoint x hmem x hxmem rfl⟩
      rw [hdone'] at hpost
      obtain ⟨u, hu, huy⟩ := h.exists_parent hpost hv hopen
      refine (hreach u hu).tail ⟨huy, fun hmem => ?_⟩
      rcases List.mem_append.mp hmem with hd | hw
      · exact (List.nodup_append.mp (List.nodup_append.mp hnodup).1).2.2 u hd u hu rfl
      · exact hdisjoint u (List.mem_append_right _ hu) u hw rfl

/-- A search with a stack visits in depth-first order if and only if no node is overtaken. -/
theorem depthFirst_iff (hF : Search.Leads succ onTop (.start s) F) (hempty : F.waiting = []) :
    DepthFirst (fun u v => v ∈ succ u) F.done ↔ NoneOvertaken succ s := by
  constructor
  · intro h S hS v above y below hwaiting hx
    obtain ⟨x, hxmem, hxv⟩ := hx
    exact h.reaches_above hF hempty hS hxv above.length above y below rfl hwaiting hxmem
  · intro h
    exact h.depthFirst hF hempty

end CmakeTemplate.Lib
