/-
A linked list is a sequence.

`ListSeq` relates a list to the sequence of its data.  One call on the list is one call on the
sequence (`listExec_refines`), so a run of calls returns what the run on the sequence returns
and leaves a list that shows the sequence: by its size, by what `list_peek_position` reads,
and to a walk in either direction.

The condition on a run, `Fits`, leaves out what is no call on a sequence: a sort, more
elements than `size` can count, and a call through a `custom_free` that is not there.  Each of
the other calls has a lemma that says what it returns and which sequence is left, from the
lemmas about the nodes; the step is then one case for each call.
-/
import CmakeTemplate.Proofs.LinkedList.Remove
import CmakeTemplate.Sequence
import Mathlib.Data.List.InsertIdx

namespace CmakeTemplate

open Lib

variable {α : Type} {s s' : ListMem α × ListT α} {xs : List α}

/-- The list holds the sequence `xs`. -/
def ListSeq (s : ListMem α × ListT α) (xs : List α) : Prop :=
  ∃ ns, ListRep s.1 s.2 ns ∧ ns.map Prod.snd = xs.map some

/-- The list shows `xs`: its size, its positions and both of its walks do. -/
structure Shows (s : ListMem α × ListT α) (xs : List α) : Prop where
  /-- The size is the length. -/
  size : s.2.size.toNat = xs.length
  /-- Each position shows its element, and no other one any. -/
  peek : ∀ p : UInt32, listPeekPosition s.1 s.2 p = some xs[p.toNat]?
  /-- One walk from `head` along `next`, one from `tail` along `prev`, over the same
  nodes in the two orders, which hold `xs`. -/
  walks : ∃ as, Walk (nextOf s.1) s.2.head as none ∧ Walk (prevOf s.1) s.2.tail as.reverse none ∧
    as.map (dataOf s.1) = xs.map fun x => some (some x)

/-! ### A list that holds a sequence shows it

Everything that can be seen of a list follows from its chain.
-/

theorem ListSeq.length_eq {ns : List (Nat × Option α)} (h : ns.map Prod.snd = xs.map some) :
    ns.length = xs.length := by
  simpa using congrArg List.length h

/-- The size is 0 for the empty list only. -/
theorem ListSeq.size_ne_zero_iff {s : ListMem α × ListT α} (h : ListSeq s xs) :
    s.2.size ≠ 0 ↔ xs ≠ [] := by
  obtain ⟨ns, hrep, hmap⟩ := h
  rw [ne_eq, ne_eq, eq_zero_iff, hrep.size, ListSeq.length_eq hmap, List.length_eq_zero_iff]

theorem map_dataOf_chain {m : ListMem α} {ns : List (Nat × Option α)} {pr p la q : Ptr}
    (h : DChain m.nodes pr p ns la q) :
    (ns.map Prod.fst).map (dataOf m) = ns.map fun n => some n.2 := by
  rw [List.map_map]
  refine List.map_congr_left fun n hn => ?_
  obtain ⟨l, r, hlr⟩ := h.live n hn
  simp [dataOf, hlr]

theorem ListSeq.shows (h : ListSeq s xs) : Shows s xs := by
  obtain ⟨ns, hrep, hmap⟩ := h
  refine ⟨?_, ?_, ns.map Prod.fst, hrep.chain.walk_next, hrep.chain.walk_prev, ?_⟩
  · rw [hrep.size, ListSeq.length_eq hmap]
  · intro p
    have hget : ns[p.toNat]?.map Prod.snd = xs[p.toNat]?.map some := by
      rw [← List.getElem?_map, ← List.getElem?_map, hmap]
    rw [listPeekPosition_spec hrep]
    cases hn : ns[p.toNat]? <;> cases hx : xs[p.toNat]? <;> simp_all
  · rw [map_dataOf_chain hrep.chain]
    have := congrArg (List.map some) hmap
    simpa [Function.comp_def] using this

/-! ### One call

A case for each call, with its positions and its failures.
-/

/-- The two searches look for the same data. -/
theorem exists_equal_iff {cmp : Option α → Option α → CompRtns} {ns : List (Nat × Option α)}
    (hmap : ns.map Prod.snd = xs.map some) (d : α) :
    (∃ n ∈ ns, cmp (some d) n.2 = .equal) ↔ xs.any (Matches cmp d) = true := by
  have hany : (ns.map Prod.snd).any (fun y => cmp (some d) y = .equal)
      = xs.any (Matches cmp d) := by
    rw [hmap, List.any_map]
    rfl
  rw [← hany, List.any_map, List.any_eq_true]
  simp

theorem eraseP_map_eq {cmp : Option α → Option α → CompRtns} {ns : List (Nat × Option α)}
    (hmap : ns.map Prod.snd = xs.map some) (d : α) :
    (ns.eraseP fun n => cmp (some d) n.2 = .equal).map Prod.snd
      = (xs.eraseP (Matches cmp d)).map some := by
  have hns : ((ns.map Prod.snd).eraseP fun y => cmp (some d) y = .equal)
      = (ns.eraseP fun n => cmp (some d) n.2 = .equal).map Prod.snd := List.eraseP_map
  have hxs : ((xs.map some).eraseP fun y => cmp (some d) y = .equal)
      = (xs.eraseP (Matches cmp d)).map some := List.eraseP_map
  rw [← hns, hmap, hxs]

/-- What a call on a list has to do: return what the call on the sequence returns, and leave a list
that holds what it leaves. -/
def StepsAs (s : ListMem α × ListT α) (xs : List α) (op : ListOp α) : Prop :=
  ∃ s', listExec s op = some (s', (seqExec s.2.compareFunc xs op).2) ∧
    ListSeq s' (seqExec s.2.compareFunc xs op).1 ∧ SameFuncs s.2 s'.2

theorem pushHead_stepsAs (h : ListSeq s xs) (d : α) (hlt : xs.length + 1 < 2 ^ 32) :
    StepsAs s xs (.pushHead d) := by
  obtain ⟨ns, hrep, hmap⟩ := h
  have hlen := ListSeq.length_eq hmap
  obtain ⟨nodes, list', hrun, hpush⟩ := listPushHead_spec hrep d
  have hrep' := hpush.rep hrep (by simp) (by simpa [hlen] using hlt)
  refine ⟨({ s.1 with nodes }, list'), ?_, ⟨_, hrep', by simp [seqExec, hmap]⟩, hpush.funcs⟩
  simp [listExec, codeRet, hrun, seqExec]

theorem pushTail_stepsAs (h : ListSeq s xs) (d : α) (hlt : xs.length + 1 < 2 ^ 32) :
    StepsAs s xs (.pushTail d) := by
  obtain ⟨ns, hrep, hmap⟩ := h
  have hlen := ListSeq.length_eq hmap
  obtain ⟨nodes, list', hrun, hpush⟩ := listPushTail_spec hrep d
  have hrep' := hpush.rep hrep (by simp) (by simpa [hlen] using hlt)
  refine ⟨({ s.1 with nodes }, list'), ?_, ⟨_, hrep', by simp [seqExec, hmap]⟩, hpush.funcs⟩
  simp [listExec, codeRet, hrun, seqExec]

theorem pushPosition_stepsAs (h : ListSeq s xs) (d : α) (p : UInt32)
    (hlt : (seqExec s.2.compareFunc xs (.pushPosition d p)).1.length < 2 ^ 32) :
    StepsAs s xs (.pushPosition d p) := by
  obtain ⟨ns, hrep, hmap⟩ := h
  have hlen := ListSeq.length_eq hmap
  unfold StepsAs
  by_cases hp : p.toNat ≤ xs.length
  · simp only [seqExec, if_pos hp] at hlt ⊢
    have hpn : p.toNat ≤ ns.length := by omega
    obtain ⟨nodes, list', hrun, hpush⟩ := listPushPosition_spec hrep d hpn
    rw [List.length_insertIdx_of_le_length hp, ← hlen] at hlt
    have hrep' := hpush.rep hrep (List.length_insertIdx_of_le_length hpn _) hlt
    refine ⟨({ s.1 with nodes }, list'), ?_, ⟨_, hrep', ?_⟩, hpush.funcs⟩
    · simp [listExec, codeRet, hrun]
    · rw [List.map_insertIdx, List.map_insertIdx, hmap]
  · simp only [seqExec, if_neg hp]
    refine ⟨s, ?_, ⟨ns, hrep, hmap⟩, rfl, rfl⟩
    simp [listExec, codeRet, listPushPosition_refused hrep d (p := p) (by omega)]

theorem popHead_stepsAs (h : ListSeq s xs) : StepsAs s xs .popHead := by
  obtain ⟨ns, hrep, hmap⟩ := h
  cases xs with
  | nil =>
      obtain rfl : ns = [] := List.map_eq_nil_iff.mp hmap
      refine ⟨s, ?_, ⟨[], hrep, rfl⟩, rfl, rfl⟩
      simp [listExec, dataRet, listPopHead_nil hrep, seqExec]
  | cons x xs =>
      obtain ⟨n, ns, rfl, hn, hmap⟩ := List.map_eq_cons_iff.mp hmap
      obtain ⟨nodes, list', hrun, hrep', hfun⟩ := listPopHead_spec hrep
      refine ⟨({ s.1 with nodes }, list'), ?_, ⟨ns, hrep', hmap⟩, hfun⟩
      simp [listExec, dataRet, hrun, seqExec, hn]

theorem popTail_stepsAs (h : ListSeq s xs) : StepsAs s xs .popTail := by
  obtain ⟨ns, hrep, hmap⟩ := h
  rcases List.eq_nil_or_concat xs with rfl | ⟨xs, x, rfl⟩
  · obtain rfl : ns = [] := List.map_eq_nil_iff.mp hmap
    refine ⟨s, ?_, ⟨[], hrep, rfl⟩, rfl, rfl⟩
    simp [listExec, dataRet, listPopTail_nil hrep, seqExec]
  · simp only [List.concat_eq_append] at hmap ⊢
    rw [List.map_append, List.map_eq_append_iff] at hmap
    obtain ⟨ns, ns', rfl, hmap, hn⟩ := hmap
    obtain ⟨n, hn, hnx⟩ := List.map_eq_singleton_iff.mp hn
    subst hn
    obtain ⟨nodes, list', hrun, hrep', hfun⟩ := listPopTail_spec hrep
    refine ⟨({ s.1 with nodes }, list'), ?_, ⟨ns, hrep', by simpa [seqExec] using hmap⟩, hfun⟩
    simp [listExec, dataRet, hrun, seqExec, hnx]

theorem popPosition_stepsAs (h : ListSeq s xs) (p : UInt32)
    (hfree : CallsFree s.2.compareFunc xs (.popPosition p) → s.2.customFree = true) :
    StepsAs s xs (.popPosition p) := by
  obtain ⟨ns, hrep, hmap⟩ := h
  have hlen := ListSeq.length_eq hmap
  unfold StepsAs
  by_cases hp : p.toNat < xs.length
  · simp only [seqExec, if_pos hp]
    have hpn : p.toNat < ns.length := by omega
    obtain ⟨m', list', hrun, hrep', hfun, -⟩ := listPopPosition_spec hrep hpn fun hin =>
      hfree ⟨hin.1, by omega⟩
    have hval : ns[p.toNat].2 = xs[p.toNat]? := by
      have := congrArg (fun l => l[p.toNat]?) hmap
      simpa [List.getElem?_eq_getElem hpn, List.getElem?_eq_getElem hp] using this
    refine ⟨(m', list'), ?_, ⟨_, hrep', ?_⟩, hfun⟩
    · simp only [listExec, dataRet, hrun, Option.map_some, hval]
    · rw [← List.eraseIdx_map, ← List.eraseIdx_map, hmap]
  · simp only [seqExec, if_neg hp]
    refine ⟨s, ?_, ⟨ns, hrep, hmap⟩, rfl, rfl⟩
    simp [listExec, dataRet, listPopPosition_refused hrep (p := p) (by omega)]

theorem removeHead_stepsAs (h : ListSeq s xs) (hfree : s.2.customFree = true) :
    StepsAs s xs .removeHead := by
  obtain ⟨ns, hrep, hmap⟩ := h
  obtain ⟨m', list', hrun, hrep', hfun⟩ := listRemoveHead_spec hrep hfree
  refine ⟨(m', list'), ?_, ⟨_, hrep', by simp [seqExec, List.map_tail, hmap]⟩, hfun⟩
  simp [listExec, codeRet, hrun, seqExec]

theorem removeTail_stepsAs (h : ListSeq s xs) (hfree : s.2.customFree = true) :
    StepsAs s xs .removeTail := by
  obtain ⟨ns, hrep, hmap⟩ := h
  obtain ⟨m', list', hrun, hrep', hfun⟩ := listRemoveTail_spec hrep hfree
  refine ⟨(m', list'), ?_, ⟨_, hrep', by simp [seqExec, List.map_dropLast, hmap]⟩, hfun⟩
  simp [listExec, codeRet, hrun, seqExec]

theorem removePosition_stepsAs (h : ListSeq s xs) (p : UInt32)
    (hfree : p.toNat < xs.length → s.2.customFree = true) : StepsAs s xs (.removePosition p) := by
  obtain ⟨ns, hrep, hmap⟩ := h
  have hlen := ListSeq.length_eq hmap
  unfold StepsAs
  by_cases hp : p.toNat < xs.length
  · simp only [seqExec, if_pos hp]
    obtain ⟨m', list', hrun, hrep', hfun⟩ :=
      listRemovePosition_spec hrep (hfree hp) (p := p) (by omega)
    refine ⟨(m', list'), ?_, ⟨_, hrep', ?_⟩, hfun⟩
    · simp [listExec, codeRet, hrun]
    · rw [← List.eraseIdx_map, ← List.eraseIdx_map, hmap]
  · simp only [seqExec, if_neg hp]
    refine ⟨s, ?_, ⟨ns, hrep, hmap⟩, rfl, rfl⟩
    simp [listExec, codeRet, listRemovePosition_refused hrep (p := p) (by omega)]

theorem removeData_stepsAs (h : ListSeq s xs) (d : α)
    (hfree : xs.any (Matches s.2.compareFunc d) → s.2.customFree = true) :
    StepsAs s xs (.removeData d) := by
  obtain ⟨ns, hrep, hmap⟩ := h
  obtain ⟨m', list', hrun, hrep', hfun⟩ := listRemoveData_spec hrep d fun hex =>
    hfree ((exists_equal_iff hmap d).mp hex)
  refine ⟨(m', list'), ?_, ⟨_, hrep', eraseP_map_eq hmap d⟩, hfun⟩
  simp only [listExec, codeRet, hrun, seqExec, exists_equal_iff hmap, Option.map_some]

theorem clear_stepsAs (h : ListSeq s xs) : StepsAs s xs .clear := by
  obtain ⟨ns, hrep, hmap⟩ := h
  obtain ⟨nodes, list', hrun, hrep', hfun⟩ := listClear_spec hrep
  refine ⟨(⟨nodes, s.1.freed ++ clearedData s.2 ns⟩, list'), ?_, ⟨[], hrep', rfl⟩, hfun⟩
  simp [listExec, codeRet, hrun, seqExec]

/-- One call on a list is one call on the sequence it holds. -/
theorem listExec_refines (h : ListSeq s xs) {op : ListOp α} (hop : op ≠ .sort)
    (hlt : (seqExec s.2.compareFunc xs op).1.length < 2 ^ 32)
    (hfree : CallsFree s.2.compareFunc xs op → s.2.customFree = true) : StepsAs s xs op := by
  cases op with
  | pushHead d => exact pushHead_stepsAs h d (by simpa [seqExec] using hlt)
  | pushTail d => exact pushTail_stepsAs h d (by simpa [seqExec] using hlt)
  | pushPosition d p => exact pushPosition_stepsAs h d p hlt
  | popHead => exact popHead_stepsAs h
  | popTail => exact popTail_stepsAs h
  | popPosition p => exact popPosition_stepsAs h p hfree
  | removeHead => exact removeHead_stepsAs h (hfree trivial)
  | removeTail => exact removeTail_stepsAs h (hfree trivial)
  | removePosition p => exact removePosition_stepsAs h p hfree
  | removeData d => exact removeData_stepsAs h d hfree
  | sort => exact absurd rfl hop
  | clear => exact clear_stepsAs h

/-- A call that needs a `custom_free` is stuck without one. -/
theorem listExec_stuck (h : ListSeq s xs) {op : ListOp α}
    (hcalls : CallsFree s.2.compareFunc xs op) (hf : s.2.customFree = false) :
    listExec s op = none := by
  obtain ⟨m, list⟩ := s
  obtain ⟨ns, hrep, hmap⟩ := h
  have hlen := ListSeq.length_eq hmap
  cases op with
  | popPosition p =>
      obtain ⟨hpos, hin⟩ := hcalls
      simp [listExec, dataRet, listPopPosition_stuck hrep hpos (hlen ▸ hin) hf]
  | removeHead => simp [listExec, codeRet, listRemoveHead_stuck hrep hf]
  | removeTail => simp [listExec, codeRet, listRemoveTail_stuck hrep hf]
  | removePosition p =>
      have hp : p.toNat < xs.length := hcalls
      simp [listExec, codeRet, listRemovePosition_stuck hrep (p := p) (by omega) hf]
  | removeData d =>
      have hex := (exists_equal_iff hmap d).mpr hcalls
      simp [listExec, codeRet, listRemoveData_stuck hrep hex hf]
  | pushHead => exact hcalls.elim
  | pushTail => exact hcalls.elim
  | pushPosition => exact hcalls.elim
  | popHead => exact hcalls.elim
  | popTail => exact hcalls.elim
  | sort => exact hcalls.elim
  | clear => exact hcalls.elim

/-! ### A run of calls

By induction on the calls, from the empty list on.
-/

theorem listRun_refines {cmp : Option α → Option α → CompRtns} {customFree : Bool}
    {ops : List (ListOp α)} (h : ListSeq s xs) (hcmp : s.2.compareFunc = cmp)
    (hcf : s.2.customFree = customFree) (hfits : Fits cmp customFree xs ops) :
    ∃ s', listRun s ops = some (s', (seqRun cmp xs ops).2) ∧ ListSeq s' (seqRun cmp xs ops).1 := by
  induction ops generalizing s xs with
  | nil => exact ⟨s, rfl, h⟩
  | cons op ops ih =>
      obtain ⟨⟨hop, hlt, hfree⟩, hrest⟩ := hfits
      subst hcmp hcf
      obtain ⟨s₁, hrun, hs₁, hfun⟩ := listExec_refines h hop hlt hfree
      obtain ⟨s₂, hrun', hs₂⟩ := ih hs₁ hfun.2 hfun.1 hrest
      refine ⟨s₂, ?_, hs₂⟩
      simp [listRun, hrun, hrun', seqRun]

/-- A list made by `list_new` answers every run of calls the way a sequence does, and
shows that sequence afterwards. -/
theorem list_refines_sequence (customFree : Bool) (cmp : Option α → Option α → CompRtns)
    (ops : List (ListOp α)) (hfits : Fits cmp customFree [] ops) :
    ∃ s, listRun (⟨.empty, []⟩, listNew customFree cmp) ops = some (s, (seqRun cmp [] ops).2) ∧
      Shows s (seqRun cmp [] ops).1 := by
  have hnew : ListSeq (⟨.empty, []⟩, listNew customFree cmp) ([] : List α) :=
    ⟨[], listNew_rep customFree cmp, rfl⟩
  obtain ⟨s, hrun, hs⟩ := listRun_refines hnew rfl rfl hfits
  exact ⟨s, hrun, hs.shows⟩

/-- Equality of numbers, as a comparison function. -/
def natEqual (a b : Option Nat) : CompRtns := if a = b then .equal else .notEqual

/-- A pop from the middle and a removal by value. -/
theorem list_refines_sequence_run :
    ∃ s, listRun (⟨.empty, []⟩, listNew true natEqual)
        [.pushTail 1, .pushHead 0, .pushPosition 5 1, .popPosition 1, .removeData 1]
      = some (s, [.code .success, .code .success, .code .success, .data (some 5),
        .code .success]) ∧ Shows s [0] :=
  list_refines_sequence true natEqual
    [.pushTail 1, .pushHead 0, .pushPosition 5 1, .popPosition 1, .removeData 1]
    (by simp [Fits, seqExec, Matches, natEqual])

end CmakeTemplate
