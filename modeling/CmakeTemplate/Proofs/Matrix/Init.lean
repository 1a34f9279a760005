/-
When a failed `matrix_init` leaves nothing behind.

`num_nodes` is set at the very end, so the loop of `graph_cleanup` never frees a row: a call
that fails behind the first row keeps all rows that it had.  A call that fails before that
frees what it has, which is the struct or the struct and the array of rows; and one that does
not fail makes a matrix of zeroes.

The heap is followed from one allocation to the next.  `RowsBuilt` says what is on it behind
`idx` rows: the struct, the array with the rows so far, the rows, and everything that was
there before.  As the rows are still there behind the cleanup, nothing is left exactly when
there are none, and that is a condition on which allocation is the first to fail.
-/
import CmakeTemplate.AdjacencyMatrix

namespace CmakeTemplate

open Lib

variable {κ φ : Type} {heap heap₀ : MatrixHeap κ φ} {graph numNodes idx : Nat}
  {calloc : Nat → Bool}

/-! ### Reading and writing the struct

The struct is one block, and a write to it leaves the others alone.
-/

theorem loadMatrix_of_get {m : Matrix κ φ} (h : heap.get graph = some (.graph m)) :
    loadMatrix heap graph = some m := by
  unfold loadMatrix
  rw [h]

theorem get_storeMatrix {m : Matrix κ φ} (h : heap.get graph = some (.graph m))
    (f : Matrix κ φ → Matrix κ φ) :
    (storeMatrix heap graph f).get graph = some (.graph (f m)) := by
  unfold storeMatrix
  rw [Store.get_upd_self, h]
  rfl

theorem get_storeMatrix_ne {a : Nat} (h : a ≠ graph) (f : Matrix κ φ → Matrix κ φ) :
    (storeMatrix heap graph f).get a = heap.get a :=
  Store.get_upd_ne heap _ h

theorem storeRow_eq {m : Matrix κ φ} {edges : Nat} {rows : List Ptr}
    (hgraph : heap.get graph = some (.graph m)) (hedges : m.edges = some edges)
    (hrows : heap.get edges = some (.edges rows)) (hidx : idx < rows.length) (row : Ptr) :
    storeRow heap graph idx row = some (heap.upd edges fun _ => .edges (rows.set idx row)) := by
  unfold storeRow
  rw [loadMatrix_of_get hgraph]
  simp only [Option.bind_eq_bind, Option.bind_some, hedges, Store.load_some, hrows, if_pos hidx]
  exact Store.assign_live _ hrows

/-! ### The cleanup

What it frees depends on the number of nodes in the struct, which is 0.
-/

theorem free_null (heap : MatrixHeap κ φ) : heap.free none = some heap := rfl

/-- A block that is there or a NULL pointer can be freed. -/
theorem free_get {p : Ptr} (h : ∀ a, p = some a → ∃ block, heap.get a = some block) :
    ∃ heap', heap.free p = some heap' ∧
      ∀ a, heap'.get a = if p = some a then none else heap.get a := by
  cases p with
  | none => exact ⟨heap, free_null heap, fun a => by simp⟩
  | some b =>
      obtain ⟨block, hblock⟩ := h b rfl
      refine ⟨heap.drop b, Store.free_live hblock, fun a => ?_⟩
      rw [Store.get_drop]
      by_cases ha : a = b
      · rw [if_pos ha, if_pos (congrArg some ha.symm)]
      · rw [if_neg ha, if_neg fun hc => ha (Option.some.inj hc).symm]

/-- Without a number of nodes the cleanup frees the array of rows and the struct. -/
theorem graphCleanup_eq {m : Matrix κ φ} (hgraph : heap.get graph = some (.graph m))
    (hnumNodes : m.numNodes = 0) (hnodes : m.nodes = none)
    (hedges : ∀ e, m.edges = some e → e ≠ graph ∧ ∃ block, heap.get e = some block) :
    ∃ heap', graphCleanup heap (some graph) = some (heap', none) ∧
      ∀ a, heap'.get a = if a = graph ∨ m.edges = some a then none else heap.get a := by
  obtain ⟨heap₁, hfree, hget₁⟩ := free_get fun e he => (hedges e he).2
  have hgraph₁ : heap₁.get graph = some (.graph m) := by
    rw [hget₁, if_neg fun hc => (hedges graph hc).1 rfl]
    exact hgraph
  have hgraph₂ := get_storeMatrix hgraph₁ fun m => { m with edges := none }
  have hgraph₃ := get_storeMatrix hgraph₂ fun m => { m with nodes := none }
  refine ⟨(storeMatrix (storeMatrix heap₁ graph fun m => { m with edges := none }) graph
    fun m => { m with nodes := none }).drop graph, ?_, fun a => ?_⟩
  · unfold graphCleanup
    simp only [loadMatrix_of_get hgraph, Option.bind_eq_bind, Option.bind_some, hnumNodes, freeRows,
      hfree, hnodes, free_null, Store.free_live hgraph₃]
  · by_cases ha : a = graph
    · rw [ha, Store.get_drop_self, if_pos (.inl rfl)]
    · rw [Store.get_drop_ne _ ha, get_storeMatrix_ne ha, get_storeMatrix_ne ha, hget₁]
      simp only [ha, false_or]

/-! ### The rows

The loop keeps the description of the heap, row by row.
-/

/-- The array of rows with the first `idx` of them allocated. -/
def rowsUpTo (base numNodes idx : Nat) : List Ptr :=
  (List.range idx).map (fun i => some (base + 2 + i)) ++ List.replicate (numNodes - idx) none

theorem length_rowsUpTo {base : Nat} (h : idx ≤ numNodes) :
    (rowsUpTo base numNodes idx).length = numNodes := by
  simp only [rowsUpTo, List.length_append, List.length_map, List.length_range,
    List.length_replicate]
  omega

theorem rowsUpTo_set {base : Nat} (h : idx < numNodes) (row : Ptr) :
    (rowsUpTo base numNodes idx).set idx row
      = (List.range idx).map (fun i => some (base + 2 + i)) ++
        row :: List.replicate (numNodes - (idx + 1)) none := by
  have hsplit : numNodes - idx = numNodes - (idx + 1) + 1 := by omega
  have hlength : ((List.range idx).map fun i => some (base + 2 + i)).length = idx := by simp
  unfold rowsUpTo
  rw [hsplit, List.replicate_succ, List.set_append_right _ _ (Nat.le_of_eq hlength), hlength,
    Nat.sub_self, List.set_cons_zero]

theorem rowsUpTo_succ {base : Nat} (h : idx < numNodes) :
    (rowsUpTo base numNodes idx).set idx (some (base + 2 + idx))
      = rowsUpTo base numNodes (idx + 1) := by
  rw [rowsUpTo_set h, rowsUpTo, List.range_succ, List.map_append, List.append_assoc]
  rfl

theorem rowsUpTo_none {base : Nat} (h : idx < numNodes) :
    (rowsUpTo base numNodes idx).set idx none = rowsUpTo base numNodes idx := by
  have hsplit : numNodes - idx = numNodes - (idx + 1) + 1 := by omega
  rw [rowsUpTo_set h, rowsUpTo, hsplit, List.replicate_succ]

/-- What `matrix_init` has allocated on `heap₀` with `idx` rows. -/
structure RowsBuilt (heap₀ heap : MatrixHeap κ φ) (numNodes idx : Nat) : Prop where
  /-- Two blocks and the rows have been allocated. -/
  next : heap.next = heap₀.next + 2 + idx
  /-- The struct points to the array of rows. -/
  graph : heap.get heap₀.next = some (.graph { Matrix.zero with edges := some (heap₀.next + 1) })
  /-- The array points to the rows. -/
  edges : heap.get (heap₀.next + 1) = some (.edges (rowsUpTo heap₀.next numNodes idx))
  /-- Each row is zeroes. -/
  row : ∀ i, i < idx → heap.get (heap₀.next + 2 + i) = some (.row (List.replicate numNodes 0))
  /-- What was there before is still there. -/
  before : ∀ a, a < heap₀.next → heap.get a = heap₀.get a

/-- A row that cannot be allocated changes nothing. -/
theorem RowsBuilt.fail (h : RowsBuilt heap₀ heap numNodes idx) (hidx : idx < numNodes) :
    ∃ heap', storeRow heap heap₀.next idx none = some heap' ∧
      RowsBuilt heap₀ heap' numNodes idx := by
  have hlength : idx < (rowsUpTo heap₀.next numNodes idx).length := by
    rw [length_rowsUpTo (Nat.le_of_lt hidx)]
    exact hidx
  refine ⟨_, storeRow_eq h.graph rfl h.edges hlength none, h.next, ?_, ?_, ?_, ?_⟩
  · rw [Store.get_upd_ne _ _ (by omega)]
    exact h.graph
  · rw [Store.get_upd_self, h.edges, rowsUpTo_none hidx]
    rfl
  · intro i hi
    rw [Store.get_upd_ne _ _ (by omega)]
    exact h.row i hi
  · intro a ha
    rw [Store.get_upd_ne _ _ (by omega)]
    exact h.before a ha

theorem RowsBuilt.step (h : RowsBuilt heap₀ heap numNodes idx) (hidx : idx < numNodes) :
    ∃ heap', storeRow (heap.alloc (.row (List.replicate numNodes 0))).1 heap₀.next idx
        (some heap.next) = some heap' ∧ RowsBuilt heap₀ heap' numNodes (idx + 1) := by
  have hlength : idx < (rowsUpTo heap₀.next numNodes idx).length := by
    rw [length_rowsUpTo (Nat.le_of_lt hidx)]
    exact hidx
  have hnext := h.next
  -- the new row is behind everything that is there
  have hold : ∀ a, a < heap₀.next + 2 + idx →
      (heap.alloc (.row (List.replicate numNodes 0))).1.get a = heap.get a :=
    fun a ha => Store.get_alloc_ne _ _ (by omega)
  have hgraph := h.graph
  have hedges := h.edges
  rw [← hold _ (by omega)] at hgraph hedges
  refine ⟨_, storeRow_eq hgraph rfl hedges hlength _, ?_, ?_, ?_, ?_, ?_⟩
  · show heap.next + 1 = _
    omega
  · rw [Store.get_upd_ne _ _ (by omega)]
    exact hgraph
  · rw [Store.get_upd_self, hedges, hnext, rowsUpTo_succ hidx]
    rfl
  · intro i hi
    rw [Store.get_upd_ne _ _ (by omega)]
    rcases Nat.lt_succ_iff_lt_or_eq.mp hi with hi | rfl
    · rw [hold _ (by omega)]
      exact h.row i hi
    · rw [← hnext]
      exact Store.get_alloc_self _ _
  · intro a ha
    rw [Store.get_upd_ne _ _ (by omega), hold _ (by omega)]
    exact h.before a ha

/-- The loop comes to its end, or to a row that cannot be allocated. -/
theorem RowsBuilt.loop {count : Nat} (h : RowsBuilt heap₀ heap numNodes idx)
    (calloc : Nat → Bool) (hcount : idx + count = numNodes) :
    ∃ heap' j, RowsBuilt heap₀ heap' numNodes j ∧ idx ≤ j ∧
      (∀ k, idx ≤ k → k < j → calloc (k + 2) = true) ∧
      (allocRows calloc heap₀.next numNodes heap idx count = some (heap', true) ∧ j = numNodes ∨
        allocRows calloc heap₀.next numNodes heap idx count = some (heap', false) ∧
          j < numNodes ∧ calloc (j + 2) = false) := by
  induction count generalizing heap idx with
  | zero =>
      refine ⟨heap, idx, h, Nat.le_refl _, fun k hk hlt => ?_, .inl ⟨rfl, by omega⟩⟩
      omega
  | succ count ih =>
      have hidx : idx < numNodes := by omega
      cases hcalloc : calloc (idx + 2) with
      | false =>
          obtain ⟨heap', hstore, hbuilt⟩ := h.fail hidx
          refine ⟨heap', idx, hbuilt, Nat.le_refl _, fun k hk hlt => ?_, .inr ⟨?_, hidx, hcalloc⟩⟩
          · omega
          · simp [allocRows, callocBlock, hcalloc, hstore]
      | true =>
          obtain ⟨heap₁, hstore, hbuilt₁⟩ := h.step hidx
          obtain ⟨heap', j, hbuilt, hle, hrows, hloop⟩ := ih hbuilt₁ (by omega)
          have hstep : allocRows calloc heap₀.next numNodes heap idx (count + 1)
              = allocRows calloc heap₀.next numNodes heap₁ (idx + 1) count := by
            simp [allocRows, callocBlock, hcalloc, hstore]
          rw [hstep]
          refine ⟨heap', j, hbuilt, by omega, fun k hk hlt => ?_, hloop⟩
          rcases Nat.eq_or_lt_of_le hk with rfl | hk
          · exact hcalloc
          · exact hrows k hk hlt

/-- The cleanup leaves the rows, so all is freed just in case there are none. -/
theorem RowsBuilt.freesAll_iff (h : RowsBuilt heap₀ heap numNodes idx) :
    FreesAll heap₀ (graphCleanup heap (some heap₀.next)) ↔ idx = 0 := by
  have hedges : ∀ e, some (heap₀.next + 1) = some e →
      e ≠ heap₀.next ∧ ∃ block, heap.get e = some block := by
    rintro _ ⟨⟩
    exact ⟨by omega, _, h.edges⟩
  obtain ⟨heap', hcleanup, hget⟩ := graphCleanup_eq h.graph rfl rfl hedges
  rw [hcleanup]
  constructor
  · rintro ⟨_, heq, hsame⟩
    cases heq
    by_contra hpos
    have hrow := h.row 0 (Nat.pos_of_ne_zero hpos)
    have hgone : heap'.get (heap₀.next + 2 + 0) = none := by
      rw [hsame]
      exact heap₀.fresh _ (by omega)
    rw [hget, if_neg, hrow] at hgone
    · cases hgone
    · simp
  · rintro rfl
    refine ⟨heap', rfl, ?_⟩
    funext a
    have hnext := h.next
    rw [hget]
    split
    · rename_i ha
      refine (heap₀.fresh a ?_).symm
      rcases ha with rfl | ha
      · exact Nat.le_refl _
      · have heq : heap₀.next + 1 = a := Option.some.inj ha
        omega
    · rename_i ha
      rw [not_or] at ha
      by_cases hlt : a < heap₀.next
      · exact h.before a hlt
      · have hne : heap₀.next + 1 ≠ a := fun hc => ha.2 (congrArg some hc)
        rw [heap.fresh a (by omega), heap₀.fresh a (by omega)]

/-! ### The exits

A call ends at one of its allocations, or behind all of them.
-/

/-- The struct alone is freed. -/
theorem freesAll_graph (heap₀ : MatrixHeap κ φ) :
    FreesAll heap₀ (graphCleanup
      (storeMatrix (heap₀.alloc (.graph .zero)).1 heap₀.next fun m => { m with edges := none })
      (some heap₀.next)) := by
  have hgraph := get_storeMatrix (Store.get_alloc_self heap₀ (.graph .zero))
    fun m => { m with edges := none }
  obtain ⟨heap', hcleanup, hget⟩ := graphCleanup_eq hgraph rfl rfl fun e he => by cases he
  refine ⟨heap', hcleanup, ?_⟩
  funext a
  rw [hget]
  by_cases ha : a = heap₀.next
  · rw [if_pos (.inl ha), ha, heap₀.fresh _ (Nat.le_refl _)]
  · rw [if_neg (by simp [ha]), get_storeMatrix_ne ha, Store.get_alloc_ne _ _ ha]

/-- The struct and the array of rows. -/
theorem rowsBuilt_zero (heap₀ : MatrixHeap κ φ) (numNodes : Nat) :
    RowsBuilt heap₀ (storeMatrix
      ((heap₀.alloc (.graph .zero)).1.alloc (.edges (List.replicate numNodes none))).1 heap₀.next
      fun m => { m with edges := some (heap₀.next + 1) }) numNodes 0 := by
  have hgraph : ((heap₀.alloc (.graph .zero)).1.alloc
      (.edges (List.replicate numNodes none))).1.get heap₀.next = some (.graph .zero) := by
    rw [Store.get_alloc_ne _ _ (by rw [Store.next_alloc]; omega), Store.get_alloc_self]
  refine ⟨rfl, get_storeMatrix hgraph _, ?_, ?_, ?_⟩
  · rw [get_storeMatrix_ne (by omega), ← Store.next_alloc heap₀ (.graph .zero),
      Store.get_alloc_self]
    rfl
  · intro i hi
    exact absurd hi (Nat.not_lt_zero i)
  · intro a ha
    rw [get_storeMatrix_ne (by omega), Store.get_alloc_ne _ _ (by rw [Store.next_alloc]; omega),
      Store.get_alloc_ne _ _ (by omega)]

/-- An array of nodes that cannot be allocated changes nothing. -/
theorem RowsBuilt.noNodes (h : RowsBuilt heap₀ heap numNodes idx) :
    RowsBuilt heap₀ (storeMatrix heap heap₀.next fun m => { m with nodes := none }) numNodes
      idx := by
  refine ⟨h.next, get_storeMatrix h.graph _, ?_, fun i hi => ?_, fun a ha => ?_⟩
  · rw [get_storeMatrix_ne (by omega)]
    exact h.edges
  · rw [get_storeMatrix_ne (by omega)]
    exact h.row i hi
  · rw [get_storeMatrix_ne (by omega)]
    exact h.before a ha

/-- The heap behind the last allocation, with the fields set. -/
def madeHeap (heap : MatrixHeap κ φ) (graph numNodes : Nat) (isDirected : Bool) (customCompare : κ)
    (customFree : φ) : MatrixHeap κ φ :=
  storeMatrix (storeMatrix (heap.alloc (.nodes (List.replicate numNodes ⟨none, none⟩))).1 graph
    fun m => { m with nodes := some heap.next }) graph fun m =>
      { m with
        numNodes, isDirected, customCompare := some customCompare
        customFree := some customFree }

/-- With all rows and the array of nodes there is a matrix of zeroes. -/
theorem RowsBuilt.made (h : RowsBuilt heap₀ heap numNodes numNodes) (isDirected : Bool)
    (customCompare : κ) (customFree : φ) :
    ∃ m, (madeHeap heap heap₀.next numNodes isDirected customCompare customFree).get heap₀.next
        = some (.graph m) ∧
      IsZeroed (madeHeap heap heap₀.next numNodes isDirected customCompare customFree) m
        numNodes := by
  have hnext := h.next
  have hgraph := h.graph
  rw [← Store.get_alloc_ne heap (.nodes (List.replicate numNodes ⟨none, none⟩))
    (by omega : heap₀.next ≠ heap.next)] at hgraph
  -- the other blocks are the ones from before, and the new array of nodes
  have hother : ∀ a, a ≠ heap₀.next →
      (madeHeap heap heap₀.next numNodes isDirected customCompare customFree).get a
        = (heap.alloc (.nodes (List.replicate numNodes ⟨none, none⟩))).1.get a := by
    intro a ha
    unfold madeHeap
    rw [get_storeMatrix_ne ha, get_storeMatrix_ne ha]
  refine ⟨_, get_storeMatrix (get_storeMatrix hgraph _) _, rfl, ?_, ?_⟩
  · refine ⟨rowsUpTo heap₀.next numNodes numNodes, ?_, length_rowsUpTo (Nat.le_refl _), ?_⟩
    · rw [Store.load_some, hother _ (by omega), Store.get_alloc_ne _ _ (by omega)]
      exact h.edges
    · intro row hrow
      simp only [rowsUpTo, Nat.sub_self, List.replicate_zero, List.append_nil, List.mem_map,
        List.mem_range] at hrow
      obtain ⟨i, hi, rfl⟩ := hrow
      rw [Store.load_some, hother _ (by omega), Store.get_alloc_ne _ _ (by omega)]
      exact h.row i hi
  · rw [Store.load_some, hother _ (by omega)]
    exact Store.get_alloc_self _ _

/-! ### The whole call

The exits, put together.
-/

/-- Where an allocation fails the property is about the heap. -/
theorem initsCleanly_iff_of_fails {outcome : Option (MatrixHeap κ φ × Ptr)}
    (h : SomeFails calloc numNodes) :
    InitsCleanly calloc heap₀ numNodes outcome ↔ FreesAll heap₀ outcome :=
  ⟨fun hclean => hclean.failed h, fun hfrees => ⟨fun _ => hfrees, fun hno => absurd h hno⟩⟩

/-- The rows that are left when an allocation fails, as a condition on the allocations. -/
theorem rows_eq_zero_iff {j : Nat} (hj : j ≤ numNodes)
    (hrows : ∀ k, k < j → calloc (k + 2) = true) (hstop : j < numNodes → calloc (j + 2) = false)
    (hfails : SomeFails calloc numNodes) :
    j = 0 ↔ ¬ (0 < numNodes ∧ calloc 2 = true ∧ SomeFails calloc numNodes) := by
  constructor
  · rintro rfl ⟨hpos, hfirst, -⟩
    have hstopped : calloc 2 = false := hstop hpos
    rw [hfirst] at hstopped
    cases hstopped
  · intro hno
    by_contra hne
    exact hno ⟨by omega, hrows 0 (Nat.pos_of_ne_zero hne), hfails⟩

/-- A call with a struct and an array of rows. -/
theorem initsCleanly_rows (hgraph : calloc 0 = true) (hedges : calloc 1 = true)
    (heap₀ : MatrixHeap κ φ) (numNodes : Nat) (isDirected : Bool) (customCompare : κ)
    (customFree : φ) :
    InitsCleanly calloc heap₀ numNodes
        (initMatrix calloc (heap₀.alloc (.graph .zero)).1 heap₀.next numNodes isDirected
          customCompare customFree) ↔
      ¬ (0 < numNodes ∧ calloc 2 = true ∧ SomeFails calloc numNodes) := by
  obtain ⟨heap, j, hbuilt, -, hrows, hloop⟩ :=
    (rowsBuilt_zero heap₀ numNodes).loop calloc (Nat.zero_add numNodes)
  have hrows' : ∀ k, k < j → calloc (k + 2) = true := fun k hk => hrows k (Nat.zero_le k) hk
  unfold initMatrix
  simp only [callocBlock, hedges, if_true, Store.alloc_addr, Store.next_alloc, reduceCtorEq,
    if_false]
  rcases hloop with ⟨hall, rfl⟩ | ⟨hfailed, hlt, hstop⟩
  · rw [hall]
    cases hnodes : calloc (j + 2) with
    | false =>
        have hfails : SomeFails calloc j := ⟨j + 2, by omega, hnodes⟩
        rw [initsCleanly_iff_of_fails hfails, ← rows_eq_zero_iff (Nat.le_refl j) hrows'
          (fun hc => absurd hc (Nat.lt_irrefl j)) hfails]
        exact hbuilt.noNodes.freesAll_iff
    | true =>
        have hnone : ¬ SomeFails calloc j := by
          rintro ⟨k, hk, hfail⟩
          have hwork : calloc k = true := by
            rcases k with _ | _ | k
            · exact hgraph
            · exact hedges
            · rcases Nat.lt_or_ge k j with hkj | hkj
              · exact hrows' k hkj
              · have heq : k = j := by omega
                rw [heq]
                exact hnodes
          rw [hwork] at hfail
          cases hfail
        obtain ⟨m, hget, hzeroed⟩ := hbuilt.made isDirected customCompare customFree
        refine iff_of_true ⟨fun hc => absurd hc hnone, fun _ => ⟨_, _, m, rfl, hget, hzeroed⟩⟩ ?_
        exact fun hc => hnone hc.2.2
  · have hfails : SomeFails calloc numNodes := ⟨j + 2, by omega, hstop⟩
    rw [hfailed, initsCleanly_iff_of_fails hfails,
      ← rows_eq_zero_iff (Nat.le_of_lt hlt) hrows' (fun _ => hstop) hfails]
    exact hbuilt.freesAll_iff

/-- A call leaves nothing behind if and only if it does not fail behind its first row. -/
theorem initsCleanly_matrixInit_iff (calloc : Nat → Bool) (heap : MatrixHeap κ φ) (numNodes : Nat)
    (isDirected : Bool) (customCompare : κ) (customFree : φ) :
    InitsCleanly calloc heap numNodes
        (matrixInit calloc heap numNodes isDirected (some customCompare) (some customFree)) ↔
      ¬ (0 < numNodes ∧ calloc 0 = true ∧ calloc 1 = true ∧ calloc 2 = true ∧
        SomeFails calloc numNodes) := by
  cases hgraph : calloc 0 with
  | false =>
      have hfails : SomeFails calloc numNodes := ⟨0, by omega, hgraph⟩
      rw [initsCleanly_iff_of_fails hfails]
      refine iff_of_true ⟨heap, ?_, rfl⟩ fun hc => by cases hc.2.1
      simp [matrixInit, callocBlock, hgraph, graphCleanup]
  | true =>
      have hcall : matrixInit calloc heap numNodes isDirected (some customCompare) (some customFree)
          = initMatrix calloc (heap.alloc (.graph .zero)).1 heap.next numNodes isDirected
            customCompare customFree := by
        simp [matrixInit, callocBlock, hgraph]
      rw [hcall]
      cases hedges : calloc 1 with
      | false =>
          have hfails : SomeFails calloc numNodes := ⟨1, by omega, hedges⟩
          rw [initsCleanly_iff_of_fails hfails]
          refine iff_of_true ?_ fun hc => by cases hc.2.2.1
          have hexit : initMatrix calloc (heap.alloc (.graph .zero)).1 heap.next numNodes isDirected
              customCompare customFree = graphCleanup (storeMatrix (heap.alloc (.graph .zero)).1
                heap.next fun m => { m with edges := none }) (some heap.next) := by
            simp [initMatrix, callocBlock, hedges]
          rw [hexit]
          exact freesAll_graph heap
      | true =>
          rw [initsCleanly_rows hgraph hedges heap numNodes isDirected customCompare customFree]
          simp only [true_and]

/-- With one node and no room for the array of nodes the row is never freed. -/
theorem matrixInit_leaks :
    ∃ heap', matrixInit (fun k => decide (k ≠ 3)) (Store.empty : MatrixHeap Unit Unit) 1 false
        (some ()) (some ()) = some (heap', none) ∧ heap'.get 2 = some (.row [0]) ∧
      ¬ InitsCleanly (fun k => decide (k ≠ 3)) (Store.empty : MatrixHeap Unit Unit) 1
        (matrixInit (fun k => decide (k ≠ 3)) .empty 1 false (some ()) (some ())) := by
  refine ⟨_, rfl, rfl, fun hclean => ?_⟩
  obtain ⟨heap', hcall, hsame⟩ := hclean.failed ⟨3, by decide, by decide⟩
  cases hcall
  have hrow := congrFun hsame 2
  cases hrow

end CmakeTemplate
