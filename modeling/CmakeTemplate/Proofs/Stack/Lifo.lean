/-
The stack is last in, first out.

`StackRep` lists the nodes of the slots in use with their data, from the bottom up; what is
behind them in the array is NULL.  A push writes the first of those slots and a pop the last
of the others, so neither is ever outside the array.  The nodes are different from each other,
so freeing one leaves the rest, and a new node is none of them.

Each call is one on a list of bounded length with the latest pointer in front: it returns the
same, hands the same to `customfree`, and leaves a stack that holds what is left of the list.
A full stack refuses a push and an empty one has nothing to pop, as the list does.  So a run
of calls, of any length, is a run on the list.
-/
import CmakeTemplate.Stack
import CmakeTemplate.Lib.Word

namespace CmakeTemplate

open Lib

variable {α : Type} {stack : StackT α} {cells : List (Nat × α)}

/-- The nodes of a stack, from the bottom up. -/
structure StackRep (stack : StackT α) (cells : List (Nat × α)) : Prop where
  /-- The size is the number of nodes. -/
  size : stack.currentsz.toNat = cells.length
  /-- There are slots for all of them. -/
  room : cells.length ≤ stack.capacity.toNat
  /-- The first slots have the nodes, and the others are NULL. -/
  arr : stack.arr = cells.map (fun c => some c.1) ++
    List.replicate (stack.capacity.toNat - cells.length) none
  /-- Each node has its datum. -/
  live : ∀ c ∈ cells, stack.nodes.get c.1 = some (some c.2)
  /-- No node is there twice. -/
  nodup : (cells.map Prod.fst).Nodup

theorem stackInit_rep (capacity : UInt32) : StackRep (stackInit capacity : StackT α) [] where
  size := rfl
  room := Nat.zero_le _
  arr := rfl
  live := fun _ hc => absurd hc List.not_mem_nil
  nodup := List.nodup_nil

theorem StackRep.isEmpty (h : StackRep stack cells) :
    stackIsEmpty stack = if cells = [] then .success else .failure := by
  have hiff : stack.currentsz = 0 ↔ cells = [] := by
    rw [eq_zero_iff, h.size, List.length_eq_zero_iff]
  by_cases hnil : cells = []
  · rw [stackIsEmpty, if_pos (hiff.mpr hnil), if_pos hnil]
  · rw [stackIsEmpty, if_neg (mt hiff.mp hnil), if_neg hnil]

theorem StackRep.isFull (h : StackRep stack cells) :
    stackIsFull stack = if cells.length < stack.capacity.toNat then .failure else .success := by
  have hroom := h.room
  have hiff : stack.currentsz = stack.capacity ↔ cells.length = stack.capacity.toNat := by
    rw [← UInt32.toNat_inj, h.size]
  by_cases hlt : cells.length < stack.capacity.toNat
  · rw [stackIsFull, if_neg (mt hiff.mp (Nat.ne_of_lt hlt)), if_pos hlt]
  · rw [stackIsFull, if_pos (hiff.mpr (by omega)), if_neg hlt]

/-! ### Pushing

The slot at the size is free, if there is one.
-/

/-- The first free slot. -/
theorem StackRep.setSlot_free (h : StackRep stack cells) (hlt : cells.length < stack.capacity.toNat)
    (p : Ptr) :
    setSlot stack.arr stack.currentsz p = some (cells.map (fun c => some c.1) ++
      p :: List.replicate (stack.capacity.toNat - (cells.length + 1)) none) := by
  have hsplit : stack.capacity.toNat - cells.length =
      stack.capacity.toNat - (cells.length + 1) + 1 := by omega
  have harr := h.arr
  rw [hsplit, List.replicate_succ] at harr
  rw [setSlot, if_pos, h.size, harr]
  · simp
  · rw [h.size, harr]
    simp

theorem stackPush_spec (h : StackRep stack cells) (hlt : cells.length < stack.capacity.toNat)
    (d : α) :
    ∃ stack', stackPush stack (some d) true = some (.success, stack') ∧
      stack'.capacity = stack.capacity ∧
      StackRep stack' (cells ++ [(stack.nodes.next, d)]) := by
  have hfull : stackIsFull stack ≠ .success := by
    rw [h.isFull, if_pos hlt]
    simp
  have hcap := stack.capacity.toNat_lt
  refine ⟨{ stack with
      nodes := (stack.nodes.alloc (some d)).1
      arr := cells.map (fun c => some c.1) ++
        some stack.nodes.next :: List.replicate (stack.capacity.toNat - (cells.length + 1)) none
      currentsz := stack.currentsz + 1 }, ?_, rfl, ⟨?_, ?_, ?_, ?_, ?_⟩⟩
  · simp [stackPush, hfull, h.setSlot_free hlt]
  · show (stack.currentsz + 1).toNat = _
    rw [toNat_succ (by rw [h.size]; omega), h.size, List.length_append]
    rfl
  · rw [List.length_append]
    exact hlt
  · simp
  · intro c hc
    rcases List.mem_append.mp hc with hc | hc
    · have hold := h.live c hc
      exact (Store.get_alloc_ne _ _ (Nat.ne_of_lt (Store.lt_next hold))).trans hold
    · rw [List.mem_singleton.mp hc]
      exact Store.get_alloc_self _ _
  · rw [List.map_append]
    refine List.nodup_append.mpr ⟨h.nodup, List.pairwise_singleton _ _, ?_⟩
    intro a ha b hb
    obtain ⟨c, hc, rfl⟩ := List.mem_map.mp ha
    rw [List.mem_singleton.mp hb]
    exact Nat.ne_of_lt (Store.lt_next (h.live c hc))

theorem stackPush_full (h : StackRep stack cells) (hge : ¬ cells.length < stack.capacity.toNat)
    (d : α) : stackPush stack (some d) true = some (.failure, stack) := by
  have hfull : stackIsFull stack = .success := by rw [h.isFull, if_neg hge]
  simp [stackPush, hfull]

/-! ### Popping

The slot below the size has the topmost node, and is made NULL.
-/

variable {top : Nat × α}

theorem StackRep.topIndex (h : StackRep stack (cells ++ [top])) :
    (stack.currentsz - 1).toNat = cells.length := by
  have hsize := h.size
  rw [List.length_append, List.length_singleton] at hsize
  rw [toNat_pred (by omega), hsize]
  rfl

theorem StackRep.arr_top (h : StackRep stack (cells ++ [top])) :
    stack.arr = cells.map (fun c => some c.1) ++
      some top.1 :: List.replicate (stack.capacity.toNat - (cells.length + 1)) none := by
  rw [h.arr]
  simp

theorem StackRep.slot_top (h : StackRep stack (cells ++ [top])) :
    stack.arr[(stack.currentsz - 1).toNat]? = some (some top.1) := by
  rw [h.topIndex, h.arr_top]
  simp

theorem StackRep.get_top (h : StackRep stack (cells ++ [top])) :
    stack.nodes.get top.1 = some (some top.2) :=
  h.live top (List.mem_append_right _ (List.mem_singleton.mpr rfl))

theorem StackRep.isEmpty_top (h : StackRep stack (cells ++ [top])) :
    stackIsEmpty stack = .failure := by
  rw [h.isEmpty, if_neg (by simp)]

/-- The topmost node goes. -/
theorem dropTop_spec (h : StackRep stack (cells ++ [top])) :
    ∃ stack', dropTop stack = some (some top.2, stack') ∧ stack'.capacity = stack.capacity ∧
      StackRep stack' cells := by
  have hroom := h.room
  rw [List.length_append, List.length_singleton] at hroom
  have hset : setSlot stack.arr (stack.currentsz - 1) none = some (cells.map (fun c => some c.1) ++
      none :: List.replicate (stack.capacity.toNat - (cells.length + 1)) none) := by
    rw [setSlot, h.topIndex, h.arr_top, if_pos]
    · simp
    · simp
  have hnodup := h.nodup
  rw [List.map_append] at hnodup
  obtain ⟨hnd, -, hne⟩ := List.nodup_append.mp hnodup
  refine ⟨{ stack with
      nodes := stack.nodes.drop top.1
      arr := cells.map (fun c => some c.1) ++
        none :: List.replicate (stack.capacity.toNat - (cells.length + 1)) none
      currentsz := stack.currentsz - 1 }, ?_, rfl, ⟨?_, ?_, ?_, ?_, hnd⟩⟩
  · simp [dropTop, h.slot_top, h.get_top, Store.free_live h.get_top, hset]
  · exact h.topIndex
  · show cells.length ≤ stack.capacity.toNat
    omega
  · have hsplit : stack.capacity.toNat - cells.length =
        stack.capacity.toNat - (cells.length + 1) + 1 := by omega
    show _ = _ ++ List.replicate (stack.capacity.toNat - cells.length) none
    rw [hsplit, List.replicate_succ]
  · intro c hc
    have hother : c.1 ≠ top.1 :=
      hne c.1 (List.mem_map_of_mem hc) top.1 (List.mem_singleton.mpr rfl)
    exact (Store.get_drop_ne _ hother).trans (h.live c (List.mem_append_left _ hc))

theorem stackPop_spec (h : StackRep stack (cells ++ [top])) :
    ∃ stack', stackPop stack = some (some top.2, stack') ∧ stack'.capacity = stack.capacity ∧
      StackRep stack' cells := by
  have hempty : stackIsEmpty stack ≠ .success := by simp [h.isEmpty_top]
  obtain ⟨stack', hdrop, hcap, hrep⟩ := dropTop_spec h
  exact ⟨stack', by rw [stackPop, if_neg hempty, hdrop], hcap, hrep⟩

theorem stackPeek_spec (h : StackRep stack (cells ++ [top])) :
    stackPeek stack = some (some top.2) := by
  have hempty : stackIsEmpty stack ≠ .success := by simp [h.isEmpty_top]
  rw [stackPeek, if_neg hempty, h.slot_top]
  exact h.get_top

/-! ### Clearing

Every node is freed, from the top down, and its datum handed over.
-/

/-- The loop of `stack_clear` frees from the top down. -/
theorem stackClearLoop_spec :
    ∀ (cells : List (Nat × α)) (stack : StackT α), StackRep stack cells.reverse →
      ∃ stack', stackClearLoop cells.length stack =
          some (cells.map (fun c => some c.2), stack') ∧
        stack'.capacity = stack.capacity ∧ StackRep stack' [] := by
  intro cells
  induction cells with
  | nil =>
      intro stack h
      have hempty : stackIsEmpty stack ≠ .failure := by
        rw [h.isEmpty, if_pos List.reverse_nil]
        simp
      exact ⟨stack, by simp [stackClearLoop, hempty], rfl, h⟩
  | cons c cells ih =>
      intro stack h
      rw [List.reverse_cons] at h
      have hempty := h.isEmpty_top
      obtain ⟨stack₁, hdrop, hcap, hrep⟩ := dropTop_spec h
      obtain ⟨stack₂, hloop, hcap₂, hrep₂⟩ := ih stack₁ hrep
      refine ⟨stack₂, ?_, hcap₂.trans hcap, hrep₂⟩
      simp [stackClearLoop, hempty, hdrop, hloop]

theorem stackClear_spec (h : StackRep stack cells) :
    ∃ stack', stackClear stack = some (cells.reverse.map (fun c => some c.2), stack') ∧
      stack'.capacity = stack.capacity ∧ StackRep stack' [] := by
  rw [← List.reverse_reverse cells] at h
  obtain ⟨stack', hloop, hrest⟩ := stackClearLoop_spec cells.reverse stack h
  refine ⟨stack', ?_, hrest⟩
  rw [stackClear, h.size, List.length_reverse]
  exact hloop

/-! ### Runs

From `stack_init` on, by induction on the calls.
-/

/-- What the cells of a stack hold, from the top down. -/
def held (cells : List (Nat × α)) : List α := (cells.map Prod.snd).reverse

@[simp] theorem held_nil : held ([] : List (Nat × α)) = [] := rfl

@[simp] theorem held_concat (cells : List (Nat × α)) (top : Nat × α) :
    held (cells ++ [top]) = top.2 :: held cells := by
  simp [held]

@[simp] theorem length_held (cells : List (Nat × α)) : (held cells).length = cells.length := by
  simp [held]

/-- One call. -/
theorem stackExec_lifo (h : StackRep stack cells) (op : StackOp α) :
    ∃ stack' cells', stackExec stack op =
        some ((lifoExec stack.capacity (held cells) op).1,
          (lifoExec stack.capacity (held cells) op).2.1, stack') ∧
      held cells' = (lifoExec stack.capacity (held cells) op).2.2 ∧
      stack'.capacity = stack.capacity ∧ StackRep stack' cells' := by
  have hempty : cells = [] → stackIsEmpty stack = .success := by
    intro hnil
    rw [h.isEmpty, if_pos hnil]
  cases op with
  | push data =>
      by_cases hlt : cells.length < stack.capacity.toNat
      · obtain ⟨stack', hpush, hcap, hrep⟩ := stackPush_spec h hlt data
        exact ⟨stack', _, by simp [stackExec, hpush, lifoExec, hlt], by simp [lifoExec, hlt], hcap,
          hrep⟩
      · have hpush := stackPush_full h hlt data
        exact ⟨stack, cells, by simp [stackExec, hpush, lifoExec, hlt], by simp [lifoExec, hlt],
          rfl, h⟩
  | pop =>
      rcases List.eq_nil_or_concat cells with rfl | ⟨cs, top, rfl⟩
      · exact ⟨stack, [], by simp [stackExec, stackPop, hempty, lifoExec], rfl, rfl, h⟩
      · rw [List.concat_eq_append] at h ⊢
        obtain ⟨stack', hpop, hcap, hrep⟩ := stackPop_spec h
        exact ⟨stack', cs, by simp [stackExec, hpop, lifoExec], by simp [lifoExec], hcap, hrep⟩
  | peek =>
      rcases List.eq_nil_or_concat cells with rfl | ⟨cs, top, rfl⟩
      · exact ⟨stack, [], by simp [stackExec, stackPeek, hempty, lifoExec], rfl, rfl, h⟩
      · rw [List.concat_eq_append] at h ⊢
        have hpeek := stackPeek_spec h
        exact ⟨stack, _, by simp [stackExec, hpeek, lifoExec], by simp [lifoExec], rfl, h⟩
  | clear =>
      obtain ⟨stack', hclear, hcap, hrep⟩ := stackClear_spec h
      exact ⟨stack', [], by simp [stackExec, hclear, lifoExec, held, Function.comp_def], rfl, hcap,
        hrep⟩

theorem stackRun_lifo :
    ∀ (ops : List (StackOp α)) (stack : StackT α) (cells : List (Nat × α)), StackRep stack cells →
      ∃ stack' cells', stackRun stack ops =
          some (stack', (lifoRun stack.capacity (held cells) ops).2) ∧
        held cells' = (lifoRun stack.capacity (held cells) ops).1 ∧
        stack'.capacity = stack.capacity ∧ StackRep stack' cells' := by
  intro ops
  induction ops with
  | nil =>
      intro stack cells h
      exact ⟨stack, cells, rfl, rfl, rfl, h⟩
  | cons op ops ih =>
      intro stack cells h
      obtain ⟨stack₁, cells₁, hexec, hheld, hcap, hrep⟩ := stackExec_lifo h op
      obtain ⟨stack₂, cells₂, hrun, hheld₂, hcap₂, hrep₂⟩ := ih stack₁ cells₁ hrep
      rw [hheld, hcap] at hrun hheld₂
      refine ⟨stack₂, cells₂, ?_, hheld₂, hcap₂.trans hcap, hrep₂⟩
      simp only [stackRun, hexec, Option.bind_eq_bind, Option.bind_some, hrun]
      rfl

theorem StackRep.stacked (h : StackRep stack cells) : Stacked stack (held cells) := by
  have hroom := h.room
  refine ⟨by rw [h.size, length_held], ?_, ?_, ⟨cells.map Prod.fst, h.nodup, ?_, ?_⟩, ?_⟩
  · rw [UInt32.le_iff_toNat_le, h.size]
    exact hroom
  · rw [h.arr]
    simp only [List.length_append, List.length_map, List.length_replicate]
    omega
  · rw [h.arr, length_held, List.take_left' (List.length_map _), List.map_map]
    rfl
  · rw [held, List.reverse_reverse, List.map_map, List.map_map]
    refine List.map_congr_left ?_
    intro c hc
    exact h.live c hc
  · intro p hp
    rw [h.arr, length_held, List.drop_left' (List.length_map _)] at hp
    exact List.eq_of_mem_replicate hp

/-- A stack made by `stack_init` answers every run of calls the way a list of bounded length
does, last in, first out, and holds that list afterwards. -/
theorem stack_lifo (capacity : UInt32) (ops : List (StackOp α)) :
    ∃ stack, stackRun (stackInit capacity) ops = some (stack, (lifoRun capacity [] ops).2) ∧
      stack.capacity = capacity ∧ Stacked stack (lifoRun capacity [] ops).1 := by
  obtain ⟨stack, cells, hrun, hheld, hcap, hrep⟩ :=
    stackRun_lifo ops (stackInit capacity) [] (stackInit_rep capacity)
  exact ⟨stack, hrun, hcap, hheld ▸ hrep.stacked⟩

end CmakeTemplate
