/-
A cleared graph beside a new one.

Neither has a node, so every call that makes none returns the same from both, and leaves both
without a node.  The first that makes one tells them apart: `list_push_head` has an exit code
for the NULL that `graph_clear` leaves in `node_list`, and so the cleared graph refuses what
the new one accepts.  A call that has no memory for its node makes none and is refused by
both.

The two runs are followed side by side, with nothing known of either graph but that it has no
node and what its list is.  So the condition is one on the calls alone, if the graph can be
cleared at all: none of them makes a node.
-/
import CmakeTemplate.Proofs.Graph.Clear

namespace CmakeTemplate

open Lib

variable {α : Type} {t t₀ : GraphT α} {customCompare : α → Node α → CompRtns}

/-- There is no node, and `node_list` is NULL. -/
structure Cleared (t : GraphT α) : Prop where
  /-- The list is gone. -/
  nodeList : t.nodeList = none
  /-- No node is counted. -/
  nodeCount : t.nodeCount = 0

/-- There is no node, and `node_list` is a list. -/
structure Fresh (t : GraphT α) : Prop where
  /-- The list is empty. -/
  nodeList : t.nodeList = some []
  /-- No node is counted. -/
  nodeCount : t.nodeCount = 0

/-! ### One call

On a graph without nodes a call returns what it returns on any other.
-/

theorem Cleared.call {call : GraphCall α} (h : Cleared t) (hcall : ¬ call.MakesNode) :
    graphCall customCompare t call = some (emptyRet call, t) := by
  apply graphCall_empty _ h.nodeCount hcall
  simp [GraphT.graph, h.nodeList]

theorem Fresh.call {call : GraphCall α} (h : Fresh t) (hcall : ¬ call.MakesNode) :
    graphCall customCompare t call = some (emptyRet call, t) := by
  apply graphCall_empty _ h.nodeCount hcall
  simp [GraphT.graph, h.nodeList]

theorem makesNode_iff {call : GraphCall α} :
    call.MakesNode ↔ ∃ d push, call = .addNode (some d) true push := by
  constructor
  · intro hcall
    cases call with
    | addNode data createNode push =>
        obtain ⟨d, rfl⟩ := Option.ne_none_iff_exists'.mp hcall.1
        obtain rfl : createNode = true := hcall.2
        exact ⟨d, push, rfl⟩
    | _ => exact absurd hcall id
  · rintro ⟨d, push, rfl⟩
    exact ⟨nofun, rfl⟩

theorem Cleared.graphCall_makesNode (customCompare : α → Node α → CompRtns)
    {call : GraphCall α} (h : Cleared t)
    (hcall : call.MakesNode) :
    ∃ t', graphCall customCompare t call = some (.code .nullPointer, t') ∧ Cleared t' := by
  obtain ⟨d, push, rfl⟩ := makesNode_iff.mp hcall
  refine ⟨{ t with nodes := (t.nodes.alloc ⟨d, 0, []⟩).1.drop t.nodes.next }, ?_, h.nodeList,
    h.nodeCount⟩
  simp [graphCall, addNodeTo_null h.nodeList d]

theorem Fresh.graphCall_makesNode (customCompare : α → Node α → CompRtns)
    {call : GraphCall α} (h : Fresh t)
    (hcall : call.MakesNode) :
    ∃ c t', graphCall customCompare t call = some (.code c, t') ∧ c ≠ .nullPointer := by
  obtain ⟨d, push, rfl⟩ := makesNode_iff.mp hcall
  cases push with
  | true =>
      obtain ⟨t', ht', -⟩ := addNodeTo_success h.nodeList d
      exact ⟨.success, t', by simp [graphCall, ht'], by simp⟩
  | false =>
      exact ⟨.failure, { t with nodes := (t.nodes.alloc ⟨d, 0, []⟩).1.drop t.nodes.next },
        by simp [graphCall, addNodeTo_noMemory h.nodeList d], by simp⟩

/-! ### Runs

The first call that makes a node is the first with different results.
-/

/-- Calls on a cleared graph always return. -/
theorem Cleared.graphCalls_exists (customCompare : α → Node α → CompRtns) (calls : List (GraphCall α))
    (h : Cleared t) :
    ∃ rets t', graphCalls customCompare t calls = some (rets, t') := by
  induction calls generalizing t with
  | nil => exact ⟨[], t, rfl⟩
  | cons call calls ih =>
      by_cases hcall : call.MakesNode
      · obtain ⟨t₁, ht₁, h₁⟩ := h.graphCall_makesNode customCompare hcall
        obtain ⟨rets, t₂, ht₂⟩ := ih h₁
        exact ⟨.code .nullPointer :: rets, t₂, by simp [graphCalls, ht₁, ht₂]⟩
      · obtain ⟨rets, t₂, ht₂⟩ := ih h
        exact ⟨emptyRet call :: rets, t₂, by simp [graphCalls, h.call hcall, ht₂]⟩

/-- What a run returns whose first call returns `ret`. -/
theorem graphCalls_cons {call : GraphCall α} {calls : List (GraphCall α)} {ret : GraphRet α}
    {t' : GraphT α} (hcall : graphCall customCompare t call = some (ret, t')) :
    (graphCalls customCompare t (call :: calls)).map Prod.fst =
      ((graphCalls customCompare t' calls).map Prod.fst).map (ret :: ·) := by
  simp [graphCalls, hcall]
  cases graphCalls customCompare t' calls <;> rfl

/-- The two return the same just in case no call makes a node. -/
theorem Cleared.same_iff {calls : List (GraphCall α)} (h : Cleared t) (h₀ : Fresh t₀) :
    (graphCalls customCompare t calls).map Prod.fst =
      (graphCalls customCompare t₀ calls).map Prod.fst ↔ ∀ call ∈ calls, ¬ call.MakesNode := by
  induction calls with
  | nil => exact iff_of_true rfl nofun
  | cons call calls ih =>
      rw [List.forall_mem_cons]
      by_cases hcall : call.MakesNode
      · apply iff_of_false
        · obtain ⟨t₁, ht₁, h₁⟩ := h.graphCall_makesNode customCompare hcall
          obtain ⟨c, t₂, ht₂, hne⟩ := h₀.graphCall_makesNode customCompare hcall
          obtain ⟨rets, t₃, ht₃⟩ := h₁.graphCalls_exists customCompare calls
          rw [graphCalls_cons ht₁, graphCalls_cons ht₂, ht₃]
          intro heq
          obtain ⟨rets₀, -, hrets⟩ := Option.map_eq_some_iff.mp heq.symm
          injection hrets with hret
          injection hret with hc
          exact hne hc
        · intro hall
          exact hall.1 hcall
      · rw [graphCalls_cons (h.call hcall), graphCalls_cons (h₀.call hcall), ← ih]
        constructor
        · intro heq
          refine ⟨hcall, Option.map_injective ?_ heq⟩
          intro rets rets' hrets
          exact (List.cons.inj hrets).2
        · intro heq
          rw [heq.2]

/-- A graph behaves like a new one when it has been cleared, just in case it can be cleared and no
call makes a node. -/
theorem behavesNew_iff (customCompare : α → Node α → CompRtns) (t : GraphT α)
    (calls : List (GraphCall α)) :
    BehavesNew customCompare t calls ↔ Clearable t ∧ ∀ call ∈ calls, ¬ call.MakesNode := by
  have hfresh : Fresh (GraphT.new t.deallocates : GraphT α) := ⟨rfl, rfl⟩
  rw [← graphClear_iff]
  constructor
  · rintro ⟨t', ht', hsame⟩
    obtain ⟨-, hlist, hcount⟩ := graphClear_result ht'
    have hcleared : Cleared t' := ⟨hlist, hcount⟩
    exact ⟨⟨t', ht'⟩, (hcleared.same_iff hfresh).mp hsame⟩
  · rintro ⟨⟨t', ht'⟩, hcalls⟩
    obtain ⟨-, hlist, hcount⟩ := graphClear_result ht'
    have hcleared : Cleared t' := ⟨hlist, hcount⟩
    exact ⟨t', ht', (hcleared.same_iff hfresh).mpr hcalls⟩

/-- A graph with one node is cleared, and a node added. -/
theorem cleared_takes_no_node :
    ∃ rets t, graphCalls (fun _ _ => .notEqual) (.new false) [.addNode (some 10) true true] =
        some (rets, t) ∧
      (∃ t', graphClear t = some (.success, t')) ∧
      ¬ BehavesNew (fun (_ : Nat) _ => .notEqual) t [.addNode (some 20) true true] := by
  refine ⟨_, _, rfl, ⟨_, rfl⟩, ?_⟩
  rintro ⟨t', ht', hsame⟩
  cases ht'
  exact absurd hsame (by decide)

end CmakeTemplate
