/-
What a graph of pointers to `int` finds.

A graph that is created with `int_comp` is looked up by a pointer to an `int`, and should find
a node whose `int` is equal.  The lookup compares the first four bytes of the pointers
instead.  It finds what it is meant to find exactly when the first node whose pointer begins
like the one that is looked for points to an equal `int`, and when, if there is no such node,
no node does.

Which bytes come first is up to the machine, so the statement is for both orders, and for any
memory behind the pointers.  Looking for the very pointer that was stored finds its node, or
one in front of it that begins the same; an equal `int` at another address is in general not
found.
-/
import CmakeTemplate.Comparisons
import CmakeTemplate.Proofs.Graph.Lists

namespace CmakeTemplate

open Lib

variable {g : Graph UInt64} {order : ByteOrder} {memory : UInt64 → UInt8} {q : UInt64}

/-- The node points to an `int` equal to `*q`. -/
def PointsToEqual (order : ByteOrder) (memory : UInt64 → UInt8) (g : Graph UInt64) (q : UInt64)
    (n : Nat) : Prop :=
  ∃ node, g.nodes.get n = some node ∧ intAt order memory node.data = intAt order memory q

/-- A node is found if and only if one points to an `int` equal to `*q`, and it is one of those. -/
structure FindsEqual (order : ByteOrder) (memory : UInt64 → UInt8) (g : Graph UInt64) (q : UInt64)
    (found : Ptr) : Prop where
  /-- A node is found if there is one to find. -/
  iff : found.isSome ↔ ∃ n ∈ g.nodeList, PointsToEqual order memory g q n
  /-- What is found is one. -/
  one : ∀ n, found = some n → n ∈ g.nodeList ∧ PointsToEqual order memory g q n

/-- The pointer in the node begins with the same four bytes as `q`. -/
def BeginsLike (order : ByteOrder) (g : Graph UInt64) (q : UInt64) (n : Nat) : Bool :=
  (g.nodes.get n).any fun node =>
    (pointerBytes order q).take 4 = (pointerBytes order node.data).take 4

/-! ### Four bytes

Bytes determine the number that they stand for, so equal numbers are equal bytes.
-/

theorem length_lowBytes (len n : Nat) : (lowBytes len n).length = len := by
  induction len generalizing n with
  | zero => rfl
  | succ len ih => rw [lowBytes, List.length_cons, ih]

theorem length_pointerBytes (order : ByteOrder) (p : UInt64) :
    (pointerBytes order p).length = 8 := by
  cases order with
  | littleEndian => exact length_lowBytes 8 _
  | bigEndian => rw [pointerBytes, List.length_reverse, length_lowBytes]

/-- The number that the bytes stand for. -/
def ofLowBytes (bytes : List UInt8) : Nat := bytes.foldr (fun byte n => byte.toNat + 256 * n) 0

theorem ofLowBytes_lt (bytes : List UInt8) : ofLowBytes bytes < 256 ^ bytes.length := by
  induction bytes with
  | nil => decide
  | cons byte bytes ih =>
      have hbyte := byte.toNat_lt
      have hcons : ofLowBytes (byte :: bytes) = byte.toNat + 256 * ofLowBytes bytes := rfl
      rw [hcons, List.length_cons, Nat.pow_succ]
      omega

theorem ofLowBytes_inj {xs ys : List UInt8} (hlen : xs.length = ys.length)
    (h : ofLowBytes xs = ofLowBytes ys) : xs = ys := by
  induction xs generalizing ys with
  | nil => exact (List.length_eq_zero_iff.mp hlen.symm).symm
  | cons x xs ih =>
      cases ys with
      | nil => cases hlen
      | cons y ys =>
          have hx := x.toNat_lt
          have hy := y.toNat_lt
          have heq : x.toNat + 256 * ofLowBytes xs = y.toNat + 256 * ofLowBytes ys := h
          have hhead : x = y := UInt8.toNat_inj.mp (by omega)
          rw [hhead, ih (Nat.succ.inj hlen) (by omega)]

/-- An `int` is its four bytes. -/
theorem loadInt_inj {order : ByteOrder} {xs ys : List UInt8} (hxs : 4 ≤ xs.length)
    (hys : 4 ≤ ys.length) : loadInt order xs = loadInt order ys ↔ xs.take 4 = ys.take 4 := by
  have hlen : ∀ {zs : List UInt8}, 4 ≤ zs.length → (zs.take 4).length = 4 := by
    intro zs hzs
    rw [List.length_take, Nat.min_eq_left hzs]
  have hinj : ∀ {us vs : List UInt8}, us.length = 4 → vs.length = 4 →
      (BitVec.ofNat 32 (ofLowBytes us)).toInt = (BitVec.ofNat 32 (ofLowBytes vs)).toInt →
      us = vs := by
    intro us vs hus hvs heq
    have hu := ofLowBytes_lt us
    have hv := ofLowBytes_lt vs
    rw [hus] at hu
    rw [hvs] at hv
    have hnat := congrArg BitVec.toNat (BitVec.eq_of_toInt_eq heq)
    rw [BitVec.toNat_ofNat, BitVec.toNat_ofNat] at hnat
    exact ofLowBytes_inj (hus.trans hvs.symm) (by omega)
  constructor
  · intro heq
    cases order with
    | littleEndian => exact hinj (hlen hxs) (hlen hys) heq
    | bigEndian =>
        refine List.reverse_injective (hinj ?_ ?_ heq)
        · rw [List.length_reverse, hlen hxs]
        · rw [List.length_reverse, hlen hys]
  · intro heq
    simp only [loadInt, heq]

/-- The callback compares the beginnings of the pointers. -/
theorem graphIntComp_equal (order : ByteOrder) (q : UInt64) (node : Node UInt64) :
    graphIntComp order q node = .equal ↔
      (pointerBytes order q).take 4 = (pointerBytes order node.data).take 4 := by
  have hlen : ∀ p, 4 ≤ (pointerBytes order p).length := by
    intro p
    rw [length_pointerBytes]
    decide
  have hload : loadInt order (pointerBytes order q) = loadInt order (pointerBytes order node.data) ↔
      (pointerBytes order q).take 4 = (pointerBytes order node.data).take 4 :=
    loadInt_inj (hlen q) (hlen node.data)
  rw [← hload]
  simp only [graphIntComp, intComp]
  split_ifs with heq <;> simp [heq]

/-! ### Looking up

The lookup is a search for the first node with a property of its pointer.
-/

theorem graphFindNode_graphIntComp (order : ByteOrder)
    (hlive : ∀ n ∈ g.nodeList, (g.nodes.get n).isSome) (q : UInt64) :
    graphFindNode (graphIntComp order) g q = some (g.lookedAt.find? (BeginsLike order g q)) := by
  have hpred : (fun n => (g.nodes.get n).any fun node => graphIntComp order q node = .equal) =
      BeginsLike order g q := by
    funext n
    simp only [BeginsLike, graphIntComp_equal]
  rw [graphFindNode_spec _ hlive, hpred]

/-- The lookup finds a node with an equal `int` if and only if there is one, exactly when the
first node whose pointer begins like `q` has one, or no pointer does and no node has one. -/
theorem graphFindNode_equal_iff (order : ByteOrder) (memory : UInt64 → UInt8) (q : UInt64)
    (hlive : ∀ n ∈ g.nodeList, (g.nodes.get n).isSome) :
    (∃ found, graphFindNode (graphIntComp order) g q = some found ∧
        FindsEqual order memory g q found) ↔
      (∃ xs n ys, g.lookedAt = xs ++ n :: ys ∧ (∀ x ∈ xs, BeginsLike order g q x = false) ∧
          BeginsLike order g q n = true ∧ PointsToEqual order memory g q n) ∨
        (∀ n ∈ g.lookedAt, BeginsLike order g q n = false) ∧
          ∀ n ∈ g.nodeList, ¬ PointsToEqual order memory g q n := by
  rw [graphFindNode_graphIntComp order hlive]
  constructor
  · intro h
    obtain ⟨found, hfound, hfinds⟩ := h
    rw [Option.some.injEq] at hfound
    cases found with
    | none =>
        refine .inr ⟨?_, ?_⟩
        · simpa using List.find?_eq_none.mp hfound
        · intro n hn hpoints
          exact absurd (hfinds.iff.mpr ⟨n, hn, hpoints⟩) (by simp)
    | some n =>
        obtain ⟨hbegins, xs, ys, hlist, hxs⟩ := List.find?_eq_some_iff_append.mp hfound
        refine .inl ⟨xs, n, ys, hlist, ?_, hbegins, (hfinds.one n rfl).2⟩
        simpa using hxs
  · intro h
    rcases h with ⟨xs, n, ys, hlist, hxs, hbegins, hpoints⟩ | ⟨hbegins, hpoints⟩
    · have hmem : n ∈ g.nodeList := List.mem_of_mem_take (i := g.nodeList.length % 2 ^ 32) (by
        show n ∈ g.lookedAt
        rw [hlist]
        simp)
      refine ⟨some n, congrArg some (List.find?_eq_some_iff_append.mpr
        ⟨hbegins, xs, ys, hlist, by simpa using hxs⟩), ?_, ?_⟩
      · exact iff_of_true rfl ⟨n, hmem, hpoints⟩
      · intro m hm
        rw [← Option.some.inj hm]
        exact ⟨hmem, hpoints⟩
    · refine ⟨none, congrArg some (List.find?_eq_none.mpr (by simpa using hbegins)), ?_, ?_⟩
      · refine iff_of_false (by simp) ?_
        intro hn
        obtain ⟨n, hn, hequal⟩ := hn
        exact hpoints n hn hequal
      · intro n hn
        cases hn

/-- A node with the pointer 4096, and 8192 looked for: the same number is at both. -/
theorem equal_int_not_found :
    ¬ ∀ (order : ByteOrder) (memory : UInt64 → UInt8) (g : Graph UInt64) (q : UInt64),
      (graphSystem (graphIntComp order)).Reach g →
      ∃ found, graphFindNode (graphIntComp order) g q = some found ∧
        FindsEqual order memory g q found := by
  intro hall
  obtain ⟨g, hrun, hnodes, hnode⟩ : ∃ g, (graphSystem (graphIntComp .littleEndian)).run graphCreate
      [.addNode (some 4096) true true] = some g ∧ g.nodeList = [0] ∧
        g.nodes.get 0 = some ⟨4096, 0, []⟩ := ⟨_, rfl, rfl, rfl⟩
  obtain ⟨found, hfound, hfinds⟩ :=
    hall .littleEndian (fun _ => 7) g 8192 ((System.Reach.init rfl).run hrun)
  have hlive : ∀ n ∈ g.nodeList, (g.nodes.get n).isSome := by
    intro n hn
    rw [hnodes, List.mem_singleton] at hn
    rw [hn, hnode]
    rfl
  have hother : BeginsLike .littleEndian g 8192 0 = false := by
    rw [BeginsLike, hnode]
    decide
  rw [graphFindNode_graphIntComp _ hlive, Graph.lookedAt, hnodes, Option.some.injEq] at hfound
  have hnone : found = none := by
    rw [← hfound]
    simp [hother]
  have hpoints := hfinds.iff.mpr ⟨0, by simp [hnodes], _, hnode, rfl⟩
  rw [hnone] at hpoints
  cases hpoints

/-- Looking for the pointer that was stored. -/
theorem graphFindNode_equal_run :
    ∃ g, (graphSystem (graphIntComp .littleEndian)).run graphCreate
        [.addNode (some 4096) true true, .addNode (some 8192) true true] = some g ∧
      ∃ found, graphFindNode (graphIntComp .littleEndian) g 4096 = some found ∧
        FindsEqual .littleEndian (fun _ => 7) g 4096 found := by
  obtain ⟨g, hrun, hnodes, h0, h1⟩ : ∃ g, (graphSystem (graphIntComp .littleEndian)).run graphCreate
      [.addNode (some 4096) true true, .addNode (some 8192) true true] = some g ∧
        g.nodeList = [1, 0] ∧ g.nodes.get 0 = some ⟨4096, 0, []⟩ ∧
        g.nodes.get 1 = some ⟨8192, 0, []⟩ := ⟨_, rfl, rfl, rfl, rfl⟩
  have hlive : ∀ n ∈ g.nodeList, (g.nodes.get n).isSome := by
    intro n hn
    simp only [hnodes, List.mem_cons, List.not_mem_nil, or_false] at hn
    rcases hn with rfl | rfl
    · rw [h1]
      rfl
    · rw [h0]
      rfl
  refine ⟨g, hrun, (graphFindNode_equal_iff _ _ 4096 hlive).mpr
    (.inl ⟨[1], 0, [], ?_, ?_, ?_, _, h0, rfl⟩)⟩
  · rw [Graph.lookedAt, hnodes]
    rfl
  · intro x hx
    rw [List.mem_singleton.mp hx, BeginsLike, h1]
    decide
  · rw [BeginsLike, h0]
    decide

end CmakeTemplate
