/-
The queue is first in, first out, whatever its threads do.

`QueueRep q ns` says that `head`, `tail`, `current_size` and the nodes agree on the
chain `ns`.  The invariant `QInv` adds the history, that what was removed followed by
the chain is what was inserted, and that the nodes enqueuers are still holding are off
the chain.  It survives every step but one: linking a node into an unbounded queue of
`2 ^ 32 - 1` elements, where `current_size` wraps to zero.
-/
import CmakeTemplate.Proofs.Queue.Step
import CmakeTemplate.Lib.Word

namespace CmakeTemplate

open Lib

variable {α : Type}

/-- The queue holds exactly the nodes `ns`. -/
structure QueueRep (q : QueueT α) (ns : List (Nat × α)) : Prop where
  /-- The nodes are a chain from `head` on. -/
  chain : Chain q.nodes q.head ns none
  /-- `tail` is the last of them. -/
  tail : q.tail = (ns.map Prod.fst).getLast?
  /-- `current_size` counts them. -/
  size : q.currentSize.toNat = ns.length

theorem queueInit_rep (maxSize : UInt32) : QueueRep (queueInit maxSize : QueueT α) [] :=
  ⟨rfl, rfl, rfl⟩

/-! ### The operations

What each does to the chain, with no thread in sight.
-/

section Operations

variable {q : QueueT α} {ns : List (Nat × α)}

theorem queueIsEmpty_iff (h : QueueRep q ns) : queueIsEmpty q = true ↔ ns = [] := by
  rw [queueIsEmpty, decide_eq_true_iff, eq_zero_iff, h.size, List.length_eq_zero_iff]

/-- The new node of an enqueuer is off the chain, and ready to be linked in. -/
theorem queueNodeNew_spec (h : QueueRep q ns) (d : α) :
    QueueRep (queueNodeNew q d).1 ns ∧
      (queueNodeNew q d).1.nodes.get (queueNodeNew q d).2 = some ⟨d, none⟩ ∧
      (queueNodeNew q d).2 ∉ ns.map Prod.fst :=
  ⟨⟨h.chain.alloc _, h.tail, h.size⟩, Store.get_alloc_self _ _,
    fun hc => Nat.lt_irrefl _ (h.chain.lt_next _ hc)⟩

/-- The chain is right after every append; `current_size` goes up by one, wrapping when
it must. -/
theorem queueAppend_chain (h : QueueRep q ns) {n : Nat} {d : α}
    (hn : q.nodes.get n = some ⟨d, none⟩) (hout : n ∉ ns.map Prod.fst) :
    ∃ q', queueAppend q n = some q' ∧ Chain q'.nodes q'.head (ns ++ [(n, d)]) none ∧
      q'.tail = some n ∧ q'.maxSize = q.maxSize ∧ q'.currentSize = q.currentSize + 1 ∧
      q.nodes.SameOff q'.nodes (ns.map Prod.fst) := by
  by_cases hempty : q.currentSize = 0
  · obtain rfl : ns = [] := (queueIsEmpty_iff h).mp (by simp [queueIsEmpty, hempty])
    refine ⟨{ q with head := some n, tail := some n, currentSize := q.currentSize + 1 }, ?_,
      ⟨rfl, none, hn, rfl⟩, rfl, rfl, rfl, .refl _ _⟩
    simp [queueAppend, hempty]
  · rcases List.eq_nil_or_concat ns with rfl | ⟨xs, l, rfl⟩
    · exact absurd (eq_zero_iff.mpr h.size) hempty
    · rw [List.concat_eq_append] at h hout ⊢
      have htail : q.tail = some l.1 := by rw [h.tail]; simp
      obtain ⟨k, hl⟩ := h.chain.live l (by simp)
      refine ⟨{ q with
          nodes := q.nodes.upd l.1 fun c => { c with next := some n }
          tail := some n, currentSize := q.currentSize + 1 }, ?_, h.chain.snoc hn hout, rfl, rfl,
        rfl, (Store.SameOff.upd _ _ _).mono (by simp)⟩
      simp [queueAppend, hempty, htail, Store.assign_live _ hl]

theorem queueAppend_spec (h : QueueRep q ns) {n : Nat} {d : α}
    (hn : q.nodes.get n = some ⟨d, none⟩) (hout : n ∉ ns.map Prod.fst)
    (hroom : q.currentSize.toNat + 1 < 2 ^ 32) :
    ∃ q', queueAppend q n = some q' ∧ QueueRep q' (ns ++ [(n, d)]) ∧ q'.maxSize = q.maxSize ∧
      q'.currentSize = q.currentSize + 1 ∧ q.nodes.SameOff q'.nodes (ns.map Prod.fst) := by
  obtain ⟨q', hq', hchain, htail, hmax, hsize, hsame⟩ := queueAppend_chain h hn hout
  refine ⟨q', hq', ⟨hchain, by simp [htail], ?_⟩, hmax, hsize, hsame⟩
  rw [hsize, toNat_succ hroom, h.size]
  simp

theorem queueTakeHead_spec {n : Nat × α} (h : QueueRep q (n :: ns)) :
    ∃ q', queueTakeHead q = some (q', n.2) ∧ QueueRep q' ns ∧ q'.maxSize = q.maxSize ∧
      q'.currentSize = q.currentSize - 1 ∧ q.nodes.SameOff q'.nodes [n.1] := by
  obtain ⟨hhead, k, hn, hrest⟩ := id h.chain
  have hout : n.1 ∉ ns.map Prod.fst := (List.nodup_cons.mp h.chain.nodup).1
  have hsize : (q.currentSize - 1).toNat = ns.length := by
    rw [toNat_pred (by rw [h.size]; simp), h.size]
    simp
  refine ⟨⟨q.nodes.drop n.1, q.currentSize - 1, q.maxSize, k,
      if k = none then none else q.tail⟩, ?_, ⟨hrest.drop hout, ?_, hsize⟩, rfl, rfl, rfl, ?_⟩
  · simp [queueTakeHead, hhead, hn, Store.free_live hn]
  · -- `tail` is cleared together with the last node
    cases ns with
    | nil =>
        obtain rfl : k = none := hrest
        simp
    | cons y ns =>
        obtain ⟨rfl, -⟩ := id hrest
        simp [h.tail]
  · intro a ha
    exact Store.get_drop_ne _ (by simpa using ha)

end Operations

/-! ### Any number of threads

The invariant, the moves that keep it, and what it says of every run.
-/

variable {T : Type} {s s' : QState T α}

/-- The state of the queue, its history, and the nodes held by the enqueuers. -/
structure QInv (s : QState T α) (ns : List (Nat × α)) : Prop where
  /-- The queue holds the nodes. -/
  rep : QueueRep s.queue ns
  /-- What was removed and what is there is what was inserted. -/
  history : s.removed ++ ns.map Prod.snd = s.inserted
  /-- A node that is not linked in yet is ready to be. -/
  pending : ∀ t n d, (s.pc t).pending = some (n, d) →
    s.queue.nodes.get n = some ⟨d, none⟩ ∧ n ∉ ns.map Prod.fst
  /-- No two threads hold the same node. -/
  distinct : ∀ t u n d e, (s.pc t).pending = some (n, d) → (s.pc u).pending = some (n, e) → t = u
  /-- A bound is kept. -/
  bounded : s.queue.maxSize ≠ 0 → s.queue.currentSize ≤ s.queue.maxSize

/-- An enqueue that may find the queue full of what `current_size` can count. -/
def NoWrap (s : QState T α) : QEvent T α → Prop
  | .lock t _ => (s.pc t).pending ≠ none → s.queue.maxSize = 0 →
      s.queue.currentSize.toNat + 1 < 2 ^ 32
  | _ => True

namespace QInv

variable {ns : List (Nat × α)}

/-- Threads that move without taking on a node leave the invariant alone. -/
theorem inv_relabel (h : QInv s ns) {pc : T → QPc α}
    (hpc : ∀ u x, (pc u).pending = some x → (s.pc u).pending = some x) :
    QInv { s with pc } ns where
  rep := h.rep
  history := h.history
  pending t n d ht := h.pending t n d (hpc t _ ht)
  distinct t u n d e ht hu := h.distinct t u n d e (hpc t _ ht) (hpc u _ hu)
  bounded := h.bounded

variable [DecidableEq T]

theorem update_pending {pc : T → QPc α} {t : T} {p : QPc α} {n : Nat} {d : α}
    (hp : p.pending = none) {u : T} (h : (Function.update pc t p u).pending = some (n, d)) :
    u ≠ t ∧ (pc u).pending = some (n, d) := by
  by_cases hu : u = t
  · subst hu
    rw [Function.update_self, hp] at h
    simp at h
  · rw [Function.update_of_ne hu] at h
    exact ⟨hu, h⟩

theorem inv_alloc (h : QInv s ns) (t : T) (d : α) :
    QInv { s with
      queue := (queueNodeNew s.queue d).1
      pc := Function.update s.pc t (.enqueueLock (queueNodeNew s.queue d).2 d) } ns := by
  -- the new node belongs to `t`, and the nodes held before are older
  have hnew : ∀ {u n e},
      (Function.update s.pc t (.enqueueLock s.queue.nodes.next d) u).pending = some (n, e) →
      u = t ∧ n = s.queue.nodes.next ∧ e = d ∨
        (s.pc u).pending = some (n, e) ∧ n ≠ s.queue.nodes.next := by
    intro u n e hu
    by_cases hut : u = t
    · subst hut
      rw [Function.update_self] at hu
      obtain ⟨rfl, rfl⟩ := Prod.mk.inj (Option.some.inj hu)
      exact .inl ⟨rfl, rfl, rfl⟩
    · rw [Function.update_of_ne hut] at hu
      exact .inr ⟨hu, Nat.ne_of_lt (Store.lt_next (h.pending u n e hu).1)⟩
  obtain ⟨hrep, hready⟩ := queueNodeNew_spec h.rep d
  refine ⟨hrep, h.history, ?_, ?_, h.bounded⟩
  · intro u n e hu
    rcases hnew hu with ⟨rfl, rfl, rfl⟩ | ⟨hu, hne⟩
    · exact hready
    · obtain ⟨hget, hout⟩ := h.pending u n e hu
      exact ⟨(Store.get_alloc_ne _ _ hne).trans hget, hout⟩
  · intro u v n e f hu hv
    rcases hnew hu with ⟨rfl, rfl, -⟩ | ⟨hu, hne⟩ <;> rcases hnew hv with ⟨rfl, hn, -⟩ | ⟨hv, hne'⟩
    · rfl
    · exact absurd rfl hne'
    · exact absurd hn hne
    · exact h.distinct u v n e f hu hv

theorem inv_append (h : QInv s ns) {t : T} {n : Nat} {d : α} {woken : List T} {q : QueueT α}
    (ht : (s.pc t).pending = some (n, d)) (hfull : queueIsFull s.queue = false)
    (hroom : s.queue.maxSize = 0 → s.queue.currentSize.toNat + 1 < 2 ^ 32)
    (hq : queueAppend s.queue n = some q) :
    QInv { s with
      queue := q
      inserted := s.inserted ++ [d]
      pc := Function.update (wakeThreads s.pc woken) t (.returned (.code .success)) }
      (ns ++ [(n, d)]) := by
  obtain ⟨hget, hout⟩ := h.pending t n d ht
  -- a bounded queue that is not full has a size below another 32-bit number
  have hlt : s.queue.maxSize ≠ 0 → s.queue.currentSize < s.queue.maxSize := by
    intro hne
    have hne' : s.queue.maxSize ≠ queueUnbounded := hne
    simpa [queueIsFull, hne'] using hfull
  have hroom' : s.queue.currentSize.toNat + 1 < 2 ^ 32 := by
    by_cases hb : s.queue.maxSize = 0
    · exact hroom hb
    · have hlt' := UInt32.lt_iff_toNat_lt.mp (hlt hb)
      have := s.queue.maxSize.toNat_lt
      omega
  obtain ⟨q', hq', hrep, hmax, hsize, hsame⟩ := queueAppend_spec h.rep hget hout hroom'
  obtain rfl : q = q' := Option.some.inj (hq.symm.trans hq')
  have hothers : ∀ {u m e},
      (Function.update (wakeThreads s.pc woken) t (.returned (.code .success)) u).pending
        = some (m, e) → u ≠ t ∧ (s.pc u).pending = some (m, e) := by
    intro u m e hu
    obtain ⟨hut, hu⟩ := update_pending rfl hu
    exact ⟨hut, pending_wakeThreads s.pc woken u ▸ hu⟩
  refine ⟨hrep, ?_, ?_, ?_, ?_⟩
  · show s.removed ++ (ns ++ [(n, d)]).map Prod.snd = s.inserted ++ [d]
    rw [← h.history]
    simp
  · intro u m e hu
    obtain ⟨hut, hu⟩ := hothers hu
    obtain ⟨hm, hmout⟩ := h.pending u m e hu
    have hmn : m ≠ n := fun hc => hut (h.distinct u t n e d (hc ▸ hu) ht)
    exact ⟨(hsame.get m hmout).trans hm, by simpa [hmn] using hmout⟩
  · intro u v m e f hu hv
    exact h.distinct u v m e f (hothers hu).2 (hothers hv).2
  · intro hne
    show q.currentSize ≤ q.maxSize
    rw [hmax, hsize, UInt32.le_iff_toNat_le, toNat_succ hroom']
    exact UInt32.lt_iff_toNat_lt.mp (hlt (by rwa [← hmax]))

theorem inv_takeHead (h : QInv s ns) {t : T} {d : α} {woken : List T} {q : QueueT α}
    (hempty : queueIsEmpty s.queue = false) (hq : queueTakeHead s.queue = some (q, d)) :
    ∃ n ns', ns = (n, d) :: ns' ∧ QInv { s with
      queue := q
      removed := s.removed ++ [d]
      pc := Function.update (wakeThreads s.pc woken) t (.returned (.data (some d))) } ns' := by
  cases ns with
  | nil => rw [(queueIsEmpty_iff h.rep).mpr rfl] at hempty; simp at hempty
  | cons n ns =>
      obtain ⟨q', hq', hrep, hmax, hsize, hsame⟩ := queueTakeHead_spec h.rep
      obtain ⟨rfl, rfl⟩ := Prod.mk.inj (Option.some.inj (hq.symm.trans hq'))
      have hothers : ∀ {u m e},
          (Function.update (wakeThreads s.pc woken) t (.returned (.data (some n.2))) u).pending
            = some (m, e) → (s.pc u).pending = some (m, e) := by
        intro u m e hu
        exact pending_wakeThreads s.pc woken u ▸ (update_pending rfl hu).2
      refine ⟨n.1, ns, rfl, hrep, ?_, ?_, ?_, ?_⟩
      · show (s.removed ++ [n.2]) ++ ns.map Prod.snd = s.inserted
        rw [← h.history]
        simp
      · intro u m e hu
        obtain ⟨hm, hmout⟩ := h.pending u m e (hothers hu)
        simp only [List.map_cons, List.mem_cons, not_or] at hmout
        exact ⟨(hsame.get m (by simpa using hmout.1)).trans hm, hmout.2⟩
      · intro u v m e f hu hv
        exact h.distinct u v m e f (hothers hu) (hothers hv)
      · intro hne
        show q.currentSize ≤ q.maxSize
        have hle := UInt32.le_iff_toNat_le.mp (h.bounded (by rwa [← hmax]))
        rw [hmax, hsize, UInt32.le_iff_toNat_le, toNat_pred (by rw [h.rep.size]; simp)]
        omega

end QInv

variable [DecidableEq T]

/-- A step that does not wrap `current_size` keeps the invariant. -/
theorem QMove.inv {ev : QEvent T α} {ns : List (Nat × α)} (hm : QMove s ev s') (h : QInv s ns)
    (hc : NoWrap s ev) : ∃ ns', QInv s' ns' := by
  cases hm with
  | goes t p hp hq hfrom =>
      exact ⟨ns, h.inv_relabel fun u x hu => (QInv.update_pending hp hu).2⟩
  | allocates t d hfrom => exact ⟨ns, h.inv_alloc t d⟩
  | wakes wakes =>
      refine ⟨ns, h.inv_relabel fun u x hu => ?_⟩
      split at hu
      · rwa [QPc.pending_wake] at hu
      · exact hu
  | signals => exact ⟨ns, h.rep, h.history, h.pending, h.distinct, h.bounded⟩
  | locks t woken hlock =>
      cases hlock with
      | sleepsFull n d hfrom hfull =>
          refine ⟨ns, h.inv_relabel fun u x hu => ?_⟩
          by_cases hut : u = t
          · subst hut
            rw [Function.update_self] at hu
            rw [hfrom.pending]
            exact hu
          · rwa [Function.update_of_ne hut] at hu
      | appends n d q hfrom hfull hsig hq =>
          exact ⟨_, h.inv_append hfrom.pending hfull (hc (by simp [hfrom.pending])) hq⟩
      | leaves hfrom hempty hdown => exact ⟨ns, h.inv_relabel fun u x hu => (QInv.update_pending rfl hu).2⟩
      | sleepsEmpty hfrom hempty hdown =>
          exact ⟨ns, h.inv_relabel fun u x hu => (QInv.update_pending rfl hu).2⟩
      | takes q d hfrom hempty hsig hq =>
          obtain ⟨n, ns', -, hinv⟩ := h.inv_takeHead hempty hq
          exact ⟨ns', hinv⟩

theorem queueStart_inv (T : Type) (maxSize : UInt32) :
    QInv (queueStart T maxSize : QState T α) [] where
  rep := queueInit_rep maxSize
  history := rfl
  pending _ _ _ h := by simp [queueStart, QPc.pending] at h
  distinct _ _ _ _ _ h := by simp [queueStart, QPc.pending] at h
  bounded _ := UInt32.zero_le

variable [Fintype T]

theorem queueSystem_inv {maxSize : UInt32} (h : (queueSystem T α maxSize).ReachIf NoWrap s) :
    ∃ ns, QInv s ns := by
  refine h.invariant (I := fun s => ∃ ns, QInv s ns) ?_ ?_
  · rintro s rfl
    exact ⟨[], queueStart_inv T maxSize⟩
  · rintro s ev s' ⟨ns, hinv⟩ hc hs
    exact (queueStep_move hs).inv hinv hc

/-- The chain holds what was inserted and not yet removed, in order; `current_size`,
`tail` and the bound fit it. -/
structure Fifo (s : QState T α) : Prop where
  /-- The chain has what was inserted and not removed, in order. -/
  chain : ∃ ns, Chain s.queue.nodes s.queue.head ns none ∧
    s.removed ++ ns.map Prod.snd = s.inserted ∧ s.queue.currentSize.toNat = ns.length ∧
    s.queue.tail = (ns.map Prod.fst).getLast?
  /-- A bound is kept. -/
  bounded : s.queue.maxSize ≠ 0 → s.queue.currentSize ≤ s.queue.maxSize

/-- On every run whose enqueues find room to count one more, the queue is a bounded
FIFO. -/
theorem queueSystem_fifo {maxSize : UInt32} (h : (queueSystem T α maxSize).ReachIf NoWrap s) :
    Fifo s := by
  obtain ⟨ns, hinv⟩ := queueSystem_inv h
  exact ⟨⟨ns, hinv.rep.chain, hinv.history, hinv.rep.size, hinv.rep.tail⟩, hinv.bounded⟩

/-- A consumer that slept through an enqueue and then took the element. -/
theorem queueSystem_fifo_run :
    ∃ s, (queueSystem Bool Nat 1).run (queueStart Bool 1) [.callDequeue true, .lock true [],
        .callEnqueue false (some 7) true, .lock false [true], .lock true []] = some s ∧
      s.removed = [7] ∧ Fifo s := by
  have h0 : (queueSystem Bool Nat 1).ReachIf NoWrap (queueStart Bool 1) := .init rfl
  have h1 := h0.step (l := QEvent.callDequeue true) trivial rfl
  have h2 := h1.step (l := QEvent.lock true []) (fun _ h => absurd h (by decide)) rfl
  have h3 := h2.step (l := QEvent.callEnqueue false (some 7) true) trivial rfl
  have h4 := h3.step (l := QEvent.lock false [true]) (fun _ h => absurd h (by decide)) rfl
  have h5 := h4.step (l := QEvent.lock true []) (fun _ h => absurd h (by decide)) rfl
  exact ⟨_, rfl, rfl, queueSystem_fifo h5⟩

omit [DecidableEq T] [Fintype T] in
/-- A bounded queue meets the condition on every run. -/
theorem noWrap_of_bounded {ev : QEvent T α} (h : s.queue.maxSize ≠ 0) : NoWrap s ev := by
  cases ev with
  | lock t woken => exact fun _ hc => absurd hc h
  | _ => trivial

/-! ### One more than 32 bits can count

A run of one thread that fills an unbounded queue, and the element that is too many.
-/

/-- A whole enqueue, with nobody asleep on `not_empty`: call, critical section, return. -/
theorem enqueue_alone {ns : List (Nat × α)} (h : QInv s ns) {t : T} (hidle : s.pc t = .idle)
    (hmax : s.queue.maxSize = 0) (hawake : ∀ u, (s.pc u).waits .notEmpty = false) (d : α) :
    ∃ s₁ s₂ q, queueStep s (.callEnqueue t (some d) true) = some s₁ ∧
      queueStep s₁ (.lock t []) = some s₂ ∧
      queueStep s₂ (.ret t) = some { s with queue := q, inserted := s.inserted ++ [d] } ∧
      s₁.queue.currentSize = s.queue.currentSize ∧ s₁.queue.maxSize = 0 ∧ q.maxSize = 0 ∧
      q.currentSize = s.queue.currentSize + 1 := by
  have hinv := h.inv_alloc t d
  obtain ⟨hget, hout⟩ := hinv.pending t s.queue.nodes.next d (by
    simp [QPc.pending, queueNodeNew])
  obtain ⟨q, hq, -, -, hqmax, hsize, -⟩ := queueAppend_chain hinv.rep hget hout
  have hfull : queueIsFull (queueNodeNew s.queue d).1 = false := by
    have hm : (queueNodeNew s.queue d).1.maxSize = queueUnbounded := hmax
    simp [queueIsFull, hm]
  have hsig : Signals (Function.update s.pc t (.enqueueLock (queueNodeNew s.queue d).2 d))
      .notEmpty [] := by
    refine ⟨by simp, ?_⟩
    rintro ⟨u, hu⟩
    by_cases hut : u = t
    · subst hut
      simp [QPc.waits] at hu
    · rw [Function.update_of_ne hut, hawake] at hu
      simp at hu
  refine ⟨{ s with
      queue := (queueNodeNew s.queue d).1
      pc := Function.update s.pc t (.enqueueLock (queueNodeNew s.queue d).2 d) },
    { s with
      queue := q
      inserted := s.inserted ++ [d]
      pc := Function.update s.pc t (.returned (.code .success)) }, q, ?_, ?_, ?_, rfl, hmax,
    hqmax.trans hmax, hsize⟩
  · simp [queueStep, hidle, QPc.isIdle]
  · have hpc : Function.update (wakeThreads (Function.update s.pc t
        (.enqueueLock (queueNodeNew s.queue d).2 d)) []) t (.returned (.code .success))
        = Function.update s.pc t (.returned (.code .success)) := by
      funext u
      by_cases hut : u = t
      · subst hut
        simp
      · simp [wakeThreads, hut]
    simp only [queueStep, Function.update_self, enqueueSection, hfull, hsig, if_true,
      Bool.false_eq_true, if_false, hpc, Option.bind_eq_bind]
    exact Option.bind_eq_some_iff.mpr ⟨q, hq, rfl⟩
  · simp [queueStep, ← hidle]

/-- Any number of elements that 32 bits can count can be put in by one thread alone. -/
theorem fill_queue (k : Nat) (hk : k < 2 ^ 32) :
    ∃ s : QState Unit Nat, (queueSystem Unit Nat 0).ReachIf NoWrap s ∧ s.pc () = .idle ∧
      s.queue.maxSize = 0 ∧ s.removed = [] ∧ s.inserted.length = k ∧
      s.queue.currentSize.toNat = k := by
  induction k with
  | zero => exact ⟨queueStart Unit 0, .init rfl, rfl, rfl, rfl, rfl, rfl⟩
  | succ k ih =>
      obtain ⟨s, hs, hidle, hmax, hrem, hlen, hsize⟩ := ih (Nat.lt_of_succ_lt hk)
      obtain ⟨ns, hinv⟩ := queueSystem_inv hs
      obtain ⟨s₁, s₂, q, h₁, h₂, h₃, hsize₁, hmax₁, hqmax, hqsize⟩ := enqueue_alone hinv hidle hmax
        (fun u => by rw [show u = () from rfl, hidle]; rfl) 0
      have hroom : NoWrap s₁ (.lock () []) := by
        intro _ _
        rw [hsize₁, hsize]
        exact hk
      have hs₁ := hs.step (l := QEvent.callEnqueue () (some 0) true) trivial h₁
      have hs₂ := hs₁.step (l := QEvent.lock () []) hroom h₂
      have hs₃ := hs₂.step (l := QEvent.ret ()) trivial h₃
      refine ⟨_, hs₃, hidle, hqmax, hrem, ?_, ?_⟩
      · show (s.inserted ++ [0]).length = k + 1
        rw [List.length_append, hlen]
        rfl
      · show q.currentSize.toNat = k + 1
        rw [hqsize, toNat_succ (by rw [hsize]; exact hk), hsize]

/-- The element after those is one too many: the chain has `2 ^ 32` nodes, and no
32-bit number is that. -/
theorem queue_overflows : ¬ ∀ s, (queueSystem Unit Nat 0).Reach s → Fifo s := by
  intro hall
  obtain ⟨s, hs, hidle, hmax, hrem, hlen, -⟩ := fill_queue (2 ^ 32 - 1) (by decide)
  obtain ⟨ns, hinv⟩ := queueSystem_inv hs
  obtain ⟨s₁, s₂, q, h₁, h₂, h₃, -⟩ := enqueue_alone hinv hidle hmax
    (fun u => by rw [show u = () from rfl, hidle]; rfl) 0
  have hs₁ := hs.reach.next (l := QEvent.callEnqueue () (some 0) true) h₁
  have hs₂ := hs₁.next (l := QEvent.lock () []) h₂
  obtain ⟨ms, -, hhist, hsize, -⟩ := (hall _ (hs₂.next (l := QEvent.ret ()) h₃)).chain
  have hms : ms.length = 2 ^ 32 := by
    have hl := congrArg List.length hhist
    simp only [hrem, List.nil_append, List.length_map, List.length_append, hlen,
      List.length_singleton] at hl
    omega
  have hlt := q.currentSize.toNat_lt
  simp only [hms] at hsize
  omega

end CmakeTemplate
