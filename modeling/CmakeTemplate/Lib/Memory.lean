/-
Memory as a function from addresses, and ranges of it.

`read` is what stands in a range, as a list, and `write` puts something else there.  What is
written may come from anywhere, the same memory included, so a move of overlapping ranges is a
write of what was there before: `memmove` needs no case of its own.

What a function leaves alone is said by `ChangedWithin`: nothing but the addresses of a range
has changed.  It is the frame condition of every function that is given a buffer and a length.
When a program writes more than it should, the question is whether that makes a difference; a
longer write changes nothing behind the range exactly when what it writes there is there
already.
-/
import Mathlib.Data.List.Range
import Mathlib.Logic.Function.Basic

namespace CmakeTemplate.Lib

variable {β : Type}

/-- What stands at the `len` addresses from `off` on. -/
def read (mem : Nat → β) (off len : Nat) : List β := (List.range len).map fun j => mem (off + j)

/-- The memory with `src` at the `len` addresses from `off` on. -/
def write (mem : Nat → β) (off len : Nat) (src : Nat → β) : Nat → β :=
  fun a => if off ≤ a ∧ a < off + len then src (a - off) else mem a

/-- Nothing but the `len` addresses from `off` on has changed. -/
def ChangedWithin (off len : Nat) (mem mem' : Nat → β) : Prop :=
  ∀ a, a < off ∨ off + len ≤ a → mem' a = mem a

variable {mem mem' : Nat → β} {off off' len : Nat} {src : Nat → β}

@[simp] theorem length_read : (read mem off len).length = len := by simp [read]

theorem read_congr (h : ∀ j, j < len → mem (off + j) = mem' (off' + j)) :
    read mem off len = read mem' off' len := by
  refine List.map_congr_left ?_
  intro j hj
  exact h j (List.mem_range.mp hj)

theorem read_add (mem : Nat → β) (off m n : Nat) :
    read mem off (m + n) = read mem off m ++ read mem (off + m) n := by
  simp [read, List.range_add, Nat.add_assoc]

/-! ### Writing one slot after the other

A loop that fills a buffer is a write of its length.
-/

@[simp] theorem write_length_zero : write mem off 0 src = mem := by
  funext a
  exact if_neg (by omega)

theorem write_succ :
    write mem off (len + 1) src = Function.update (write mem off len src) (off + len) (src len) := by
  funext a
  rcases eq_or_ne a (off + len) with rfl | hne
  · rw [Function.update_self, write, if_pos (by omega), Nat.add_sub_cancel_left]
  · rw [Function.update_of_ne hne, write, write]
    by_cases hin : off ≤ a ∧ a < off + len
    · rw [if_pos (by omega), if_pos hin]
    · rw [if_neg (by omega), if_neg hin]

/-! ### Reading what was written

Inside the range it is the source, and outside the memory.
-/

theorem write_at {j : Nat} (h : j < len) : write mem off len src (off + j) = src j := by
  simp [write, h]

theorem write_zero_at {j : Nat} (h : j < len) : write mem 0 len src j = src j := by
  have hat : write mem 0 len src (0 + j) = src j := write_at h
  rwa [Nat.zero_add] at hat

theorem write_before {a : Nat} (h : a < off) : write mem off len src a = mem a := by
  rw [write, if_neg]
  omega

theorem write_behind {a : Nat} (h : off + len ≤ a) : write mem off len src a = mem a := by
  rw [write, if_neg]
  omega

theorem write_changed : ChangedWithin off len mem (write mem off len src) := by
  intro a ha
  rcases ha with ha | ha
  · exact write_before ha
  · exact write_behind ha

/-- What was in front, and then what was written. -/
theorem read_write (mem : Nat → β) (off len : Nat) (src : Nat → β) :
    read (write mem off len src) 0 (off + len) = read mem 0 off ++ read src 0 len := by
  rw [read_add]
  congr 1
  · refine read_congr ?_
    intro j hj
    exact write_before (by omega)
  · refine read_congr ?_
    intro j hj
    rw [Nat.zero_add, Nat.zero_add, write_at hj]

/-- What was written, as far as it is read. -/
theorem read_write_at {n : Nat} (h : n ≤ len) :
    read (write mem off len src) off n = read src 0 n := by
  refine read_congr ?_
  intro j hj
  rw [write_at (by omega), Nat.zero_add]

/-- A longer write changes nothing behind a range exactly when that is there already. -/
theorem changedWithin_write_iff {n : Nat} (h : n ≤ len) :
    ChangedWithin off n mem (write mem off len src) ↔
      read mem (off + n) (len - n) = read src n (len - n) := by
  constructor
  · intro hchanged
    refine read_congr ?_
    intro j hj
    rw [← hchanged _ (.inr (Nat.le_add_right _ _)), Nat.add_assoc, write_at (by omega)]
  · intro hread a ha
    by_cases hin : off + n ≤ a ∧ a < off + len
    · obtain ⟨j, rfl⟩ := Nat.exists_eq_add_of_le hin.1
      have hj : j < len - n := by omega
      have hat := List.map_inj_left.mp hread j (List.mem_range.mpr hj)
      rw [hat, Nat.add_assoc, write_at (by omega)]
    · rcases ha with ha | ha
      · exact write_before ha
      · exact write_behind (by omega)

end CmakeTemplate.Lib
