/-
Reading a file line by line into a buffer.

A file is the list of its bytes.  `fgets` stops behind a newline, at the end of the file, or
when the buffer is full, whatever comes first; so a line that is shorter than the buffer comes
in one piece, and a longer one in several, of which only the last has the newline.

`readLines` is the loop that calls it until nothing is left.  Every call reads at least one
byte if the buffer has room for one, which is why the loop ends.  Of a file that was made of
lines with a newline behind each, and each of them short enough, the loop reads those lines,
with their newlines and in their order.  A file that does not end in a newline has a last line
without one, which is read all the same.
-/
import Mathlib.Data.List.TakeWhile

namespace CmakeTemplate.Lib

/-- `'\n'`. -/
def newline : UInt8 := 10

/-- What `fgets` reads of a file with room for `n` bytes, and what is left of the file. -/
def fgets : Nat → List UInt8 → List UInt8 × List UInt8
  | 0, file => ([], file)
  | _ + 1, [] => ([], [])
  | n + 1, c :: file =>
    if c = newline then ([c], file)
    else
      let behind := fgets n file
      (c :: behind.1, behind.2)

/-- What is read and what is left are the file. -/
theorem fgets_append (n : Nat) (file : List UInt8) : (fgets n file).1 ++ (fgets n file).2 = file := by
  induction file generalizing n with
  | nil => cases n <;> rfl
  | cons c file ih =>
      cases n with
      | zero => rfl
      | succ n =>
          unfold fgets
          split
          · rfl
          · exact congrArg (c :: ·) (ih n)

theorem fgets_rest_le (n : Nat) (file : List UInt8) :
    (fgets n file).2.length ≤ file.length := by
  have hlength := congrArg List.length (fgets_append n file)
  rw [List.length_append] at hlength
  omega

theorem fgets_length_le (n : Nat) (file : List UInt8) : (fgets n file).1.length ≤ n := by
  induction file generalizing n with
  | nil => cases n <;> simp [fgets]
  | cons c file ih =>
      cases n with
      | zero => simp [fgets]
      | succ n =>
          have hle := ih n
          unfold fgets
          split
          · simp
          · simp only [List.length_cons]
            omega

/-- Something is read if there is something left. -/
theorem fgets_rest_lt {n : Nat} {file : List UInt8} (hn : 0 < n) (hfile : file ≠ []) :
    (fgets n file).2.length < file.length := by
  obtain ⟨c, file, rfl⟩ := List.exists_cons_of_ne_nil hfile
  obtain ⟨n, rfl⟩ := Nat.exists_eq_succ_of_ne_zero (Nat.ne_of_gt hn)
  have hle := fgets_rest_le n file
  unfold fgets
  split
  · simp
  · simp only [List.length_cons]
    omega

/-- The first line, without its newline. -/
def firstLine (file : List UInt8) : List UInt8 := file.takeWhile (· ≠ newline)

theorem firstLine_mem_splitOn (file : List UInt8) :
    ∃ behind, file.splitOn newline = firstLine file :: behind := by
  unfold firstLine
  by_cases h : newline ∈ file
  · obtain ⟨line, rest, rfl, hline⟩ := List.eq_append_cons_of_mem h
    rw [List.splitOn_append_cons_self_of_not_mem hline]
    refine ⟨rest.splitOn newline, ?_⟩
    rw [List.takeWhile_append_of_pos fun c hc => by
      simpa using fun heq : c = newline => hline (heq ▸ hc)]
    simp
  · refine ⟨[], ?_⟩
    rw [List.splitOn_eq_singleton h, List.takeWhile_eq_self_iff.mpr fun c hc => by
      simpa using fun heq : c = newline => h (heq ▸ hc)]

/-- A first line that the buffer can hold is read as a whole, with or without its newline. -/
theorem fgets_firstLine {n : Nat} {file : List UInt8} (h : (firstLine file).length ≤ n) :
    (fgets n file).1 = firstLine file ∨ (fgets n file).1 = firstLine file ++ [newline] := by
  induction file generalizing n with
  | nil => cases n <;> simp [fgets, firstLine]
  | cons c file ih =>
      by_cases hc : c = newline
      · subst hc
        cases n <;> simp [fgets, firstLine]
      · have hfirst : firstLine (c :: file) = c :: firstLine file := by
          simp [firstLine, hc]
        rw [hfirst] at h ⊢
        cases n with
        | zero => simp at h
        | succ n =>
            simp only [fgets, if_neg hc, List.cons_append]
            exact (ih (by simpa using h)).imp (congrArg _) (congrArg _)

/-! ### Reading to the end

The loop has a well-founded recursion on what is left of the file, so it is unfolded by two
equations.
-/

/-- What is read of a file in turn, with room for `n` bytes at a time. -/
def readLines (n : Nat) (file : List UInt8) : List (List UInt8) :=
  if _h : n = 0 ∨ file = [] then []
  else (fgets n file).1 :: readLines n (fgets n file).2
termination_by file.length
decreasing_by
  obtain ⟨hn, hfile⟩ := not_or.mp _h
  exact fgets_rest_lt (Nat.pos_of_ne_zero hn) hfile

@[simp] theorem readLines_nil (n : Nat) : readLines n [] = [] := by
  unfold readLines
  simp

theorem readLines_cons {n : Nat} {file : List UInt8} (hn : 0 < n) (hfile : file ≠ []) :
    readLines n file = (fgets n file).1 :: readLines n (fgets n file).2 := by
  rw [readLines, dif_neg]
  rintro (hzero | hnil)
  · exact Nat.ne_of_gt hn hzero
  · exact hfile hnil

/-- A line with its newline that the buffer can hold. -/
theorem fgets_line {n : Nat} {line : List UInt8} (file : List UInt8) (hline : newline ∉ line)
    (h : line.length < n) :
    fgets n (line ++ newline :: file) = (line ++ [newline], file) := by
  induction line generalizing n with
  | nil =>
      obtain ⟨n, rfl⟩ := Nat.exists_eq_succ_of_ne_zero (Nat.ne_of_gt h)
      simp [fgets]
  | cons c line ih =>
      obtain ⟨n, rfl⟩ := Nat.exists_eq_succ_of_ne_zero (Nat.ne_of_gt (Nat.zero_lt_of_lt h))
      have hc : ¬ c = newline := fun heq => hline (heq ▸ List.mem_cons_self)
      have hrest := ih (fun hmem => hline (List.mem_cons_of_mem _ hmem)) (Nat.lt_of_succ_lt_succ h)
      rw [List.cons_append, fgets, if_neg hc, hrest]
      rfl

theorem readLines_line {n : Nat} {line : List UInt8} (file : List UInt8) (hline : newline ∉ line)
    (h : line.length < n) :
    readLines n (line ++ newline :: file) = (line ++ [newline]) :: readLines n file := by
  rw [readLines_cons (Nat.zero_lt_of_lt h) (by simp), fgets_line file hline h]

/-- The lines that a file was made of. -/
theorem readLines_flatMap {n : Nat} {lines : List (List UInt8)}
    (h : ∀ line ∈ lines, newline ∉ line ∧ line.length < n) :
    readLines n (lines.flatMap (· ++ [newline])) = lines.map (· ++ [newline]) := by
  induction lines with
  | nil => simp
  | cons line lines ih =>
      obtain ⟨hline, hlength⟩ := h line List.mem_cons_self
      have hrest := ih fun other hother => h other (List.mem_cons_of_mem _ hother)
      rw [List.flatMap_cons, List.append_assoc, List.singleton_append,
        readLines_line _ hline hlength, hrest, List.map_cons]

end CmakeTemplate.Lib
