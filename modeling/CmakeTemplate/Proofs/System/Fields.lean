/-
Which field of a file `get_cpu_info` and `get_memory_info` return.

Unlike `get_os_name` both return NULL for a line that does not begin with their key, so that
the loop goes on to the first line that does.  That one is taken to have a colon, and what
stands behind it is returned, or put into megabytes.  A line for which there is no memory is
passed over, and the next one with the key is taken.

A line that `fgets` reads as a whole and that has no zero in it is a string up to its newline,
and one without a newline is so too, at the end of the file.  So the loop goes along the lines
of the file, each with the next outcome of `calloc`, and it is enough to know what each of the
two functions makes of one line.
-/
import CmakeTemplate.ProcInfo
import CmakeTemplate.Proofs.System.OsName

namespace CmakeTemplate

open Lib

variable {key line s : List UInt8} {c d : UInt8}

/-! ### A byte at the end

The newline behind a line does not hide its key or its colon.
-/

theorem strchr_concat (hne : d ≠ c) : strchr (s ++ [d]) c = (strchr s c).map (· ++ [d]) := by
  induction s with
  | nil => exact if_neg hne
  | cons e s ih =>
      rw [List.cons_append, strchr, strchr]
      split
      · rfl
      · exact ih

theorem strchr_end (h : c ∉ s) : strchr (s ++ [c]) c = some [c] :=
  strchr_eq_some.mpr ⟨s, [], rfl, h, rfl⟩

/-- A key that does not hold the byte ends in front of it. -/
theorem prefix_concat_of_notMem (h : d ∉ key) : key <+: s ++ [d] ↔ key <+: s := by
  refine ⟨?_, fun hkey => hkey.trans (List.prefix_append _ _)⟩
  intro hkey
  rcases List.prefix_concat_iff.mp hkey with heq | hkey
  · exact absurd (heq ▸ List.mem_append_right _ List.mem_cons_self) h
  · exact hkey

/-! ### One line

Each of the two functions returns the field of a line that begins with its key.
-/

theorem bufferString_of_noNul (h : 0 ∉ s) : (bufferString s).chars = s :=
  List.takeWhile_eq_self_iff.mpr fun c hc => by simpa using fun heq : c = 0 => h (heq ▸ hc)

theorem bufferString_zero (h : 0 ∉ s) : (bufferString (s ++ [0])).chars = s := by
  show (s ++ [0]).takeWhile (· ≠ 0) = s
  rw [List.takeWhile_append_of_pos fun c hc => by simpa using fun heq : c = 0 => h (heq ▸ hc)]
  simp

theorem noNul_newline (h : 0 ∉ line) : 0 ∉ line ++ [newline] := by
  rw [List.mem_append, List.mem_singleton]
  exact not_or.mpr ⟨h, by decide⟩

theorem endAtNewline_line (hline : newline ∉ line) (hzero : 0 ∉ line) :
    endAtNewline (line ++ [newline]) = line ++ [0] := by
  unfold endAtNewline
  rw [bufferString_of_noNul (noNul_newline hzero)]
  dsimp only
  rw [strchr_end hline]
  simp

/-- What stands behind the byte `c` and `n` more. -/
theorem drop_behind (before field : List UInt8) (c d : UInt8) (n : Nat) :
    (before ++ c :: field ++ [d]).drop (before.length + (n + 1)) = (field ++ [d]).drop n := by
  rw [List.append_assoc, List.drop_length_add_append]
  rfl

theorem length_behind (before field : List UInt8) (c d : UInt8) :
    (before ++ c :: field ++ [d]).length = before.length + 2 + field.length := by
  simp only [List.length_append, List.length_cons, List.length_nil]
  omega

theorem behindColon_zero (hzero : 0 ∉ line) :
    behindColon (line ++ [0]) 2 = (fieldOf line).map (List.drop 1) := by
  unfold behindColon fieldOf
  rw [bufferString_zero hzero]
  dsimp only
  cases hfound : strchr line colon with
  | none => rfl
  | some found =>
      obtain ⟨before, field, rfl, -, rfl⟩ := strchr_eq_some.mp hfound
      have hplace : (before ++ colon :: field).length - (colon :: field).length + 2
          = before.length + 2 := by
        rw [List.length_append, Nat.add_sub_cancel]
      have hroom : ¬ (before ++ colon :: field ++ [0]).length < before.length + 2 := by
        rw [length_behind]
        omega
      have hfield : 0 ∉ field := fun hc => hzero (by simp [hc])
      dsimp only
      rw [hplace, if_neg hroom, drop_behind]
      -- with nothing behind the colon the string begins at the end that `fgets` has put
      cases field with
      | nil => rfl
      | cons c field =>
          show some (bufferString (field ++ [0])).chars = some field
          rw [bufferString_zero fun hc => hfield (List.mem_cons_of_mem _ hc)]

theorem behindColon_newline (hzero : 0 ∉ line) :
    behindColon (line ++ [newline]) 1 = (fieldOf line).map (· ++ [newline]) := by
  unfold behindColon fieldOf
  rw [bufferString_of_noNul (noNul_newline hzero)]
  dsimp only
  rw [strchr_concat (by decide)]
  cases hfound : strchr line colon with
  | none => rfl
  | some found =>
      obtain ⟨before, field, rfl, -, rfl⟩ := strchr_eq_some.mp hfound
      have hplace : (before ++ colon :: field ++ [newline]).length
          - (colon :: field ++ [newline]).length + 1 = before.length + 1 := by
        rw [List.append_assoc, List.length_append, Nat.add_sub_cancel]
      have hroom : ¬ (before ++ colon :: field ++ [newline]).length < before.length + 1 := by
        rw [length_behind]
        omega
      have hfield : 0 ∉ field := fun hc => hzero (by simp [hc])
      rw [Option.map_some]
      dsimp only
      rw [hplace, if_neg hroom, drop_behind, List.drop_zero,
        bufferString_of_noNul (noNul_newline hfield)]
      rfl

theorem length_of_fieldOf {field : List UInt8} (h : fieldOf line = some field) :
    field.length < line.length := by
  obtain ⟨found, hfound, rfl⟩ := Option.map_eq_some_iff.mp h
  obtain ⟨before, field, rfl, -, rfl⟩ := strchr_eq_some.mp hfound
  simp only [List.tail_cons, List.length_append, List.length_cons]
  omega

/-- What `parse` makes of a whole line: the field of one that begins with the key. -/
def ParsesField (parse : List UInt8 → Bool → Option (Option (List UInt8))) (key : List UInt8)
    (text : List UInt8 → List UInt8) : Prop :=
  ∀ (line : List UInt8) (calloc : Bool), newline ∉ line → 0 ∉ line →
    line.length < bufferSize - 1 →
    parse (line ++ [newline]) calloc =
      if key <+: line ∧ calloc = true then (fieldOf line).map fun field => some (text field)
      else some none

theorem strncmp_line (hkey : 0 ∉ key) (hnewline : newline ∉ key) (hzero : 0 ∉ line) :
    0 = strncmp (bufferString (line ++ [newline])).chars key key.length ↔ key <+: line := by
  rw [strncmp_key hkey, bufferString_of_noNul (noNul_newline hzero),
    prefix_concat_of_notMem hnewline]

theorem parseCpuModel_parses : ParsesField parseCpuModel modelName (List.drop 1) := by
  intro line calloc hline hzero hlength
  have hkey : 0 = strncmp _ modelName modelNameLen ↔ modelName <+: line :=
    strncmp_line (by decide) (by decide) hzero
  unfold parseCpuModel
  by_cases hstart : modelName <+: line
  · rw [if_pos (hkey.mpr hstart)]
    cases calloc with
    | false => simp
    | true =>
        rw [if_neg (by decide), if_pos ⟨hstart, rfl⟩, endAtNewline_line hline hzero,
          behindColon_zero hzero, Option.map_map]
        apply Option.map_congr
        intro field hfield
        have hfit : (field.drop 1).length < bufferSize := by
          have hlt := length_of_fieldOf hfield
          rw [List.length_drop]
          omega
        simp only [Function.comp_apply, tsSnprintf_of_lt hfit]
  · rw [if_neg fun hc => hstart (hkey.mp hc), if_neg fun hc => hstart hc.1]

/-- `strtol` returns a `long`. -/
theorem natAbs_strtol_le (s : List UInt8) : (strtol longMin longMax s).result.natAbs ≤ 2 ^ 63 := by
  cases hs : readNumeral s with
  | none =>
      rw [strtol_of_none hs]
      exact Nat.zero_le _
  | some numeral =>
      obtain ⟨negative, magnitude, rest⟩ := numeral
      rw [strtol_of_some hs]
      unfold longMin longMax
      split_ifs with hmax hmin
      · show (9223372036854775807 : Int).natAbs ≤ _
        decide
      · show (-9223372036854775808 : Int).natAbs ≤ _
        decide
      · show (signed negative magnitude).natAbs ≤ _
        omega

theorem length_megabytes_lt {memMb : Int} (h : memMb.natAbs ≤ 2 ^ 63) :
    (megabytes memMb).length < bufferSize := by
  have hdigits : (printUnsigned memMb.natAbs).length ≤ 20 :=
    length_printUnsigned_le (by decide) (Nat.lt_of_le_of_lt h (by decide))
  unfold megabytes bufferSize
  split
  · simp only [List.length_append, List.length_cons, List.length_nil]
    omega
  · simp only [List.length_append, List.length_cons, List.length_nil]
    omega

theorem parseMemoryInfo_parses : ParsesField parseMemoryInfo memTotal memoryText := by
  intro line calloc hline hzero hlength
  have hkey : 0 = strncmp _ memTotal memTotalLen ↔ memTotal <+: line :=
    strncmp_line (by decide) (by decide) hzero
  unfold parseMemoryInfo
  by_cases hstart : memTotal <+: line
  · rw [if_pos (hkey.mpr hstart)]
    cases calloc with
    | false => simp
    | true =>
        rw [if_neg (by decide), if_pos ⟨hstart, rfl⟩, behindColon_newline hzero, Option.map_map]
        apply Option.map_congr
        intro field hfield
        have hvalue := strtol_concat (s := field) (d := newline) longMin longMax (by decide) (by decide)
        have hsmall : ((strtol longMin longMax field).result.tdiv kilobyte).natAbs ≤ 2 ^ 63 := by
          rw [Int.natAbs_tdiv]
          exact (Nat.div_le_self _ _).trans (natAbs_strtol_le field)
        have hprinted := tsSnprintf_of_lt (length_megabytes_lt hsmall)
        simp only [Function.comp_apply, hvalue, hprinted, ne_eq, not_true, if_false]
        rfl
  · rw [if_neg fun hc => hstart (hkey.mp hc), if_neg fun hc => hstart hc.1]

/-! ### The file

By induction on the lines.
-/

/-- The loop takes line by line, each with the next outcome of `calloc`. -/
theorem procLoop_lines {parse : List UInt8 → Bool → Option (Option (List UInt8))}
    {text : List UInt8 → List UInt8} (hparse : ParsesField parse key text) (calloc : Nat → Bool)
    {lines : List (List UInt8)} (h : WholeLines lines) (n : Nat) :
    procLoop parse (fun k => calloc (n + k)) (lines.flatMap (· ++ [newline]))
      = firstField key text calloc (lines.zipIdx n) := by
  induction lines generalizing n with
  | nil =>
      unfold procLoop
      rfl
  | cons line lines ih =>
      obtain ⟨hline, hzero, hlength⟩ := h line List.mem_cons_self
      have hrest := ih (fun other hother => h other (List.mem_cons_of_mem _ hother)) (n + 1)
      have hread : fgets (bufferSize - 1) ((line :: lines).flatMap (· ++ [newline]))
          = (line ++ [newline], lines.flatMap (· ++ [newline])) := by
        rw [List.flatMap_cons, List.append_assoc, List.singleton_append]
        exact fgets_line _ hline hlength
      have hne : (line :: lines).flatMap (· ++ [newline]) ≠ [] := by simp
      have hnext : (fun k => calloc (n + (k + 1))) = fun k => calloc (n + 1 + k) := by
        funext k
        rw [Nat.add_assoc, Nat.add_comm 1 k]
      rw [procLoop, dif_neg hne]
      simp only [hread, hparse line _ hline hzero hlength, hnext, hrest, Nat.add_zero]
      unfold firstField
      rw [List.zipIdx_cons]
      by_cases htaken : key <+: line ∧ calloc n = true
      · rw [List.find?_cons_of_pos (by simpa using htaken), if_pos htaken]
        dsimp only
        cases fieldOf line with
        | none => rfl
        | some field => rfl
      · rw [List.find?_cons_of_neg (by simpa using htaken), if_neg htaken]

/-- For every file of lines that `fgets` can read as a whole, and whatever allocations fail:
`get_cpu_info` and `get_memory_info` return the field of the first line that begins with their key and
has memory for the result, NULL if there is none, and go wrong just in case that line has no colon. -/
theorem procInfo_reads {lines : List (List UInt8)} (h : WholeLines lines) (calloc : Nat → Bool) :
    getCpuInfo (some (lines.flatMap (· ++ [newline]))) calloc
        = firstField modelName (List.drop 1) calloc lines.zipIdx ∧
      getMemoryInfo (some (lines.flatMap (· ++ [newline]))) calloc
        = firstField memTotal memoryText calloc lines.zipIdx := by
  have hcalloc : (fun k => calloc (0 + k)) = calloc := by
    funext k
    rw [Nat.zero_add]
  have hcpu := procLoop_lines parseCpuModel_parses calloc h 0
  have hmemory := procLoop_lines parseMemoryInfo_parses calloc h 0
  rw [hcalloc] at hcpu hmemory
  exact ⟨hcpu, hmemory⟩

/-- `model name : A` and `MemTotal:2048`, behind a line with neither key. -/
theorem procInfo_reads_run :
    getCpuInfo (some ([[112, 58], modelName ++ [32, 58, 32, 65],
        memTotal ++ [58, 50, 48, 52, 56]].flatMap (· ++ [newline]))) (fun _ => true)
        = some (some [65]) ∧
      getMemoryInfo (some ([[112, 58], modelName ++ [32, 58, 32, 65],
        memTotal ++ [58, 50, 48, 52, 56]].flatMap (· ++ [newline]))) (fun _ => true)
        = some (some [50, 32, 77, 66]) := by
  have hlines : WholeLines [[112, 58], modelName ++ [32, 58, 32, 65],
      memTotal ++ [58, 50, 48, 52, 56]] := by
    unfold WholeLines
    decide
  obtain ⟨hcpu, hmemory⟩ := procInfo_reads hlines fun _ => true
  refine ⟨hcpu.trans ?_, hmemory.trans ?_⟩
  · decide
  · decide

end CmakeTemplate
