/-
Which files `get_operating_system` finds the name in.

The name is in the first line that begins with `PRETTY_NAME=`, between its first two quotes.
`get_os_name` returns a string for every line, an empty one if the line does not name the
system, and so the loop is over after the first line: a name that is further down in the file
is not found, and a file without a name gives an empty string instead of NULL.

So with allocations that succeed the name is found if the first line has it, or if there is
nothing to find: the file is empty, or the name is.  The line may be cut off by the buffer, or
by a zero in it; what is left then has to have both quotes.  Allocations that fail move the
loop on to a later line, and the condition takes them into account.
-/
import CmakeTemplate.SystemInfo
import CmakeTemplate.Proofs.HashTable.Refines

namespace CmakeTemplate

open Lib

/-! ### The text between the quotes

What stands between two quotes is stated by the string, and computed by two searches.
-/

theorem strchr_eq_some {s found : List UInt8} {c : UInt8} :
    strchr s c = some found ↔
      ∃ before behind, s = before ++ c :: behind ∧ c ∉ before ∧ found = c :: behind := by
  induction s with
  | nil => simp [strchr]
  | cons d ds ih =>
      by_cases hd : d = c
      · subst hd
        rw [strchr, if_pos rfl]
        constructor
        · rintro ⟨⟩
          exact ⟨[], ds, rfl, by simp, rfl⟩
        · rintro ⟨before, behind, hs, hbefore, rfl⟩
          cases before with
          | nil => rw [hs, List.nil_append]
          | cons e before =>
              have he : d = e := (List.cons.inj hs).1
              exact absurd (he ▸ List.mem_cons_self) hbefore
      · rw [strchr, if_neg hd, ih]
        constructor
        · rintro ⟨before, behind, rfl, hbefore, hfound⟩
          exact ⟨d :: before, behind, rfl, by simp [Ne.symm hd, hbefore], hfound⟩
        · rintro ⟨before, behind, hs, hbefore, hfound⟩
          cases before with
          | nil => exact absurd (List.cons.inj hs).1 hd
          | cons e before =>
              exact ⟨before, behind, (List.cons.inj hs).2,
                fun hc => hbefore (List.mem_cons_of_mem _ hc), hfound⟩

/-- What `get_os_name` copies of a string. -/
def quotedText (s : List UInt8) : Option (List UInt8) :=
  (strchr s quote).bind fun found =>
    (strchr found.tail quote).map fun behind =>
      found.tail.take (found.tail.length - behind.length)

theorem quotedText_eq_some {s text : List UInt8} :
    quotedText s = some text ↔ Quoted s text := by
  unfold quotedText
  rw [Option.bind_eq_some_iff]
  constructor
  · rintro ⟨found, hfound, htext⟩
    obtain ⟨before, name, rfl, hbefore, rfl⟩ := strchr_eq_some.mp hfound
    obtain ⟨end', hend, rfl⟩ := Option.map_eq_some_iff.mp htext
    obtain ⟨text, behind, hname, hquote, rfl⟩ := strchr_eq_some.mp hend
    rw [List.tail_cons] at hname
    subst hname
    exact ⟨before, behind, by simp, hbefore, by simpa using hquote⟩
  · rintro ⟨before, behind, rfl, hbefore, htext⟩
    refine ⟨quote :: (text ++ quote :: behind), strchr_eq_some.mpr ⟨_, _, rfl, hbefore, rfl⟩, ?_⟩
    have hend : strchr (text ++ quote :: behind) quote = some (quote :: behind) :=
      strchr_eq_some.mpr ⟨_, _, rfl, htext, rfl⟩
    rw [List.tail_cons, hend]
    simp

/-- What `get_operating_system` should return for a line, if it is the first one that names the
system. -/
def osName (line : List UInt8) : Option (List UInt8) :=
  if prettyName <+: line then quotedText line else none

theorem osName_eq_some {line text : List UInt8} :
    osName line = some text ↔ NamesSystem line text := by
  unfold osName NamesSystem
  rw [← quotedText_eq_some]
  split
  · rename_i h
    simp [h]
  · rename_i h
    simp [h]

/-- The name in a file, by computation. -/
theorem nameIn_iff {osRelease text : List UInt8} :
    NameIn osRelease text ↔ (osRelease.splitOn newline).findSome? osName = some text := by
  rw [List.findSome?_eq_some_iff]
  unfold NameIn
  simp only [← osName_eq_some, Option.eq_none_iff_forall_not_mem, Option.mem_def]
  constructor
  · rintro ⟨before, line, behind, hlines, hbefore, hline⟩
    exact ⟨before, line, behind, hlines, hline, hbefore⟩
  · rintro ⟨before, line, behind, hlines, hline, hbefore⟩
    exact ⟨before, line, behind, hlines, hbefore, hline⟩

theorem findsName_iff {osRelease : List UInt8} {result : Option (List UInt8)} :
    FindsName osRelease result ↔ result = (osRelease.splitOn newline).findSome? osName := by
  constructor
  · intro h
    apply Option.ext
    intro text
    rw [h.found, nameIn_iff]
  · rintro rfl
    constructor
    · intro text
      rw [nameIn_iff]
    · simp only [nameIn_iff, Option.eq_none_iff_forall_not_mem, Option.mem_def]

/-! ### One line

What the buffer has of the line, and what is found in it.
-/

/-- What is behind a line does not hide its name. -/
theorem NamesSystem.append {line text : List UInt8} (h : NamesSystem line text)
    (more : List UInt8) : NamesSystem (line ++ more) text := by
  obtain ⟨hstart, before, behind, rfl, hbefore, htext⟩ := h
  exact ⟨hstart.trans (List.prefix_append _ _), before, behind ++ more, by simp, hbefore, htext⟩

/-- The newline has no part in it. -/
theorem namesSystem_newline {line text : List UInt8} :
    NamesSystem (line ++ [newline]) text ↔ NamesSystem line text := by
  refine ⟨?_, fun h => h.append _⟩
  rintro ⟨hstart, before, behind, hline, hbefore, htext⟩
  constructor
  · rcases List.prefix_concat_iff.mp hstart with heq | hstart
    · have hmem : newline ∈ prettyName := heq ▸ List.mem_append_right _ List.mem_cons_self
      exact absurd hmem (by decide)
    · exact hstart
  · rcases List.eq_nil_or_concat behind with rfl | ⟨behind, c, rfl⟩
    · have hend : line ++ [newline] = (before ++ quote :: text) ++ [quote] := by simpa using hline
      have hc : newline = quote := by simpa using (List.append_inj' hend rfl).2
      exact absurd hc (by decide)
    · have hend : line ++ [newline] = (before ++ quote :: (text ++ quote :: behind)) ++ [c] := by
        simpa using hline
      exact ⟨before, behind, (List.append_inj' hend rfl).1, hbefore, htext⟩

theorem osName_newline (line : List UInt8) : osName (line ++ [newline]) = osName line := by
  apply Option.ext
  intro text
  rw [osName_eq_some, osName_eq_some, namesSystem_newline]

/-- The part of a line that is read as a string. -/
def asString (line : List UInt8) : List UInt8 := line.takeWhile (· ≠ 0)

theorem osName_asString_newline (line : List UInt8) :
    osName (asString (line ++ [newline])) = osName (asString line) := by
  unfold asString
  rw [List.takeWhile_append]
  split
  · rename_i hlength
    have hall : line.takeWhile (· ≠ 0) = line :=
      (List.takeWhile_prefix _).eq_of_length hlength
    rw [hall]
    exact osName_newline line
  · rfl

/-- A name is shorter than the line it is in. -/
theorem Quoted.length_lt {line text : List UInt8} (h : Quoted line text) :
    text.length < line.length := by
  obtain ⟨before, behind, rfl, -, -⟩ := h
  simp only [List.length_append, List.length_cons]
  omega

theorem strncmp_key {key : List UInt8} {buffer : CString} (hkey : 0 ∉ key) :
    0 = strncmp buffer.chars key key.length ↔ key <+: buffer.chars := by
  rw [eq_comm, strncmp_eq_zero buffer.noNul hkey, List.take_length, List.prefix_iff_eq_take]
  exact eq_comm

theorem strncmp_prettyName (buffer : CString) :
    0 = strncmp buffer.chars prettyName prettyNameLen ↔ prettyName <+: buffer.chars :=
  strncmp_key (by decide)

theorem tsSnprintf_of_lt {size : Nat} {text : List UInt8} (h : text.length < size) :
    tsSnprintf size text = (.success, text) :=
  if_neg (Nat.not_le.mpr h)

/-- `get_os_name` returns the name in a line, and the empty string if there is none. -/
theorem getOsName_eq {buffer : CString} (hlength : buffer.chars.length < bufferSize) :
    getOsName (some buffer) true = some ((osName buffer.chars).getD []) := by
  unfold getOsName
  simp only [Bool.not_true]
  rw [if_neg Bool.false_ne_true]
  by_cases hstart : prettyName <+: buffer.chars
  · rw [if_pos ((strncmp_prettyName buffer).mpr hstart), osName, if_pos hstart]
    cases hfound : strchr buffer.chars quote with
    | none => simp [quotedText, hfound]
    | some found =>
        cases hbehind : strchr found.tail quote with
        | none => simp [quotedText, hfound, hbehind]
        | some behind =>
            have hquoted : quotedText buffer.chars
                = some (found.tail.take (found.tail.length - behind.length)) := by
              simp [quotedText, hfound, hbehind]
            have hlt := (quotedText_eq_some.mp hquoted).length_lt
            have hprinted := tsSnprintf_of_lt (hlt.trans hlength)
            simp only [hbehind, hquoted, hprinted, ne_eq, not_true, if_false, Option.getD_some]
  · rw [if_neg (fun hc => hstart ((strncmp_prettyName buffer).mp hc)), osName, if_neg hstart,
      Option.getD_none]

/-! ### The file

The first line decides, and what it has is compared with what the file has.
-/

theorem bufferString_length (osRelease : List UInt8) :
    (bufferString (fgets (bufferSize - 1) osRelease).1).chars.length < bufferSize := by
  have hread := fgets_length_le (bufferSize - 1) osRelease
  have hstring : (bufferString (fgets (bufferSize - 1) osRelease).1).chars.length
      ≤ (fgets (bufferSize - 1) osRelease).1.length := (List.takeWhile_prefix _).length_le
  unfold bufferSize at *
  omega

/-- What is read first of a file has the name of the first line, if that fits into the buffer. -/
theorem osName_bufferString {osRelease : List UInt8}
    (hlength : (firstLine osRelease).length < bufferSize) :
    osName (bufferString (fgets (bufferSize - 1) osRelease).1).chars
      = osName (asString (firstLine osRelease)) := by
  rcases fgets_firstLine (Nat.le_sub_one_of_lt hlength) with hread | hread
  · rw [hread]
    rfl
  · rw [hread]
    exact osName_asString_newline _

theorem getOperatingSystem_nil : getOperatingSystem (some []) (fun _ => true) = none := by
  unfold getOperatingSystem osLoop
  rfl

/-- The first line decides. -/
theorem getOperatingSystem_eq {osRelease : List UInt8} (hne : osRelease ≠ [])
    (hlength : (firstLine osRelease).length < bufferSize) :
    getOperatingSystem (some osRelease) (fun _ => true)
      = some ((osName (asString (firstLine osRelease))).getD []) := by
  unfold getOperatingSystem osLoop
  simp only [dif_neg hne]
  rw [getOsName_eq (bufferString_length osRelease), osName_bufferString hlength]

/-- A name in the part of the first line that is a string is the name in the file. -/
theorem nameIn_of_firstLine {osRelease text : List UInt8}
    (h : NamesSystem (asString (firstLine osRelease)) text) : NameIn osRelease text := by
  obtain ⟨behind, hlines⟩ := firstLine_mem_splitOn osRelease
  refine ⟨[], _, behind, hlines, by simp, ?_⟩
  have hsplit : asString (firstLine osRelease) ++ (firstLine osRelease).dropWhile (· ≠ 0)
      = firstLine osRelease := List.takeWhile_append_dropWhile
  exact hsplit ▸ h.append _

/-- With allocations succeeding the name is found if the first line has it, or if there is nothing
to find: the file is empty, or the name is. -/
theorem findsName_getOperatingSystem_iff {osRelease : List UInt8}
    (hlines : ∀ line ∈ osRelease.splitOn newline, line.length < bufferSize) :
    FindsName osRelease (getOperatingSystem (some osRelease) fun _ => true) ↔
      osRelease = [] ∨ (∃ text, NamesSystem (asString (firstLine osRelease)) text) ∨
        NameIn osRelease [] := by
  rw [findsName_iff]
  by_cases hne : osRelease = []
  · subst hne
    refine iff_of_true ?_ (.inl rfl)
    rw [getOperatingSystem_nil]
    rfl
  · obtain ⟨behind, hsplit⟩ := firstLine_mem_splitOn osRelease
    have hlength : (firstLine osRelease).length < bufferSize :=
      hlines _ (hsplit ▸ List.mem_cons_self)
    rw [getOperatingSystem_eq hne hlength]
    cases hname : osName (asString (firstLine osRelease)) with
    | some text =>
        have hnames := osName_eq_some.mp hname
        refine iff_of_true ?_ (.inr (.inl ⟨text, hnames⟩))
        exact (nameIn_iff.mp (nameIn_of_firstLine hnames)).symm
    | none =>
        have hno : ¬ ∃ text, NamesSystem (asString (firstLine osRelease)) text := by
          rintro ⟨text, hnames⟩
          rw [osName_eq_some.mpr hnames] at hname
          cases hname
        rw [Option.getD_none, eq_comm, ← nameIn_iff]
        simp only [hne, hno, false_or]

/-- `PRETTY_NAME="A"`. -/
def namedLine : List UInt8 := prettyName ++ [34, 65, 34]

theorem findsName_namedLine :
    FindsName namedLine (getOperatingSystem (some namedLine) fun _ => true) := by
  refine (findsName_getOperatingSystem_iff ?_).mpr (.inr (.inl ⟨[65], ?_⟩))
  · decide
  · exact ⟨by decide, prettyName, [], by rfl, by decide, by decide⟩

/-- With a line `ID=a` in front of it the name is not found, and where there is no name at all the
result is a string, not NULL. -/
theorem getOperatingSystem_empty :
    (∃ osRelease, NameIn osRelease [65] ∧
      getOperatingSystem (some osRelease) (fun _ => true) = some [] ∧
      ¬ FindsName osRelease (getOperatingSystem (some osRelease) fun _ => true)) ∧
    ∃ osRelease, (∀ text, ¬ NameIn osRelease text) ∧
      getOperatingSystem (some osRelease) (fun _ => true) = some [] ∧
      ¬ FindsName osRelease (getOperatingSystem (some osRelease) fun _ => true) := by
  have hname : NameIn ([73, 68, 61, 97, 10] ++ namedLine) [65] := nameIn_iff.mpr (by decide)
  have hcall : getOperatingSystem (some ([73, 68, 61, 97, 10] ++ namedLine)) (fun _ => true)
      = some [] := getOperatingSystem_eq (by decide) (by decide)
  have hno : ∀ text, ¬ NameIn [73, 68, 61, 97, 10] text := by
    intro text htext
    have hnone : ([73, 68, 61, 97, 10].splitOn newline).findSome? osName = none := by decide
    rw [nameIn_iff, hnone] at htext
    cases htext
  have hcall' : getOperatingSystem (some [73, 68, 61, 97, 10]) (fun _ => true) = some [] :=
    getOperatingSystem_eq (by decide) (by decide)
  refine ⟨⟨_, hname, hcall, fun hfinds => ?_⟩, ⟨_, hno, hcall', fun hfinds => ?_⟩⟩
  · have hc := (hfinds.found [65]).mpr hname
    rw [hcall] at hc
    cases hc
  · have hc := hfinds.missing.mpr hno
    rw [hcall'] at hc
    cases hc

end CmakeTemplate
