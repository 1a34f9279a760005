/-
Where `get_network_interfaces` writes.

The position moves on by the length of the whole text, cut off or not.  As long as it has not
left the buffer the size that is left is right; behind the buffer it wraps around, to a size
that is far larger than any buffer, and the next name is printed there.  So all sizes are
right just in case the position of the last call is, and the position of the last call is the
length of the heading and of all names but the last.

Where all sizes are right the writes are inside, and what is in the buffer at the end is a
string, whether the last name was cut off or not.  The condition is on the names in the file,
and it is exact.  The run has 102 interfaces with names of seven characters.
-/
import CmakeTemplate.NetworkInterfaces

namespace CmakeTemplate

open Lib

variable {heap mem : Nat → UInt8} {line name : List UInt8} {lines : List (List UInt8)}

/-! ### One call

A call is given the right size if it begins in the buffer, or at its very end.
-/

theorem sizeLeft_of_le {resultPtr : Nat} (h : resultPtr ≤ bufferSize) :
    sizeLeft resultPtr = bufferSize - resultPtr := by
  unfold sizeLeft
  unfold bufferSize at h ⊢
  omega

/-- A call has the right size just in case its position is inside or at the end of the buffer. -/
theorem space_iff {resultPtr : Nat} :
    resultPtr + sizeLeft resultPtr ≤ bufferSize ↔ resultPtr ≤ bufferSize := by
  constructor
  · intro h
    omega
  · intro h
    rw [sizeLeft_of_le h]
    omega

/-- Behind the buffer the size has wrapped around. -/
theorem sizeLeft_wraps {resultPtr : Nat} (h : bufferSize < resultPtr)
    (hle : resultPtr ≤ 2 * bufferSize) : bufferSize < sizeLeft resultPtr := by
  unfold sizeLeft
  unfold bufferSize at h hle ⊢
  omega

/-- There is a string in the buffer, and the memory behind it is as it was. -/
def StringInside (heap mem : Nat → UInt8) : Prop :=
  (∃ a, a < bufferSize ∧ mem a = 0) ∧ ChangedWithin 0 bufferSize heap mem

theorem StringInside.snprintf {off size : Nat} {text : List UInt8} (h : StringInside heap mem)
    (hspace : off + size ≤ bufferSize) : StringInside heap (snprintf mem off size text).1 := by
  rcases Nat.eq_zero_or_pos size with rfl | hpos
  · rw [snprintf_zero]
    exact h
  · have hle : written size text ≤ size := written_le
    refine ⟨⟨off + (written size text - 1), by omega, snprintf_terminates hpos⟩, ?_⟩
    intro a ha
    rw [snprintf_changed a (by omega)]
    exact h.2 a ha

/-- A fresh buffer holds the empty string. -/
theorem stringInside_zeroed : StringInside heap (write heap 0 bufferSize fun _ => 0) :=
  ⟨⟨0, by decide, write_zero_at (by decide)⟩, write_changed⟩

/-! ### The loop

The positions go up, so the last one is the one to look at.
-/

theorem length_interfaceText : (interfaceText name).length = name.length + 3 := by
  simp [interfaceText]

theorem printedLength_cons (names : List (List UInt8)) :
    printedLength (name :: names) = name.length + 3 + printedLength names := by
  simp [printedLength]

theorem interfaceLoop_cons (resultPtr : Nat) (hname : interfaceName line = some name) :
    interfaceLoop mem resultPtr (line :: lines) =
      (interfaceLoop (snprintf mem resultPtr (sizeLeft resultPtr) (interfaceText name)).1
        (resultPtr + (name.length + 3)) lines).map fun result =>
          (result.1, ⟨resultPtr, sizeLeft resultPtr, interfaceText name⟩ :: result.2) := by
  unfold interfaceName at hname
  rw [interfaceLoop, hname, ← length_interfaceText]
  rfl

theorem interfaceLoop_cons_some {resultPtr : Nat} {mem' : Nat → UInt8} {prints : List Print}
    (h : interfaceLoop mem resultPtr (line :: lines) = some (mem', prints)) :
    ∃ name rest, interfaceName line = some name ∧
      interfaceLoop (snprintf mem resultPtr (sizeLeft resultPtr) (interfaceText name)).1
        (resultPtr + (name.length + 3)) lines = some (mem', rest) ∧
      prints = ⟨resultPtr, sizeLeft resultPtr, interfaceText name⟩ :: rest := by
  cases hname : interfaceName line with
  | none =>
      unfold interfaceName at hname
      rw [interfaceLoop, hname] at h
      cases h
  | some name =>
      rw [interfaceLoop_cons resultPtr hname, Option.map_eq_some_iff] at h
      obtain ⟨result, hrest, heq⟩ := h
      cases heq
      exact ⟨name, result.2, rfl, hrest, rfl⟩

/-- All sizes are right just in case the position of the last call is. -/
theorem interfaceLoop_space (hlines : ∀ line ∈ lines, ∃ name, interfaceName line = some name)
    (mem : Nat → UInt8) (resultPtr : Nat) :
    ∃ mem' prints, interfaceLoop mem resultPtr lines = some (mem', prints) ∧
      ((∀ print ∈ prints, print.off + print.size ≤ bufferSize) ↔
        (lines ≠ [] →
          resultPtr + printedLength (lines.filterMap interfaceName).dropLast ≤ bufferSize)) := by
  induction lines generalizing mem resultPtr with
  | nil => exact ⟨mem, [], rfl, by simp⟩
  | cons line lines ih =>
      obtain ⟨name, hname⟩ := hlines line List.mem_cons_self
      have hrest : ∀ other ∈ lines, ∃ name, interfaceName other = some name :=
        fun other hother => hlines other (List.mem_cons_of_mem _ hother)
      obtain ⟨mem', prints, hloop, hspace⟩ :=
        ih hrest (snprintf mem resultPtr (sizeLeft resultPtr) (interfaceText name)).1
          (resultPtr + (name.length + 3))
      refine ⟨mem', ⟨resultPtr, sizeLeft resultPtr, interfaceText name⟩ :: prints, ?_, ?_⟩
      · rw [interfaceLoop_cons resultPtr hname, hloop]
        rfl
      · rw [List.forall_mem_cons, hspace, space_iff, List.filterMap_cons_some hname]
        cases lines with
        | nil => simp [printedLength]
        | cons other lines =>
            -- the position of a later call is behind this one
            obtain ⟨next, hnext⟩ := hrest other List.mem_cons_self
            rw [List.filterMap_cons_some hnext, List.dropLast_cons_cons, printedLength_cons]
            simp only [ne_eq, reduceCtorEq, not_false_eq_true, forall_const]
            omega

/-- The position and the size of a call of the loop. -/
theorem interfaceLoop_position {resultPtr : Nat} {mem' : Nat → UInt8} {prints : List Print}
    (hloop : interfaceLoop mem resultPtr lines = some (mem', prints)) :
    ∀ print ∈ prints, print.size = sizeLeft print.off ∧
      print.off ≤ resultPtr + printedLength (lines.filterMap interfaceName) := by
  induction lines generalizing mem resultPtr prints with
  | nil =>
      cases hloop
      intro print hprint
      exact absurd hprint List.not_mem_nil
  | cons line lines ih =>
      obtain ⟨name, rest, hname, hrest, rfl⟩ := interfaceLoop_cons_some hloop
      intro print hprint
      rw [List.filterMap_cons_some hname, printedLength_cons]
      rcases List.mem_cons.mp hprint with rfl | hprint
      · exact ⟨rfl, Nat.le_add_right _ _⟩
      · obtain ⟨hsize, hle⟩ := ih hrest print hprint
        exact ⟨hsize, by omega⟩

/-- While the sizes are right the buffer holds a string. -/
theorem interfaceLoop_inside {resultPtr : Nat} {mem' : Nat → UInt8} {prints : List Print}
    (hloop : interfaceLoop mem resultPtr lines = some (mem', prints))
    (hspace : ∀ print ∈ prints, print.off + print.size ≤ bufferSize) (h : StringInside heap mem) :
    StringInside heap mem' := by
  induction lines generalizing mem resultPtr prints with
  | nil =>
      cases hloop
      exact h
  | cons line lines ih =>
      obtain ⟨name, rest, hname, hrest, rfl⟩ := interfaceLoop_cons_some hloop
      obtain ⟨hfirst, hspace⟩ := List.forall_mem_cons.mp hspace
      exact ih hrest hspace (h.snprintf hfirst)

/-! ### The function

The heading is printed first and always fits, and the loop goes on from there.
-/

/-- The buffer behind the heading. -/
def headed (heap : Nat → UInt8) : Nat → UInt8 :=
  (snprintf (write heap 0 bufferSize fun _ => 0) 0 bufferSize heading).1

theorem stringInside_headed : StringInside heap (headed heap) :=
  stringInside_zeroed.snprintf (Nat.le_of_eq (Nat.zero_add _))

theorem bufferString_chars (buffer : List UInt8) :
    (bufferString buffer).chars = buffer.takeWhile (· ≠ 0) := by
  unfold bufferString
  rfl

/-- `strlen` of the heading. -/
theorem strlen_headed : (bufferString (read (headed heap) 0 bufferSize)).chars.length
    = heading.length := by
  have hfits : heading.length < bufferSize := by decide
  have hsplit : bufferSize = (heading.length + 1) + (bufferSize - (heading.length + 1)) := by
    decide
  have hread : read (headed heap) 0 (heading.length + 1) = heading ++ [0] := read_snprintf hfits
  have hletters : ∀ c ∈ heading, decide (c ≠ 0) = true :=
    List.all_eq_true.mp (by decide : heading.all (· ≠ 0) = true)
  rw [bufferString_chars, hsplit, read_add, hread, List.append_assoc,
    List.takeWhile_append_of_pos hletters]
  simp

theorem safeFgets_of_ne {file : List UInt8} (h : file ≠ []) :
    safeFgets file = some (fgets (bufferSize - 1) file) := if_neg h

theorem printInterfaces_eq (lines : List (List UInt8)) (fclose : Bool) :
    printInterfaces (write heap 0 bufferSize fun _ => 0) lines fclose =
      (interfaceLoop (headed heap) heading.length lines).map fun result =>
        (if fclose then some result.1 else none, ⟨0, bufferSize, heading⟩ :: result.2) := by
  have hprinted : (tsSnprintf bufferSize heading).1 = .success := by decide
  unfold printInterfaces
  rw [← strlen_headed]
  simp only [hprinted, ne_eq, not_true_eq_false, if_false]
  rfl

/-- Nothing is printed before both header lines were read. -/
theorem getNetworkInterfaces_cases (heap : Nat → UInt8) (netdev : Option (List UInt8))
    (calloc fclose : Bool) :
    getNetworkInterfaces heap netdev calloc fclose = some (none, []) ∧
        (calloc = true → interfaceLines netdev = []) ∨
      calloc = true ∧ getNetworkInterfaces heap netdev calloc fclose =
        printInterfaces (write heap 0 bufferSize fun _ => 0) (interfaceLines netdev) fclose := by
  unfold getNetworkInterfaces interfaceLines
  cases netdev with
  | none => exact .inl ⟨rfl, fun _ => rfl⟩
  | some netdev =>
      cases calloc with
      | false => exact .inl ⟨rfl, fun hc => by cases hc⟩
      | true =>
          by_cases hfirst : netdev = []
          · subst hfirst
            refine .inl ⟨rfl, fun _ => ?_⟩
            simp [fgets, bufferSize]
          · simp only [safeFgets_of_ne hfirst, Bool.not_true, Bool.false_eq_true, if_false]
            by_cases hsecond : (fgets (bufferSize - 1) netdev).2 = []
            · rw [hsecond]
              refine .inl ⟨rfl, fun _ => ?_⟩
              simp [fgets, bufferSize]
            · rw [safeFgets_of_ne hsecond]
              exact .inr ⟨trivial, rfl⟩

/-- The writes are inside the buffer as soon as the sizes are right. -/
theorem StaysInside.of_space {result : Option (Nat → UInt8)} {prints : List Print}
    (hspace : ∀ print ∈ prints, print.off + print.size ≤ bufferSize)
    (hresult : ∀ buffer, result = some buffer → StringInside heap buffer) :
    StaysInside heap result prints := by
  refine ⟨?_, hspace, fun buffer hbuffer => (hresult buffer hbuffer).1,
    fun buffer hbuffer => (hresult buffer hbuffer).2⟩
  intro print hprint a _ hwritten
  have hfits := hspace print hprint
  have hle : written print.size print.text ≤ print.size := written_le
  omega

theorem namesFit_nil : NamesFit [] := by
  unfold NamesFit
  decide

/-- From the header lines on the sizes are right if and only if the heading and all names but the
last fit, and then the result is a string in the buffer. -/
theorem printInterfaces_space (heap : Nat → UInt8) (fclose : Bool)
    (hlines : ∀ line ∈ lines, ∃ name, interfaceName line = some name) :
    ∃ result prints,
      printInterfaces (write heap 0 bufferSize fun _ => 0) lines fclose = some (result, prints) ∧
      ((∀ print ∈ prints, print.off + print.size ≤ bufferSize) ↔
        NamesFit (lines.filterMap interfaceName)) ∧
      ((∀ print ∈ prints, print.off + print.size ≤ bufferSize) →
        ∀ buffer, result = some buffer → StringInside heap buffer) := by
  obtain ⟨mem', prints, hloop, hspace⟩ := interfaceLoop_space hlines (headed heap) heading.length
  have hheading : (0 : Nat) + bufferSize ≤ bufferSize := Nat.le_of_eq (Nat.zero_add _)
  rw [printInterfaces_eq, hloop]
  refine ⟨_, _, rfl, ?_, ?_⟩
  · rw [List.forall_mem_cons, hspace]
    constructor
    · rintro ⟨-, hfit⟩
      by_cases hnil : lines = []
      · subst hnil
        exact namesFit_nil
      · exact hfit hnil
    · intro hfit
      exact ⟨hheading, fun _ => hfit⟩
  · intro hprints buffer hbuffer
    cases fclose with
    | false => cases hbuffer
    | true =>
        cases hbuffer
        exact interfaceLoop_inside hloop (List.forall_mem_cons.mp hprints).2 stringInside_headed

/-- Names that do not fit are printed behind the buffer. -/
theorem printInterfaces_overrun (heap : Nat → UInt8) (fclose : Bool)
    (hlines : ∀ line ∈ lines, ∃ name, interfaceName line = some name)
    (hfit : ¬ NamesFit (lines.filterMap interfaceName))
    (hshort : heading.length + printedLength (lines.filterMap interfaceName) ≤ 2 * bufferSize) :
    ∃ result prints,
      printInterfaces (write heap 0 bufferSize fun _ => 0) lines fclose = some (result, prints) ∧
      ∃ print ∈ prints, bufferSize < print.off ∧ bufferSize < print.size := by
  obtain ⟨mem', prints, hloop, hspace⟩ := interfaceLoop_space hlines (headed heap) heading.length
  have hbad : ∃ print ∈ prints, ¬ print.off + print.size ≤ bufferSize := by
    by_contra hno
    simp only [not_exists, not_and, not_not] at hno
    by_cases hnil : lines = []
    · subst hnil
      exact hfit namesFit_nil
    · exact hfit (hspace.mp hno hnil)
  obtain ⟨print, hprint, hover⟩ := hbad
  obtain ⟨hsize, hle⟩ := interfaceLoop_position hloop print hprint
  rw [hsize, space_iff, Nat.not_le] at hover
  rw [printInterfaces_eq, hloop]
  refine ⟨_, _, rfl, print, List.mem_cons_of_mem _ hprint, hover, ?_⟩
  rw [hsize]
  exact sizeLeft_wraps hover (Nat.le_trans hle hshort)

/-- The listing stays inside its buffer if and only if the heading and all names but the last
fit. -/
theorem staysInside_getNetworkInterfaces_iff (heap : Nat → UInt8) (netdev : Option (List UInt8))
    (calloc fclose : Bool)
    (hlines : ∀ line ∈ interfaceLines netdev, ∃ name, interfaceName line = some name) :
    (∃ result prints, getNetworkInterfaces heap netdev calloc fclose = some (result, prints) ∧
        StaysInside heap result prints) ↔
      (calloc = true → NamesFit (interfaceNames netdev)) := by
  rcases getNetworkInterfaces_cases heap netdev calloc fclose with ⟨hnone, hnil⟩ | ⟨hcalloc, heq⟩
  · refine iff_of_true ⟨none, [], hnone, ?_⟩ fun hcalloc => ?_
    · refine .of_space (fun print hprint => absurd hprint List.not_mem_nil) fun buffer hbuffer => ?_
      cases hbuffer
    · unfold interfaceNames
      rw [hnil hcalloc]
      exact namesFit_nil
  · obtain ⟨result, prints, hprint, hspace, hinside⟩ := printInterfaces_space heap fclose hlines
    rw [heq, hprint]
    constructor
    · rintro ⟨_, _, hsame, hstays⟩ _
      cases hsame
      exact hspace.mp hstays.space
    · intro hfit
      have hprints := hspace.mpr (hfit hcalloc)
      exact ⟨result, prints, rfl, .of_space hprints (hinside hprints)⟩

/-! ### Files with one name on each line

A file is made of names, so that the condition can be met, or not, by a file that there is.
-/

/-- A name that a line and the listing can have. -/
structure IsName (name : List UInt8) : Prop where
  /-- There is something to print. -/
  nonempty : name ≠ []
  /-- The line fits into the buffer. -/
  short : name.length < 1000
  /-- No character ends the string, the line or the name. -/
  plain : ∀ c ∈ name, c ≠ 0 ∧ c ≠ newline ∧ c ∉ delimiters

/-- `name: 0`. -/
def interfaceLine (name : List UInt8) : List UInt8 := name ++ [58, 32, 48]

/-- `Inter`. -/
def firstHeader : List UInt8 := [73, 110, 116, 101, 114]

/-- ` face`. -/
def secondHeader : List UInt8 := [32, 102, 97, 99, 101]

/-- The file with these names on its lines. -/
def netdevOf (names : List (List UInt8)) : List UInt8 :=
  firstHeader ++ newline :: (secondHeader ++ newline ::
    (names.map interfaceLine).flatMap (· ++ [newline]))

theorem IsName.fits (h : IsName name) :
    newline ∉ interfaceLine name ∧ (interfaceLine name).length < bufferSize - 1 := by
  constructor
  · intro hmem
    rcases List.mem_append.mp hmem with hmem | hmem
    · exact (h.plain _ hmem).2.1 rfl
    · exact absurd hmem (by decide)
  · have hshort := h.short
    simp only [interfaceLine, List.length_append, List.length_cons, List.length_nil, bufferSize]
    omega

/-- A token at the start of a string, in front of a delimiter. -/
theorem strtok_token {delimiters token behind : List UInt8} {d : UInt8} (hne : token ≠ [])
    (htoken : ∀ c ∈ token, c ∉ delimiters) (hd : d ∈ delimiters) :
    strtok (token ++ d :: behind) delimiters = some token := by
  obtain ⟨c, cs, rfl⟩ := List.exists_cons_of_ne_nil hne
  have hfirst : c ∉ delimiters := htoken c List.mem_cons_self
  have hdrop : ((c :: cs) ++ d :: behind).dropWhile (· ∈ delimiters)
      = c :: (cs ++ d :: behind) := by
    simp [hfirst]
  have htake : (c :: (cs ++ d :: behind)).takeWhile (· ∉ delimiters) = c :: cs := by
    have hletters : ∀ e ∈ c :: cs, decide (e ∉ delimiters) = true :=
      fun e he => decide_eq_true (htoken e he)
    rw [← List.cons_append, List.takeWhile_append_of_pos hletters]
    simp [hd]
  unfold strtok
  rw [hdrop]
  exact congrArg some htake

theorem IsName.found (h : IsName name) :
    interfaceName (interfaceLine name ++ [newline]) = some name := by
  have hletters : ∀ c ∈ interfaceLine name ++ [newline], decide (c ≠ 0) = true := by
    intro c hc
    rw [decide_eq_true_eq]
    simp only [interfaceLine, List.append_assoc, List.mem_append] at hc
    rcases hc with hc | hc
    · exact (h.plain c hc).1
    · rintro rfl
      exact absurd hc (by decide)
  unfold interfaceName
  rw [bufferString_chars, List.takeWhile_eq_self_iff.mpr hletters, interfaceLine,
    List.append_assoc]
  exact strtok_token h.nonempty (fun c hc => (h.plain c hc).2.2) (by decide)

variable {names : List (List UInt8)}

theorem interfaceLines_netdevOf (h : ∀ name ∈ names, IsName name) :
    interfaceLines (some (netdevOf names))
      = names.map fun name => interfaceLine name ++ [newline] := by
  have hlines : ∀ line ∈ names.map interfaceLine,
      newline ∉ line ∧ line.length < bufferSize - 1 := by
    intro line hline
    obtain ⟨name, hname, rfl⟩ := List.mem_map.mp hline
    exact (h name hname).fits
  unfold interfaceLines netdevOf
  simp only [fgets_line _ (by decide : newline ∉ firstHeader) (by decide : _ < bufferSize - 1),
    fgets_line _ (by decide : newline ∉ secondHeader) (by decide : _ < bufferSize - 1)]
  rw [readLines_flatMap hlines, List.map_map]
  rfl

theorem interfaceName_netdevOf (h : ∀ name ∈ names, IsName name) :
    ∀ line ∈ interfaceLines (some (netdevOf names)), ∃ name, interfaceName line = some name := by
  rw [interfaceLines_netdevOf h]
  intro line hline
  obtain ⟨name, hname, rfl⟩ := List.mem_map.mp hline
  exact ⟨name, (h name hname).found⟩

theorem interfaceNames_netdevOf (h : ∀ name ∈ names, IsName name) :
    interfaceNames (some (netdevOf names)) = names := by
  have hfound : ∀ name ∈ names, (interfaceName ∘ fun name => interfaceLine name ++ [newline]) name
      = some name := fun name hname => (h name hname).found
  unfold interfaceNames
  rw [interfaceLines_netdevOf h, List.filterMap_map, List.filterMap_congr hfound]
  exact List.filterMap_some

theorem printedLength_of_length {k : Nat} (h : ∀ name ∈ names, name.length = k) :
    printedLength names = names.length * (k + 3) := by
  induction names with
  | nil => simp [printedLength]
  | cons name names ih =>
      rw [printedLength_cons, h name List.mem_cons_self,
        ih fun other hother => h other (List.mem_cons_of_mem _ hother), List.length_cons,
        Nat.succ_mul, Nat.add_comm]

/-- `veth` and three digits. -/
def vethName (i : Nat) : List UInt8 :=
  [118, 101, 116, 104] ++ [i / 100 % 10, i / 10 % 10, i % 10].map fun d => 48 + UInt8.ofNat d

theorem isName_vethName (i : Nat) : IsName (vethName i) := by
  refine ⟨List.cons_ne_nil _ _, by simp [vethName], ?_⟩
  intro c hc
  rcases List.mem_append.mp hc with hc | hc
  · simp only [List.mem_cons, List.not_mem_nil, or_false] at hc
    rcases hc with rfl | rfl | rfl | rfl <;> decide
  · obtain ⟨d, hd, rfl⟩ := List.mem_map.mp hc
    have hlt : d < 10 := by
      simp only [List.mem_cons, List.not_mem_nil, or_false] at hd
      omega
    have hdigit := isDigit_digit hlt
    refine ⟨?_, ?_, ?_⟩
    · intro hzero
      rw [hzero] at hdigit
      exact absurd hdigit (by decide)
    · intro hnewline
      rw [hnewline] at hdigit
      exact absurd hdigit (by decide)
    · intro hdelimiter
      simp only [delimiters, List.mem_cons, List.not_mem_nil, or_false] at hdelimiter
      rcases hdelimiter with hspace | hcolon
      · rw [hspace] at hdigit
        exact absurd hdigit (by decide)
      · rw [hcolon] at hdigit
        exact absurd hdigit (by decide)

theorem vethName_injective {i j : Nat} (hi : i < 1000) (hj : j < 1000)
    (h : vethName i = vethName j) : i = j := by
  have hdigits := List.append_cancel_left h
  have hvalue : ∀ {m n : Nat}, m < 10 → n < 10 → 48 + UInt8.ofNat m = 48 + UInt8.ofNat n →
      m = n := by
    intro m n hm hn heq
    rw [← digitValue_digit hm, heq, digitValue_digit hn]
  simp only [List.map_cons, List.map_nil, List.cons.injEq, and_true] at hdigits
  obtain ⟨hhundreds, htens, hones⟩ := hdigits
  have h₁ := hvalue (Nat.mod_lt _ (by omega)) (Nat.mod_lt _ (by omega)) hhundreds
  have h₂ := hvalue (Nat.mod_lt _ (by omega)) (Nat.mod_lt _ (by omega)) htens
  have h₃ := hvalue (Nat.mod_lt _ (by omega)) (Nat.mod_lt _ (by omega)) hones
  omega

theorem staysInside_getNetworkInterfaces_two :
    ∃ result prints, getNetworkInterfaces (fun _ => 255) (some (netdevOf [vethName 0, vethName 1]))
        true true = some (result, prints) ∧ StaysInside (fun _ => 255) result prints := by
  have hnames : ∀ name ∈ [vethName 0, vethName 1], IsName name := by
    intro name hname
    simp only [List.mem_cons, List.not_mem_nil, or_false] at hname
    rcases hname with rfl | rfl
    · exact isName_vethName 0
    · exact isName_vethName 1
  refine (staysInside_getNetworkInterfaces_iff _ _ true true (interfaceName_netdevOf hnames)).mpr
    fun _ => ?_
  rw [interfaceNames_netdevOf hnames]
  unfold NamesFit
  decide

/-- 102 names. -/
def vethNames : List (List UInt8) := (List.range 102).map vethName

theorem isName_vethNames : ∀ name ∈ vethNames, IsName name := by
  intro name hname
  obtain ⟨i, -, rfl⟩ := List.mem_map.mp hname
  exact isName_vethName i

theorem nodup_vethNames : vethNames.Nodup := by
  refine List.Nodup.map_on ?_ List.nodup_range
  intro i hi j hj heq
  rw [List.mem_range] at hi hj
  exact vethName_injective (by omega) (by omega) heq

theorem length_vethName {name : List UInt8} (h : name ∈ vethNames) : name.length = 7 := by
  obtain ⟨i, -, rfl⟩ := List.mem_map.mp h
  simp [vethName]

theorem not_namesFit_vethNames : ¬ NamesFit vethNames := by
  have hlengths : ∀ name ∈ vethNames.dropLast, name.length = 7 :=
    fun name hname => length_vethName (List.dropLast_subset _ hname)
  unfold NamesFit
  rw [printedLength_of_length hlengths, List.length_dropLast, vethNames, List.length_map,
    List.length_range]
  decide

/-- With 102 interfaces the last one is printed behind the buffer, with a size that has wrapped
around. -/
theorem getNetworkInterfaces_overrun :
    (∀ name ∈ vethNames, IsName name) ∧ vethNames.Nodup ∧ ∃ result prints,
      getNetworkInterfaces (fun _ => 0) (some (netdevOf vethNames)) true true
        = some (result, prints) ∧
      (∃ print ∈ prints, bufferSize < print.off ∧ bufferSize < print.size) ∧
      ¬ StaysInside (fun _ => 0) result prints := by
  refine ⟨isName_vethNames, nodup_vethNames, ?_⟩
  have hlines := interfaceName_netdevOf isName_vethNames
  have hnames : (interfaceLines (some (netdevOf vethNames))).filterMap interfaceName = vethNames :=
    interfaceNames_netdevOf isName_vethNames
  rcases getNetworkInterfaces_cases (fun _ => 0) (some (netdevOf vethNames)) true true with
    ⟨-, hnil⟩ | ⟨-, heq⟩
  · rw [hnil rfl] at hnames
    cases hnames
  · have hfit := not_namesFit_vethNames
    have hshort : heading.length + printedLength vethNames ≤ 2 * bufferSize := by
      rw [printedLength_of_length fun name hname => length_vethName hname, vethNames,
        List.length_map, List.length_range]
      decide
    rw [← hnames] at hfit hshort
    obtain ⟨result, prints, hprint, print, hmem, hover, hsize⟩ :=
      printInterfaces_overrun (fun _ => 0) true hlines hfit hshort
    refine ⟨result, prints, heq.trans hprint, ⟨print, hmem, hover, hsize⟩, fun hinside => ?_⟩
    have hspace := hinside.space print hmem
    omega

end CmakeTemplate
