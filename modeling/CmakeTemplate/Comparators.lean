/-
The comparators of `comparisons.h`, next to `int_comp`.

A comparator is handed two data pointers and reads what they lead to; here its arguments are
what it reads, or nothing where a pointer is NULL, for which every one of them returns ERROR.
`str_comp` bounds the comparison by the length of its first string, so a string is EQUAL to
every string that it begins, and it looks at `MAX_STR_LEN` characters at most.  `cell_comp`
goes by the row and then by the column, and `node_ptr_comp` only tells EQUAL from NOT_EQUAL
and has no order.

The lists take a comparator on data pointers.  `Comparator` collects those of the library,
each with what the data pointers lead to, and `compareFunc` is the function of a list that is
made with one.  Whether such a list has an order or an equality is a matter of the data it
holds, so the memory behind the pointers is part of the comparator.
-/
import CmakeTemplate.Comparisons
import CmakeTemplate.HashTable

namespace CmakeTemplate

open Lib

/-- `MAX_STR_LEN`. -/
def maxStrLen : Nat := 1000

def strnlen (s : CString) (maxlen : Nat) : Nat := min s.chars.length maxlen

/-- `cell_t`. -/
structure CellT where
  /-- The row of the cell. -/
  row : Int32
  /-- Its column. -/
  col : Int32
  deriving DecidableEq

/-- `node_ptr_comp`; the pointers themselves are compared. -/
def nodePtrComp {α : Type} [DecidableEq α] (ptr1 ptr2 : Option α) : CompRtns :=
  match ptr1, ptr2 with
  | some p, some q => if p = q then .equal else .notEqual
  | _, _ => .error

/-- `str_comp`; the arguments are the strings the pointers lead to, if they are not NULL. -/
def strComp (nodeOneData nodeTwoData : Option CString) : CompRtns :=
  match nodeOneData, nodeTwoData with
  | some dataOne, some dataTwo =>
    let comparisonResult := strncmp dataOne.chars dataTwo.chars (strnlen dataOne maxStrLen)
    if 0 = comparisonResult then .equal
    else if 0 > comparisonResult then .lessThan
    else if 0 < comparisonResult then .greaterThan
    else .error
  | _, _ => .error

/-- `cell_comp`. -/
def cellComp (nodeOneData nodeTwoData : Option CellT) : CompRtns :=
  match nodeOneData, nodeTwoData with
  | some cellOne, some cellTwo =>
    if cellOne.row < cellTwo.row then .lessThan
    else if cellOne.row > cellTwo.row then .greaterThan
    else if cellOne.col < cellTwo.col then .lessThan
    else if cellOne.col > cellTwo.col then .greaterThan
    else .equal
  | _, _ => .error

/-- A comparator, with what the data pointers lead to. -/
inductive Comparator (α : Type)
  | nodePtrComp
  | intComp (order : ByteOrder) (memory : α → List UInt8)
  | strComp (memory : α → CString)
  | cellComp (memory : α → CellT)

/-- The `compare_func` of a list that is made with a comparator. -/
def Comparator.compareFunc {α : Type} [DecidableEq α] :
    Comparator α → Option α → Option α → CompRtns
  | .nodePtrComp => CmakeTemplate.nodePtrComp
  | .intComp order memory => fun p q => CmakeTemplate.intComp order (p.map memory) (q.map memory)
  | .strComp memory => fun p q => CmakeTemplate.strComp (p.map memory) (q.map memory)
  | .cellComp memory => fun p q => CmakeTemplate.cellComp (p.map memory) (q.map memory)

end CmakeTemplate
