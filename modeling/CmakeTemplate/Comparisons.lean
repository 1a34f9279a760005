/-
`int_comp` of `comparisons.c`, and what a graph calls it with.

An `int` is four bytes at the address it is read from, and a pointer eight; in which order is
up to the machine.  `int_comp` reads both of its arguments as pointers to `int`, whatever they
point to, so what it finds is given by the bytes there.

`graph_find_node` searches with the address of its argument, and a `node_t` begins with its
`data`, so what stands at either address that `int_comp` is given is a pointer, not what it
points to.  It therefore compares four bytes of two addresses: the lower halves, or the upper
ones on a machine that puts those first.  Two pointers that differ can agree in one half, and
equal `int`s at different addresses do not make them agree.
-/
import CmakeTemplate.Graph

namespace CmakeTemplate

open Lib

inductive ByteOrder
  | littleEndian
  | bigEndian
  deriving DecidableEq

/-- The bytes of a number, the lowest first. -/
def lowBytes : Nat → Nat → List UInt8
  | 0, _ => []
  | len + 1, n => n.toUInt8 :: lowBytes len (n / 256)

/-- What a pointer looks like in memory. -/
def pointerBytes (order : ByteOrder) (p : UInt64) : List UInt8 :=
  match order with
  | .littleEndian => lowBytes 8 p.toNat
  | .bigEndian => (lowBytes 8 p.toNat).reverse

/-- `*(int *)p`, where `bytes` stand at `p`. -/
def loadInt (order : ByteOrder) (bytes : List UInt8) : Int :=
  let four := bytes.take 4
  let lowFirst := match order with
    | .littleEndian => four
    | .bigEndian => four.reverse
  (BitVec.ofNat 32 (lowFirst.foldr (fun byte n => byte.toNat + 256 * n) 0)).toInt

/-- `int_comp`; the arguments are what stands where the pointers point, if they are not NULL. -/
def intComp (order : ByteOrder) (nodeOneData nodeTwoData : Option (List UInt8)) : CompRtns :=
  match nodeOneData, nodeTwoData with
  | some one, some two =>
    let dataOne := loadInt order one
    let dataTwo := loadInt order two
    if dataOne = dataTwo then .equal
    else if dataOne > dataTwo then .greaterThan
    else if dataOne < dataTwo then .lessThan
    else .error
  | _, _ => .error

/-- `compare_func(&data, node)` in a graph that is created with `int_comp`. -/
def graphIntComp (order : ByteOrder) (data : UInt64) (node : Node UInt64) : CompRtns :=
  intComp order (some (pointerBytes order data)) (some (pointerBytes order node.data))

/-- The `int` at an address. -/
def intAt (order : ByteOrder) (memory : UInt64 → UInt8) (p : UInt64) : Int :=
  loadInt order [memory p, memory (p + 1), memory (p + 2), memory (p + 3)]

end CmakeTemplate
