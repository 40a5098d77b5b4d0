import ProxyTrace.DType
import ProxyTrace.Op
import ProxyTrace.Value
import ProxyTrace.Word

/-!
What is known of a result before its operands are: the kind of a number, and the shape and element
type of a tensor.
-/

namespace ProxyTrace

namespace NumberKind

/-- The kind of the result of an operator on a number of kind `k`, if it has one. -/
def unary? (op : UnaryOp) (k : NumberKind) : Option NumberKind :=
  match op, k with
  | .abs, complex => some float
  | .abs, k | .neg, k => some (k.promote int)
  | _, complex => none
  | .invert, float => none
  | _, _ => some int

/-- The kind of the result of an operator on numbers whose kinds promote to `k`, if it has one. -/
def binary? (op : BinaryOp) (k : NumberKind) : Option NumberKind :=
  match op with
  | .eq | .ne | .lt | .le | .gt | .ge => some bool
  | .logicalAnd | .logicalOr | .logicalXor => if k ≤ int then some k else none
  | .matmul => none
  | .trueDivide => some (k.promote float)
  | .shiftLeft | .shiftRight => if k ≤ int then some (k.promote int) else none
  | .floorDivide | .mod | .divmod => if k = complex then none else some (k.promote int)
  | .add | .sub | .mul | .pow => some (k.promote int)

end NumberKind

namespace DType

def isFractional (d : DType) : Bool := d.scalar.isFloat || d.scalar.isComplex

/-- The element type of the result of an operator on two operands. -/
def binary (op : BinaryOp) (d : DType) : DType :=
  if op.isComparison || op.isLogical then { scalar := .bool8 }
  else if op = .trueDivide ∧ !d.isFractional then { scalar := .float32 }
  else d

end DType

namespace Shape

/-- The shape of a product of two tensors of rank 1 or 2; one of rank 1 is a row on the left and a
column on the right, and leaves no extent. -/
def matmul? : List Nat → List Nat → Option (List Nat)
  | [k], [k'] => if k = k' then some [] else none
  | [k], [k', m] => if k = k' then some [m] else none
  | [n, k], [k'] => if k = k' then some [n] else none
  | [n, k], [k', m] => if k = k' then some [n, m] else none
  | _, _ => none

/-- The shape of the result of an operator on two tensors. -/
def binary (op : BinaryOp) (left right : List Nat) : Except Error (List Nat) :=
  match if op = .matmul then matmul? left right else if left = right then some left else none with
  | some shape => .ok shape
  | none => .error (.shapeMismatch op.name left right)

/-- The number of elements of a shape that is asked for, as a word; `none` if an extent is
negative or a product on the way is no word. -/
def wordCount? (extents : List Int64) : Option Int64 :=
  extents.foldlM (fun n extent => if extent < 0 then none else Word.mul? n extent) 1

/-- The place of an axis; a negative one is counted from the end. -/
def axis (op : String) (rank : Nat) (dim : Int64) : Except Error Nat :=
  let n := Int64.ofNat rank
  let d := if dim < 0 then dim + n else dim
  if 0 ≤ d ∧ d < n then .ok d.toInt.toNat
  else .error (.invalidOperand op s!"dimension {dim.toInt} for a tensor of rank {rank}")

/-- Checks that a number is an index on an axis of length `len`; a negative one is counted from
the end. -/
def checkIndex (len : Nat) (index : Int64) : Except Error Unit :=
  let n := Int64.ofNat len
  if index < -n ∨ n ≤ index then
    .error (.invalidOperand "get_item" s!"index {index.toInt} for an axis of length {n.toInt}")
  else .ok ()

/-- The shape of the part of a tensor that keys select, from the first axis on. `None` inserts an
axis, an index drops one, a slice keeps what it selects, and axes without a key are kept. -/
def select (rank : Nat) : List Value → List Nat → Except Error (List Nat)
  | [], shape => .ok shape
  | .none :: keys, shape => do return 1 :: (← select rank keys shape)
  | _ :: _, [] =>
    .error (.invalidOperand "get_item" s!"too many indices for a tensor of rank {rank}")
  | .slice s :: keys, len :: shape => do
    let n ← s.count "get_item" len
    return n :: (← select rank keys shape)
  | .number i :: keys, len :: shape => do
    checkIndex len (← Value.knownInt "get_item" (.number i))
    select rank keys shape
  | key :: keys, _ :: shape => do
    if (← key.kind "get_item") ≤ .int then select rank keys shape
    else key.invalid "get_item"

end Shape

end ProxyTrace
