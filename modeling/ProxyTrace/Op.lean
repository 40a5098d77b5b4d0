/-!
The catalogue of operators.
-/

namespace ProxyTrace

/-- An operator on one operand. -/
inductive UnaryOp where
  | abs
  | ceil
  | floor
  | invert
  | neg
  | round
  | trunc
  deriving DecidableEq, Repr

namespace UnaryOp

/-- All operators on one operand, in the order of the catalogue. -/
def all : List UnaryOp := [abs, ceil, floor, invert, neg, round, trunc]

def name : UnaryOp → String
  | abs => "abs"
  | ceil => "ceil"
  | floor => "floor"
  | invert => "invert"
  | neg => "neg"
  | round => "round"
  | trunc => "trunc"

def ofName? (s : String) : Option UnaryOp := all.find? (·.name == s)

@[simp] theorem ofName?_name (op : UnaryOp) : ofName? op.name = some op := by
  cases op <;> decide

/-- The place in the catalogue. -/
def index (op : UnaryOp) : Nat := all.idxOf op

end UnaryOp

/-- An operator on two operands. -/
inductive BinaryOp where
  | add
  | sub
  | mul
  | trueDivide
  | floorDivide
  | mod
  | divmod
  | pow
  | shiftLeft
  | shiftRight
  | matmul
  | eq
  | ne
  | lt
  | le
  | gt
  | ge
  | logicalAnd
  | logicalOr
  | logicalXor
  deriving DecidableEq, Repr

namespace BinaryOp

/-- All operators on two operands, in the order of the catalogue. -/
def all : List BinaryOp :=
  [add, sub, mul, trueDivide, floorDivide, mod, divmod, pow, shiftLeft, shiftRight, matmul,
    eq, ne, lt, le, gt, ge, logicalAnd, logicalOr, logicalXor]

def name : BinaryOp → String
  | add => "add"
  | sub => "sub"
  | mul => "mul"
  | trueDivide => "true_divide"
  | floorDivide => "floor_divide"
  | mod => "mod"
  | divmod => "divmod"
  | pow => "pow"
  | shiftLeft => "lshift"
  | shiftRight => "rshift"
  | matmul => "matmul"
  | eq => "eq"
  | ne => "ne"
  | lt => "lt"
  | le => "le"
  | gt => "gt"
  | ge => "ge"
  | logicalAnd => "logical_and"
  | logicalOr => "logical_or"
  | logicalXor => "logical_xor"

def ofName? (s : String) : Option BinaryOp := all.find? (·.name == s)

@[simp] theorem ofName?_name (op : BinaryOp) : ofName? op.name = some op := by
  cases op <;> decide

/-- The place in the catalogue. -/
def index (op : BinaryOp) : Nat := all.idxOf op

/-- Equality and order. -/
def isComparison : BinaryOp → Bool
  | eq | ne | lt | le | gt | ge => true
  | _ => false

/-- Operators bit by bit. -/
def isLogical : BinaryOp → Bool
  | logicalAnd | logicalOr | logicalXor => true
  | _ => false

end BinaryOp

end ProxyTrace
