import ProxyTrace.Number.Order
import ProxyTrace.Op

/-!
The operators on numbers. Both operands are first widened to their common kind; ints are exact or
overflow, floats round once, and a division by zero fails before any other rule is looked at,
except that an operator that complex numbers do not have stays unsupported.
-/

namespace ProxyTrace.Number

/-! ### One operand -/

/-- The int that a float rounds to. -/
def roundFloat (op : UnaryOp) (r : Rounding) (x : Binary64) : Except Error Number :=
  if x.isNaN then .error (.invalidOperand op.name "NaN")
  else match (x.round? r).bind Word.ofInt? with
    | some i => .ok (int i)
    | none => .error (.overflow op.name)

/-- The int, or an overflow. -/
def ofWord? (op : String) : Option Int64 → Except Error Number
  | some i => .ok (int i)
  | none => .error (.overflow op)

def unaryInt (op : UnaryOp) (i : Int64) : Except Error Number :=
  match op with
  | .abs => ofWord? op.name (Word.abs? i)
  | .neg => ofWord? op.name (Word.neg? i)
  | .invert => .ok (int (~~~i))
  | .ceil | .floor | .round | .trunc => .ok (int i)

def unaryFloat (op : UnaryOp) (x : Binary64) : Except Error Number :=
  match op with
  | .abs => .ok (float x.abs)
  | .neg => .ok (float (-x))
  | .ceil => roundFloat op .up x
  | .floor => roundFloat op .down x
  | .round => roundFloat op .nearestEven x
  | .trunc => roundFloat op .towardZero x
  | .invert => .error (.unsupportedOperation op.name (toString NumberKind.float))

def unaryComplex (op : UnaryOp) (z : Complex) : Except Error Number :=
  match op with
  | .abs => .ok (float z.abs)
  | .neg => .ok (complex (-z))
  | _ => .error (.unsupportedOperation op.name (toString NumberKind.complex))

/-- An operator on one number; a bool counts as an int. -/
def unary (op : UnaryOp) : Number → Except Error Number
  | bool b => unaryInt op (if b then 1 else 0)
  | int i => unaryInt op i
  | float x => unaryFloat op x
  | complex z => unaryComplex op z

/-! ### Two operands -/

/-- Two numbers widened to their common kind; bools count as ints. -/
inductive Promoted where
  | ints (a b : Int64)
  | floats (x y : Binary64)
  | complexes (z w : Complex)

def promote (a b : Number) : Promoted :=
  match a.toInt?, b.toInt? with
  | some i, some j => .ints i j
  | _, _ =>
    match a.toFloat?, b.toFloat? with
    | some x, some y => .floats x y
    | _, _ => .complexes a.toComplex b.toComplex

/-- The operator is not defined on the kinds of the operands. -/
def unsupported {α : Type} (op : BinaryOp) (a b : Number) : Except Error α :=
  .error (.unsupportedOperation op.name s!"{a.kind} and {b.kind}")

def zeroDivision {α : Type} (op : BinaryOp) : Except Error α := .error (.zeroDivision op.name)

def add (a b : Number) : Except Error Number :=
  match promote a b with
  | .ints i j => ofWord? BinaryOp.add.name (Word.add? i j)
  | .floats x y => .ok (float (x + y))
  | .complexes z w => .ok (complex (z + w))

def sub (a b : Number) : Except Error Number :=
  match promote a b with
  | .ints i j => ofWord? BinaryOp.sub.name (Word.sub? i j)
  | .floats x y => .ok (float (x - y))
  | .complexes z w => .ok (complex (z - w))

def mul (a b : Number) : Except Error Number :=
  match promote a b with
  | .ints i j => ofWord? BinaryOp.mul.name (Word.mul? i j)
  | .floats x y => .ok (float (x * y))
  | .complexes z w => .ok (complex (z * w))

/-- Division with a fractional part; two ints give a float. -/
def trueDivide (a b : Number) : Except Error Number :=
  if b.isZero then zeroDivision .trueDivide
  else match promote a b with
    | .ints i j => .ok (float (.ofInt i.toInt / .ofInt j.toInt))
    | .floats x y => .ok (float (x / y))
    | .complexes z w => .ok (complex (z / w))

/-- The quotient rounded down. -/
def floorDivide (a b : Number) : Except Error Number :=
  let op := BinaryOp.floorDivide
  match promote a b with
  | .ints i j => if j = 0 then zeroDivision op else ofWord? op.name (Word.floorDiv? i j)
  | .floats x y => if y.isZero then zeroDivision op else .ok (float (x / y).floor)
  | .complexes .. => unsupported op a b

/-- The remainder of the quotient rounded down. -/
def mod (a b : Number) : Except Error Number :=
  let op := BinaryOp.mod
  match promote a b with
  | .ints i j => if j = 0 then zeroDivision op else ofWord? op.name (Word.floorMod? i j)
  | .floats x y => if y.isZero then zeroDivision op else .ok (float (x.floorMod y))
  | .complexes .. => unsupported op a b

/-- The power. A negative exponent takes ints to floats, and a negative base with a fractional
exponent takes floats to complex numbers. -/
def pow (a b : Number) : Except Error Number :=
  let op := BinaryOp.pow
  match promote a b with
  | .ints i j =>
    if j < 0 then
      if i = 0 then zeroDivision op else .ok (float ((Binary64.ofInt i.toInt).pow (.ofInt j.toInt)))
    else ofWord? op.name (Word.pow? i j)
  | .floats x y =>
    if x.isZero && y.isBelowZero then zeroDivision op
    else if x.isBelowZero && !y.isIntegral then .ok (complex (Complex.powReal ⟨x, .zero⟩ y))
    else .ok (float (x.pow y))
  | .complexes z w =>
    if z.isZero then
      if w.re.isBelowZero || !w.im.isZero then zeroDivision op
      else .ok (complex (if w.isZero then .one else .zero))
    else .ok (complex (z.pow w))

/-- A shift of ints; the count must not be negative. -/
def shift (op : BinaryOp) (f : Int64 → Int64 → Option Int64) (a b : Number) : Except Error Number :=
  match promote a b with
  | .ints i j =>
    if j < 0 then .error (.invalidOperand op.name "a negative shift count")
    else ofWord? op.name (f i j)
  | _ => unsupported op a b

def shiftLeft (a b : Number) : Except Error Number := shift .shiftLeft Word.shiftLeft? a b

def shiftRight (a b : Number) : Except Error Number :=
  shift .shiftRight (fun i j => some (Word.shiftRight i j)) a b

/-- An order relation; complex numbers have none. -/
def ordered (op : BinaryOp) (holds : Option Ordering → Bool) (a b : Number) : Except Error Number :=
  if a.kind = .complex ∨ b.kind = .complex then unsupported op a b
  else .ok (bool (holds (a.compare? b)))

/-- An operator bit by bit, on bools or on ints. -/
def logical (op : BinaryOp) (onBools : Bool → Bool → Bool) (onInts : Int64 → Int64 → Int64)
    (a b : Number) : Except Error Number :=
  match a, b with
  | bool p, bool q => .ok (bool (onBools p q))
  | _, _ =>
    match promote a b with
    | .ints i j => .ok (int (onInts i j))
    | _ => unsupported op a b

/-- What an operator on two numbers answers. -/
inductive Answer where
  | single (n : Number)
  | pair (first second : Number)
  deriving DecidableEq

/-- An operator on two numbers. Only `divmod` answers a pair, and its parts fail as themselves. -/
def binary (op : BinaryOp) (a b : Number) : Except Error Answer :=
  match op with
  | .add => .single <$> add a b
  | .sub => .single <$> sub a b
  | .mul => .single <$> mul a b
  | .trueDivide => .single <$> trueDivide a b
  | .floorDivide => .single <$> floorDivide a b
  | .mod => .single <$> mod a b
  | .divmod => return .pair (← floorDivide a b) (← mod a b)
  | .pow => .single <$> pow a b
  | .shiftLeft => .single <$> shiftLeft a b
  | .shiftRight => .single <$> shiftRight a b
  | .matmul => unsupported .matmul a b
  | .eq => .ok (.single (bool (a.equal b)))
  | .ne => .ok (.single (bool !(a.equal b)))
  | .lt => .single <$> ordered .lt (· == some .lt) a b
  | .le => .single <$> ordered .le (fun o => o == some .lt || o == some .eq) a b
  | .gt => .single <$> ordered .gt (· == some .gt) a b
  | .ge => .single <$> ordered .ge (fun o => o == some .gt || o == some .eq) a b
  | .logicalAnd => .single <$> logical .logicalAnd (· && ·) (· &&& ·) a b
  | .logicalOr => .single <$> logical .logicalOr (· || ·) (· ||| ·) a b
  | .logicalXor => .single <$> logical .logicalXor (· ^^ ·) (· ^^^ ·) a b

end ProxyTrace.Number
