import ProxyTrace.Session

/-!
Operators on values. A proxy on the left handles the operator; if only the right operand is one,
it does, with the operands in their order; two numbers are computed with. A tensor proxy always
needs a language context; a number proxy falls back on its value, and comparison and logical
operators on number proxies never look further than that, unless the other operand is a tensor.
-/

namespace ProxyTrace

namespace TensorProxy

/-- The active context, if the tensor is not stale. -/
def context (op : String) (t : TensorProxy) : SessionM LanguageContext := do
  match ← SessionM.context? with
  | none => throw (.noActiveContext op)
  | some c =>
    WorkspaceM.checkOwner t.symbol
    return c

def unary (op : UnaryOp) (t : TensorProxy) : SessionM Value := do
  let c ← t.context op.name
  c.unary op t

/-- The operator with the tensor on the left. -/
def binary (op : BinaryOp) (t : TensorProxy) (other : Value) : SessionM Value := do
  let c ← t.context op.name
  WorkspaceM.checkOwners [other]
  c.binary op t other

/-- The operator with the tensor on the right. -/
def reflected (op : BinaryOp) (t : TensorProxy) (other : Value) : SessionM Value := do
  let c ← t.context op.name
  WorkspaceM.checkOwners [other]
  c.binary op other t

def getItem (t : TensorProxy) (key : Value) : SessionM Value := do
  let c ← t.context "get_item"
  WorkspaceM.checkOwners [key]
  c.getItem t key

/-- The size, as the active context defines it. -/
def size (t : TensorProxy) : SessionM Value := do
  let c ← t.context "size"
  c.size t

end TensorProxy

/-- A method of a language context with its receiver. -/
structure BoundMethod where
  name : String
  receiver : Value
  method : Method

namespace BoundMethod

def call (m : BoundMethod) (args : List Value) : SessionM Value := m.method (m.receiver :: args)

def text (m : BoundMethod) : String := s!"BoundMethod({m.receiver}.{m.name})"

end BoundMethod

/-- The method of the active context with the given name, bound to the tensor. -/
def TensorProxy.attribute (t : TensorProxy) (name : String) : SessionM BoundMethod := do
  let c ← t.context "attr"
  match c.method? name with
  | some method => return { name, receiver := t, method }
  | none => throw (.unknownAttribute name)

namespace NumberProxy

def unary (op : UnaryOp) (p : NumberProxy) : SessionM Value := do
  match ← SessionM.context? with
  | some c =>
    WorkspaceM.checkOwner p.symbol
    c.unary op p
  | none =>
    match p.value with
    | some n => return .number (← n.unary op)
    | none => throw (.noActiveContext op.name)

/-- The concrete number that an operand of a comparison or logical operator stands for. -/
def compared (op : BinaryOp) (v : Value) : Except Error Number :=
  match v.numberProxy? with
  | some p =>
    match p.value with
    | some n => .ok n
    | none => .error (.unsupportedOperation op.name s!"number proxy {p.name} of unknown value")
  | none => v.known op.name

/-- A comparison or logical operator of which one operand is a number proxy. -/
def compareKnown (op : BinaryOp) (a b : Value) : SessionM Value := do
  match b.tensorProxy?, a.tensorProxy? with
  | some t, _ => t.reflected op a
  | none, some t => t.binary op b
  | none, none =>
    let x ← compared op a
    let y ← compared op b
    return .ofAnswer (← x.binary op y)

/-- An operator that the number proxy `p`, one of the operands, handles. -/
def dispatch (op : BinaryOp) (p : NumberProxy) (a b : Value) : SessionM Value := do
  if op = .matmul then
    throw (.unsupportedOperation op.name s!"number proxy {p.name}")
  else if op.isComparison || op.isLogical then
    compareKnown op a b
  else
    match ← SessionM.context? with
    | some c =>
      WorkspaceM.checkOwners [a, b]
      c.binary op a b
    | none => Value.evaluate op a b

end NumberProxy

namespace Proxy

/-- An untyped proxy has no operators. -/
def noOperator {α : Type} (op : String) (s : Symbol) : SessionM α :=
  throw (.unsupportedOperation op s!"untyped proxy {s.name}")

def unary (op : UnaryOp) : Proxy → SessionM Value
  | number p => p.unary op
  | tensor t => t.unary op
  | untyped s => noOperator op.name s

/-- The operator with the proxy on the left. -/
def binary (op : BinaryOp) (p : Proxy) (other : Value) : SessionM Value :=
  match p with
  | number q => q.dispatch op q other
  | tensor t => t.binary op other
  | untyped s => noOperator op.name s

/-- The operator with the proxy on the right. -/
def reflected (op : BinaryOp) (p : Proxy) (other : Value) : SessionM Value :=
  match p with
  | number q => q.dispatch op other q
  | tensor t => t.reflected op other
  | untyped s => noOperator op.name s

end Proxy

namespace Value

def unary (op : UnaryOp) : Value → SessionM Value
  | proxy p => p.unary op
  | number n => do return number (← n.unary op)
  | v => v.invalid op.name

def binary (op : BinaryOp) (a b : Value) : SessionM Value :=
  match a, b with
  | proxy p, b => p.binary op b
  | a, proxy p => p.reflected op a
  | number x, number y => do return ofAnswer (← x.binary op y)
  | number _, b => b.invalid op.name
  | a, _ => a.invalid op.name

/-- The part of a tensor that a key selects. -/
def getItem (a key : Value) : SessionM Value :=
  match a with
  | proxy (.tensor t) => t.getItem key
  | a => throw (.unsupportedOperation "get_item" a.describe)

end Value

/-! ### Programs

A program is written with the usual operators. Operands run from left to right, and the first
failure ends the program. On plain numbers it computes; with a language context active, the
operators on proxies are handed to it. -/

/-- A computation of a value. -/
abbrev Program := SessionM Value

namespace Program

def unary (op : UnaryOp) (x : Program) : Program := do (← x).unary op

def binary (op : BinaryOp) (x y : Program) : Program := do (← x).binary op (← y)

instance : Coe Value Program := ⟨pure⟩

instance : Neg Program := ⟨unary .neg⟩
instance : Complement Program := ⟨unary .invert⟩
instance : Add Program := ⟨binary .add⟩
instance : Sub Program := ⟨binary .sub⟩
instance : Mul Program := ⟨binary .mul⟩
instance : Div Program := ⟨binary .trueDivide⟩
instance : Mod Program := ⟨binary .mod⟩
instance : ShiftLeft Program := ⟨binary .shiftLeft⟩
instance : ShiftRight Program := ⟨binary .shiftRight⟩
instance : AndOp Program := ⟨binary .logicalAnd⟩
instance : OrOp Program := ⟨binary .logicalOr⟩
instance : XorOp Program := ⟨binary .logicalXor⟩

/-- Whole literals are ints. -/
instance {n : Nat} : OfNat Program n := ⟨pure (.int (.ofNat n))⟩

/-- Literals with a point are floats. -/
instance : OfScientific Program where
  ofScientific m negative e :=
    pure (.float (.ofDecimal false ⟨m, if negative then -e else e⟩))

end Program

end ProxyTrace
