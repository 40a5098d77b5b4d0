import ProxyTrace.Op
import ProxyTrace.Workspace

/-!
Language contexts: what operators on proxies mean. A context has a hook for each operator, named
after it, and an operator calls the hook of its name. A hook that a context does not define has a
default, which calls the generic hook for as many operands with the operator.
-/

namespace ProxyTrace

/-- A function of a language context, applied to its receiver and further arguments. -/
abbrev Method := List Value → WorkspaceM Value

/-- What an operator on one operand means. -/
abbrev UnaryHook := Value → WorkspaceM Value

/-- What an operator on two operands means. -/
abbrev BinaryHook := Value → Value → WorkspaceM Value

/-- The hooks of a context that are named after the operators on one operand. -/
structure UnaryHooks where
  abs : UnaryHook
  ceil : UnaryHook
  floor : UnaryHook
  invert : UnaryHook
  neg : UnaryHook
  round : UnaryHook
  trunc : UnaryHook

/-- The hooks of a context that are named after the operators on two operands. -/
structure BinaryHooks where
  add : BinaryHook
  sub : BinaryHook
  mul : BinaryHook
  trueDivide : BinaryHook
  floorDivide : BinaryHook
  modulo : BinaryHook
  divmod : BinaryHook
  pow : BinaryHook
  lshift : BinaryHook
  rshift : BinaryHook
  matmul : BinaryHook
  eq : BinaryHook
  ne : BinaryHook
  lt : BinaryHook
  le : BinaryHook
  gt : BinaryHook
  ge : BinaryHook
  logicalAnd : BinaryHook
  logicalOr : BinaryHook
  logicalXor : BinaryHook

namespace UnaryHooks

/-- The defaults: each hook calls the generic one with its operator. -/
def defaults (generic : UnaryOp → UnaryHook) : UnaryHooks where
  abs := generic .abs
  ceil := generic .ceil
  floor := generic .floor
  invert := generic .invert
  neg := generic .neg
  round := generic .round
  trunc := generic .trunc

/-- The hook that is named after an operator. -/
def named (hooks : UnaryHooks) : UnaryOp → UnaryHook
  | .abs => hooks.abs
  | .ceil => hooks.ceil
  | .floor => hooks.floor
  | .invert => hooks.invert
  | .neg => hooks.neg
  | .round => hooks.round
  | .trunc => hooks.trunc

/-- By the default of the hook that is named after it, an operator comes to the generic hook. -/
theorem named_defaults (generic : UnaryOp → UnaryHook) (op : UnaryOp) :
    (defaults generic).named op = generic op := by
  cases op <;> rfl

end UnaryHooks

namespace BinaryHooks

/-- The defaults: each hook calls the generic one with its operator. -/
def defaults (generic : BinaryOp → BinaryHook) : BinaryHooks where
  add := generic .add
  sub := generic .sub
  mul := generic .mul
  trueDivide := generic .trueDivide
  floorDivide := generic .floorDivide
  modulo := generic .mod
  divmod := generic .divmod
  pow := generic .pow
  lshift := generic .shiftLeft
  rshift := generic .shiftRight
  matmul := generic .matmul
  eq := generic .eq
  ne := generic .ne
  lt := generic .lt
  le := generic .le
  gt := generic .gt
  ge := generic .ge
  logicalAnd := generic .logicalAnd
  logicalOr := generic .logicalOr
  logicalXor := generic .logicalXor

/-- The hook that is named after an operator. -/
def named (hooks : BinaryHooks) : BinaryOp → BinaryHook
  | .add => hooks.add
  | .sub => hooks.sub
  | .mul => hooks.mul
  | .trueDivide => hooks.trueDivide
  | .floorDivide => hooks.floorDivide
  | .mod => hooks.modulo
  | .divmod => hooks.divmod
  | .pow => hooks.pow
  | .shiftLeft => hooks.lshift
  | .shiftRight => hooks.rshift
  | .matmul => hooks.matmul
  | .eq => hooks.eq
  | .ne => hooks.ne
  | .lt => hooks.lt
  | .le => hooks.le
  | .gt => hooks.gt
  | .ge => hooks.ge
  | .logicalAnd => hooks.logicalAnd
  | .logicalOr => hooks.logicalOr
  | .logicalXor => hooks.logicalXor

/-- By the default of the hook that is named after it, an operator comes to the generic hook. -/
theorem named_defaults (generic : BinaryOp → BinaryHook) (op : BinaryOp) :
    (defaults generic).named op = generic op := by
  cases op <;> rfl

end BinaryHooks

/-- The meaning of operators on proxies. -/
structure LanguageContext where
  name : String
  elementwiseUnary : UnaryOp → UnaryHook
  elementwiseBinary : BinaryOp → BinaryHook
  unaryHooks : UnaryHooks := .defaults elementwiseUnary
  binaryHooks : BinaryHooks := .defaults elementwiseBinary
  getItem : Value → Value → WorkspaceM Value
  size : Value → WorkspaceM Value
  /-- The functions that tensor proxies have as attributes. -/
  method? : String → Option Method
  /-- Whether a value is a native tensor of this context. -/
  isTensor : Value → Bool := fun _ => false
  /-- A proxy for a native tensor. -/
  tensorProxy : Option Name → Value → WorkspaceM TensorProxy := fun _ v =>
    throw (.unsupportedOperation "tensorproxy" v.describe)

namespace LanguageContext

variable {c : LanguageContext}

def text (c : LanguageContext) : String := s!"LanguageContext({c.name})"

/-- Calls the hook that is named after the operator. -/
def unary (c : LanguageContext) (op : UnaryOp) : UnaryHook := c.unaryHooks.named op

/-- Calls the hook that is named after the operator. -/
def binary (c : LanguageContext) (op : BinaryOp) : BinaryHook := c.binaryHooks.named op

/-- All hooks that are named after operators are the defaults. -/
structure KeepsDefaults (c : LanguageContext) : Prop where
  unaryHooks : c.unaryHooks = .defaults c.elementwiseUnary
  binaryHooks : c.binaryHooks = .defaults c.elementwiseBinary

theorem KeepsDefaults.unary (h : c.KeepsDefaults) : c.unary = c.elementwiseUnary := by
  funext op
  rw [LanguageContext.unary, h.unaryHooks, UnaryHooks.named_defaults]

theorem KeepsDefaults.binary (h : c.KeepsDefaults) : c.binary = c.elementwiseBinary := by
  funext op
  rw [LanguageContext.binary, h.binaryHooks, BinaryHooks.named_defaults]

end LanguageContext

end ProxyTrace
