import ProxyTrace.Number.Kind

/-!
The ways in which an operation fails.
-/

namespace ProxyTrace

/-- The identity of a trace. -/
structure TraceId where
  index : Nat
  deriving DecidableEq, Repr

instance : ToString TraceId := ⟨fun t => s!"#{t.index}"⟩

/-- Items between brackets. -/
def bracketed (items : List String) : String := "[" ++ ", ".intercalate items ++ "]"

/-- The text of the extents of a tensor. -/
def shapeText (shape : List Nat) : String := bracketed (shape.map Nat.repr)

/-- Why an operation fails. The operation is given by name, operands by a description. -/
inductive Error where
  | noActiveTrace
  | duplicateName (name : String)
  | noActiveContext (op : String)
  | invalidShape (shape : List Int64) (reason : String)
  | invalidDevice (text : String)
  | invalidDType (text : String)
  | unknownAttribute (name : String)
  | unsupportedConversion (source target : String)
  | unsupportedOperation (op operand : String)
  | staleProxy (name : String) (owner current : TraceId)
  | invalidOperand (op found : String)
  | zeroDivision (op : String)
  | overflow (op : String)
  | kindMismatch (kind : NumberKind) (value : String)
  | shapeMismatch (op : String) (left right : List Nat)
  deriving DecidableEq, Repr

namespace Error

/-- The text shown to the user. -/
def message : Error → String
  | noActiveTrace => "no active trace"
  | duplicateName name => s!"name '{name}' is already registered in the active trace"
  | noActiveContext op =>
    s!"cannot evaluate '{op}': no active language context and no known value"
  | invalidShape shape reason =>
    s!"invalid shape {bracketed (shape.map fun n => toString n.toInt)}: {reason}"
  | invalidDevice text => s!"invalid device: {text}"
  | invalidDType text => s!"invalid dtype: {text}"
  | unknownAttribute name => s!"unknown attribute '{name}'"
  | unsupportedConversion source target => s!"cannot convert a {source} proxy to {target}"
  | unsupportedOperation op operand => s!"'{op}' is not supported on {operand}"
  | staleProxy name owner current =>
    s!"proxy '{name}' belongs to trace {owner}, but trace {current} is active"
  | invalidOperand op found => s!"'{op}' expected a number, found {found}"
  | zeroDivision op => s!"division by zero in '{op}'"
  | overflow op => s!"integer overflow in '{op}'"
  | kindMismatch kind value => s!"value {value} is not representable as {kind}"
  | shapeMismatch op left right =>
    s!"shape mismatch in '{op}': {shapeText left} vs {shapeText right}"

end Error

end ProxyTrace
