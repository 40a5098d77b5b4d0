import ProxyTrace.DType
import ProxyTrace.Device
import ProxyTrace.Name
import ProxyTrace.Number.Order

/-!
Proxies: named placeholders for numbers and tensors. A proxy belongs to the trace that gave it its
name.
-/

namespace ProxyTrace

/-! ### Shapes of tensors

A shape is a list of extents. -/

namespace Shape

/-- The extents as natural numbers, if none is negative. -/
def ofExtents? (extents : List Int64) : Option (List Nat) :=
  extents.mapM fun n => if 0 ≤ n then some n.toInt.toNat else none

/-- The extents as words. -/
def toExtents (shape : List Nat) : List Int64 := shape.map Int64.ofNat

/-- The number of elements, multiplied up from the first extent; `none` if a product on the way
does not fit 64 bits. -/
def numel? (shape : List Nat) : Option Nat :=
  shape.foldlM (fun n extent => if n * extent < UInt64.size then some (n * extent) else none) 1

end Shape

/-! ### Proxies -/

/-- A name and the trace that gave it out. -/
structure Symbol where
  name : Name
  owner : TraceId
  deriving DecidableEq

/-- A placeholder for a number of a known kind, whose value may be known too. -/
structure NumberProxy where
  symbol : Symbol
  kind : NumberKind
  value : Option Number
  deriving DecidableEq

/-- A placeholder for a tensor. -/
structure TensorProxy where
  symbol : Symbol
  shape : List Nat
  device : Device
  /-- The element type in strong form. -/
  dtype : DType
  /-- The element type as it was given. -/
  trueDtype : DType
  /-- The number of elements. -/
  numel : Nat
  /-- The number of extents. -/
  ndim : Nat
  deriving DecidableEq

/-- A placeholder; an untyped one stands for nothing in particular. -/
inductive Proxy where
  | untyped (symbol : Symbol)
  | number (p : NumberProxy)
  | tensor (t : TensorProxy)
  deriving DecidableEq

namespace NumberProxy

def name (p : NumberProxy) : Name := p.symbol.name

def typeText (p : NumberProxy) : String := p.kind.name ++ " " ++ p.value.elim "?" Number.text

/-- Equality of known values; an unknown value equals nothing. -/
def equal (p q : NumberProxy) : Bool :=
  match p.value, q.value with
  | some a, some b => a.equal b
  | _, _ => false

/-- Equality of a known value with a number. -/
def equalNumber (p : NumberProxy) (n : Number) : Bool := p.value.elim false (·.equal n)

/-- The order of known values. -/
def compare? (p q : NumberProxy) : Option Ordering := do (← p.value).compare? (← q.value)

/-- A proxy feeds a hash as its value does, and nothing if that is unknown. -/
def hashWords (p : NumberProxy) : List Number.HashWord := p.value.elim [] Number.hashWords

/-- The known value as one of kind `k`, without its tag. -/
def convert (k : NumberKind) (p : NumberProxy) : Except Error k.Native :=
  match p.value with
  | none => .error (.noActiveContext "convert")
  | some n => do
    match (← n.coerce k).native? k with
    | some x => .ok x
    | none => .error (.unsupportedConversion p.kind.name k.name)

/-- The proxy itself, if its kind is among those that need no cast to the target. -/
def cast (p : NumberProxy) (kinds : List NumberKind) (target : String) : Except Error NumberProxy :=
  if p.kind ∈ kinds then .ok p else .error (.unsupportedConversion p.kind.name target)

def toInt (p : NumberProxy) : Except Error NumberProxy := p.cast [.bool, .int] "int"

def toFloat (p : NumberProxy) : Except Error NumberProxy := p.cast [.float] "float"

def toComplex (p : NumberProxy) : Except Error NumberProxy := p.cast [.complex] "complex"

end NumberProxy

namespace TensorProxy

def name (t : TensorProxy) : Name := t.symbol.name

def typeText (t : TensorProxy) : String := s!"{t.device} {t.dtype.shortText}{shapeText t.shape}"

/-- Tensors are not cast. -/
def cast (target : String) : Except Error TensorProxy :=
  .error (.unsupportedConversion "tensor" target)

end TensorProxy

namespace Proxy

def symbol : Proxy → Symbol
  | untyped s => s
  | number p => p.symbol
  | tensor t => t.symbol

def name (p : Proxy) : Name := p.symbol.name

def owner (p : Proxy) : TraceId := p.symbol.owner

def typeText : Proxy → String
  | untyped _ => "Any"
  | number p => p.typeText
  | tensor t => t.typeText

end Proxy

end ProxyTrace
