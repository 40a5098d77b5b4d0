import ProxyTrace.Workspace

/-!
Construction of proxies. All fields are checked before the name is registered, so a failed
construction leaves nothing behind.
-/

namespace ProxyTrace

/-- A proxy for a number; a known value is widened to the kind. -/
def NumberProxy.make (kind : NumberKind) (value : Option Number := none)
    (name : Option Name := none) : WorkspaceM NumberProxy := do
  let value ← value.mapM (·.coerce kind)
  return { symbol := ← WorkspaceM.allocate name, kind, value }

/-- What is given of a tensor before it is built. Fields that are not given are those of `like`;
one that was read from a text keeps the failure to read it. -/
structure TensorSpec where
  name : Option Name := none
  like : Option TensorProxy := none
  shape : Option (List Int64) := none
  device : Option (Except Error Device) := none
  dtype : Option (Except Error DType) := none

namespace TensorSpec

def shapeOf (s : TensorSpec) : Except Error (List Nat) :=
  match s.shape, s.like with
  | some extents, _ =>
    match Shape.ofExtents? extents with
    | some shape => .ok shape
    | none => .error (.invalidShape extents "extents must be non-negative")
  | none, some t => .ok t.shape
  | none, none => .error (.invalidShape [] "no shape given")

def deviceOf (s : TensorSpec) : Except Error Device :=
  match s.device, s.like with
  | some device, _ => device
  | none, some t => .ok t.device
  | none, none => .error (.invalidDevice "no device given")

def dtypeOf (s : TensorSpec) : Except Error DType :=
  match s.dtype, s.like with
  | some dtype, _ => dtype
  | none, some t => .ok t.trueDtype
  | none, none => .error (.invalidDType "no dtype given")

/-- The tensor with a symbol yet to come. -/
def resolve (s : TensorSpec) : Except Error (Symbol → TensorProxy) := do
  let shape ← s.shapeOf
  let device ← s.deviceOf
  let trueDtype ← s.dtypeOf
  match Shape.numel? shape with
  | some numel =>
    return fun symbol =>
      { symbol, shape, device, dtype := trueDtype.toStrong, trueDtype, numel, ndim := shape.length }
  | none => throw (.invalidShape (Shape.toExtents shape) "numel overflows")

def build (s : TensorSpec) : WorkspaceM TensorProxy := do
  let tensor ← s.resolve
  return tensor (← WorkspaceM.allocate s.name)

end TensorSpec

namespace Proxy

/-- A proxy without type information. -/
def makeUntyped (name : Option Name := none) : WorkspaceM Proxy :=
  .untyped <$> WorkspaceM.allocate name

/-- The same proxy under a new name of the innermost trace. -/
def rename (p : Proxy) (name : Name) : WorkspaceM Proxy :=
  match p with
  | untyped _ => makeUntyped name
  | number p => do return number { p with symbol := ← WorkspaceM.allocate name }
  | tensor t => do return tensor (← TensorSpec.build { name, like := t })

end Proxy

end ProxyTrace
