import ProxyTrace.Recorder.Methods

/-!
The recording language context. Every operator with a proxy among its operands is appended to the
recorder's graph and answered by a fresh proxy, of which only the kind, or the shape and element
type, is derived; operators on native numbers are computed and leave no node.
-/

namespace ProxyTrace.Recorder

/-- The kind of a result, or the failure of an operator that does not have one. -/
def orUnsupported (op operand : String) : Option NumberKind → Except Error NumberKind
  | some k => .ok k
  | none => .error (.unsupportedOperation op operand)

/-- One result, or the two of `divmod`. -/
def results (op : BinaryOp) (result : WorkspaceM Value) : WorkspaceM Value :=
  if op = .divmod then do return .tuple [← result, ← result] else result

/-- A number of unknown value. -/
def freshNumber (kind : NumberKind) : WorkspaceM Value := do
  return (← NumberProxy.make kind : Value)

def freshTensor (spec : TensorSpec) : WorkspaceM Value := do
  return (← spec.build : Value)

/-- An operator on one operand. -/
def unary (r : Recorder) (op : UnaryOp) (a : Value) : WorkspaceM Value := do
  match a with
  | .number n => return .number (← n.unary op)
  | .proxy (.number p) =>
    let kind ← orUnsupported op.name p.kind.name (p.kind.unary? op)
    WorkspaceM.record r op.name [a] (← freshNumber kind)
  | .proxy (.tensor t) => WorkspaceM.record r op.name [a] (← freshTensor { like := t })
  | a => a.invalid op.name

/-- The operand that is not a tensor, beside one that is. -/
def checkScalar (op : BinaryOp) (v : Value) : Except Error Unit := do
  discard (v.kind op.name)
  if op = .matmul then throw (.unsupportedOperation op.name "a scalar")

/-- The tensor that an operator on `like` and another operand answers. -/
def binaryTensor (r : Recorder) (op : BinaryOp) (a b : Value) (like : TensorProxy)
    (shape : List Nat) : WorkspaceM Value := do
  let dtype := like.trueDtype.binary op
  let result := freshTensor { like, shape := Shape.toExtents shape, dtype := some (.ok dtype) }
  WorkspaceM.record r op.name [a, b] (← results op result)

/-- An operator on two operands. -/
def binary (r : Recorder) (op : BinaryOp) (a b : Value) : WorkspaceM Value := do
  match a.tensorProxy?, b.tensorProxy? with
  | some t, some u => binaryTensor r op a b t (← Shape.binary op t.shape u.shape)
  | some t, none =>
    checkScalar op b
    binaryTensor r op a b t t.shape
  | none, some u =>
    checkScalar op a
    binaryTensor r op a b u u.shape
  | none, none =>
    if a.numberProxy?.isSome || b.numberProxy?.isSome then
      let j ← a.kind op.name
      let k ← b.kind op.name
      let kind ← orUnsupported op.name s!"{j} and {k}" ((j.promote k).binary? op)
      WorkspaceM.record r op.name [a, b] (← results op (freshNumber kind))
    else
      Value.evaluate op a b

/-- The keys of a tuple; any other key stands for itself. -/
def keys : Value → List Value
  | .tuple keys => keys
  | key => [key]

/-- The part of a tensor that a key, or a tuple of keys, selects. -/
def getItem (r : Recorder) (a key : Value) : WorkspaceM Value := do
  match a with
  | .proxy (.tensor t) =>
    let shape ← Shape.select t.ndim (keys key) t.shape
    WorkspaceM.record r "get_item" [a, key] (← reshaped t shape)
  | a => throw (.unsupportedOperation "get_item" a.describe)

/-- The extents of a tensor. -/
def size (a : Value) : WorkspaceM Value :=
  match a with
  | .proxy (.tensor t) => return .tuple ((Shape.toExtents t.shape).map .int)
  | a => throw (.unsupportedOperation "size" a.describe)

/-- A proxy for a native tensor; its elements are doubles. -/
def tensorProxy (name : Option Name) (v : Value) : WorkspaceM TensorProxy :=
  match v with
  | .tensor shape =>
    TensorSpec.build
      { name
        shape := Shape.toExtents shape
        device := some (.ok .cpu)
        dtype := some (.ok { scalar := .float64 }) }
  | v => throw (.unsupportedOperation "tensorproxy" v.describe)

/-- The language context that records into the graph of `r`. -/
def context (r : Recorder) : LanguageContext where
  name := "recording"
  elementwiseUnary := r.unary
  elementwiseBinary := r.binary
  getItem := r.getItem
  size := size
  method? := r.method?
  isTensor v := v matches .tensor _
  tensorProxy := tensorProxy

theorem keepsDefaults_context (r : Recorder) : r.context.KeepsDefaults := ⟨rfl, rfl⟩

@[simp] theorem unary_context (r : Recorder) : r.context.unary = r.unary :=
  r.keepsDefaults_context.unary

@[simp] theorem binary_context (r : Recorder) : r.context.binary = r.binary :=
  r.keepsDefaults_context.binary

end ProxyTrace.Recorder
