import ProxyTrace.Construct
import ProxyTrace.LanguageContext
import ProxyTrace.Recorder.Rules

/-!
The methods that a recorder gives to tensor proxies. Each takes its receiver first, and records
all of its arguments.
-/

namespace ProxyTrace.Recorder

/-- The receiver of a method. -/
def receiver (op : String) (args : List Value) : Except Error TensorProxy :=
  match args with
  | .proxy (.tensor t) :: _ => .ok t
  | v :: _ => v.invalid op
  | [] => .error (.invalidOperand op "no receiver")

/-- A tensor like `t` but for its shape. -/
def reshaped (t : TensorProxy) (shape : List Nat) : WorkspaceM TensorProxy :=
  TensorSpec.build { like := t, shape := Shape.toExtents shape }

/-- A function of each element, which is fractional. -/
def elementwise (r : Recorder) (op : String) : Method := fun args => do
  let t ← receiver op args
  let dtype := if t.dtype.isFractional then t.trueDtype else { scalar := .float32 }
  WorkspaceM.record r op args (← TensorSpec.build { like := t, dtype := some (.ok dtype) })

/-- A reduction over the axis that is given, or else over all. -/
def reduction (r : Recorder) (op : String) : Method := fun args => do
  let t ← receiver op args
  let shape ← match args[1]? with
    | some dim => do
      let dim ← Shape.axis op t.ndim (← dim.knownInt op)
      pure (t.shape.eraseIdx dim)
    | none => pure []
  WorkspaceM.record r op args (← reshaped t shape)

/-- Extents that are given one by one or as a tuple. -/
def extents : List Value → List Value
  | [.tuple items] => items
  | dims => dims

/-- The same elements in another shape. -/
def reshape (r : Recorder) : Method := fun args => do
  let op := "reshape"
  let t ← receiver op args
  let shape ← ((extents (args.drop 1)).mapM (Value.knownInt op) : Except Error (List Int64))
  if (Shape.wordCount? shape).map (·.toInt.toNat) = some t.numel then
    WorkspaceM.record r op args (← TensorSpec.build { like := t, shape })
  else
    throw (.invalidShape shape s!"cannot reshape {t.numel} elements")

/-- The tensor with its axes exchanged. -/
def transpose (r : Recorder) : Method := fun args => do
  let op := "t"
  let t ← receiver op args
  if 2 < t.ndim then throw (.unsupportedOperation op s!"a tensor of rank {t.ndim}")
  WorkspaceM.record r op args (← reshaped t t.shape.reverse)

def method? (r : Recorder) (name : String) : Option Method :=
  match name with
  | "exp" | "log" | "relu" => some (r.elementwise name)
  | "sum" | "mean" => some (r.reduction name)
  | "reshape" => some r.reshape
  | "t" => some r.transpose
  | _ => none

end ProxyTrace.Recorder
