import ProxyTrace.Proofs.Plan
import ProxyTrace.Proofs.Recorder.WellFormed

/-!
# The plans of a recorder

Each call that a recorder answers is a plan, made from the operands alone, and then carried out
(`Recorder.unary_eq`, `Recorder.binary_eq_carryOut`, `Recorder.getItem_eq_carryOut`,
`Recorder.method?_eq_map`). The same is so of the constructions of proxies without a requested
name.
-/

namespace ProxyTrace

variable {α : Type}

/-- What is known of the tensor besides its symbol. -/
def TensorSpec.sketch (spec : TensorSpec) : Except Error Sketch := do
  return (Proxy.tensor ((← spec.resolve) ⟨"", ⟨0⟩⟩)).sketch

theorem TensorSpec.sketch_of_count {spec : TensorSpec} {shape : List Nat} {device : Device}
    {dtype : DType} {n : Nat} (hshape : spec.shapeOf = .ok shape)
    (hdevice : spec.deviceOf = .ok device) (hdtype : spec.dtypeOf = .ok dtype)
    (hcount : Shape.numel? shape = some n) :
    spec.sketch = .ok (.tensor shape device dtype.toStrong dtype n shape.length) := by
  rw [sketch, resolve_of_ok hshape hdevice hdtype, hcount]
  rfl

/-- A plan that may fail, and then carrying it out. -/
def Plan.carryOut (r : Recorder) (plan : Except Error Plan) : WorkspaceM Value := do
  (← plan).perform r

theorem Plan.carryOut_bind (r : Recorder) (x : Except Error α) (f : α → Except Error Plan) :
    carryOut r (x >>= f) = (do carryOut r (f (← x))) := by
  cases x <;> rfl

theorem Plan.carryOut_pure (r : Recorder) (plan : Plan) :
    carryOut r (pure plan) = plan.perform r := rfl

namespace Recorder

variable (r : Recorder)

open Plan

/-- One output, or the two of `divmod`. -/
def planResults (op : BinaryOp) (args : List Value) (k : Sketch) : Plan :=
  if op = .divmod then .recordTwice op.name args k else .record op.name args k

def planUnary (op : UnaryOp) (a : Value) : Except Error Plan :=
  match a with
  | .number n => do return .answer (.number (← n.unary op))
  | .proxy (.number p) => do
    let kind ← orUnsupported op.name p.kind.name (p.kind.unary? op)
    return .record op.name [a] (.number kind none)
  | .proxy (.tensor t) => do return .record op.name [a] (← TensorSpec.sketch { like := t })
  | a => a.invalid op.name

def planBinaryTensor (op : BinaryOp) (a b : Value) (like : TensorProxy) (shape : List Nat) :
    Except Error Plan := do
  let dtype := like.trueDtype.binary op
  let spec : TensorSpec := { like, shape := Shape.toExtents shape, dtype := some (.ok dtype) }
  return planResults op [a, b] (← spec.sketch)

def planBinary (op : BinaryOp) (a b : Value) : Except Error Plan :=
  match a.tensorProxy?, b.tensorProxy? with
  | some t, some u => do planBinaryTensor op a b t (← Shape.binary op t.shape u.shape)
  | some t, none => do
    checkScalar op b
    planBinaryTensor op a b t t.shape
  | none, some u => do
    checkScalar op a
    planBinaryTensor op a b u u.shape
  | none, none =>
    if a.numberProxy?.isSome || b.numberProxy?.isSome then do
      let j ← a.kind op.name
      let k ← b.kind op.name
      let kind ← orUnsupported op.name s!"{j} and {k}" ((j.promote k).binary? op)
      return planResults op [a, b] (.number kind none)
    else do
      return .answer (← Value.evaluate op a b)

/-- The record of a tensor like `t` but for its shape. -/
def planReshaped (op : String) (args : List Value) (t : TensorProxy) (shape : List Nat) :
    Except Error Plan := do
  let spec : TensorSpec := { like := t, shape := Shape.toExtents shape }
  return .record op args (← spec.sketch)

def planGetItem (a key : Value) : Except Error Plan :=
  match a with
  | .proxy (.tensor t) => do
    let shape ← Shape.select t.ndim (keys key) t.shape
    planReshaped "get_item" [a, key] t shape
  | a => throw (.unsupportedOperation "get_item" a.describe)

def planElementwise (op : String) (args : List Value) : Except Error Plan := do
  let t ← receiver op args
  let dtype := if t.dtype.isFractional then t.trueDtype else { scalar := .float32 }
  let spec : TensorSpec := { like := t, dtype := some (.ok dtype) }
  return .record op args (← spec.sketch)

def planReduction (op : String) (args : List Value) : Except Error Plan := do
  let t ← receiver op args
  let shape ← match args[1]? with
    | some dim => do
      let dim ← Shape.axis op t.ndim (← dim.knownInt op)
      pure (t.shape.eraseIdx dim)
    | none => pure []
  planReshaped op args t shape

def planReshape (args : List Value) : Except Error Plan := do
  let op := "reshape"
  let t ← receiver op args
  let shape ← (extents (args.drop 1)).mapM (Value.knownInt op)
  if (Shape.wordCount? shape).map (·.toInt.toNat) = some t.numel then
    let spec : TensorSpec := { like := t, shape }
    return .record op args (← spec.sketch)
  else
    throw (.invalidShape shape s!"cannot reshape {t.numel} elements")

def planTranspose (args : List Value) : Except Error Plan := do
  let op := "t"
  let t ← receiver op args
  if 2 < t.ndim then throw (.unsupportedOperation op s!"a tensor of rank {t.ndim}")
  planReshaped op args t t.shape.reverse

def planMethod? (name : String) : Option (List Value → Except Error Plan) :=
  match name with
  | "exp" | "log" | "relu" => some (planElementwise name)
  | "sum" | "mean" => some (planReduction name)
  | "reshape" => some planReshape
  | "t" => some planTranspose
  | _ => none

end Recorder

/-! ### Constructions -/

theorem freshTensor_eq {spec : TensorSpec} (hname : spec.name = none) :
    Recorder.freshTensor spec = (do (← spec.sketch).draw : WorkspaceM Value) := by
  rw [Recorder.freshTensor, TensorSpec.build, TensorSpec.sketch, hname]
  cases hresolve : spec.resolve with
  | error e => rfl
  | ok f =>
    obtain ⟨shape, device, dtype, numel, -, -, -, -, rfl⟩ := TensorSpec.resolve_eq_ok hresolve
    simp only [bind_assoc, pure_bind]
    rfl

theorem freshNumber_eq (kind : NumberKind) :
    Recorder.freshNumber kind = (Sketch.number kind none).draw := by
  rw [Recorder.freshNumber, NumberProxy.make_eq]
  simp only [bind_assoc, pure_bind]
  rfl

namespace Recorder

variable (r : Recorder)

open Plan

theorem record_freshTensor {spec : TensorSpec} (hname : spec.name = none) (op : String)
    (args : List Value) :
    (do WorkspaceM.record r op args (← freshTensor spec)) =
      carryOut r (do return .record op args (← spec.sketch)) := by
  rw [freshTensor_eq hname, carryOut_bind]
  simp only [bind_assoc]
  rfl

theorem record_results (op : BinaryOp) (args : List Value) (k : Sketch) :
    (do WorkspaceM.record r op.name args (← results op k.draw)) =
      (planResults op args k).perform r := by
  unfold results planResults
  split
  · simp only [bind_assoc, pure_bind]
    rfl
  · rfl

theorem unary_eq (op : UnaryOp) (a : Value) : r.unary op a = carryOut r (planUnary op a) := by
  have hinvalid (v : Value) : (liftM (v.invalid op.name : Except Error Value) : WorkspaceM Value) =
      carryOut r (v.invalid op.name) := rfl
  cases a with
  | number n => simp only [unary, planUnary, carryOut_bind, carryOut_pure, perform]
  | proxy p =>
    cases p with
    | number p =>
      simp only [unary, planUnary, carryOut_bind, carryOut_pure, perform, freshNumber_eq]
    | tensor t => exact r.record_freshTensor rfl ..
    | untyped σ => exact hinvalid _
  | _ => exact hinvalid _

theorem binaryTensor_eq (op : BinaryOp) (a b : Value) (like : TensorProxy) (shape : List Nat) :
    r.binaryTensor op a b like shape = carryOut r (planBinaryTensor op a b like shape) := by
  dsimp only [binaryTensor, planBinaryTensor]
  rw [freshTensor_eq rfl, carryOut_bind]
  -- the sketch is the same for both results, so that it fails before the first is drawn
  generalize TensorSpec.sketch _ = sketch
  cases sketch with
  | error e =>
    unfold results
    split <;> rfl
  | ok k => exact r.record_results op [a, b] k

theorem binary_eq_carryOut (op : BinaryOp) (a b : Value) :
    r.binary op a b = carryOut r (planBinary op a b) := by
  unfold binary planBinary
  cases a.tensorProxy? with
  | some t => cases b.tensorProxy? <;> simp only [carryOut_bind, binaryTensor_eq]
  | none =>
    cases b.tensorProxy? with
    | some u => simp only [carryOut_bind, binaryTensor_eq]
    | none =>
      dsimp only
      split
      · simp only [carryOut_bind, carryOut_pure, freshNumber_eq, record_results]
      · rw [carryOut_bind]
        exact (bind_pure _).symm

/-- A tensor that is built and recorded. -/
theorem record_build {spec : TensorSpec} (hname : spec.name = none) (op : String)
    (args : List Value) :
    (do WorkspaceM.record r op args (← spec.build : Value)) =
      carryOut r (do return .record op args (← spec.sketch)) := by
  rw [← r.record_freshTensor hname, freshTensor]
  simp only [bind_assoc, pure_bind]

theorem record_reshaped (op : String) (args : List Value) (t : TensorProxy) (shape : List Nat) :
    (do WorkspaceM.record r op args (← reshaped t shape : Value)) =
      carryOut r (planReshaped op args t shape) := r.record_build rfl op args

theorem getItem_eq_carryOut (a key : Value) :
    r.getItem a key = carryOut r (planGetItem a key) := by
  have hother (v : Value) :
      (throw (.unsupportedOperation "get_item" v.describe) : WorkspaceM Value) =
        carryOut r (throw (.unsupportedOperation "get_item" v.describe)) := rfl
  cases a with
  | proxy p =>
    cases p with
    | tensor t => simp only [getItem, planGetItem, carryOut_bind, record_reshaped]
    | _ => exact hother _
  | _ => exact hother _

/-! ### Methods -/

theorem elementwise_eq (op : String) (args : List Value) :
    r.elementwise op args = carryOut r (planElementwise op args) := by
  unfold elementwise planElementwise
  rw [carryOut_bind]
  congr 1
  funext t
  exact r.record_build rfl op args

theorem reduction_eq (op : String) (args : List Value) :
    r.reduction op args = carryOut r (planReduction op args) := by
  unfold reduction planReduction
  rw [carryOut_bind]
  congr 1
  funext t
  cases args[1]? with
  | some dim => simp only [carryOut_bind, record_reshaped, pure_bind]
  | none => simp only [record_reshaped, pure_bind]

theorem reshape_eq (args : List Value) : r.reshape args = carryOut r (planReshape args) := by
  unfold reshape planReshape
  simp only [carryOut_bind]
  congr 1
  funext t
  congr 1
  funext shape
  split
  · exact r.record_build rfl ..
  · rfl

theorem transpose_eq (args : List Value) : r.transpose args = carryOut r (planTranspose args) := by
  unfold transpose planTranspose
  simp only [carryOut_bind]
  congr 1
  funext t
  split
  · rfl
  · exact r.record_reshaped ..

/-- The methods of a recorder, by their plans. -/
theorem method?_eq_map (name : String) :
    r.method? name = (planMethod? name).map fun plan args => carryOut r (plan args) := by
  unfold method? planMethod?
  split
  · exact congrArg some (funext (r.elementwise_eq _))
  · exact congrArg some (funext (r.elementwise_eq _))
  · exact congrArg some (funext (r.elementwise_eq _))
  · exact congrArg some (funext (r.reduction_eq _))
  · exact congrArg some (funext (r.reduction_eq _))
  · exact congrArg some (funext r.reshape_eq)
  · exact congrArg some (funext r.transpose_eq)
  · simp [*]

end Recorder

end ProxyTrace
