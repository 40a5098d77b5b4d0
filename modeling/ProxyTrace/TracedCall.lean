import ProxyTrace.Recorder.Context
import ProxyTrace.Session

/-!
Tracing a function: its arguments are lifted to proxies, on which it runs in a trace and with a
recorder of its own.
-/

namespace ProxyTrace

/-! ### Lifting values to proxies -/

/-- Whether the active context takes a value for a native tensor. -/
def Session.isTensor (s : Session) (v : Value) : Bool := s.context?.elim false (·.isTensor v)

/-- A number as a proxy of its kind and value; any other value as it is. -/
def liftNumber (v : Value) (name : Option Name) : WorkspaceM Value := do
  match v with
  | .number n => return (← NumberProxy.make n.kind n name : Value)
  | v => return v

/-- A native tensor of the active context, or a number, as a proxy; any other value as it is. -/
def lift (v : Value) (name : Option Name := none) : SessionM Value := do
  match ← SessionM.context? with
  | some c => if c.isTensor v then return (← c.tensorProxy name v : Value) else liftNumber v name
  | none => liftNumber v name

/-- Whether `lift` answers a proxy for a native value. -/
def Session.isProxyable (s : Session) (v : Value) : Bool :=
  match v with
  | .number _ => true
  | v => s.isTensor v

/-! ### Traced calls -/

/-- What tracing a function produces. -/
structure TracedCall where
  graph : Graph
  inputs : List Value
  output : Value
  trace : Trace

section

variable {m : Type → Type} [Monad m] [MonadStateOf Session m]

/-- Proxies of the arguments, and what `f` answers on them. -/
def callOnProxies (args : List Value) (f : List Value → m (Except Error Value)) :
    m (Except Error (List Value × Value)) := do
  match ← SessionM.attempt (args.mapM fun v => lift v) with
  | .error e => return .error e
  | .ok inputs => return (← f inputs).map fun output => (inputs, output)

/-- Runs `f` on proxies of the arguments in a new trace, and records it. -/
def traceCall (args : List Value) (f : List Value → m (Except Error Value)) :
    m (Except Error TracedCall) := do
  let r ← modifyGetThe Session (Session.onWorkspace Workspace.newRecorder)
  let (trace, result) ← withTrace default <| withContext r.context <| callOnProxies args f
  match result with
  | .error e => return .error e
  | .ok (inputs, output) =>
    let graph ← modifyGetThe Session (Session.onWorkspace (Workspace.takeGraph r))
    return .ok { graph, inputs, output, trace }

end

end ProxyTrace
