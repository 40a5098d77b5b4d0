import ProxyTrace.Proofs.Calls

/-!
# What computations use

A computation of the library is put together from a few operations: it looks at the innermost
trace, takes names from it or keeps a reference to it, and records in the graphs of recorders
(`WorkspaceM.Uses`); in a session it also asks the active context (`SessionM.Uses`). The recorders
that may be touched are given. All that a recorder does uses that recorder alone
(`Recorder.uses_context`), and a call uses the recorders that it names (`Call.uses`).
-/

namespace ProxyTrace

variable {α β : Type} {K K' : Recorder → Prop}

/-- The computation is put together from operations on the innermost trace and on the graphs of
the given recorders. -/
inductive WorkspaceM.Uses (K : Recorder → Prop) : {α : Type} → WorkspaceM α → Prop
  | pure {α : Type} (a : α) : Uses K (pure a)
  | except {α : Type} (x : Except Error α) : Uses K (liftM x)
  | active : Uses K active
  | checkOwner (σ : Symbol) : Uses K (checkOwner σ)
  | checkOwners (vs : List Value) : Uses K (checkOwners vs)
  | allocate (requested : Option Name) : Uses K (allocate requested)
  | keep : Uses K keep
  | record {r : Recorder} (hr : K r) (op : String) (args : List Value) (output : Value) :
      Uses K (record r op args output)
  | bind {α β : Type} {x : WorkspaceM α} {f : α → WorkspaceM β} (hx : Uses K x)
      (hf : ∀ a, Uses K (f a)) : Uses K (x >>= f)

namespace WorkspaceM

theorem Uses.map {x : WorkspaceM α} (hx : x.Uses K) (f : α → β) : Uses K (f <$> x) := by
  rw [map_eq_pure_bind]
  exact hx.bind fun a => .pure (f a)

theorem Uses.throw (e : Error) : Uses K (throw e : WorkspaceM α) := .except (.error e)

theorem Uses.mono {x : WorkspaceM α} (hx : x.Uses K) (h : ∀ r, K r → K' r) : x.Uses K' := by
  induction hx with
  | pure a => exact .pure a
  | except x => exact .except x
  | active => exact .active
  | checkOwner σ => exact .checkOwner σ
  | checkOwners vs => exact .checkOwners vs
  | allocate requested => exact .allocate requested
  | keep => exact .keep
  | record hr op args output => exact .record (h _ hr) op args output
  | bind _ _ ihx ihf => exact .bind ihx ihf

end WorkspaceM

open WorkspaceM

/-- All that a context does uses the given recorders only. -/
structure LanguageContext.Uses (K : Recorder → Prop) (c : LanguageContext) : Prop where
  unary : ∀ op a, (c.unary op a).Uses K
  binary : ∀ op a b, (c.binary op a b).Uses K
  getItem : ∀ a key, (c.getItem a key).Uses K
  size : ∀ a, (c.size a).Uses K
  method? : ∀ name f, c.method? name = some f → ∀ args, (f args).Uses K
  tensorProxy : ∀ name v, (c.tensorProxy name v).Uses K

/-- A context that uses these recorders uses no more than those. -/
theorem LanguageContext.Uses.mono {c : LanguageContext} (hc : c.Uses K) (h : ∀ r, K r → K' r) :
    c.Uses K' where
  unary op a := (hc.unary op a).mono h
  binary op a b := (hc.binary op a b).mono h
  getItem a key := (hc.getItem a key).mono h
  size a := (hc.size a).mono h
  method? name f hf args := (hc.method? name f hf args).mono h
  tensorProxy name v := (hc.tensorProxy name v).mono h

/-! ### Constructions and recorders -/

/-- Constructions take a name from the innermost trace, and touch no graph. -/
theorem NumberProxy.uses_make (kind : NumberKind) (value : Option Number) (name : Option Name) :
    (make kind value name).Uses K := by
  rw [make_eq]
  exact .bind (.except _) fun _ => .bind (.allocate _) fun _ => .pure _

theorem TensorSpec.uses_build (s : TensorSpec) : s.build.Uses K :=
  .bind (.except _) fun _ => .bind (.allocate _) fun _ => .pure _

theorem Proxy.uses_makeUntyped (name : Option Name) : (makeUntyped name).Uses K :=
  .map (.allocate name) _

theorem Proxy.uses_rename (p : Proxy) (name : Name) : (p.rename name).Uses K := by
  cases p with
  | untyped σ => exact uses_makeUntyped name
  | number p => exact .bind (.allocate name) fun _ => .pure _
  | tensor t => exact .bind (TensorSpec.uses_build _) fun _ => .pure _

theorem uses_makeName : makeName.Uses K := .map (.allocate none) _

theorem uses_addName (name : Name) : (addName name).Uses K := .map (.allocate name) _

namespace Recorder

variable {r : Recorder}

theorem uses_freshNumber (kind : NumberKind) : (freshNumber kind).Uses K :=
  .bind (NumberProxy.uses_make ..) fun _ => .pure _

theorem uses_freshTensor (spec : TensorSpec) : (freshTensor spec).Uses K :=
  .bind spec.uses_build fun _ => .pure _

/-- Both results of an operator are made in the same way. -/
theorem uses_results (op : BinaryOp) {x : WorkspaceM Value} (hx : x.Uses K) :
    (results op x).Uses K := by
  rw [results]
  split
  · exact .bind hx fun _ => .bind hx fun _ => .pure _
  · exact hx

/-- A recorder touches a graph at the end only, and that is its own. -/
theorem uses_unary (hr : K r) (op : UnaryOp) (a : Value) : (r.unary op a).Uses K := by
  unfold unary
  split
  · exact .bind (.except _) fun _ => .pure _
  · exact .bind (.except _) fun kind => .bind (uses_freshNumber kind) fun _ => .record hr ..
  · exact .bind (uses_freshTensor _) fun _ => .record hr ..
  · exact .except _

theorem uses_binaryTensor (hr : K r) (op : BinaryOp) (a b : Value) (like : TensorProxy)
    (shape : List Nat) : (r.binaryTensor op a b like shape).Uses K :=
  .bind (uses_results op (uses_freshTensor _)) fun _ => .record hr ..

theorem uses_binary (hr : K r) (op : BinaryOp) (a b : Value) : (r.binary op a b).Uses K := by
  unfold binary
  split
  · exact .bind (.except _) fun _ => uses_binaryTensor hr ..
  · exact .bind (.except _) fun _ => uses_binaryTensor hr ..
  · exact .bind (.except _) fun _ => uses_binaryTensor hr ..
  · split
    · exact .bind (.except _) fun _ => .bind (.except _) fun _ => .bind (.except _) fun kind =>
        .bind (uses_results op (uses_freshNumber kind)) fun _ => .record hr ..
    · exact .except _

theorem uses_getItem (hr : K r) (a key : Value) : (r.getItem a key).Uses K := by
  unfold getItem
  split
  · exact .bind (.except _) fun _ => .bind (TensorSpec.uses_build _) fun _ => .record hr ..
  · exact .throw _

theorem uses_size (a : Value) : (size a).Uses K := by
  unfold size
  split
  · exact .pure _
  · exact .throw _

theorem uses_tensorProxy (name : Option Name) (v : Value) : (tensorProxy name v).Uses K := by
  unfold tensorProxy
  split
  · exact TensorSpec.uses_build _
  · exact .throw _

theorem uses_elementwise (hr : K r) (op : String) (args : List Value) :
    (r.elementwise op args).Uses K :=
  .bind (.except _) fun _ => .bind (TensorSpec.uses_build _) fun _ => .record hr ..

/-- The axis is optional, and one shape or the other is recorded. -/
theorem uses_reduction (hr : K r) (op : String) (args : List Value) :
    (r.reduction op args).Uses K := by
  refine .bind (.except _) fun t => ?_
  have hrecord (shape : List Nat) :
      Uses K (do WorkspaceM.record r op args (← reshaped t shape : TensorProxy)) :=
    .bind (TensorSpec.uses_build _) fun _ => .record hr ..
  dsimp only
  split
  · exact .bind (.except _) fun _ => .bind (.except _) fun _ => .bind (.pure _) hrecord
  · exact .bind (.pure _) hrecord

theorem uses_reshape (hr : K r) (args : List Value) : (r.reshape args).Uses K := by
  refine .bind (.except _) fun _ => .bind (.except _) fun _ => ?_
  split
  · exact .bind (TensorSpec.uses_build _) fun _ => .record hr ..
  · exact .throw _

theorem uses_transpose (hr : K r) (args : List Value) : (r.transpose args).Uses K := by
  refine .bind (.except _) fun t => ?_
  have hrecord : Uses K (do
      WorkspaceM.record r "t" args (← reshaped t t.shape.reverse : TensorProxy)) :=
    .bind (TensorSpec.uses_build _) fun _ => .record hr ..
  dsimp only
  split
  · exact .bind (.throw _) fun _ => hrecord
  · exact hrecord

/-- All methods of a recorder record with it. -/
theorem uses_method? (hr : K r) {name : String} {f : Method} (hf : r.method? name = some f)
    (args : List Value) : (f args).Uses K := by
  unfold method? at hf
  split at hf
  · cases hf; exact uses_elementwise hr ..
  · cases hf; exact uses_elementwise hr ..
  · cases hf; exact uses_elementwise hr ..
  · cases hf; exact uses_reduction hr ..
  · cases hf; exact uses_reduction hr ..
  · cases hf; exact uses_reshape hr args
  · cases hf; exact uses_transpose hr args
  · cases hf

/-- Whatever is asked of a recorder, it uses itself alone. -/
theorem uses_context (hr : K r) : r.context.Uses K where
  unary := by
    rw [unary_context]
    exact uses_unary hr
  binary := by
    rw [binary_context]
    exact uses_binary hr
  getItem := uses_getItem hr
  size := uses_size
  method? _ _ := uses_method? hr
  tensorProxy := uses_tensorProxy

end Recorder

/-! ### Computations in a session -/

/-- The computation is put together from operations on the workspace and from what the active
context answers, and touches the graphs of the given recorders only if the context does. -/
inductive SessionM.Uses (K : Recorder → Prop) : {α : Type} → SessionM α → Prop
  | pure {α : Type} (a : α) : Uses K (pure a)
  | except {α : Type} (x : Except Error α) : Uses K (liftM x)
  | workspace {α : Type} {x : WorkspaceM α} (hx : x.Uses K) : Uses K (liftM x)
  | ask {α : Type} {f : Option LanguageContext → SessionM α}
      (hf : ∀ c?, (∀ c ∈ c?, c.Uses K) → Uses K (f c?)) : Uses K (context? >>= f)
  | bind {α β : Type} {x : SessionM α} {f : α → SessionM β} (hx : Uses K x)
      (hf : ∀ a, Uses K (f a)) : Uses K (x >>= f)

namespace SessionM

theorem Uses.throw (e : Error) : Uses K (throw e : SessionM α) := .except (.error e)

/-- What is done to each item in turn. -/
theorem Uses.mapM {γ : Type} {f : γ → SessionM β} (hf : ∀ a, (f a).Uses K) (as : List γ) :
    Uses K (as.mapM f) := by
  induction as with
  | nil => exact .pure _
  | cons a as ih =>
    rw [List.mapM_cons]
    exact .bind (hf a) fun _ => .bind ih fun _ => .pure _

end SessionM

open SessionM

namespace TensorProxy

/-- A tensor proxy asks the active context, if its owner is the innermost trace. -/
theorem uses_context_bind (op : String) (t : TensorProxy) {f : LanguageContext → SessionM α}
    (hf : ∀ c, c.Uses K → (f c).Uses K) : Uses K (t.context op >>= f) := by
  rw [context, bind_assoc]
  refine .ask fun c? hc => ?_
  cases c? with
  | none => exact .throw _
  | some c =>
    simp only [bind_assoc, pure_bind]
    exact .bind (.workspace (.checkOwner _)) fun _ => hf c (hc c rfl)

theorem uses_unary (op : UnaryOp) (t : TensorProxy) : (t.unary op).Uses K :=
  t.uses_context_bind _ fun _ hc => .workspace (hc.unary op t)

theorem uses_binary (op : BinaryOp) (t : TensorProxy) (other : Value) :
    (t.binary op other).Uses K :=
  t.uses_context_bind _ fun _ hc =>
    .bind (.workspace (.checkOwners _)) fun _ => .workspace (hc.binary op t other)

theorem uses_reflected (op : BinaryOp) (t : TensorProxy) (other : Value) :
    (t.reflected op other).Uses K :=
  t.uses_context_bind _ fun _ hc =>
    .bind (.workspace (.checkOwners _)) fun _ => .workspace (hc.binary op other t)

theorem uses_getItem (t : TensorProxy) (key : Value) : (t.getItem key).Uses K :=
  t.uses_context_bind _ fun _ hc =>
    .bind (.workspace (.checkOwners _)) fun _ => .workspace (hc.getItem t key)

theorem uses_size (t : TensorProxy) : t.size.Uses K :=
  t.uses_context_bind _ fun _ hc => .workspace (hc.size t)

theorem uses_attribute (t : TensorProxy) (name : String) : (t.attribute name).Uses K := by
  refine t.uses_context_bind _ fun c _ => ?_
  split
  · exact .pure _
  · exact .throw _

end TensorProxy

namespace NumberProxy

theorem uses_unary (op : UnaryOp) (p : NumberProxy) : (p.unary op).Uses K := by
  refine .ask fun c? hc => ?_
  split
  · rename_i c
    exact .bind (.workspace (.checkOwner _)) fun _ => .workspace ((hc c rfl).unary op p)
  · split
    · exact .bind (.except _) fun _ => .pure _
    · exact .throw _

/-- Known numbers are compared without a context, and a tensor beside them asks it. -/
theorem uses_compareKnown (op : BinaryOp) (a b : Value) : (compareKnown op a b).Uses K := by
  unfold compareKnown
  split
  · exact TensorProxy.uses_reflected ..
  · exact TensorProxy.uses_binary ..
  · exact .bind (.except _) fun _ => .bind (.except _) fun _ => .bind (.except _) fun _ => .pure _

/-- A number proxy asks the active context, if there is one, for operators of arithmetic. -/
theorem uses_dispatch (op : BinaryOp) (p : NumberProxy) (a b : Value) :
    (p.dispatch op a b).Uses K := by
  unfold dispatch
  split
  · exact .throw _
  · split
    · exact uses_compareKnown op a b
    · refine .ask fun c? hc => ?_
      split
      · rename_i c
        exact .bind (.workspace (.checkOwners _)) fun _ => .workspace ((hc c rfl).binary op a b)
      · exact .except _

end NumberProxy

theorem Proxy.uses_binary (op : BinaryOp) (p : Proxy) (other : Value) :
    (p.binary op other).Uses K := by
  cases p with
  | untyped σ => exact .throw _
  | number p => exact p.uses_dispatch op p other
  | tensor t => exact t.uses_binary op other

theorem Proxy.uses_reflected (op : BinaryOp) (p : Proxy) (other : Value) :
    (p.reflected op other).Uses K := by
  cases p with
  | untyped σ => exact .throw _
  | number p => exact p.uses_dispatch op other p
  | tensor t => exact t.uses_reflected op other

theorem Value.uses_unary (op : UnaryOp) (a : Value) : (a.unary op).Uses K := by
  unfold unary
  split
  · rename_i p
    cases p with
    | untyped σ => exact .throw _
    | number p => exact p.uses_unary op
    | tensor t => exact t.uses_unary op
  · exact .bind (.except _) fun _ => .pure _
  · exact .except _

/-- The first proxy among the operands decides, and native numbers ask no context. -/
theorem Value.uses_binary (op : BinaryOp) (a b : Value) : (a.binary op b).Uses K := by
  unfold binary
  split
  · exact Proxy.uses_binary ..
  · exact Proxy.uses_reflected ..
  · exact .bind (.except _) fun _ => .pure _
  · exact .except _
  · exact .except _

theorem Value.uses_getItem (a key : Value) : (a.getItem key).Uses K := by
  unfold getItem
  split
  · exact TensorProxy.uses_getItem ..
  · exact .throw _

theorem Request.uses_run (q : Request) : q.run.Uses K := by
  cases q with
  | unary op a => exact a.uses_unary op
  | binary op a b => exact a.uses_binary op b
  | reflected op p other => exact p.uses_reflected op other
  | size t => exact t.uses_size
  | method t name => exact t.uses_attribute name

/-- A hook that is called by name, past the checks of operators. -/
theorem Request.uses_hook {c : LanguageContext} (hc : c.Uses K) (q : Request) :
    (q.hook c).Uses K := by
  cases q with
  | unary op a => exact .workspace (hc.unary op a)
  | binary op a b => exact .workspace (hc.binary op a b)
  | reflected op p other => exact .workspace (hc.binary op other (.proxy p))
  | size t => exact .workspace (hc.size t)
  | method t name =>
    rw [hook]
    split
    · exact .pure _
    · exact .throw _

theorem uses_liftNumber (v : Value) (name : Option Name) : (liftNumber v name).Uses K := by
  unfold liftNumber
  split
  · exact .bind (NumberProxy.uses_make ..) fun _ => .pure _
  · exact .pure _

/-- A context makes proxies for its own native tensors, and the library does for numbers. -/
theorem uses_lift (v : Value) (name : Option Name) : (lift v name).Uses K := by
  refine .ask fun c? hc => ?_
  split
  · rename_i c
    split
    · exact .bind (.workspace ((hc c rfl).tensorProxy name v)) fun _ => .pure _
    · exact .workspace (uses_liftNumber v name)
  · exact .workspace (uses_liftNumber v name)

namespace Call

/-- The recorder that a call names. -/
def recorder? : Call → Option Recorder
  | hook r _ | hookGetItem r .. | hookTensor r .. | method r .. => some r
  | _ => none

/-- A call uses the recorder that it names, and what the active context uses. -/
theorem uses (c : Call) (hr : ∀ r ∈ c.recorder?, K r) : c.run.Uses K := by
  cases c with
  | request q => exact .bind q.uses_run fun _ => .pure _
  | getItem a key => exact .bind (a.uses_getItem key) fun _ => .pure _
  | hook r q => exact .bind (q.uses_hook (Recorder.uses_context (hr r rfl))) fun _ => .pure _
  | hookGetItem r a key =>
    exact .bind (.workspace (Recorder.uses_getItem (hr r rfl) a key)) fun _ => .pure _
  | hookTensor r name v =>
    exact .bind (.workspace (Recorder.uses_tensorProxy name v)) fun _ => .pure _
  | method r name args =>
    rw [run]
    split
    · exact .bind (.workspace (Recorder.uses_method? (hr r rfl) ‹_› args)) fun _ => .pure _
    · exact .throw _
  | makeNumber kind value name =>
    exact .bind (.workspace (NumberProxy.uses_make ..)) fun _ => .pure _
  | makeUntyped name => exact .bind (.workspace (Proxy.uses_makeUntyped name)) fun _ => .pure _
  | build spec => exact .bind (.workspace spec.uses_build) fun _ => .pure _
  | rename p name => exact .bind (.workspace (p.uses_rename name)) fun _ => .pure _
  | lift v name => exact .bind (uses_lift v name) fun _ => .pure _
  | cast p kinds target => exact .bind (.except _) fun _ => .pure _
  | makeName => exact .bind (.workspace uses_makeName) fun _ => .pure _
  | addName name => exact .bind (.workspace (uses_addName name)) fun _ => .pure _

end Call

end ProxyTrace
