import ProxyTrace.Proofs.Allocation
import ProxyTrace.Proofs.Ownership
import ProxyTrace.Recorder.Context

/-!
# What a recorder leaves behind

A call that a recorder answers is recorded in one way (`Workspace.Records`): all checks come first,
then the innermost trace gives out one name for each proxy of the answer, and then one node is
appended. So a call that fails has changed nothing. The two draws of `divmod` are no exception:
what was drawn once can be drawn again (`Recorder.Draws`).

Only a call with a number or tensor proxy among its operands is recorded; an operator on native
numbers changes nothing (`Recorder.ensures_unary`, `Recorder.ensures_binary`).
-/

namespace ProxyTrace

variable {α β : Type} {w w' : Workspace} {op : String} {args : List Value}

/-- No value is known for the proxy. -/
def Proxy.Unknown : Proxy → Prop
  | number p => p.value = none
  | _ => True

namespace Value

/-- A proxy for a number or a tensor. -/
def isSymbolic (v : Value) : Bool := v.numberProxy?.isSome || v.tensorProxy?.isSome

/-- What is answered to a call that is recorded: one proxy, or two for `divmod`, of unknown
value. -/
structure IsResult (op : String) (v : Value) : Prop where
  unknown : ∀ p ∈ v.proxies, p.Unknown
  shape : if op = BinaryOp.divmod.name then ∃ p q, v = tuple [proxy p, proxy q]
    else ∃ p, v = proxy p

theorem isResult_proxy {p : Proxy} (hp : p.Unknown) (hop : op ≠ BinaryOp.divmod.name) :
    (proxy p).IsResult op := by
  refine ⟨?_, by rw [if_neg hop]; exact ⟨p, rfl⟩⟩
  intro q hq
  rw [List.mem_singleton.1 hq]
  exact hp

theorem isResult_pair {p q : Proxy} (hp : p.Unknown) (hq : q.Unknown) :
    (tuple [proxy p, proxy q]).IsResult BinaryOp.divmod.name := by
  refine ⟨?_, by rw [if_pos rfl]; exact ⟨p, q, rfl⟩⟩
  intro q' hq'
  rcases List.mem_cons.1 hq' with rfl | hq'
  · exact hp
  · rw [List.mem_singleton.1 hq']
    exact hq

@[simp] theorem proxies_ofAnswer (x : Number.Answer) : (ofAnswer x).proxies = [] := by
  cases x <;> rfl

theorem proxies_of_evaluate {op : BinaryOp} {a b v : Value} (h : evaluate op a b = .ok v) :
    v.proxies = [] := by
  rw [evaluate] at h
  cases hx : a.known op.name with
  | error e => rw [hx] at h; cases h
  | ok x =>
    cases hy : b.known op.name with
    | error e => rw [hx, hy] at h; cases h
    | ok y =>
      rw [hx, hy] at h
      change ofAnswer <$> Number.binary op x y = .ok v at h
      cases hz : Number.binary op x y with
      | error e => rw [hz] at h; cases h
      | ok z =>
        rw [hz] at h
        cases h
        exact proxies_ofAnswer z

end Value

/-- The innermost trace gives out the symbols of the output, whose names are new to it, and then
the call is appended to the graph of the recorder. -/
def Workspace.Records (r : Recorder) (op : String) (args : List Value) (w : Workspace)
    (output : Value) (w' : Workspace) : Prop :=
  output.IsResult op ∧ ∃ t w₁, w.GivesOut t (output.proxies.map Proxy.symbol) w₁ ∧
    w' = w₁.record r (.ofCall op args output)

theorem BinaryOp.name_injective {op op' : BinaryOp} (h : op.name = op'.name) : op = op' := by
  have h' : ofName? op.name = ofName? op'.name := congrArg ofName? h
  simpa using h'

namespace Recorder

variable {r : Recorder} {x : WorkspaceM Value}

/-- A computation of one new proxy of unknown value, which can be repeated. -/
def Draws (x : WorkspaceM Value) : Prop :=
  x.Ensures fun w v w' =>
    (∃ p t, v = .proxy p ∧ p.Unknown ∧ w.GivesOut t [p.symbol] w') ∧
    ∃ v' w'', x.on w' = (.ok v', w'')

/-- What is drawn is checked first, without a look at the workspace, and then its name comes from
the source of the innermost trace. -/
theorem draws_of_allocate (y : Except Error α) {f : α → Symbol → Proxy}
    (hf : ∀ a, y = .ok a → ∀ σ, (f a σ).symbol = σ ∧ (f a σ).Unknown) :
    Draws do
      let a ← y
      return .proxy (f a (← WorkspaceM.allocate none)) := by
  apply WorkspaceM.Ensures.liftM_bind
  intro a ha
  refine (WorkspaceM.ensures_allocate none).bind_pure _ ?_
  rintro w σ w' ⟨⟨t, hgives⟩, -⟩
  obtain ⟨source, rfl⟩ := hgives.after
  refine ⟨⟨f a σ, t, rfl, (hf a ha σ).2, ?_⟩, ?_⟩
  · rwa [(hf a ha σ).1]
  -- the trace that gave out the name is still there, and its source always has another name
  · subst ha
    exact ⟨_, _, WorkspaceM.on_bind_ok (WorkspaceM.on_allocate_none rfl)⟩

theorem draws_freshNumber (k : NumberKind) : Draws (freshNumber k) := by
  have h : freshNumber k = (do
      let value ← (Except.ok none : Except Error (Option Number))
      return .proxy (.number ⟨← WorkspaceM.allocate none, k, value⟩)) := by
    rw [freshNumber, NumberProxy.make_eq]
    simp only [bind_assoc, pure_bind]
    rfl
  rw [h]
  apply draws_of_allocate
  rintro _ ⟨⟩ σ
  exact ⟨rfl, rfl⟩

theorem draws_freshTensor {spec : TensorSpec} (hname : spec.name = none) :
    Draws (freshTensor spec) := by
  have h : freshTensor spec = (do
      let tensor ← spec.resolve
      return .proxy (.tensor (tensor (← WorkspaceM.allocate none)))) := by
    rw [freshTensor, TensorSpec.build, hname]
    simp only [bind_assoc, pure_bind]
  rw [h]
  apply draws_of_allocate
  intro tensor htensor σ
  exact ⟨TensorSpec.symbol_of_resolve htensor σ, trivial⟩

theorem Draws.ensures_single (hx : Draws x) (hop : op ≠ BinaryOp.divmod.name) :
    x.Ensures fun w v w' =>
      v.IsResult op ∧ ∃ t, w.GivesOut t (v.proxies.map Proxy.symbol) w' := by
  refine hx.mono ?_
  rintro w _ w' ⟨⟨p, t, rfl, hp, hgives⟩, -⟩
  exact ⟨Value.isResult_proxy hp hop, t, hgives⟩

theorem Draws.ensures_pair (hx : Draws x) :
    WorkspaceM.Ensures (do return Value.tuple [← x, ← x]) fun w v w' =>
      v.IsResult BinaryOp.divmod.name ∧ ∃ t, w.GivesOut t (v.proxies.map Proxy.symbol) w' := by
  refine hx.bind_of_ok ?_
  rintro w _ w₁ ⟨⟨p, t, rfl, hp, hgives⟩, v', w', hagain⟩
  obtain ⟨⟨q, t₁, rfl, hq, hgives'⟩, -⟩ := hx.of_ok hagain
  refine ⟨_, w', WorkspaceM.on_bind_ok hagain, Value.isResult_pair hp hq, t, ?_⟩
  exact hgives.append hgives'

theorem Draws.ensures_results (hx : Draws x) (op : BinaryOp) :
    (results op x).Ensures fun w v w' =>
      v.IsResult op.name ∧ ∃ t, w.GivesOut t (v.proxies.map Proxy.symbol) w' := by
  by_cases hop : op = .divmod
  · subst hop
    exact hx.ensures_pair
  · rw [results, if_neg hop]
    exact hx.ensures_single fun h => hop (BinaryOp.name_injective h)

theorem ensures_record (hx : x.Ensures fun w v w' =>
      v.IsResult op ∧ ∃ t, w.GivesOut t (v.proxies.map Proxy.symbol) w') :
    WorkspaceM.Ensures (do WorkspaceM.record r op args (← x)) (Workspace.Records r op args) :=
  hx.bind_of_ok fun _ v w₁ ⟨hv, t, hgives⟩ => ⟨v, _, rfl, hv, t, w₁, hgives, rfl⟩

theorem ensures_record_build {spec : TensorSpec} (hname : spec.name = none)
    (hop : op ≠ BinaryOp.divmod.name) :
    WorkspaceM.Ensures (do WorkspaceM.record r op args (← spec.build : Value))
      (Workspace.Records r op args) := by
  have h : (do WorkspaceM.record r op args (← spec.build : Value)) =
      (do WorkspaceM.record r op args (← freshTensor spec)) := by
    simp only [freshTensor, bind_assoc, pure_bind]
  rw [h]
  exact ensures_record ((draws_freshTensor hname).ensures_single hop)

/-! ### The calls that a recorder answers -/

variable (r : Recorder)

theorem ensures_unary (op : UnaryOp) (a : Value) :
    (r.unary op a).Ensures fun w v w' =>
      if a.isSymbolic then w.Records r op.name [a] v w' else w' = w ∧ v.proxies = [] := by
  have hop : op.name ≠ BinaryOp.divmod.name := by cases op <;> decide
  unfold unary
  split
  · exact .liftM_bind _ fun n _ => WorkspaceM.ensures_pure fun _ => ⟨rfl, rfl⟩
  · apply WorkspaceM.Ensures.liftM_bind
    intro k _
    exact ensures_record ((draws_freshNumber k).ensures_single hop)
  · exact ensures_record ((draws_freshTensor rfl).ensures_single hop)
  · exact WorkspaceM.ensures_liftM nofun

theorem ensures_binaryTensor (op : BinaryOp) (a b : Value) (like : TensorProxy)
    (shape : List Nat) :
    (r.binaryTensor op a b like shape).Ensures (Workspace.Records r op.name [a, b]) :=
  ensures_record ((draws_freshTensor rfl).ensures_results op)

theorem ensures_binary (op : BinaryOp) (a b : Value) :
    (r.binary op a b).Ensures fun w v w' =>
      if a.isSymbolic || b.isSymbolic then w.Records r op.name [a, b] v w'
      else w' = w ∧ v.proxies = [] := by
  unfold binary
  cases ha : a.tensorProxy? with
  | some t =>
    have hrecorded : (a.isSymbolic || b.isSymbolic) = true := by simp [Value.isSymbolic, ha]
    simp only [hrecorded, if_true]
    cases b.tensorProxy? with
    | some u => exact .liftM_bind _ fun _ _ => r.ensures_binaryTensor op a b _ _
    | none => exact .liftM_bind _ fun _ _ => r.ensures_binaryTensor op a b _ _
  | none =>
    cases hb : b.tensorProxy? with
    | some u =>
      have hrecorded : (a.isSymbolic || b.isSymbolic) = true := by simp [Value.isSymbolic, hb]
      simp only [hrecorded, if_true]
      exact .liftM_bind _ fun _ _ => r.ensures_binaryTensor op a b _ _
    | none =>
      have hnumber : (a.isSymbolic || b.isSymbolic) =
          (a.numberProxy?.isSome || b.numberProxy?.isSome) := by simp [Value.isSymbolic, ha, hb]
      simp only [hnumber]
      cases a.numberProxy?.isSome || b.numberProxy?.isSome with
      | true =>
        apply WorkspaceM.Ensures.liftM_bind
        intro j _
        apply WorkspaceM.Ensures.liftM_bind
        intro k _
        apply WorkspaceM.Ensures.liftM_bind
        intro kind _
        exact ensures_record ((draws_freshNumber kind).ensures_results op)
      | false => exact WorkspaceM.ensures_liftM fun v hv w => ⟨rfl, Value.proxies_of_evaluate hv⟩

theorem ensures_getItem (a key : Value) :
    (r.getItem a key).Ensures (Workspace.Records r "get_item" [a, key]) := by
  unfold getItem
  split
  · exact .liftM_bind _ fun _ _ => ensures_record_build rfl (by decide)
  · exact WorkspaceM.ensures_throw _

theorem ensures_elementwise (hop : op ≠ BinaryOp.divmod.name) (args : List Value) :
    (r.elementwise op args).Ensures (Workspace.Records r op args) :=
  .liftM_bind _ fun _ _ => ensures_record_build rfl hop

theorem ensures_reduction (hop : op ≠ BinaryOp.divmod.name) (args : List Value) :
    (r.reduction op args).Ensures (Workspace.Records r op args) := by
  apply WorkspaceM.Ensures.liftM_bind
  intro t _
  have hrecord (shape : List Nat) : WorkspaceM.Ensures
      (do WorkspaceM.record r op args (← reshaped t shape : Value))
      (Workspace.Records r op args) := ensures_record_build rfl hop
  dsimp only
  split
  · apply WorkspaceM.Ensures.liftM_bind
    intro dim _
    apply WorkspaceM.Ensures.liftM_bind
    intro dim _
    exact hrecord (t.shape.eraseIdx dim)
  · exact hrecord []

theorem ensures_reshape (args : List Value) :
    (r.reshape args).Ensures (Workspace.Records r "reshape" args) := by
  apply WorkspaceM.Ensures.liftM_bind
  intro t _
  apply WorkspaceM.Ensures.liftM_bind
  intro shape _
  split
  · exact ensures_record_build rfl (by decide)
  · exact WorkspaceM.ensures_throw _

theorem ensures_transpose (args : List Value) :
    (r.transpose args).Ensures (Workspace.Records r "t" args) := by
  apply WorkspaceM.Ensures.liftM_bind
  intro t _
  split
  · exact WorkspaceM.ensures_throw _
  · exact ensures_record_build rfl (by decide)

theorem ensures_method? {name : String} {f : Method} (hf : r.method? name = some f)
    (args : List Value) : (f args).Ensures (Workspace.Records r name args) := by
  unfold method? at hf
  split at hf <;> cases hf
  · exact r.ensures_elementwise (by decide) args
  · exact r.ensures_elementwise (by decide) args
  · exact r.ensures_elementwise (by decide) args
  · exact r.ensures_reduction (by decide) args
  · exact r.ensures_reduction (by decide) args
  · exact r.ensures_reshape args
  · exact r.ensures_transpose args

theorem ensures_size (a : Value) : (size a).Ensures fun w v w' => w' = w ∧ v.proxies = [] := by
  unfold size
  split
  · refine WorkspaceM.ensures_pure fun _ => ⟨rfl, ?_⟩
    rw [Value.proxies, Value.itemProxies_eq_flatMap, List.flatMap_map]
    exact List.flatMap_eq_nil_iff.2 fun _ _ => rfl
  · exact WorkspaceM.ensures_throw _

theorem ensures_tensorProxy (name : Option Name) (v : Value) :
    (tensorProxy name v).Ensures fun w t w' => w.Allocates name t.symbol w' := by
  unfold tensorProxy
  split
  · exact (TensorSpec.ensures_build _).mono fun _ _ _ h => h.1
  · exact WorkspaceM.ensures_throw _

end Recorder

end ProxyTrace
