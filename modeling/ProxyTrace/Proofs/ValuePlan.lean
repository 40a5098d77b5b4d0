import ProxyTrace.Proofs.GenericHook
import ProxyTrace.Proofs.Recorder.Translation
import ProxyTrace.Proofs.Requests

/-!
# The plans of calls

While a recorder is active, and the innermost trace owns the proxies in the operands, a call on
values carries out a plan that is made from the operands alone: the plan of the recorder if the
call is one for language contexts, and else an answer (`Value.on_unary_eq`, `Value.on_binary_eq`,
`Value.on_getItem_eq`, `Value.on_method_eq`). The same is so of the constructions of proxies
without a requested name. The plan for translated operands is the translated plan.
-/

namespace ProxyTrace

variable {k : Nat} {s : Session} {t : Trace} {r : Recorder} {v a b : Value} {op : BinaryOp}

open SessionM

/-! ### Operators that no context is asked -/

namespace Value

/-- What an operator comes to that is none for language contexts. -/
def kept (op : BinaryOp) (a b : Value) : Except Error Value :=
  match a.handler? b with
  | some (.number p) =>
    if op = .matmul then throw (.unsupportedOperation op.name s!"number proxy {p.name}")
    else do
      let x ← NumberProxy.compared op a
      let y ← NumberProxy.compared op b
      return ofAnswer (← x.binary op y)
  | some p => throw (.unsupportedOperation op.name s!"untyped proxy {p.name}")
  | Option.none =>
    match a, b with
    | number x, number y => do return ofAnswer (← x.binary op y)
    | number _, b => b.invalid op.name
    | a, _ => a.invalid op.name

theorem binary_eq_noOperator {σ : Symbol} (h : a.handler? b = some (.untyped σ)) :
    a.binary op b = Proxy.noOperator op.name σ := by
  obtain ⟨-, hbinary⟩ | ⟨-, hbinary⟩ := binary_of_handler? op h
  · exact hbinary
  · exact hbinary

/-- Such an operator looks at its operands only. -/
theorem on_binary_of_not_reaches (h : (Request.binary op a b).reaches = false) (s : Session) :
    (a.binary op b).on s = (kept op a b, s) := by
  have hkept {p : Proxy} (hp : a.handler? b = some p) (htyped : p.IsTyped) : op.KeptBy p a b := by
    refine Classical.byContradiction fun hkept => ?_
    rw [Request.reaches_of_handler? hp htyped hkept] at h
    cases h
  unfold kept
  cases hp : a.handler? b with
  | some p =>
    cases p with
    | untyped σ =>
      rw [binary_eq_noOperator hp]
      rfl
    | number p =>
      rw [binary_eq_dispatch hp, NumberProxy.dispatch]
      dsimp only
      by_cases hm : op = .matmul
      · rw [if_pos hm, if_pos hm]
        rfl
      · obtain ⟨hcompares, ha, hb⟩ := (hkept hp trivial).resolve_left fun hm' => hm hm'.1
        rw [if_neg hm, if_neg hm, if_pos hcompares]
        exact NumberProxy.on_compareKnown ha hb
    | tensor t =>
      rcases hkept hp trivial with ⟨-, q, hq⟩ | ⟨-, ha, hb⟩
      · cases hq
      · obtain ⟨q, hq⟩ := exists_number_of_handler? hp trivial ha hb
        cases hq
  | none =>
    unfold handler? at hp
    cases ha : a.proxy? with
    | some p => rw [ha] at hp; cases hp
    | none =>
      rw [ha] at hp
      change b.proxy? = .none at hp
      cases a with
      | proxy p => cases ha
      | number x =>
        cases b with
        | proxy p => cases hp
        | number y => exact on_liftM_bind_pure (x.binary op y) ofAnswer s
        | _ => rfl
      | _ =>
        cases b with
        | proxy p => cases hp
        | _ => rfl

/-- It answers numbers. -/
theorem proxies_of_kept (h : kept op a b = .ok v) : v.proxies = [] := by
  have hcomputed {x : Except Error Number.Answer} (h : ofAnswer <$> x = .ok v) :
      v.proxies = [] := by
    cases x with
    | error e => cases h
    | ok ans =>
      cases h
      exact proxies_ofAnswer ans
  unfold kept at h
  split at h
  · split at h
    · cases h
    · cases hx : NumberProxy.compared op a with
      | error e => rw [hx] at h; cases h
      | ok x =>
        cases hy : NumberProxy.compared op b with
        | error e => rw [hx, hy] at h; cases h
        | ok y =>
          rw [hx, hy] at h
          exact hcomputed h
  · cases h
  · split at h
    · exact hcomputed h
    · cases h
    · cases h

theorem handler?_translate (τ : Translation) (a b : Value) :
    (a.translate τ).handler? (b.translate τ) = (a.handler? b).map (Proxy.translate τ) := by
  simp only [handler?, proxy?_translate]
  cases a.proxy? <;> rfl

theorem matches_kept (τ : Translation) (op : BinaryOp) (a b : Value) :
    Matches id (kept op a b) (kept op (a.translate τ) (b.translate τ)) := by
  simp only [kept, handler?_translate]
  cases a.handler? b with
  | some p =>
    cases p with
    | untyped σ => exact .error rfl
    | number p =>
      refine .ite .rfl (fun _ => .error rfl) fun _ => ?_
      refine (NumberProxy.matches_compared τ op a).bind fun x _ => ?_
      exact (NumberProxy.matches_compared τ op b).bind fun y _ => .refl _
    | tensor t => exact .error rfl
  | none =>
    cases a with
    | number x => cases b <;> first | exact .refl _ | exact .error rfl
    | _ => exact .error rfl

end Value

/-! ### Plans -/

namespace Value

def planUnary (op : UnaryOp) : Value → Except Error Plan
  | proxy (.untyped σ) => throw (.unsupportedOperation op.name s!"untyped proxy {σ.name}")
  | a => Recorder.planUnary op a

def planBinary (op : BinaryOp) (a b : Value) : Except Error Plan :=
  if (Request.binary op a b).reaches then Recorder.planBinary op a b
  else do return .answer (← kept op a b)

def planMethod (name : String) (a : Value) (args : List Value) : Except Error Plan :=
  match a.tensorProxy? with
  | some _ =>
    match Recorder.planMethod? name with
    | some plan => plan (a :: args)
    | Option.none => throw (.unknownAttribute name)
  | Option.none => a.invalid "attr"

def planNumber (kind : NumberKind) (value : Option Number) : Except Error Plan := do
  return .draw (.number kind (← value.mapM (·.coerce kind)))

def planLift : Value → Except Error Plan
  | number x => planNumber x.kind x
  | tensor shape => do
    let spec : TensorSpec :=
      { shape := Shape.toExtents shape
        device := some (.ok .cpu)
        dtype := some (.ok { scalar := .float64 }) }
    return .draw (← spec.sketch)
  | v => return .answer v

end Value

/-- An answer that is made from the operands alone. -/
theorem Plan.on_carryOut_answer (r : Recorder) (x : Except Error Value) (s : Session) :
    on (liftM (carryOut r (do return .answer (← x)))) s = (x, s) := by
  cases x <;> rfl

/-- A plan that cannot be made changes nothing. -/
theorem Plan.on_carryOut_error (r : Recorder) (e : Error) (s : Session) :
    on (liftM (carryOut r (.error e))) s = (.error e, s) := rfl

/-- A plan is carried out with the next fresh names of the innermost trace. -/
theorem Plan.on_carryOut_ok (plan : Plan) (r : Recorder)
    (ht : s.workspace.active? = some (t.after k)) :
    let v := plan.result fun j => t.symbol (k + j)
    ∃ w, on (liftM (carryOut r (.ok plan))) s = (.ok v, { s with workspace := w }) ∧
      w.active? = some (t.after (k + plan.draws)) ∧
      (w.graph r).nodes = (s.workspace.graph r).nodes ++ plan.nodes v := by
  intro v
  obtain ⟨w, hw, hleft⟩ := plan.on_perform r ht
  have hcarryOut : (carryOut r (.ok plan)).on s.workspace = (.ok v, w) := hw
  exact ⟨w, by rw [on_liftM_workspace, hcarryOut], hleft⟩

/-! ### Constructions -/

theorem on_liftM_return {α β : Type} (x : WorkspaceM α) (f : α → β) (s : Session) :
    on (do return f (← x)) s = on (liftM (do return f (← x) : WorkspaceM β)) s := by
  rw [on_bind, on_liftM_workspace, on_liftM_workspace, WorkspaceM.on_bind]
  rcases x.on s.workspace with ⟨_ | _, _⟩ <;> rfl

theorem on_makeUntyped_eq (s : Session) :
    on (do return .proxy (← Proxy.makeUntyped)) s = on (liftM Sketch.untyped.draw) s := by
  rw [on_liftM_return, Proxy.makeUntyped, map_eq_pure_bind]
  simp only [bind_assoc, pure_bind]
  rfl

theorem on_makeNumber_eq (r : Recorder) (kind : NumberKind) (value : Option Number) (s : Session) :
    on (do return (← NumberProxy.make kind value : Value)) s =
      on (liftM (Plan.carryOut r (Value.planNumber kind value))) s := by
  rw [on_liftM_return, Value.planNumber, Plan.carryOut_bind, NumberProxy.make_eq]
  simp only [bind_assoc, pure_bind]
  rfl

theorem on_build_eq (r : Recorder) {spec : TensorSpec} (hname : spec.name = none) (s : Session) :
    on (do return (← spec.build : Value)) s =
      on (liftM (Plan.carryOut r (do return .draw (← spec.sketch)))) s := by
  rw [on_liftM_return, Plan.carryOut_bind]
  exact congrArg (fun x => on (liftM x) s) (freshTensor_eq hname)

section CarryOut

variable (hc : s.context? = some r.context) (ht : s.workspace.active? = some t)

include hc

theorem on_lift_eq (v : Value) : (lift v).on s = on (liftM (Plan.carryOut r v.planLift)) s := by
  have hlift : (lift v).on s = on (do
      if r.context.isTensor v then return (← r.context.tensorProxy none v : Value)
      else liftNumber v none) s := by
    rw [lift, on_bind_ok (on_context? s), hc]
  rw [hlift]
  cases v with
  | number x => exact (on_liftM_return _ _ s).symm.trans (on_makeNumber_eq r x.kind x s)
  | tensor shape => exact on_build_eq r rfl s
  | _ => rfl

include ht

/-- A request of the innermost trace comes to the hook of the recorder. -/
theorem Request.on_run_recorder {q : Request} (hq : q.reaches = true)
    (howned : ∀ v ∈ q.operands, ∀ p ∈ v.proxies, p.owner = t.id) :
    q.run.on s = (q.hook r.context).on s := by
  refine on_run_of_reaches hq hc ht fun p hp => ?_
  obtain ⟨v, hv, hp⟩ := List.mem_filterMap.1 hp
  obtain rfl := Value.eq_of_proxy? hp
  exact howned _ hv p (.head _)

namespace Value

theorem on_unary_eq (op : UnaryOp) (howned : ∀ p ∈ a.proxies, p.owner = t.id) :
    (a.unary op).on s = on (liftM (Plan.carryOut r (a.planUnary op))) s := by
  have hcarry (h : (Request.unary op a).reaches = true) :
      (a.unary op).on s = on (liftM (Plan.carryOut r (Recorder.planUnary op a))) s := by
    rw [← r.unary_eq, ← r.unary_context]
    refine Request.on_run_recorder hc ht h fun v hv => ?_
    obtain rfl := List.mem_singleton.1 hv
    exact howned
  cases a with
  | number x =>
    change on (do return number (← x.unary op)) s =
      on (liftM (Plan.carryOut r (do return .answer (.number (← x.unary op))))) s
    cases x.unary op <;> rfl
  | proxy p =>
    cases p with
    | untyped σ => rfl
    | number p => exact hcarry rfl
    | tensor t => exact hcarry rfl
  | _ => rfl

theorem on_binary_eq (op : BinaryOp) (ha : ∀ p ∈ a.proxies, p.owner = t.id)
    (hb : ∀ p ∈ b.proxies, p.owner = t.id) :
    (a.binary op b).on s = on (liftM (Plan.carryOut r (a.planBinary op b))) s := by
  unfold planBinary
  split
  · rename_i hreaches
    rw [← r.binary_eq_carryOut, ← r.binary_context]
    refine Request.on_run_recorder hc ht hreaches fun v hv => ?_
    rcases List.mem_cons.1 hv with rfl | hv
    · exact ha
    · rwa [List.mem_singleton.1 hv]
  · rename_i hreaches
    rw [Plan.on_carryOut_answer, on_binary_of_not_reaches (Bool.eq_false_iff.2 hreaches)]

theorem on_getItem_eq {key : Value} (ha : ∀ p ∈ a.proxies, p.owner = t.id)
    (hkey : ∀ p ∈ key.proxies, p.owner = t.id) :
    (a.getItem key).on s = on (liftM (Plan.carryOut r (Recorder.planGetItem a key))) s := by
  cases a with
  | proxy p =>
    cases p with
    | tensor u =>
      rw [← r.getItem_eq_carryOut]
      obtain ⟨s₀, rfl⟩ := Session.exists_enterContext hc
      refine (u.getItem_handsOver key).on_of_owned (s := s₀) ht (fun p hp => ?_) _
      obtain ⟨v, hv, hp⟩ := List.mem_filterMap.1 hp
      obtain rfl := eq_of_proxy? hp
      rcases List.mem_cons.1 hv with hv | hv
      · exact ha p (hv ▸ .head _)
      · exact hkey p (List.mem_singleton.1 hv ▸ .head _)
    | _ => rfl
  | _ => rfl

/-- A method is looked up in the recorder that is called with it afterwards. -/
theorem on_method_eq (name : String) (args : List Value)
    (howned : ∀ p ∈ a.proxies, p.owner = t.id) :
    SessionM.on (match a.tensorProxy? with
      | some u => do (← u.attribute name).call args
      | Option.none => a.invalid "attr") s =
      on (liftM (Plan.carryOut r (a.planMethod name args))) s := by
  unfold planMethod
  cases hu : a.tensorProxy? with
  | none => rfl
  | some u =>
    obtain rfl := eq_of_tensorProxy? hu
    have hattribute : (u.attribute name).on s =
        ((Request.method u name).hook r.context).on s := by
      refine Request.on_run_recorder hc ht (q := .method u name) rfl fun v hv => ?_
      obtain rfl := List.mem_singleton.1 hv
      exact howned
    have hmethod : r.context.method? name =
        (Recorder.planMethod? name).map fun plan args => Plan.carryOut r (plan args) :=
      r.method?_eq_map name
    dsimp only
    rw [on_bind, hattribute, Request.hook, hmethod]
    cases Recorder.planMethod? name with
    | none => rfl
    | some plan => rfl

end Value

end CarryOut

/-! ### Plans and translations -/

section Translation

variable (τ : Translation)

theorem BinaryOp.reaches_translate (op : BinaryOp) (p : Proxy) (other : Value) :
    op.reaches (p.translate τ) (other.translate τ) = op.reaches p other := by
  cases p with
  | number p =>
    rw [Proxy.translate, reaches, reaches, Value.tensorProxy?_translate, Option.isSome_map]
  | _ => rfl

/-- Which operand decides, and whether it asks the context, is no matter of names. -/
theorem Request.reaches_binary_translate (op : BinaryOp) (a b : Value) :
    (binary op (a.translate τ) (b.translate τ)).reaches = (binary op a b).reaches := by
  simp only [reaches, Value.proxy?_translate]
  cases a.proxy? with
  | some p => exact op.reaches_translate τ p b
  | none =>
    cases b.proxy? with
    | some p => exact op.reaches_translate τ p a
    | none => rfl

namespace Value

theorem matches_planUnary (op : UnaryOp) (a : Value) :
    Matches (Plan.translate τ) (a.planUnary op) ((a.translate τ).planUnary op) := by
  have hrecorder := Recorder.matches_planUnary τ op a
  cases a with
  | proxy p =>
    cases p with
    | untyped σ => exact .error rfl
    | _ => exact hrecorder
  | _ => exact hrecorder

theorem matches_planBinary (op : BinaryOp) (a b : Value) :
    Matches (Plan.translate τ) (a.planBinary op b)
      ((a.translate τ).planBinary op (b.translate τ)) := by
  have hreaches := Request.reaches_binary_translate τ op a b
  refine .ite (by rw [hreaches]) (fun _ => Recorder.matches_planBinary τ op a b) fun _ => ?_
  refine (matches_kept τ op a b).bind fun v hv => .ok_of_eq ?_
  rw [id, Plan.translate, v.translate_of_proxies_eq_nil τ (proxies_of_kept hv)]

theorem matches_planMethod (name : String) (a : Value) (args : List Value) :
    Matches (Plan.translate τ) (a.planMethod name args)
      ((a.translate τ).planMethod name (args.map (translate τ))) := by
  simp only [planMethod, tensorProxy?_translate]
  cases a.tensorProxy? with
  | none => exact .error rfl
  | some u =>
    dsimp only [Option.map_some]
    cases hplan : Recorder.planMethod? name with
    | none => exact .error rfl
    | some plan => exact Recorder.matches_planMethod τ (a :: args) hplan

theorem matches_planLift (v : Value) :
    Matches (Plan.translate τ) v.planLift (v.translate τ).planLift := by
  cases v with
  | number x => exact .bind_same fun _ _ => .ok _
  | tensor shape => exact .bind_same fun _ _ => .ok _
  | _ => exact .ok _

end Value

end Translation

end ProxyTrace
