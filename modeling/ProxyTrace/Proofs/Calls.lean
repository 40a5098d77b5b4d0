import ProxyTrace.Proofs.Recorder.Owners
import ProxyTrace.Proofs.Requests

/-!
# Calls and what they leave behind

`Call` lists the calls with which a program works on proxies: operators, indexing, sizes, methods,
the hooks of a recorder, constructions, renaming, casts and names. What a call leaves behind if it
succeeds is read off the call and the active recorder (`Call.trail`): nothing at all, or one symbol
of the innermost trace, or one node with the symbols of its output.

The main statement is `Call.ensures_run`: a call that fails changes nothing, and one that succeeds
leaves its trail and no more. It holds in every session, whatever happened before, as long as the
context that a call may ask is a recorder.
-/

namespace ProxyTrace

variable {s s' : Session} {w w' : Workspace}

open SessionM

/-- A call of the library on what a program holds. -/
inductive Call where
  | request (q : Request)
  | getItem (a key : Value)
  /-- The hook of a recorder that answers the request. -/
  | hook (r : Recorder) (q : Request)
  /-- The hook of a recorder that answers a part of a tensor. -/
  | hookGetItem (r : Recorder) (a key : Value)
  /-- The hook of a recorder that answers a proxy for a native tensor. -/
  | hookTensor (r : Recorder) (name : Option Name) (v : Value)
  /-- A method of a recorder, on its receiver and further arguments. -/
  | method (r : Recorder) (name : String) (args : List Value)
  | makeNumber (kind : NumberKind) (value : Option Number) (name : Option Name)
  | makeUntyped (name : Option Name)
  | build (spec : TensorSpec)
  | rename (p : Proxy) (name : Name)
  | lift (v : Value) (name : Option Name)
  | cast (p : NumberProxy) (kinds : List NumberKind) (target : String)
  | makeName
  | addName (name : Name)

namespace Call

def run : Call → SessionM Answer
  | request q => do return q.toAnswer (← q.run)
  | getItem a key => do return .value (← a.getItem key)
  | hook r q => do return q.toAnswer (← q.hook r.context)
  | hookGetItem r a key => do return .value (← r.getItem a key)
  | hookTensor _ name v => do return .value (← Recorder.tensorProxy name v : TensorProxy)
  | method r name args =>
    match r.method? name with
    | some f => do return .value (← f args)
    | none => throw (.unknownAttribute name)
  | makeNumber kind value name => do return .value (← NumberProxy.make kind value name)
  | makeUntyped name => do return .value (.proxy (← Proxy.makeUntyped name))
  | build spec => do return .value (← spec.build)
  | rename p name => do return .value (.proxy (← p.rename name))
  | lift v name => do return .value (← ProxyTrace.lift v name)
  | cast p kinds target => do return .value (← p.cast kinds target)
  | makeName => do return .name (← WorkspaceM.makeName)
  | addName name => do
    WorkspaceM.addName name
    return .done

/-- The proxies that a call is given, at any depth. -/
def given : Call → List Proxy
  | request q | hook _ q => Value.itemProxies q.operands
  | getItem a key | hookGetItem _ a key => Value.itemProxies [a, key]
  | hookTensor _ _ v | lift v _ => v.proxies
  | method _ _ args => Value.itemProxies args
  | build spec => spec.like.toList.map .tensor
  | rename p _ => [p]
  | cast p _ _ => [.number p]
  | makeNumber .. | makeUntyped _ | makeName | addName _ => []

/-- The call may ask the active context. -/
def Asks : Call → Prop
  | request q => q.reaches = true
  | getItem .. | lift .. => True
  | _ => False

/-- What a call leaves behind in the workspace. -/
inductive Trail where
  | nothing
  /-- A symbol of the innermost trace, of the requested name if there is one. -/
  | symbol (requested : Option Name)
  /-- A node of the recorder, and the symbols of what is answered. -/
  | node (r : Recorder) (op : String) (args : List Value)

def Answer.Carries : Answer → Symbol → Prop
  | value v, σ => ∃ p, v = .proxy p ∧ p.symbol = σ
  | name n, σ => n = σ.name
  | method _, _ => False
  | done, _ => True

/-- The trail is what leads from one workspace to the other, and fits the answer. What a call
answers that leaves nothing, it was given. -/
def Trail.Left (given : List Proxy) (w : Workspace) (a : Answer) (w' : Workspace) : Trail → Prop
  | nothing => w' = w ∧ a.proxies ⊆ given
  | symbol requested => ∃ σ, w.Allocates requested σ w' ∧ a.Carries σ
  | node r op args => ∃ v, a = .value v ∧ w.Records r op args v w'

/-- The trail of a request that is recorded or not. -/
def requestTrail (r : Recorder) (q : Request) (recorded : Bool) : Trail :=
  match q.op? with
  | some op => if recorded then .node r op q.operands else .nothing
  | none => .nothing

/-- The trail of a call that succeeds while the recorder is active, if there is one. -/
def trail (r? : Option Recorder) : Call → Trail
  | request q => r?.elim .nothing fun r => requestTrail r q q.isRecorded
  | hook r q => requestTrail r q (q.operands.any Value.isSymbolic)
  | getItem a key => r?.elim .nothing fun r => .node r "get_item" [a, key]
  | hookGetItem r a key => .node r "get_item" [a, key]
  | method r name args => .node r name args
  | lift (.number _) name => .symbol name
  | lift (.tensor _) name => r?.elim .nothing fun _ => .symbol name
  | lift .. | cast .. => .nothing
  | makeNumber _ _ name | makeUntyped name | hookTensor _ name _ => .symbol name
  | build spec => .symbol spec.name
  | rename _ name | addName name => .symbol (some name)
  | makeName => .symbol none

variable {given : List Proxy} {r : Recorder} {op : String} {args : List Value} {v : Value}

theorem Trail.left_nothing (h : Native w v w') : nothing.Left given w (.value v) w' :=
  ⟨h.1, by simp [Answer.proxies, h.2]⟩

theorem Trail.left_of_recorded {recorded : Bool}
    (h : if recorded then w.Records r op args v w' else w' = w ∧ v.proxies = []) :
    (if recorded then node r op args else nothing).Left given w (.value v) w' := by
  cases recorded with
  | true => exact ⟨v, rfl, h⟩
  | false => exact left_nothing h

theorem ensures_hook (r : Recorder) (q : Request) (r? : Option Recorder) :
    (hook r q).run.Ensures s fun w a w' => ((hook r q).trail r?).Left (hook r q).given w a w' := by
  cases q with
  | unary op a =>
    rw [run, Request.hook, Recorder.unary_context]
    refine (ensures_of_workspace (r.ensures_unary op a)).bind_pure _ fun w v w' h => ?_
    exact Trail.left_of_recorded (by simpa [Request.operands] using h)
  | binary op a b =>
    rw [run, Request.hook, Recorder.binary_context]
    refine (ensures_of_workspace (r.ensures_binary op a b)).bind_pure _ fun w v w' h => ?_
    exact Trail.left_of_recorded (by simpa [Request.operands] using h)
  | reflected op p other =>
    rw [run, Request.hook, Recorder.binary_context]
    refine (ensures_of_workspace (r.ensures_binary op other (.proxy p))).bind_pure _
      fun w v w' h => ?_
    exact Trail.left_of_recorded (by simpa [Request.operands] using h)
  | size t =>
    exact (ensures_of_workspace (Recorder.ensures_size t)).bind_pure _ fun _ _ _ =>
      Trail.left_nothing
  | method t name =>
    change Ensures (do return Answer.method (← Request.hook r.context (.method t name))) s _
    rw [Request.hook]
    cases r.context.method? name with
    | none => exact ensures_throw _
    | some f => exact ensures_pure ⟨rfl, List.Subset.refl _⟩

theorem requestTrail_false (r : Recorder) (q : Request) : requestTrail r q false = .nothing := by
  rw [requestTrail]
  cases q.op? <;> rfl

/-- A request that is handed to a recorder has an operand that is recorded. -/
theorem requestTrail_of_reaches {q : Request} (h : q.reaches = true) :
    requestTrail r q (q.operands.any Value.isSymbolic) = requestTrail r q q.isRecorded := by
  rw [requestTrail, requestTrail]
  cases hop : q.op? with
  | none => rfl
  | some op =>
    have hrecorded := Request.isRecorded_of_reaches h hop
    have hsymbolic : q.operands.any Value.isSymbolic = true := by
      obtain ⟨v, hv, hrecords⟩ := List.any_eq_true.1 hrecorded
      exact List.any_eq_true.2 ⟨v, hv, Request.isSymbolic_of_records hrecords⟩
    rw [hrecorded, hsymbolic]

theorem ensures_request (q : Request) (r? : Option Recorder)
    (hs : q.reaches = true → s.context? = r?.map Recorder.context) :
    (request q).run.Ensures s fun w a w' =>
      ((request q).trail r?).Left (request q).given w a w' := by
  cases hq : q.reaches with
  | false =>
    cases hrecorded : q.isRecorded with
    | true => exact (Request.fails_of_not_reaches hq hrecorded).bind_pure _ nofun
    | false =>
      have htrail : (request q).trail r? = .nothing := by
        rw [trail, hrecorded]
        cases r? with
        | none => rfl
        | some r => exact requestTrail_false r q
      rw [htrail]
      refine (Request.ensures_run_native (.inl hq)).bind_pure _ fun w a w' h => ?_
      exact ⟨h.1, by simp [h.2]⟩
  | true =>
    cases r? with
    | none =>
      refine (Request.ensures_run_native (.inr (hs hq))).bind_pure _ fun w a w' h => ?_
      exact ⟨h.1, by simp [h.2]⟩
    | some r =>
      have htrail : (request q).trail (some r) = (hook r q).trail (some r) :=
        (requestTrail_of_reaches hq).symm
      have hhook := (ensures_bind_pure_iff q.toAnswer).1 (ensures_hook (s := s) r q (some r))
      rw [htrail]
      exact ((Request.run_of_reaches hq).ensures (hs hq) hhook).bind_pure _ fun _ _ _ h => h

theorem ensures_getItem (a key : Value) (r? : Option Recorder)
    (hs : s.context? = r?.map Recorder.context) :
    (getItem a key).run.Ensures s fun w v w' =>
      ((getItem a key).trail r?).Left (getItem a key).given w v w' := by
  refine (ensures_bind_pure_iff Answer.value).2 (Value.ensures_getItem fun c hc => ?_)
  cases r? with
  | none => exact nomatch hs.symm.trans hc
  | some r =>
    obtain rfl := Option.some.inj (hs.symm.trans hc)
    exact ensures_of_workspace ((r.ensures_getItem a key).mono fun w v w' h => ⟨v, rfl, h⟩)

theorem ensures_lift (v : Value) (name : Option Name) (r? : Option Recorder)
    (hs : s.context? = r?.map Recorder.context) :
    (lift v name).run.Ensures s fun w a w' =>
      ((lift v name).trail r?).Left (lift v name).given w a w' := by
  refine (ensures_bind_pure_iff Answer.value).2 ?_
  refine ProxyTrace.ensures_lift (fun c hc htensor => ?_) fun hnone => ?_
  · cases r? with
    | none => exact nomatch hs.symm.trans hc
    | some r =>
      obtain rfl := Option.some.inj (hs.symm.trans hc)
      cases v with
      | tensor shape =>
        have hhook : Ensures (liftM (r.context.tensorProxy name (.tensor shape))) s _ :=
          ensures_of_workspace (Recorder.ensures_tensorProxy name (.tensor shape))
        refine hhook.bind_pure _ fun w t w' h => ?_
        exact ⟨t.symbol, h, .tensor t, rfl, rfl⟩
      | _ => cases htensor
  · refine ensures_of_workspace ((ensures_liftNumber v name).mono fun w v' w' h => ?_)
    cases v with
    | number n =>
      obtain ⟨p, rfl, h⟩ := h
      exact ⟨p.symbol, h, p, rfl, rfl⟩
    | tensor shape =>
      obtain ⟨rfl, rfl⟩ := h
      cases r? with
      | none => exact Trail.left_nothing ⟨rfl, rfl⟩
      | some r => exact nomatch hnone r.context hs
    | _ =>
      obtain ⟨rfl, rfl⟩ := h
      exact ⟨rfl, List.Subset.refl _⟩

/-- A call that fails changes nothing, and one that succeeds leaves its trail, if the context that
it may ask is a recorder. -/
theorem ensures_run (c : Call) (r? : Option Recorder)
    (hs : c.Asks → s.context? = r?.map Recorder.context) :
    c.run.Ensures s fun w a w' => (c.trail r?).Left c.given w a w' := by
  cases c with
  | request q => exact ensures_request q r? hs
  | getItem a key => exact ensures_getItem a key r? (hs trivial)
  | hook r q => exact ensures_hook r q r?
  | hookGetItem r a key =>
    exact (ensures_of_workspace (r.ensures_getItem a key)).bind_pure _ fun _ v _ h => ⟨v, rfl, h⟩
  | hookTensor r name v =>
    refine (ensures_of_workspace (Recorder.ensures_tensorProxy name v)).bind_pure _ ?_
    intro w t w' h
    exact ⟨t.symbol, h, .tensor t, rfl, rfl⟩
  | method r name args =>
    rw [run]
    cases hf : r.method? name with
    | none => exact ensures_throw _
    | some f =>
      refine (ensures_of_workspace (r.ensures_method? hf args)).bind_pure _ ?_
      intro w v w' h
      exact ⟨v, rfl, h⟩
  | makeNumber kind value name =>
    refine (ensures_of_workspace (NumberProxy.ensures_make kind value name)).bind_pure _ ?_
    intro w p w' h
    exact ⟨p.symbol, h.1, .number p, rfl, rfl⟩
  | makeUntyped name =>
    refine (ensures_of_workspace (Proxy.ensures_makeUntyped name)).bind_pure _ ?_
    intro w p w' h
    exact ⟨p.symbol, h, p, rfl, rfl⟩
  | build spec =>
    refine (ensures_of_workspace spec.ensures_build).bind_pure _ ?_
    intro w t w' h
    exact ⟨t.symbol, h.1, .tensor t, rfl, rfl⟩
  | rename p name =>
    refine (ensures_of_workspace (p.ensures_rename name)).bind_pure _ ?_
    intro w p' w' h
    exact ⟨p'.symbol, h, p', rfl, rfl⟩
  | lift v name => exact ensures_lift v name r? (hs trivial)
  | cast p kinds target =>
    apply Ensures.liftM_bind
    intro p' hp'
    refine ensures_pure ⟨rfl, ?_⟩
    rw [NumberProxy.cast] at hp'
    split at hp' <;> cases hp'
    exact List.Subset.refl _
  | makeName =>
    refine (ensures_of_workspace WorkspaceM.ensures_makeName).bind_pure _ ?_
    rintro w n w' ⟨σ, h, rfl⟩
    exact ⟨σ, h, rfl⟩
  | addName name =>
    refine (ensures_of_workspace (WorkspaceM.ensures_addName name)).bind_pure _ ?_
    rintro w _ w' ⟨σ, h⟩
    exact ⟨σ, h, trivial⟩

/-- To call a method that was looked up earlier is a call of that method of the recorder. -/
theorem exists_method {m : BoundMethod} (hm : m.OfRecorder) : ∃ (r : Recorder) (name : String),
    ∀ args, (method r name (m.receiver :: args)).run = do return .value (← m.call args) := by
  obtain ⟨r, name, hf⟩ := hm.method?
  refine ⟨r, name, fun args => ?_⟩
  rw [run, hf]
  rfl

end Call

/-! ### Failing without a change -/

/-- No hook of the context leaves anything behind if it fails. -/
structure LanguageContext.Atomic (c : LanguageContext) : Prop where
  unary : ∀ op a, (c.unary op a).Atomic
  binary : ∀ op a b, (c.binary op a b).Atomic
  getItem : ∀ a key, (c.getItem a key).Atomic
  size : ∀ a, (c.size a).Atomic
  tensorProxy : ∀ name v, (c.tensorProxy name v).Atomic

theorem Recorder.atomic_context (r : Recorder) : r.context.Atomic where
  unary op a := by
    rw [unary_context]
    exact (r.ensures_unary op a).atomic
  binary op a b := by
    rw [binary_context]
    exact (r.ensures_binary op a b).atomic
  getItem a key := (r.ensures_getItem a key).atomic
  size a := (ensures_size a).atomic
  tensorProxy name v := (ensures_tensorProxy name v).atomic

namespace Call

variable {α : Type}

theorem ensures_of_atomic {x : WorkspaceM α} (hx : x.Atomic) :
    Ensures (liftM x : SessionM α) s fun _ _ _ => True := by
  refine ensures_of_workspace fun w => ?_
  rcases hxw : x.on w with ⟨e | a, w'⟩
  · have h := hx w e
    rw [hxw] at h
    exact h rfl
  · trivial

theorem ensures_hook_of_atomic {l : LanguageContext} (hl : l.Atomic) (q : Request) :
    (q.hook l).Ensures s fun _ _ _ => True := by
  cases q with
  | unary op a => exact ensures_of_atomic (hl.unary op a)
  | binary op a b => exact ensures_of_atomic (hl.binary op a b)
  | reflected op p other => exact ensures_of_atomic (hl.binary op other (.proxy p))
  | size t => exact ensures_of_atomic (hl.size t)
  | method t name =>
    rw [Request.hook]
    cases l.method? name with
    | none => exact ensures_throw _
    | some f => exact ensures_pure trivial

theorem ensures_run_of_atomic (c : Call)
    (hs : c.Asks → ∀ l, s.context? = some l → l.Atomic) :
    c.run.Ensures s fun _ _ _ => True := by
  cases c with
  | request q =>
    refine (ensures_bind_pure_iff q.toAnswer).2 ?_
    by_cases h : q.reaches = false ∨ s.context? = none
    · exact (Request.ensures_run_native h).mono fun _ _ _ _ => trivial
    · rw [not_or, Bool.not_eq_false, ← ne_eq, Option.ne_none_iff_exists'] at h
      obtain ⟨hq, l, hl⟩ := h
      exact (Request.run_of_reaches hq).ensures hl (ensures_hook_of_atomic (hs hq l hl) q)
  | getItem a key =>
    refine (ensures_bind_pure_iff Answer.value).2 (Value.ensures_getItem fun l hl => ?_)
    exact ensures_of_atomic ((hs trivial l hl).getItem a key)
  | lift v name =>
    refine (ensures_bind_pure_iff Answer.value).2 (ProxyTrace.ensures_lift (fun l hl _ => ?_) ?_)
    · exact (ensures_of_atomic ((hs trivial l hl).tensorProxy name v)).bind_pure _ fun _ _ _ h => h
    · exact fun _ => ensures_of_atomic (ensures_liftNumber v name).atomic
  | _ => exact (ensures_run _ none False.elim).mono fun _ _ _ _ => trivial

/-- **A call that fails leaves the whole session as it was**: every trace with its names and its
source, every graph, and the scopes. This is so in any session, as long as the context that the
call asks is one whose hooks do so too, as a recorder is. -/
theorem unchanged_of_error (s : Session) :
    (∀ r : Recorder, r.context.Atomic) ∧
    (∀ c : Call, (c.Asks → ∀ l, s.context? = some l → l.Atomic) →
      ∀ e, (c.run.on s).1 = .error e → (c.run.on s).2 = s) ∧
    ∀ (m : BoundMethod) (args : List Value), m.OfRecorder →
      ∀ e, ((m.call args).on s).1 = .error e → ((m.call args).on s).2 = s := by
  refine ⟨Recorder.atomic_context, ?_, ?_⟩
  · intro c hs e he
    exact (ensures_run_of_atomic c hs).of_error (Prod.ext he rfl)
  · intro m args hm e he
    obtain ⟨r, name, hcall⟩ := exists_method hm
    have hmethod := ensures_run (s := s) (method r name (m.receiver :: args)) none False.elim
    rw [hcall, ensures_bind_pure_iff] at hmethod
    exact hmethod.of_error (Prod.ext he rfl)

/-- In the inner of two traces, with a recorder active: quotient and remainder of tensors of
different shapes, a name that is taken, a number of the outer trace as a key, and a sum over an axis
that is no number. -/
theorem unchanged_of_error_nested :
    let s : Session := { Recorder.nested with
      workspace.scopes := Recorder.nested.workspace.scopes.map fun t => { t with names := ["x"] } }
    let x := Recorder.innerTensor
    let y : TensorProxy := { Recorder.innerTensor with shape := [2], numel := 2 }
    let m : BoundMethod := { name := "sum", receiver := x, method := Recorder.reduction ⟨0⟩ "sum" }
    let fails (c : Call) (e : Error) := c.run.on s = (.error e, s)
    fails (.request (.binary .divmod x y)) (.shapeMismatch "divmod" [3] [2]) ∧
      fails (.addName "x") (.duplicateName "x") ∧
      fails (.getItem x (.proxy Recorder.outerNumber)) (.staleProxy "n" ⟨0⟩ ⟨1⟩) ∧
      (m.call [x]).on s = (.error (.invalidOperand "sum" "proxy x"), s) := by
  intro s x y m fails
  obtain ⟨hrecorder, hcall, hmethod⟩ := unchanged_of_error s
  have hs : ∀ l, s.context? = some l → l.Atomic := by
    rintro _ ⟨⟩
    exact hrecorder ⟨0⟩
  have hfails (c : Call) (e : Error) (he : (c.run.on s).1 = .error e) : fails c e :=
    Prod.ext he (hcall c (fun _ => hs) e he)
  have hm : m.OfRecorder := ⟨⟨0⟩, x, "sum", s, s, rfl, rfl⟩
  refine ⟨hfails _ _ rfl, hfails _ _ rfl, hfails _ _ rfl, ?_⟩
  exact Prod.ext rfl (hmethod m [x] hm _ rfl)

end Call

end ProxyTrace
