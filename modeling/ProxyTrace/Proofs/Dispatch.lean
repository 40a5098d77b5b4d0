import ProxyTrace.Dispatch
import ProxyTrace.Proofs.Computation
import ProxyTrace.Proofs.Ownership

/-!
# Requests to language contexts

A request is a call that the active language context may have to answer. It reaches the context
exactly if `Request.reaches` holds; then it is the context's hook behind one check of the owners of
all operands (`Request.run_of_reaches`), and otherwise its answer is the same in every context
(`Request.fixed_of_not_reaches`).

What it means that a hook is called can be said without a look at the code: the outcome is not
fixed before the context is (`SessionM.Consults`). The main statement, `Request.consults_owned`, is
that only requests on owned operands consult the context, and that a foreign operand is what stops
the others.
-/

namespace ProxyTrace

variable {α β : Type} {s : Session} {t : Trace}

@[simp] theorem Session.context?_enterContext (c : LanguageContext) (s : Session) :
    (s.enterContext c).context? = some c := rfl

@[simp] theorem Session.workspace_enterContext (c : LanguageContext) (s : Session) :
    (s.enterContext c).workspace = s.workspace := rfl

namespace SessionM

/-- Whatever language context is active on top of `s`, the answer is `r` and nothing changes. -/
def Settled (x : SessionM α) (s : Session) (r : Except Error α) : Prop :=
  ∀ c, x.on (s.enterContext c) = (r, s.enterContext c)

/-- There is an answer that every language context gives. -/
def Fixed (x : SessionM α) (s : Session) : Prop := ∃ r, x.Settled s r

/-- The outcome hangs on the active language context: one of its hooks is called. -/
def Consults (x : SessionM α) (s : Session) : Prop := ¬ x.Fixed s

/-- Behind one check of the owners of the operands, the computation is the given hook. -/
def HandsOver (x : SessionM α) (operands : List Value) (hook : LanguageContext → SessionM α) :
    Prop :=
  ∃ vs : List Value, vs.Perm operands ∧ ∀ (s : Session) (c : LanguageContext),
    x.on (s.enterContext c) = on (do WorkspaceM.checkOwners vs; hook c) (s.enterContext c)

theorem fixed_pure (a : α) : Fixed (pure a) s := ⟨_, fun _ => rfl⟩

theorem fixed_throw (e : Error) : Fixed (throw e : SessionM α) s := ⟨_, fun _ => rfl⟩

theorem fixed_liftM (x : Except Error α) : Fixed (liftM x : SessionM α) s := ⟨x, fun _ => rfl⟩

theorem Fixed.bind {x : SessionM α} {f : α → SessionM β} (hx : x.Fixed s)
    (hf : ∀ a, (f a).Fixed s) : Fixed (x >>= f) s := by
  obtain ⟨r, hr⟩ := hx
  cases r with
  | error e => exact ⟨_, fun c => on_bind_error (hr c)⟩
  | ok a =>
    obtain ⟨r, hr'⟩ := hf a
    exact ⟨r, fun c => (on_bind_ok (hr c)).trans (hr' c)⟩

theorem on_checkOwners_bind (vs : List Value) (x : SessionM α) (s : Session) :
    on (do WorkspaceM.checkOwners vs; x) s = match s.workspace.checkOwners vs with
      | .ok _ => on x s
      | .error e => (.error e, s) := by
  have h : on (liftM (WorkspaceM.checkOwners vs) : SessionM Unit) s =
      (s.workspace.checkOwners vs, s) := rfl
  rw [on_bind, h]
  cases s.workspace.checkOwners vs <;> rfl

theorem on_checkOwner (σ : Symbol) (s : Session) :
    on (liftM (WorkspaceM.checkOwner σ) : SessionM Unit) s = (s.workspace.checkOwner σ, s) := rfl

/-- The check of a proxy, and then of the other operands, is one check. -/
theorem on_checkOwner_bind (p : Proxy) (vs : List Value) (x : SessionM α) (s : Session) :
    on (do WorkspaceM.checkOwner p.symbol; WorkspaceM.checkOwners vs; x) s =
      on (do WorkspaceM.checkOwners (.proxy p :: vs); x) s := by
  rw [on_bind, on_checkOwner, on_checkOwners_bind, Workspace.checkOwners_cons_proxy]
  cases s.workspace.checkOwner p.symbol with
  | error e => rfl
  | ok => exact on_checkOwners_bind ..

theorem on_checkOwner_bind_single (p : Proxy) (x : SessionM α) (s : Session) :
    on (do WorkspaceM.checkOwner p.symbol; x) s =
      on (do WorkspaceM.checkOwners [.proxy p]; x) s := by
  rw [on_bind, on_checkOwner, on_checkOwners_bind, Workspace.checkOwners_cons_proxy]
  cases s.workspace.checkOwner p.symbol <;> rfl

section Owners

variable {x : SessionM α} {operands : List Value} {hook : LanguageContext → SessionM α}

theorem HandsOver.on_of_owned (h : x.HandsOver operands hook) (ht : s.workspace.active? = some t)
    (howned : ∀ p ∈ operands.filterMap Value.proxy?, p.owner = t.id) (c : LanguageContext) :
    x.on (s.enterContext c) = (hook c).on (s.enterContext c) := by
  obtain ⟨vs, hvs, hon⟩ := h
  have hcheck : s.workspace.checkOwners vs = .ok () :=
    (Workspace.checkOwners_eq_ok_iff ht).2 fun p hp => howned p ((hvs.filterMap _).mem_iff.1 hp)
  rw [hon, on_checkOwners_bind, Session.workspace_enterContext, hcheck]

/-- A foreign operand settles the outcome, whichever of the operands it is. -/
theorem HandsOver.settled_of_foreign (h : x.HandsOver operands hook)
    (ht : s.workspace.active? = some t)
    (hforeign : ∃ p ∈ operands.filterMap Value.proxy?, p.owner ≠ t.id) :
    ∃ p ∈ operands.filterMap Value.proxy?, p.owner ≠ t.id ∧
      x.Settled s (.error (.staleProxy p.name p.owner t.id)) := by
  obtain ⟨vs, hvs, hon⟩ := h
  obtain ⟨p, hp, hne⟩ := hforeign
  cases hcheck : s.workspace.checkOwners vs with
  | ok =>
    have hp' := (hvs.filterMap Value.proxy?).mem_iff.2 hp
    exact absurd ((Workspace.checkOwners_eq_ok_iff ht).1 hcheck p hp') hne
  | error e =>
    obtain ⟨p', hp', hne', rfl⟩ := Workspace.checkOwners_eq_error ht hcheck
    refine ⟨p', (hvs.filterMap _).mem_iff.1 hp', hne', ?_⟩
    intro c
    rw [hon, on_checkOwners_bind, Session.workspace_enterContext, hcheck]

end Owners

end SessionM

/-- The operator, with a proxy to handle it and another operand, is one for language contexts. -/
def BinaryOp.reaches (op : BinaryOp) (handler : Proxy) (other : Value) : Bool :=
  match handler with
  | .untyped _ => false
  | .tensor _ => true
  | .number _ =>
    if op.isComparison || op.isLogical then other.tensorProxy?.isSome else op != .matmul

/-- A call that the active language context may have to answer. The named operators of a proxy are
the requests on that proxy. -/
inductive Request where
  | unary (op : UnaryOp) (a : Value)
  | binary (op : BinaryOp) (a b : Value)
  /-- The operator with a proxy on the right that handles it. -/
  | reflected (op : BinaryOp) (p : Proxy) (other : Value)
  | size (t : TensorProxy)
  | method (t : TensorProxy) (name : String)

namespace Request

/-- What a request asks for. -/
def Answer : Request → Type
  | method .. => BoundMethod
  | _ => Value

def run : (q : Request) → SessionM q.Answer
  | unary op a => a.unary op
  | binary op a b => a.binary op b
  | reflected op p other => p.reflected op other
  | size t => t.size
  | method t name => t.attribute name

/-- The operands in their order. -/
def operands : Request → List Value
  | unary _ a => [a]
  | binary _ a b => [a, b]
  | reflected _ p other => [other, .proxy p]
  | size t | method t _ => [(t : Value)]

def proxies (q : Request) : List Proxy := q.operands.filterMap Value.proxy?

/-- The same request with all proxies in the hands of one trace. -/
def ownedBy (id : TraceId) : Request → Request
  | unary op a => unary op (a.ownedBy id)
  | binary op a b => binary op (a.ownedBy id) (b.ownedBy id)
  | reflected op p other => reflected op (p.ownedBy id) (other.ownedBy id)
  | size t => size (t.ownedBy id)
  | method t name => method (t.ownedBy id) name

/-- The hook of a context that answers a request. -/
def hook (c : LanguageContext) : (q : Request) → SessionM q.Answer
  | unary op a => c.unary op a
  | binary op a b => c.binary op a b
  | reflected op p other => c.binary op other (.proxy p)
  | size t => c.size (t : Value)
  | method t name =>
    match c.method? name with
    | some f => pure { name, receiver := t, method := f : BoundMethod }
    | none => throw (.unknownAttribute name)

/-- The request is one for language contexts. -/
def reaches : Request → Bool
  | unary _ a => a.numberProxy?.isSome || a.tensorProxy?.isSome
  | binary op a b =>
    match a.proxy?, b.proxy? with
    | some p, _ => op.reaches p b
    | none, some p => op.reaches p a
    | none, none => false
  | reflected op p other => op.reaches p other
  | size _ | method .. => true

end Request

open SessionM

/-- With a context active, looking it up for a tensor is a check of the tensor's owner. -/
theorem TensorProxy.on_context_bind {c : LanguageContext} (hc : s.context? = some c) (op : String)
    (t : TensorProxy) (f : LanguageContext → SessionM α) :
    on (t.context op >>= f) s = on (do WorkspaceM.checkOwner t.symbol; f c) s := by
  rw [TensorProxy.context, bind_assoc, on_bind_ok (on_context? _), hc]
  simp only [bind_assoc, pure_bind]

theorem TensorProxy.unary_handsOver (op : UnaryOp) (t : TensorProxy) :
    (t.unary op).HandsOver [t] fun c => c.unary op t := by
  refine ⟨_, .rfl, ?_⟩
  intro s c
  rw [TensorProxy.unary, on_context_bind rfl]
  exact on_checkOwner_bind_single (.tensor t) ..

theorem TensorProxy.size_handsOver (t : TensorProxy) : t.size.HandsOver [t] fun c => c.size t := by
  refine ⟨_, .rfl, ?_⟩
  intro s c
  rw [TensorProxy.size, on_context_bind rfl]
  exact on_checkOwner_bind_single (.tensor t) ..

theorem TensorProxy.attribute_handsOver (t : TensorProxy) (name : String) :
    (t.attribute name).HandsOver [t] fun c => Request.hook c (.method t name) := by
  refine ⟨_, .rfl, ?_⟩
  intro s c
  rw [TensorProxy.attribute, on_context_bind rfl]
  exact on_checkOwner_bind_single (.tensor t) ..

theorem TensorProxy.binary_handsOver (op : BinaryOp) (t : TensorProxy) (other : Value) :
    (t.binary op other).HandsOver [t, other] fun c => c.binary op t other := by
  refine ⟨_, .rfl, ?_⟩
  intro s c
  rw [TensorProxy.binary, on_context_bind rfl]
  exact on_checkOwner_bind (.tensor t) ..

theorem TensorProxy.reflected_handsOver (op : BinaryOp) (t : TensorProxy) (other : Value) :
    (t.reflected op other).HandsOver [other, t] fun c => c.binary op other t := by
  refine ⟨[t, other], .swap .., ?_⟩
  intro s c
  rw [TensorProxy.reflected, on_context_bind rfl]
  exact on_checkOwner_bind (.tensor t) ..

theorem Value.binary_proxy_right {op : BinaryOp} {a : Value} {p : Proxy} (ha : a.proxy? = .none) :
    a.binary op (.proxy p) = p.reflected op a := by
  cases a with
  | proxy q => cases ha
  | _ => rfl

theorem Value.binary_fixed {op : BinaryOp} {a b : Value} (ha : a.proxy? = .none)
    (hb : b.proxy? = .none) : (a.binary op b).Fixed s := by
  unfold binary
  split
  · cases ha
  · cases hb
  · exact (fixed_liftM _).bind fun _ => fixed_pure _
  · exact fixed_liftM _
  · exact fixed_liftM _

theorem Value.isSome_tensorProxy?_ownedBy (id : TraceId) (v : Value) :
    (v.ownedBy id).tensorProxy?.isSome = v.tensorProxy?.isSome := by
  rw [ownedBy_eq_relabel, tensorProxy?_relabel, Option.isSome_map]

theorem Value.isSome_numberProxy?_ownedBy (id : TraceId) (v : Value) :
    (v.ownedBy id).numberProxy?.isSome = v.numberProxy?.isSome := by
  rw [ownedBy_eq_relabel, isSome_numberProxy?_relabel]

theorem NumberProxy.unary_handsOver (op : UnaryOp) (p : NumberProxy) :
    (p.unary op).HandsOver [p] fun c => c.unary op p := by
  refine ⟨_, .rfl, ?_⟩
  intro s c
  rw [NumberProxy.unary, on_bind_ok (on_context? _), Session.context?_enterContext]
  exact on_checkOwner_bind_single (.number p) ..

/-- An operator that a number proxy hands over: one of arithmetic, or any beside a tensor. -/
theorem NumberProxy.dispatch_handsOver {op : BinaryOp} (p : NumberProxy) {a b : Value}
    (h : if op.isComparison || op.isLogical then a.tensorProxy?.isSome ∨ b.tensorProxy?.isSome
      else op ≠ .matmul) :
    (p.dispatch op a b).HandsOver [a, b] fun c => c.binary op a b := by
  have hm : op ≠ .matmul := by
    rintro rfl
    exact absurd rfl h
  rw [NumberProxy.dispatch, if_neg hm]
  by_cases hop : (op.isComparison || op.isLogical) = true
  · rw [if_pos hop] at h ⊢
    rw [NumberProxy.compareKnown]
    cases hb : b.tensorProxy? with
    | some t =>
      rw [Value.eq_of_tensorProxy? hb]
      exact t.reflected_handsOver op a
    | none =>
      cases ha : a.tensorProxy? with
      | some t =>
        rw [Value.eq_of_tensorProxy? ha]
        exact t.binary_handsOver op b
      | none => simp [ha, hb] at h
  · rw [if_neg hop]
    refine ⟨_, .rfl, ?_⟩
    intro s c
    rw [on_bind_ok (on_context? _), Session.context?_enterContext]

/-- An operator that a number proxy keeps. -/
theorem NumberProxy.dispatch_fixed {op : BinaryOp} (p : NumberProxy) {a b : Value}
    (h : op = .matmul ∨ (op.isComparison || op.isLogical) = true ∧
      a.tensorProxy? = none ∧ b.tensorProxy? = none) : (p.dispatch op a b).Fixed s := by
  rw [NumberProxy.dispatch]
  by_cases hm : op = .matmul
  · rw [if_pos hm]
    exact fixed_throw _
  · obtain ⟨hop, ha, hb⟩ := h.resolve_left hm
    rw [if_neg hm, if_pos hop, NumberProxy.compareKnown, ha, hb]
    refine (fixed_liftM _).bind fun x => (fixed_liftM _).bind fun y => ?_
    exact (fixed_liftM _).bind fun _ => fixed_pure _

theorem Proxy.binary_handsOver {op : BinaryOp} {p : Proxy} {other : Value}
    (h : op.reaches p other = true) :
    (p.binary op other).HandsOver [.proxy p, other] fun c => c.binary op (.proxy p) other := by
  cases p with
  | untyped _ => cases h
  | tensor t => exact t.binary_handsOver op other
  | number p =>
    refine p.dispatch_handsOver ?_
    rw [BinaryOp.reaches] at h
    by_cases hop : (op.isComparison || op.isLogical) = true
    · rw [if_pos hop] at h ⊢
      exact .inr h
    · rw [if_neg hop] at h ⊢
      simpa using h

theorem Proxy.reflected_handsOver {op : BinaryOp} {p : Proxy} {other : Value}
    (h : op.reaches p other = true) :
    (p.reflected op other).HandsOver [other, .proxy p] fun c => c.binary op other (.proxy p) := by
  cases p with
  | untyped _ => cases h
  | tensor t => exact t.reflected_handsOver op other
  | number p =>
    refine p.dispatch_handsOver ?_
    rw [BinaryOp.reaches] at h
    by_cases hop : (op.isComparison || op.isLogical) = true
    · rw [if_pos hop] at h ⊢
      exact .inl h
    · rw [if_neg hop] at h ⊢
      simpa using h

theorem BinaryOp.eq_matmul_or_of_reaches {op : BinaryOp} {p : NumberProxy} {other : Value}
    (h : op.reaches (.number p) other = false) :
    op = .matmul ∨ (op.isComparison || op.isLogical) = true ∧ other.tensorProxy? = none := by
  rw [BinaryOp.reaches] at h
  split at h
  · exact .inr ⟨‹_›, by simpa using h⟩
  · exact .inl (by simpa using h)

theorem Proxy.binary_fixed {op : BinaryOp} {p : Proxy} {other : Value}
    (h : op.reaches p other = false) : (p.binary op other).Fixed s := by
  cases p with
  | untyped σ => exact fixed_throw _
  | tensor t => cases h
  | number p =>
    refine p.dispatch_fixed ?_
    exact (BinaryOp.eq_matmul_or_of_reaches h).imp_right fun ⟨hop, hother⟩ => ⟨hop, rfl, hother⟩

theorem Proxy.reflected_fixed {op : BinaryOp} {p : Proxy} {other : Value}
    (h : op.reaches p other = false) : (p.reflected op other).Fixed s := by
  cases p with
  | untyped σ => exact fixed_throw _
  | tensor t => cases h
  | number p =>
    refine p.dispatch_fixed ?_
    exact (BinaryOp.eq_matmul_or_of_reaches h).imp_right fun ⟨hop, hother⟩ => ⟨hop, hother, rfl⟩

theorem BinaryOp.reaches_ownedBy (id : TraceId) (op : BinaryOp) (p : Proxy) (other : Value) :
    op.reaches (p.ownedBy id) (other.ownedBy id) = op.reaches p other := by
  cases p with
  | number p => rw [Proxy.ownedBy, reaches, reaches, Value.isSome_tensorProxy?_ownedBy]
  | _ => rfl

namespace Request

/-- A request that is one for language contexts is the active context's hook behind one check of
the owners of all operands. -/
theorem run_of_reaches {q : Request} (h : q.reaches = true) :
    q.run.HandsOver q.operands fun c => q.hook c := by
  cases q with
  | unary op a =>
    obtain _ | _ | p | _ | _ | _ := a
    case proxy =>
      cases p with
      | untyped _ => cases h
      | number p => exact p.unary_handsOver op
      | tensor t => exact t.unary_handsOver op
    all_goals cases h
  | binary op a b =>
    cases ha : a.proxy? with
    | some p =>
      obtain rfl := Value.eq_of_proxy? ha
      exact p.binary_handsOver h
    | none =>
      cases hb : b.proxy? with
      | some p =>
        obtain rfl := Value.eq_of_proxy? hb
        simp only [reaches, ha, hb] at h
        rw [run, Value.binary_proxy_right ha]
        exact p.reflected_handsOver h
      | none => simp [reaches, ha, hb] at h
  | reflected op p other => exact p.reflected_handsOver h
  | size t => exact t.size_handsOver
  | method t name => exact t.attribute_handsOver name

theorem on_run_of_reaches {q : Request} (hq : q.reaches = true) {c : LanguageContext}
    (hc : s.context? = some c) (ht : s.workspace.active? = some t)
    (howned : ∀ p ∈ q.proxies, p.owner = t.id) : q.run.on s = (q.hook c).on s := by
  obtain ⟨w, contexts⟩ := s
  cases contexts with
  | nil => cases hc
  | cons c' cs =>
    obtain rfl := Option.some.inj hc
    exact (run_of_reaches hq).on_of_owned (s := ⟨w, cs⟩) ht howned c'

/-- The answer to any other request does not hang on the context. -/
theorem fixed_of_not_reaches {q : Request} (h : q.reaches = false) : q.run.Fixed s := by
  cases q with
  | unary op a =>
    obtain _ | _ | p | _ | _ | _ := a
    case proxy =>
      cases p with
      | untyped _ => exact fixed_throw _
      | number _ => cases h
      | tensor _ => cases h
    case number n => exact (fixed_liftM _).bind fun _ => fixed_pure _
    all_goals exact fixed_liftM _
  | binary op a b =>
    cases ha : a.proxy? with
    | some p =>
      obtain rfl := Value.eq_of_proxy? ha
      exact p.binary_fixed h
    | none =>
      cases hb : b.proxy? with
      | some p =>
        obtain rfl := Value.eq_of_proxy? hb
        simp only [reaches, ha, hb] at h
        rw [run, Value.binary_proxy_right ha]
        exact p.reflected_fixed h
      | none => exact Value.binary_fixed ha hb
  | reflected op p other => exact p.reflected_fixed h
  | size t => cases h
  | method t name => cases h

theorem reaches_ownedBy (id : TraceId) (q : Request) : (q.ownedBy id).reaches = q.reaches := by
  cases q with
  | unary op a => simp only [ownedBy, reaches, Value.isSome_tensorProxy?_ownedBy,
      Value.isSome_numberProxy?_ownedBy]
  | binary op a b =>
    simp only [ownedBy, reaches, Value.proxy?_ownedBy]
    cases a.proxy? with
    | some p => exact op.reaches_ownedBy id p b
    | none =>
      cases b.proxy? with
      | some p => exact op.reaches_ownedBy id p a
      | none => rfl
  | reflected op p other => exact op.reaches_ownedBy id p other
  | size t => rfl
  | method t name => rfl

theorem reaches_of_consults {q : Request} (h : q.run.Consults s) : q.reaches = true := by
  cases hq : q.reaches with
  | true => rfl
  | false => exact absurd (fixed_of_not_reaches hq) h

/-- A context whose operators all fail alike and whose methods are all the same. -/
def inert (e : Error) (m : Option Method) : LanguageContext where
  name := "inert"
  elementwiseUnary _ _ := throw e
  elementwiseBinary _ _ _ := throw e
  getItem _ _ := throw e
  size _ := throw e
  method? _ := m

theorem unary_inert (e : Error) (m : Option Method) : (inert e m).unary = fun _ _ => throw e :=
  LanguageContext.KeepsDefaults.unary ⟨rfl, rfl⟩

theorem binary_inert (e : Error) (m : Option Method) : (inert e m).binary = fun _ _ _ => throw e :=
  LanguageContext.KeepsDefaults.binary ⟨rfl, rfl⟩

/-- No answer is the one that every hook would give. -/
theorem hook_ne (q : Request) (r : Except Error q.Answer) :
    ∃ c, (on (hook c q) (s.enterContext c)).1 ≠ r := by
  let c₁ := inert .noActiveTrace none
  let c₂ := inert (.noActiveContext "") (some fun _ => throw .noActiveTrace)
  have hne : (on (q.hook c₁) (s.enterContext c₁)).1 ≠ (on (q.hook c₂) (s.enterContext c₂)).1 := by
    cases q <;> simp only [c₁, c₂, hook, unary_inert, binary_inert] <;> exact nofun
  by_cases h : (on (q.hook c₁) (s.enterContext c₁)).1 = r
  · exact ⟨c₂, fun h' => hne (h.trans h'.symm)⟩
  · exact ⟨c₁, h⟩

/-- With a trace active, the requests that consult the context are those for contexts of which that
trace owns all operands. -/
theorem consults_iff (ht : s.workspace.active? = some t) {q : Request} :
    q.run.Consults s ↔ q.reaches = true ∧ ∀ p ∈ q.proxies, p.owner = t.id := by
  constructor
  · intro h
    have hq : q.reaches = true := reaches_of_consults h
    refine ⟨hq, fun p hp => Classical.byContradiction fun hne => ?_⟩
    obtain ⟨_, -, -, hsettled⟩ := (run_of_reaches hq).settled_of_foreign ht ⟨p, hp, hne⟩
    exact h ⟨_, hsettled⟩
  · rintro ⟨hq, howned⟩ ⟨r, hr⟩
    -- were the outcome fixed, it would be the outcome of every hook
    obtain ⟨c, hc⟩ := hook_ne (s := s) q r
    rw [← (run_of_reaches hq).on_of_owned ht howned, hr c] at hc
    exact hc rfl

/-- **The language context is consulted on owned operands only.** What consults it is the context's
hook on them; and a foreign operand of what would consult it, were its operands owned, is reported
instead, so that no hook is called. -/
theorem consults_owned (q : Request) (ht : s.workspace.active? = some t) :
    (q.run.Consults s →
      (∀ p ∈ q.proxies, p.owner = t.id) ∧
        ∀ c, q.run.on (s.enterContext c) = (q.hook c).on (s.enterContext c)) ∧
    ((q.ownedBy t.id).run.Consults s → (∃ p ∈ q.proxies, p.owner ≠ t.id) →
      ∃ p ∈ q.proxies, p.owner ≠ t.id ∧
        q.run.Settled s (.error (.staleProxy p.name p.owner t.id))) := by
  constructor
  · intro h
    obtain ⟨hq, howned⟩ := (consults_iff ht).1 h
    exact ⟨howned, (run_of_reaches hq).on_of_owned ht howned⟩
  · intro h hforeign
    have hq : q.reaches = true := (q.reaches_ownedBy t.id).symm.trans (reaches_of_consults h)
    exact (run_of_reaches hq).settled_of_foreign ht hforeign

/-- A sum of numbers of the inner of two traces consults the context; with a number of the outer
trace on the right, that number is reported. -/
theorem consults_owned_nested :
    let s : Session := ⟨(Workspace.enter {}).enter, []⟩
    let x (owner : TraceId) : Proxy := .number ⟨⟨"t0", owner⟩, .int, none⟩
    let q := binary .add (.proxy (x ⟨1⟩)) (.proxy (x ⟨1⟩))
    let q' := binary .add (.proxy (x ⟨1⟩)) (.proxy (x ⟨0⟩))
    (q.run.Consults s ∧ ∀ c, q.run.on (s.enterContext c) = (q.hook c).on (s.enterContext c)) ∧
      (q'.ownedBy ⟨1⟩).run.Consults s ∧ ∃ p ∈ q'.proxies, p.owner ≠ ⟨1⟩ ∧
        q'.run.Settled s (.error (.staleProxy p.name p.owner ⟨1⟩)) := by
  intro s x q q'
  have ht : s.workspace.active? = some (Trace.empty ⟨1⟩) := rfl
  have hq : q.run.Consults s := (consults_iff ht).2 ⟨rfl, by decide⟩
  have hq' : (q'.ownedBy ⟨1⟩).run.Consults s := (consults_iff ht).2 ⟨rfl, by decide⟩
  refine ⟨⟨hq, ((consults_owned q ht).1 hq).2⟩, hq', ?_⟩
  exact (consults_owned q' ht).2 hq' ⟨x ⟨0⟩, .tail _ (.head _), by decide⟩

end Request

end ProxyTrace
