import ProxyTrace.Proofs.Dispatch
import ProxyTrace.Proofs.Recorder.Recording
import ProxyTrace.TracedCall

/-!
# What answers a request

With a context active, a request that reaches it ends as the context's hook does
(`SessionM.HandsOver.ensures`); any other request, and any request without a context, changes
nothing and answers no proxy (`Request.ensures_run_native`). Indexing and lifting are requests of
the same kind.

Which operators a recorder records is said by their operands alone (`Request.isRecorded`). Those
operators are the ones that reach it, but for a few that fail on the way
(`Request.isRecorded_of_reaches`, `Request.fails_of_not_reaches`).
-/

namespace ProxyTrace

variable {α β : Type} {s s' : Session} {w w' : Workspace} {post : Workspace → α → Workspace → Prop}

open SessionM

namespace Call

/-- What a call answers. -/
inductive Answer where
  | value (v : Value)
  | method (m : BoundMethod)
  | name (n : Name)
  | done

/-- The proxies in an answer. -/
def Answer.proxies : Answer → List Proxy
  | value v => v.proxies
  | method m => m.receiver.proxies
  | name _ | done => []

end Call

def Request.toAnswer : (q : Request) → q.Answer → Call.Answer
  | unary .. | binary .. | reflected .. | size _ => .value
  | method .. => .method

/-! ### Requests that no context answers -/

/-- Nothing changes, and no proxy is answered. -/
def Native (w : Workspace) (v : Value) (w' : Workspace) : Prop := w' = w ∧ v.proxies = []

theorem Session.exists_enterContext {c : LanguageContext} (hc : s.context? = some c) :
    ∃ s₀ : Session, s = s₀.enterContext c := by
  obtain ⟨w, contexts⟩ := s
  obtain ⟨cs, rfl⟩ := List.head?_eq_some_iff.1 hc
  exact ⟨⟨w, cs⟩, rfl⟩

/-- The check of the owners changes nothing, so that what holds of a hook holds of the request. -/
theorem SessionM.HandsOver.ensures {x : SessionM α} {operands : List Value}
    {hook : LanguageContext → SessionM α} (h : x.HandsOver operands hook) {c : LanguageContext}
    (hc : s.context? = some c) (hhook : (hook c).Ensures s post) : x.Ensures s post := by
  obtain ⟨s₀, rfl⟩ := Session.exists_enterContext hc
  obtain ⟨vs, -, hon⟩ := h
  rw [Ensures, hon, on_checkOwners_bind]
  cases (s₀.enterContext c).workspace.checkOwners vs with
  | error e => rfl
  | ok => exact hhook

theorem TensorProxy.ensures_of_none (hc : s.context? = none) (op : String) (t : TensorProxy)
    (f : LanguageContext → SessionM α) : (t.context op >>= f).Ensures s post := by
  rw [TensorProxy.context, bind_assoc]
  apply ensures_context?_bind
  rw [hc]
  exact rfl

theorem NumberProxy.ensures_unary_native (hc : s.context? = none) (op : UnaryOp)
    (p : NumberProxy) : (p.unary op).Ensures s Native := by
  rw [NumberProxy.unary]
  apply ensures_context?_bind
  rw [hc]
  dsimp only
  split
  · exact .liftM_bind _ fun _ _ => ensures_pure ⟨rfl, rfl⟩
  · exact ensures_throw _

theorem NumberProxy.ensures_compareKnown_native {op : BinaryOp} {a b : Value}
    (h : a.tensorProxy? = none ∧ b.tensorProxy? = none ∨ s.context? = none) :
    (compareKnown op a b).Ensures s Native := by
  unfold compareKnown
  cases hb : b.tensorProxy? with
  | some t =>
    have hc : s.context? = none := h.resolve_left fun h => nomatch hb.symm.trans h.2
    exact t.ensures_of_none hc _ _
  | none =>
    cases ha : a.tensorProxy? with
    | some t =>
      have hc : s.context? = none := h.resolve_left fun h => nomatch ha.symm.trans h.1
      exact t.ensures_of_none hc _ _
    | none =>
      apply Ensures.liftM_bind
      intro x _
      apply Ensures.liftM_bind
      intro y _
      apply Ensures.liftM_bind
      intro z _
      exact ensures_pure ⟨rfl, Value.proxies_ofAnswer z⟩

theorem NumberProxy.ensures_dispatch_native {op : BinaryOp} (p : NumberProxy) {a b : Value}
    (h : (op = .matmul ∨ (op.isComparison || op.isLogical) = true ∧
      a.tensorProxy? = none ∧ b.tensorProxy? = none) ∨ s.context? = none) :
    (p.dispatch op a b).Ensures s Native := by
  rw [NumberProxy.dispatch]
  by_cases hm : op = .matmul
  · rw [if_pos hm]
    exact ensures_throw _
  · rw [if_neg hm]
    by_cases hop : (op.isComparison || op.isLogical) = true
    · rw [if_pos hop]
      exact ensures_compareKnown_native (h.imp_left fun h => (h.resolve_left hm).2)
    · have hc : s.context? = none := h.resolve_left fun h => hop (h.resolve_left hm).1
      rw [if_neg hop]
      apply ensures_context?_bind
      rw [hc]
      exact ensures_liftM fun v hv => ⟨rfl, Value.proxies_of_evaluate hv⟩

theorem Proxy.ensures_binary_native {op : BinaryOp} {p : Proxy} {other : Value}
    (h : op.reaches p other = false ∨ s.context? = none) :
    (p.binary op other).Ensures s Native := by
  cases p with
  | untyped σ => exact ensures_throw _
  | tensor t => exact t.ensures_of_none (h.resolve_left nofun) _ _
  | number p =>
    refine p.ensures_dispatch_native (h.imp_left fun h => ?_)
    exact (BinaryOp.eq_matmul_or_of_reaches h).imp_right fun ⟨hop, hother⟩ => ⟨hop, rfl, hother⟩

theorem Proxy.ensures_reflected_native {op : BinaryOp} {p : Proxy} {other : Value}
    (h : op.reaches p other = false ∨ s.context? = none) :
    (p.reflected op other).Ensures s Native := by
  cases p with
  | untyped σ => exact ensures_throw _
  | tensor t => exact t.ensures_of_none (h.resolve_left nofun) _ _
  | number p =>
    refine p.ensures_dispatch_native (h.imp_left fun h => ?_)
    exact (BinaryOp.eq_matmul_or_of_reaches h).imp_right fun ⟨hop, hother⟩ => ⟨hop, hother, rfl⟩

theorem Value.ensures_binary_native {op : BinaryOp} {a b : Value} (ha : a.proxy? = .none)
    (hb : b.proxy? = .none) : (a.binary op b).Ensures s Native := by
  unfold binary
  split
  · cases ha
  · cases hb
  · exact .liftM_bind _ fun _ _ => ensures_pure ⟨rfl, proxies_ofAnswer _⟩
  · exact ensures_liftM nofun
  · exact ensures_liftM nofun

/-- A request that is none for contexts, or that finds no context, changes nothing and answers no
proxy. -/
theorem Request.ensures_run_native {q : Request} (h : q.reaches = false ∨ s.context? = none) :
    q.run.Ensures s fun w a w' => w' = w ∧ (q.toAnswer a).proxies = [] := by
  cases q with
  | unary op a =>
    obtain _ | n | p | _ | _ | _ := a
    case number => exact .liftM_bind _ fun _ _ => ensures_pure ⟨rfl, rfl⟩
    case proxy =>
      cases p with
      | untyped _ => exact ensures_throw _
      | number p => exact p.ensures_unary_native (h.resolve_left Bool.false_ne_true.symm) op
      | tensor t => exact t.ensures_of_none (h.resolve_left Bool.false_ne_true.symm) _ _
    all_goals exact ensures_liftM nofun
  | binary op a b =>
    cases ha : a.proxy? with
    | some p =>
      obtain rfl := Value.eq_of_proxy? ha
      exact p.ensures_binary_native h
    | none =>
      cases hb : b.proxy? with
      | some p =>
        obtain rfl := Value.eq_of_proxy? hb
        simp only [reaches, ha, hb] at h
        rw [run, Value.binary_proxy_right ha]
        exact p.ensures_reflected_native h
      | none => exact Value.ensures_binary_native ha hb
  | reflected op p other => exact p.ensures_reflected_native h
  | size t => exact t.ensures_of_none (h.resolve_left Bool.false_ne_true.symm) _ _
  | method t name => exact t.ensures_of_none (h.resolve_left Bool.false_ne_true.symm) _ _

/-! ### Requests that a recorder answers -/

/-- An operand for the sake of which a recorder records the operator: a proxy for a number or a
tensor, and if the operator is a comparison or a logical one, a proxy for a tensor. -/
def BinaryOp.records (op : BinaryOp) (v : Value) : Bool :=
  if op.isComparison || op.isLogical then v.tensorProxy?.isSome else v.isSymbolic

namespace Request

/-- The operator of a request for one. -/
def op? : Request → Option String
  | unary op _ => op.name
  | binary op _ _ | reflected op _ _ => op.name
  | size _ | method .. => none

def records : Request → Value → Bool
  | unary .., v => v.isSymbolic
  | binary op _ _, v | reflected op _ _, v => op.records v
  | size _, _ | method .., _ => false

/-- The request is for an operator that a recorder records. -/
def isRecorded (q : Request) : Bool := q.operands.any q.records

end Request

theorem BinaryOp.records_of_reaches {op : BinaryOp} {p : Proxy} {other : Value}
    (h : op.reaches p other = true) : op.records (.proxy p) = true ∨ op.records other = true := by
  rw [records, records]
  cases p with
  | untyped σ => cases h
  | tensor t =>
    left
    split <;> rfl
  | number p =>
    rw [reaches] at h
    split at h
    · right
      rw [if_pos ‹_›, h]
    · left
      rw [if_neg ‹_›]
      rfl

/-- Where a proxy keeps an operator to itself that a recorder would record, it has no such
operator. -/
theorem Proxy.fails_of_not_reaches {op : BinaryOp} {p : Proxy} {other : Value}
    (h : op.reaches p other = false)
    (hrecords : op.records (.proxy p) = true ∨ op.records other = true) :
    (p.binary op other).Ensures s (fun _ _ _ => False) ∧
      (p.reflected op other).Ensures s fun _ _ _ => False := by
  cases p with
  | untyped σ => exact ⟨ensures_throw _, ensures_throw _⟩
  | tensor t => cases h
  | number p =>
    obtain rfl : op = .matmul := by
      refine (BinaryOp.eq_matmul_or_of_reaches h).resolve_right ?_
      rintro ⟨hop, hother⟩
      rw [BinaryOp.records, BinaryOp.records, if_pos hop, if_pos hop, hother] at hrecords
      rcases hrecords with hrecords | hrecords <;> cases hrecords
    exact ⟨ensures_throw _, ensures_throw _⟩

theorem BinaryOp.records_of_proxy? {op : BinaryOp} {v : Value} (h : v.proxy? = none) :
    op.records v = false := by
  rw [records]
  cases v with
  | proxy p => cases h
  | _ => split <;> rfl

namespace Request

theorem isRecorded_binary {op : BinaryOp} {a b : Value} :
    (binary op a b).isRecorded = true ↔ op.records a = true ∨ op.records b = true := by
  simp [isRecorded, operands, records]

theorem isRecorded_reflected {op : BinaryOp} {p : Proxy} {other : Value} :
    (reflected op p other).isRecorded = true ↔
      op.records (.proxy p) = true ∨ op.records other = true := by
  simp [isRecorded, operands, records, or_comm]

theorem isSymbolic_of_records {q : Request} {v : Value} (h : q.records v = true) :
    v.isSymbolic = true := by
  have htensor (h : v.tensorProxy?.isSome = true) : v.isSymbolic = true := by
    rw [Value.isSymbolic, h, Bool.or_true]
  cases q with
  | unary op a => exact h
  | binary op a b | reflected op p other =>
    rw [records, BinaryOp.records] at h
    split at h
    · exact htensor h
    · exact h
  | size t | method t name => cases h

theorem isRecorded_of_reaches {q : Request} {op : String} (h : q.reaches = true)
    (hop : q.op? = some op) : q.isRecorded = true := by
  cases q with
  | unary op a => exact List.any_eq_true.2 ⟨a, .head _, h⟩
  | binary op a b =>
    rw [isRecorded_binary]
    cases ha : a.proxy? with
    | some p =>
      obtain rfl := Value.eq_of_proxy? ha
      exact BinaryOp.records_of_reaches h
    | none =>
      cases hb : b.proxy? with
      | some p =>
        obtain rfl := Value.eq_of_proxy? hb
        simp only [reaches, ha, hb] at h
        exact (BinaryOp.records_of_reaches h).symm
      | none => simp [reaches, ha, hb] at h
  | reflected op p other => exact isRecorded_reflected.2 (BinaryOp.records_of_reaches h)
  | size t => cases hop
  | method t name => cases hop

theorem fails_of_not_reaches {q : Request} (h : q.reaches = false)
    (hrecorded : q.isRecorded = true) : q.run.Ensures s fun _ _ _ => False := by
  cases q with
  | unary op a =>
    have hsymbolic : a.isSymbolic = true := by
      simpa [isRecorded, operands, records] using hrecorded
    exact nomatch hsymbolic.symm.trans h
  | binary op a b =>
    rw [isRecorded_binary] at hrecorded
    cases ha : a.proxy? with
    | some p =>
      obtain rfl := Value.eq_of_proxy? ha
      exact (Proxy.fails_of_not_reaches h hrecorded).1
    | none =>
      cases hb : b.proxy? with
      | some p =>
        obtain rfl := Value.eq_of_proxy? hb
        simp only [reaches, ha, hb] at h
        rw [run, Value.binary_proxy_right ha]
        exact (Proxy.fails_of_not_reaches h hrecorded.symm).2
      | none =>
        rw [BinaryOp.records_of_proxy? ha, BinaryOp.records_of_proxy? hb] at hrecorded
        rcases hrecorded with h | h <;> cases h
  | reflected op p other =>
    exact (Proxy.fails_of_not_reaches h (isRecorded_reflected.1 hrecorded)).2
  | size t => cases h
  | method t name => cases h

end Request

/-! ### Indexing and lifting -/

theorem TensorProxy.getItem_handsOver (t : TensorProxy) (key : Value) :
    (t.getItem key).HandsOver [t, key] fun c => c.getItem t key := by
  refine ⟨_, .rfl, ?_⟩
  intro s c
  rw [TensorProxy.getItem, on_context_bind rfl]
  exact on_checkOwner_bind (.tensor t) ..

theorem Value.ensures_getItem {post : Workspace → Value → Workspace → Prop} {a key : Value}
    (h : ∀ c, s.context? = some c → (liftM (c.getItem a key) : SessionM Value).Ensures s post) :
    (a.getItem key).Ensures s post := by
  unfold getItem
  split
  · rename_i t
    cases hc : s.context? with
    | none => exact t.ensures_of_none hc _ _
    | some c => exact (t.getItem_handsOver key).ensures hc (h c hc)
  · exact ensures_throw _

theorem ensures_liftNumber (v : Value) (name : Option Name) :
    (liftNumber v name).Ensures fun w v' w' => match v with
      | .number _ => ∃ p, v' = .proxy p ∧ w.Allocates name p.symbol w'
      | _ => w' = w ∧ v' = v := by
  unfold liftNumber
  cases v with
  | number n =>
    exact (NumberProxy.ensures_make n.kind n name).bind_pure _ fun _ p _ h => ⟨.number p, rfl, h.1⟩
  | _ => exact WorkspaceM.ensures_pure fun _ => ⟨rfl, rfl⟩

/-- Lifting is up to the active context where it knows the value for a tensor. -/
theorem ensures_lift {post : Workspace → Value → Workspace → Prop} {v : Value} {name : Option Name}
    (hcontext : ∀ c, s.context? = some c → c.isTensor v = true →
      (do return (← c.tensorProxy name v : Value) : SessionM Value).Ensures s post)
    (hnumber : (∀ c, s.context? = some c → c.isTensor v = false) →
      (liftM (liftNumber v name) : SessionM Value).Ensures s post) :
    (lift v name).Ensures s post := by
  rw [lift]
  apply ensures_context?_bind
  cases hc : s.context? with
  | none => exact hnumber fun c h => nomatch hc.symm.trans h
  | some c =>
    dsimp only
    split
    · exact hcontext c hc ‹_›
    · refine hnumber fun c' h => ?_
      obtain rfl := Option.some.inj (hc.symm.trans h)
      exact Bool.eq_false_iff.2 ‹¬c.isTensor v = true›

end ProxyTrace
