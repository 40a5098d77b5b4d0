import ProxyTrace.Proofs.Dispatch
import ProxyTrace.Recorder.Context

/-!
# Operators and the generic hooks

An operator that a number or tensor proxy handles comes to one call of the hook that is named after
it. It does not matter which operand is the proxy, nor whether a number proxy handed the operator on
to a tensor. The default of that hook calls a generic one with its own operator, which is the one
that was given (`UnaryHooks.named_defaults`, `BinaryHooks.named_defaults`). So in a context that
keeps the defaults the generic hook is called once, with the operator and the operands as they were
given. The main statement is `Value.asks_generic_hook`; the operators that a number proxy keeps to
itself (`BinaryOp.KeptBy`) are answered without the context.
-/

namespace ProxyTrace

variable {s : Session} {w : Workspace} {p : Proxy} {a b : Value} {op : BinaryOp}

open SessionM

/-! ### Stale proxies -/

/-- Another trace than the proxy's own is innermost. -/
def Workspace.Stale (w : Workspace) (p : Proxy) : Prop :=
  ∃ t, w.active? = some t ∧ p.owner ≠ t.id

theorem Workspace.not_stale_iff {t : Trace} (ht : w.active? = some t) :
    ¬ w.Stale p ↔ p.owner = t.id := by
  simp [Stale, ht]

theorem Workspace.checkOwner_of_not_stale (h : ¬ w.Stale p) : w.checkOwner p.symbol = .ok () := by
  cases ht : w.active? with
  | none => rw [checkOwner, ht]
  | some t =>
    rw [checkOwner_symbol ht, if_pos ((not_stale_iff ht).1 h)]

theorem Workspace.checkOwners_of_not_stale {vs : List Value}
    (h : ∀ p ∈ vs.filterMap Value.proxy?, ¬ w.Stale p) : w.checkOwners vs = .ok () := by
  rw [checkOwners]
  generalize vs.filterMap Value.proxy? = ps at h ⊢
  induction ps with
  | nil => rfl
  | cons p ps ih =>
    change (w.checkOwner p.symbol >>= fun _ => ps.forM fun p => w.checkOwner p.symbol) = .ok ()
    rw [checkOwner_of_not_stale (h p (.head _))]
    exact ih fun q hq => h q (.tail _ hq)

theorem SessionM.HandsOver.on_of_not_stale {α : Type} {x : SessionM α} {operands : List Value}
    {hook : LanguageContext → SessionM α} (hx : x.HandsOver operands hook)
    (h : ∀ p ∈ operands.filterMap Value.proxy?, ¬ s.workspace.Stale p) (c : LanguageContext) :
    x.on (s.enterContext c) = (hook c).on (s.enterContext c) := by
  obtain ⟨vs, hvs, hon⟩ := hx
  have hcheck : s.workspace.checkOwners vs = .ok () :=
    Workspace.checkOwners_of_not_stale fun p hp => h p ((hvs.filterMap _).mem_iff.1 hp)
  rw [hon, on_checkOwners_bind, Session.workspace_enterContext, hcheck]

/-! ### Who handles an operator -/

/-- The operand that handles an operator on two: the left one if it is a proxy, or else the
right one. -/
def Value.handler? (a b : Value) : Option Proxy := a.proxy? <|> b.proxy?

/-- A proxy for a number or a tensor. -/
def Proxy.IsTyped : Proxy → Prop
  | untyped _ => False
  | _ => True

/-- A number proxy does not hand over a matrix product, nor a comparison or logical operator if no
operand is a tensor proxy. -/
def BinaryOp.KeptBy (op : BinaryOp) (p : Proxy) (a b : Value) : Prop :=
  (op = .matmul ∧ ∃ q, p = .number q) ∨
    (op.isComparison || op.isLogical) = true ∧ a.tensorProxy? = none ∧ b.tensorProxy? = none

theorem Request.reaches_of_handler? (h : a.handler? b = some p) (hp : p.IsTyped)
    (hkept : ¬ op.KeptBy p a b) : (binary op a b).reaches = true := by
  -- the operand beside the handler, and what is kept of the operator there
  have hreaches {other : Value} (hother : other = a ∨ other = b)
      (hnone : ∀ q, p = .number q → other.tensorProxy? = none →
        a.tensorProxy? = none ∧ b.tensorProxy? = none) : op.reaches p other = true := by
    cases p with
    | untyped σ => cases hp
    | tensor t => rfl
    | number q =>
      refine Bool.of_not_eq_false fun hfalse => hkept ?_
      refine (BinaryOp.eq_matmul_or_of_reaches hfalse).imp (fun hm => ⟨hm, q, rfl⟩) ?_
      exact fun ⟨hop, hother⟩ => ⟨hop, hnone q rfl hother⟩
  unfold Value.handler? at h
  cases ha : a.proxy? with
  | some q =>
    rw [ha] at h
    cases h
    obtain rfl := Value.eq_of_proxy? ha
    refine hreaches (.inr rfl) ?_
    rintro q rfl hb
    exact ⟨rfl, hb⟩
  | none =>
    rw [ha] at h
    cases hb : b.proxy? with
    | none => rw [hb] at h; cases h
    | some q =>
      rw [hb] at h
      cases h
      obtain rfl := Value.eq_of_proxy? hb
      rw [reaches, ha]
      refine hreaches (.inl rfl) ?_
      rintro q rfl ha
      exact ⟨ha, rfl⟩

/-! ### Operators that a number proxy keeps -/

/-- The number that a value is known to stand for. -/
def Value.knownNumber? : Value → Option Number
  | number n => some n
  | proxy (.number p) => p.value
  | _ => Option.none

theorem NumberProxy.compared_of_knownNumber? {v : Value} {x : Number}
    (h : v.knownNumber? = some x) : compared op v = .ok x := by
  unfold Value.knownNumber? at h
  split at h
  · cases h
    rfl
  · rw [compared, Value.numberProxy?]
    dsimp only
    rw [h]
  · cases h

theorem NumberProxy.exists_compared_eq_error (op : BinaryOp) {v : Value}
    (h : v.knownNumber? = none) : ∃ e, compared op v = .error e := by
  obtain _ | n | p | _ | _ | _ := v
  case number => cases h
  case proxy =>
    cases p with
    | number q =>
      have hvalue : q.value = none := h
      refine ⟨.unsupportedOperation op.name s!"number proxy {q.name} of unknown value", ?_⟩
      rw [compared, Value.numberProxy?]
      dsimp only
      rw [hvalue]
    | _ => exact ⟨_, rfl⟩
  all_goals exact ⟨_, rfl⟩

/-- An operator is the handler's, on its side. -/
theorem Value.binary_of_handler? (op : BinaryOp) (h : a.handler? b = some p) :
    a = .proxy p ∧ a.binary op b = p.binary op b ∨
      b = .proxy p ∧ a.binary op b = p.reflected op a := by
  unfold handler? at h
  cases ha : a.proxy? with
  | some q =>
    rw [ha] at h
    cases h
    obtain rfl := eq_of_proxy? ha
    exact .inl ⟨rfl, rfl⟩
  | none =>
    rw [ha] at h
    obtain rfl := eq_of_proxy? (h : b.proxy? = some p)
    exact .inr ⟨rfl, binary_proxy_right ha⟩

/-- An operator that a number proxy handles, on either side. -/
theorem Value.binary_eq_dispatch {q : NumberProxy} (h : a.handler? b = some (.number q)) :
    a.binary op b = q.dispatch op a b := by
  obtain ⟨rfl, hbinary⟩ | ⟨rfl, hbinary⟩ := binary_of_handler? op h
  · exact hbinary
  · exact hbinary

/-- Without a tensor, a typed proxy that handles an operator is one for a number. -/
theorem Value.exists_number_of_handler? (h : a.handler? b = some p) (hp : p.IsTyped)
    (ha : a.tensorProxy? = .none) (hb : b.tensorProxy? = .none) : ∃ q, p = .number q := by
  have hside {v : Value} (hv : v.tensorProxy? = .none) (hproxy : v.proxy? = some p) :
      ∃ q, p = .number q := by
    obtain rfl := Value.eq_of_proxy? hproxy
    cases p with
    | untyped σ => cases hp
    | number q => exact ⟨q, rfl⟩
    | tensor t => cases hv
  unfold handler? at h
  cases hpa : a.proxy? with
  | some p' =>
    rw [hpa] at h
    cases h
    exact hside ha hpa
  | none =>
    rw [hpa] at h
    exact hside hb h

/-- What a number proxy answers to a comparison or logical operator if no operand is a tensor. -/
theorem NumberProxy.on_compareKnown (ha : a.tensorProxy? = none) (hb : b.tensorProxy? = none) :
    (compareKnown op a b).on s = ((do
      let x ← compared op a
      let y ← compared op b
      return .ofAnswer (← x.binary op y)), s) := by
  rw [compareKnown, ha, hb]
  cases compared op a with
  | error e => rfl
  | ok x =>
    cases compared op b with
    | error e => rfl
    | ok y => exact on_liftM_bind_pure (x.binary op y) Value.ofAnswer s

theorem NumberProxy.settled_dispatch_matmul (q : NumberProxy) (a b : Value) :
    (q.dispatch .matmul a b).Settled s
      (.error (.unsupportedOperation BinaryOp.matmul.name s!"number proxy {q.name}")) :=
  fun _ => rfl

theorem NumberProxy.settled_dispatch_of_compares (q : NumberProxy)
    (hop : (op.isComparison || op.isLogical) = true) (ha : a.tensorProxy? = none)
    (hb : b.tensorProxy? = none) :
    (q.dispatch op a b).Settled s (do
      let x ← compared op a
      let y ← compared op b
      return .ofAnswer (← x.binary op y)) := by
  intro c
  have hm : op ≠ .matmul := by
    rintro rfl
    cases hop
  rw [dispatch, if_neg hm, if_pos hop]
  exact on_compareKnown ha hb

/-! ### The generic hooks -/

/-- **Operators on proxies come to the generic hooks.** In a context that keeps the defaults of the
hooks that are named after operators, an operator on one operand, a number or tensor proxy that is
not stale, is one call of the generic hook with that operator; and so is an operator on two unless a
number proxy keeps it. Such a proxy refuses a matrix product and compares the numbers that are
known, in every context alike.

The context is otherwise arbitrary, and so may count the calls of its hooks. -/
theorem Value.asks_generic_hook (s : Session) :
    (∀ (op : UnaryOp) (p : Proxy), p.IsTyped → ¬ s.workspace.Stale p → ∀ c : LanguageContext,
      c.KeepsDefaults → ((Value.proxy p).unary op).on (s.enterContext c) =
        SessionM.on (liftM (c.elementwiseUnary op (.proxy p))) (s.enterContext c)) ∧
    ∀ (op : BinaryOp) (a b : Value) (p : Proxy), a.handler? b = some p → p.IsTyped →
      (∀ q, op = .matmul → p = .number q → (a.binary op b).Settled s
        (.error (.unsupportedOperation op.name s!"number proxy {q.name}"))) ∧
      ((op.isComparison || op.isLogical) = true → a.tensorProxy? = .none →
        b.tensorProxy? = .none → ∃ r, (a.binary op b).Settled s r ∧
          (∀ x y, a.knownNumber? = some x → b.knownNumber? = some y →
            r = ofAnswer <$> x.binary op y) ∧
          (a.knownNumber? = .none ∨ b.knownNumber? = .none → ∃ e, r = .error e)) ∧
      (¬ op.KeptBy p a b → (∀ q ∈ [a, b].filterMap Value.proxy?, ¬ s.workspace.Stale q) →
        ∀ c : LanguageContext, c.KeepsDefaults → (a.binary op b).on (s.enterContext c) =
          SessionM.on (liftM (c.elementwiseBinary op a b)) (s.enterContext c)) := by
  constructor
  · intro op p hp hstale c hc
    have hreaches : (Request.unary op (.proxy p)).reaches = true := by
      cases p with
      | untyped σ => cases hp
      | _ => rfl
    rw [← hc.unary]
    refine (Request.run_of_reaches hreaches).on_of_not_stale ?_ c
    intro q hq
    obtain rfl := List.mem_singleton.1 hq
    exact hstale
  intro op a b p h hp
  refine ⟨?_, ?_, ?_⟩
  · rintro q rfl rfl
    rw [binary_eq_dispatch h]
    exact q.settled_dispatch_matmul a b
  · intro hop ha hb
    obtain ⟨q, rfl⟩ := exists_number_of_handler? h hp ha hb
    refine ⟨_, binary_eq_dispatch h ▸ q.settled_dispatch_of_compares hop ha hb, ?_, ?_⟩
    · intro x y hx hy
      rw [NumberProxy.compared_of_knownNumber? hx, NumberProxy.compared_of_knownNumber? hy]
      rfl
    · rintro (hnone | hnone)
      · obtain ⟨e, he⟩ := NumberProxy.exists_compared_eq_error op hnone
        exact ⟨e, by rw [he]; rfl⟩
      · obtain ⟨e, he⟩ := NumberProxy.exists_compared_eq_error op hnone
        rw [he]
        cases NumberProxy.compared op a with
        | error e' => exact ⟨e', rfl⟩
        | ok x => exact ⟨e, rfl⟩
  · intro hkept hstale c hc
    rw [← hc.binary]
    exact (Request.run_of_reaches (Request.reaches_of_handler? h hp hkept)).on_of_not_stale hstale c

/-- A context that notes each call of a generic hook in the graph of a recorder. -/
def LanguageContext.notes (r : Recorder) : LanguageContext where
  name := "notes"
  elementwiseUnary op a := WorkspaceM.record r op.name [a] .none
  elementwiseBinary op a b := WorkspaceM.record r op.name [a, b] .none
  getItem _ _ := return .none
  size _ := return .none
  method? _ := none

/-- A comparison that a number proxy hands over to a tensor on its right is one note, with the
number first, and so is a negation; a matrix product with the number is refused, and a comparison
with a number looks at the known value. -/
theorem Value.asks_generic_hook_notes :
    let s : Session := ⟨Workspace.enter {}, []⟩
    let x : Proxy := .number ⟨⟨"x", ⟨0⟩⟩, .int, some (.int 2)⟩
    let t : Proxy := .tensor ⟨⟨"t0", ⟨0⟩⟩, [2], .cpu, ⟨.float32, false⟩, ⟨.float32, false⟩, 2, 1⟩
    let c := LanguageContext.notes ⟨0⟩
    ((Value.proxy x).unary .neg).on (s.enterContext c) =
        (.ok none, ⟨s.workspace.record ⟨0⟩ (.ofCall "neg" [.proxy x] none), [c]⟩) ∧
      ((Value.proxy x).binary .lt (.proxy t)).on (s.enterContext c) =
        (.ok none, ⟨s.workspace.record ⟨0⟩ (.ofCall "lt" [.proxy x, .proxy t] none), [c]⟩) ∧
      ((Value.proxy x).binary .matmul (.proxy t)).Settled s
        (.error (.unsupportedOperation "matmul" "number proxy x")) ∧
      ((Value.int 1).binary .lt (.proxy x)).Settled s (.ok (Number.bool true)) := by
  intro s x t c
  have ht : s.workspace.active? = some (.empty ⟨0⟩) := rfl
  have hstale : ∀ q ∈ [Value.proxy x, .proxy t].filterMap Value.proxy?, ¬ s.workspace.Stale q := by
    intro q hq
    rw [Workspace.not_stale_iff ht]
    revert q
    decide
  have hkept : ¬ BinaryOp.KeptBy .lt x (.proxy x) (.proxy t) := by
    rintro (⟨h, -⟩ | ⟨-, -, h⟩) <;> cases h
  obtain ⟨hunary, hbinary⟩ := asks_generic_hook s
  refine ⟨?_, ?_, ?_, ?_⟩
  · exact hunary .neg x trivial (hstale x (.head _)) c ⟨rfl, rfl⟩
  · exact (hbinary .lt (.proxy x) (.proxy t) x rfl trivial).2.2 hkept hstale c ⟨rfl, rfl⟩
  · exact (hbinary .matmul (.proxy x) (.proxy t) x rfl trivial).1 _ rfl rfl
  · obtain ⟨-, hknown, -⟩ := hbinary .lt (.int 1) (.proxy x) x rfl trivial
    obtain ⟨r, hsettled, hr, -⟩ := hknown rfl rfl rfl
    rw [hr (.int 1) (.int 2) rfl rfl] at hsettled
    exact hsettled

end ProxyTrace
