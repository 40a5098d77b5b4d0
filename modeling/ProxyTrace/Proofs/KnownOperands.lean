import ProxyTrace.Proofs.GenericHook

/-!
# Known operands

A number proxy of known value computes as its value does. Where no language context is asked, an
operator on numbers takes the number that each operand stands for, the left one first
(`BinaryOp.numberOf`), and computes with the two, whichever operand is a proxy and whoever handles
the operator. The main statement is `Value.known_operands_transparent`.
-/

namespace ProxyTrace

variable {s : Session} {a b v : Value} {x : Number} {p : NumberProxy} {op : BinaryOp}

open SessionM

/-- A number, or a proxy for one. -/
inductive Value.IsNumeric : Value → Prop where
  | number (n : Number) : IsNumeric (.number n)
  | proxy (p : NumberProxy) : IsNumeric p

theorem Value.IsNumeric.tensorProxy? (h : v.IsNumeric) : v.tensorProxy? = .none := by
  cases h <;> rfl

/-! ### The numbers of the operands -/

namespace BinaryOp

/-- The number that an operand stands for where no context is asked. -/
def numberOf (op : BinaryOp) (v : Value) : Except Error Number :=
  if op.isComparison || op.isLogical then NumberProxy.compared op v else v.known op.name

/-- How the operator fails on a proxy of unknown value. -/
def unknownOperand (op : BinaryOp) (p : NumberProxy) : Error :=
  if op.isComparison || op.isLogical then
    .unsupportedOperation op.name s!"number proxy {p.name} of unknown value"
  else .noActiveContext op.name

theorem numberOf_number (op : BinaryOp) (n : Number) : op.numberOf (.number n) = .ok n := by
  simp [numberOf, NumberProxy.compared, Value.numberProxy?, Value.known]

theorem numberOf_proxy (op : BinaryOp) (p : NumberProxy) :
    op.numberOf p = match p.value with
      | some n => .ok n
      | none => .error (op.unknownOperand p) := by
  unfold numberOf unknownOperand
  split
  · cases hvalue : p.value <;> simp [NumberProxy.compared, Value.numberProxy?, hvalue]
  · cases hvalue : p.value <;> simp [Value.known, hvalue]

theorem numberOf_of_knownNumber? (hv : v.IsNumeric) (h : v.knownNumber? = some x) :
    op.numberOf v = .ok x := by
  cases hv with
  | number n =>
    cases h
    exact op.numberOf_number x
  | proxy p =>
    have hvalue : p.value = some x := h
    rw [numberOf_proxy, hvalue]

end BinaryOp

/-! ### Whoever handles the operator -/

/-- The operator on the numbers that the operands stand for. -/
def Value.computed (op : BinaryOp) (a b : Value) : Except Error Value := do
  let x ← op.numberOf a
  let y ← op.numberOf b
  ofAnswer <$> x.binary op y

theorem NumberProxy.on_dispatch_of_isNumeric (hop : op ≠ .matmul)
    (hs : s.context? = none ∨ (op.isComparison || op.isLogical) = true) (ha : a.IsNumeric)
    (hb : b.IsNumeric) (p : NumberProxy) :
    (p.dispatch op a b).on s = (Value.computed op a b, s) := by
  rw [dispatch, if_neg hop]
  unfold Value.computed BinaryOp.numberOf
  split
  · exact on_compareKnown ha.tensorProxy? hb.tensorProxy?
  · rename_i hcompares
    rw [on_bind_ok (on_context? _), hs.resolve_right hcompares]
    rfl

theorem Value.on_binary_of_isNumeric (hop : op ≠ .matmul)
    (hs : s.context? = .none ∨ (op.isComparison || op.isLogical) = true) (ha : a.IsNumeric)
    (hb : b.IsNumeric) : (a.binary op b).on s = (computed op a b, s) := by
  have hdispatch := NumberProxy.on_dispatch_of_isNumeric hop hs ha hb
  cases ha with
  | proxy p => exact hdispatch p
  | number m =>
    cases hb with
    | proxy p => exact hdispatch p
    | number n =>
      rw [computed, op.numberOf_number m, op.numberOf_number n]
      exact on_liftM_bind_pure (m.binary op n) ofAnswer s

/-- The left operand is asked first, so its failure is the one that shows. -/
theorem Value.computed_of_unknown (ha : a.IsNumeric) (hb : b.IsNumeric)
    (h : ([a, b].filterMap numberProxy?).find? (·.value.isNone) = some p) :
    computed op a b = .error (op.unknownOperand p) := by
  have hright (hb' : (([b].filterMap numberProxy?).find? (·.value.isNone)) = some p) :
      op.numberOf b = .error (op.unknownOperand p) := by
    cases hb with
    | number n => cases hb'
    | proxy q =>
      rw [BinaryOp.numberOf_proxy]
      cases hvalue : q.value <;> simp_all [numberProxy?]
  cases ha with
  | number m =>
    rw [computed, op.numberOf_number, hright h]
    rfl
  | proxy q =>
    rw [computed, op.numberOf_proxy]
    cases hvalue : q.value with
    | none =>
      obtain rfl : q = p := by simpa [numberProxy?, hvalue] using h
      rfl
    | some x =>
      rw [hright (by simpa [numberProxy?, hvalue] using h)]
      rfl

/-! ### Operators on one operand -/

theorem NumberProxy.on_unary_of_none (hs : s.context? = none) (op : UnaryOp) (p : NumberProxy) :
    (p.unary op).on s = (match p.value with
      | some n => Value.number <$> n.unary op
      | none => .error (.noActiveContext op.name), s) := by
  rw [unary, on_bind_ok (on_context? _), hs]
  cases p.value with
  | none => rfl
  | some n => exact on_liftM_bind_pure (n.unary op) Value.number s

/-- **Known number proxies are transparent.** On numbers, each native or a proxy of any name, owner
and value, an operator answers what it answers on the numbers themselves, or fails as it fails on
them, if no context is active; comparison and logical operators do so in every context. If the
value of a proxy is unknown, the first such proxy is what the operator fails on. Either way nothing
in the session changes, so nothing is recorded. -/
theorem Value.known_operands_transparent (s : Session) (ha : a.IsNumeric) (hb : b.IsNumeric) :
    (∀ op : BinaryOp, op ≠ .matmul →
      s.context? = .none ∨ (op.isComparison || op.isLogical) = true →
        (∀ x y, a.knownNumber? = some x → b.knownNumber? = some y →
          (a.binary op b).on s = (ofAnswer <$> x.binary op y, s)) ∧
        ∀ p, ([a, b].filterMap numberProxy?).find? (·.value.isNone) = some p →
          (a.binary op b).on s = (.error (op.unknownOperand p), s)) ∧
    ∀ op : UnaryOp, s.context? = .none →
      (∀ x, a.knownNumber? = some x → (a.unary op).on s = (number <$> x.unary op, s)) ∧
      (a.knownNumber? = .none → (a.unary op).on s = (.error (.noActiveContext op.name), s)) := by
  refine ⟨fun op hop hs => ⟨?_, ?_⟩, fun op hs => ⟨?_, ?_⟩⟩
  · intro x y hx hy
    rw [on_binary_of_isNumeric hop hs ha hb, computed, BinaryOp.numberOf_of_knownNumber? ha hx,
      BinaryOp.numberOf_of_knownNumber? hb hy]
    rfl
  · intro p hp
    rw [on_binary_of_isNumeric hop hs ha hb, computed_of_unknown ha hb hp]
  · intro x hx
    cases ha with
    | number n =>
      cases hx
      exact on_liftM_bind_pure (x.unary op) number s
    | proxy p =>
      have hvalue : p.value = some x := hx
      refine (NumberProxy.on_unary_of_none hs op p).trans ?_
      rw [hvalue]
  · intro hnone
    cases ha with
    | number n => cases hnone
    | proxy p =>
      have hvalue : p.value = .none := hnone
      refine (NumberProxy.on_unary_of_none hs op p).trans ?_
      rw [hvalue]

/-- With the proxy on the right 7 - 2 is 5 where no context is active, and 7 < ? fails in every
context. -/
theorem Value.known_operands_transparent_reflected :
    let two : NumberProxy := ⟨⟨"n", ⟨3⟩⟩, .int, some (.int 2)⟩
    let unknown : NumberProxy := ⟨⟨"m", ⟨0⟩⟩, .int, .none⟩
    ((int 7).binary .sub two).on {} = (.ok (int 5), {}) ∧
      ∀ s, ((int 7).binary .lt unknown).on s =
        (.error (.unsupportedOperation "lt" "number proxy m of unknown value"), s) := by
  intro two unknown
  have hseven : (int 7).IsNumeric := .number (.int 7)
  constructor
  · obtain ⟨hbinary, -⟩ := known_operands_transparent {} hseven (.proxy two)
    exact (hbinary .sub (by decide) (.inl rfl)).1 (.int 7) (.int 2) rfl rfl
  · intro s
    obtain ⟨hbinary, -⟩ := known_operands_transparent s hseven (.proxy unknown)
    exact (hbinary .lt (by decide) (.inr rfl)).2 unknown rfl

end ProxyTrace
