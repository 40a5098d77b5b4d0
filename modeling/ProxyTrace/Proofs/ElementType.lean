import ProxyTrace.Proofs.ValuePlan
import ProxyTrace.Proofs.WellFormed

/-!
# The element type of a result

An arithmetic operator on two tensors of one shape answers tensors of the type that it derives from
the left operand's (`Run.answersType_left`). So of a weak and a strong operand it is the left one
that decides: a strong type prevails from the left, and from the right only where a true division of
elements that are not fractional makes its own type (`Run.strong_prevails_iff`).
-/

namespace ProxyTrace

open SessionM

variable {run : Run} {r : Recorder} {t : Trace} {a b : TensorProxy} {op : BinaryOp}
  {d d' : DType}

/-- An operator element by element that computes: one from addition to the right shift. -/
def BinaryOp.isArithmetic : BinaryOp → Bool
  | add | sub | mul | trueDivide | floorDivide | mod | divmod | pow | shiftLeft | shiftRight => true
  | _ => false

theorem BinaryOp.ne_matmul_of_isArithmetic (hop : op.isArithmetic = true) : op ≠ .matmul := by
  rintro rfl
  cases hop

theorem BinaryOp.not_isComparison_or_isLogical (hop : op.isArithmetic = true) :
    (op.isComparison || op.isLogical) = false := by
  cases op <;> first | rfl | cases hop

namespace DType

/-- The element type that an arithmetic operator derives. -/
def arithmetic (op : BinaryOp) (d : DType) : DType :=
  if op = .trueDivide ∧ d.isFractional = false then { scalar := .float32 } else d

theorem binary_eq_arithmetic (hop : op.isArithmetic = true) (d : DType) :
    d.binary op = d.arithmetic op := by
  rw [binary, arithmetic, BinaryOp.not_isComparison_or_isLogical hop]
  simp only [Bool.false_eq_true, if_false, Bool.not_eq_true']

/-- A weak type stays weak, unless a division replaces it. -/
theorem weak_arithmetic (op : BinaryOp) (d : DType) : (d.arithmetic op).weak = false ↔
    d.weak = false ∨ op = .trueDivide ∧ d.isFractional = false := by
  unfold arithmetic
  split
  · rename_i hdivides
    exact iff_of_true rfl (.inr hdivides)
  · rename_i hkept
    exact (or_iff_left hkept).symm

theorem arithmetic_eq_float32_iff (d : DType) :
    d.arithmetic .trueDivide = { scalar := .float32 } ↔
      d.isFractional = false ∨ d = { scalar := .float32 } := by
  unfold arithmetic
  split
  · rename_i hdivides
    exact iff_of_true rfl (.inl hdivides.2)
  · rename_i hkept
    exact (or_iff_right fun h => hkept ⟨rfl, h⟩).symm

theorem arithmetic_eq_iff (hd : d.weak = false) (hd' : d'.weak = true) :
    d'.arithmetic op = d.arithmetic op ↔ op = .trueDivide ∧ d'.isFractional = false ∧
      (d.isFractional = false ∨ d = { scalar := .float32 }) := by
  by_cases hdivides : op = .trueDivide ∧ d'.isFractional = false
  · obtain ⟨rfl, hfractional⟩ := hdivides
    have hfloat := (arithmetic_eq_float32_iff d').2 (.inl hfractional)
    rw [hfloat, eq_comm, arithmetic_eq_float32_iff]
    simp [hfractional]
  -- otherwise one type is strong and the other weak
  · refine iff_of_false (fun heq => ?_) fun h => hdivides ⟨h.1, h.2.1⟩
    have hstrong := (weak_arithmetic op d).2 (.inl hd)
    rw [← heq, weak_arithmetic, hd'] at hstrong
    rcases hstrong with hweak | hdivides'
    · cases hweak
    · exact hdivides hdivides'

end DType

/-- An operator answers one tensor of the element type, or the two of `divmod`. -/
def BinaryOp.AnswersType (op : BinaryOp) (a b : TensorProxy) (s : Session) (d : DType) : Prop :=
  ∃ v s', ((a : Value).binary op b).on s = (.ok v, s') ∧
    if op = .divmod then ∃ y z : TensorProxy, v = .tuple [y, z] ∧ y.trueDtype = d ∧ z.trueDtype = d
    else ∃ y : TensorProxy, v = y ∧ y.trueDtype = d

theorem BinaryOp.AnswersType.unique {s : Session} {d d' : DType} (h : op.AnswersType a b s d)
    (h' : op.AnswersType a b s d') : d = d' := by
  obtain ⟨v, s₁, hv, hd⟩ := h
  obtain ⟨v', s₁', hv', hd'⟩ := h'
  rw [hv] at hv'
  cases hv'
  split at hd
  · rw [if_pos ‹op = .divmod›] at hd'
    obtain ⟨y, z, rfl, rfl, -⟩ := hd
    obtain ⟨y', z', heq, rfl, -⟩ := hd'
    cases heq
    rfl
  · rw [if_neg ‹op ≠ .divmod›] at hd'
    obtain ⟨y, rfl, rfl⟩ := hd
    obtain ⟨y', heq, rfl⟩ := hd'
    cases heq
    rfl

theorem TensorProxy.WellFormed.planBinary (ha : a.WellFormed) (hshape : a.shape = b.shape)
    (hop : op.isArithmetic = true) :
    Recorder.planBinary op a b = .ok (Recorder.planResults op [a, b]
      (.tensor a.shape a.device (a.trueDtype.arithmetic op).toStrong (a.trueDtype.arithmetic op)
        a.numel a.shape.length)) := by
  have hsame : Shape.binary op a.shape b.shape = .ok a.shape := by
    rw [Shape.binary, if_neg (BinaryOp.ne_matmul_of_isArithmetic hop), if_pos hshape]
  rw [← DType.binary_eq_arithmetic hop]
  let spec : TensorSpec :=
    { like := a, shape := Shape.toExtents a.shape, dtype := some (.ok (a.trueDtype.binary op)) }
  have hread : spec.shapeOf = .ok a.shape := by
    simp only [spec, TensorSpec.shapeOf, Shape.ofExtents?_toExtents ha.extents]
  have hsketch := TensorSpec.sketch_of_count hread rfl rfl ha.count
  change (do Recorder.planBinaryTensor op a b a (← Shape.binary op a.shape b.shape)) = _
  rw [hsame]
  change (do return Recorder.planResults op [a, b] (← spec.sketch)) = _
  rw [hsketch]
  rfl

namespace Run

/-- The left operand decides. -/
theorem answersType_left (h : run.RecordsInto r t) (ha : run.Holds t a) (hb : run.Holds t b)
    (hshape : a.shape = b.shape) (hop : op.isArithmetic = true) :
    op.AnswersType a b run.session (a.trueDtype.arithmetic op) := by
  have hcall : ((a : Value).binary op b).on run.session =
      on (liftM (Plan.carryOut r (Recorder.planBinary op a b))) run.session :=
    Value.on_binary_eq h.context h.active op ha.owned hb.owned
  rw [(h.wellFormed ha).planBinary hshape hop] at hcall
  obtain ⟨w, hw, -⟩ := Plan.on_carryOut_ok (k := 0) _ r h.active
  refine ⟨_, _, hcall.trans hw, ?_⟩
  unfold Recorder.planResults
  split
  · exact ⟨_, _, rfl, rfl, rfl⟩
  · exact ⟨_, rfl, rfl⟩

/-- **When the strong one of two element types prevails.** A result has the type that the operator
derives from the left operand's: that type, or `float32` for a true division of elements that are
not fractional. With the strong operand on the left it is the strong one's, and strong. With the
weak operand on the left it is the strong one's only if the division makes both of them `float32`,
and strong only if it makes the weak one `float32`. -/
theorem strong_prevails_iff (h : run.RecordsInto r t) (ha : run.Holds t a) (hb : run.Holds t b)
    (hshape : a.shape = b.shape) (hstrong : a.trueDtype.weak = false)
    (hweak : b.trueDtype.weak = true) (hop : op.isArithmetic = true) :
    (a.trueDtype.arithmetic op).weak = false ∧
    op.AnswersType a b run.session (a.trueDtype.arithmetic op) ∧
    op.AnswersType b a run.session (b.trueDtype.arithmetic op) ∧
    (op.AnswersType b a run.session (a.trueDtype.arithmetic op) ↔
      op = .trueDivide ∧ b.trueDtype.isFractional = false ∧
        (a.trueDtype.isFractional = false ∨ a.trueDtype = { scalar := .float32 })) ∧
    ((∀ d, op.AnswersType b a run.session d → d.weak = false) ↔
      op = .trueDivide ∧ b.trueDtype.isFractional = false) := by
  have hab := answersType_left h ha hb hshape hop
  have hba := answersType_left h hb ha hshape.symm hop
  -- the results are of one type only
  have honly {d : DType} : op.AnswersType b a run.session d ↔ b.trueDtype.arithmetic op = d :=
    ⟨hba.unique, by rintro rfl; exact hba⟩
  refine ⟨(DType.weak_arithmetic op _).2 (.inl hstrong), hab, hba, ?_, ?_⟩
  · rw [honly]
    exact DType.arithmetic_eq_iff hstrong hweak
  · simp only [honly, forall_eq', DType.weak_arithmetic, hweak, Bool.true_eq_false, false_or]

/-- A program may hold tensors of one shape and of any two element types. -/
theorem exists_holds_both (d d' : DType) : ∃ run r t a b, RecordsInto run r t ∧ run.Holds t a ∧
    run.Holds t b ∧ a.shape = b.shape ∧ a.trueDtype = d ∧ b.trueDtype = d' := by
  let spec (d : DType) : TensorSpec :=
    { shape := some [3], device := some (.ok .cpu), dtype := some (.ok d) }
  obtain ⟨run₀, r, t₀, h₀⟩ := exists_recordsInto
  obtain ⟨run₁, t₁, σ, h₁, ha, -⟩ := h₀.exists_build (spec d) rfl rfl rfl
  obtain ⟨run, t, τ, h, hb, hkept⟩ := h₁.exists_build (spec d') rfl rfl rfl
  exact ⟨run, r, t, _, _, h, hkept _ ha, hb, rfl, rfl, rfl⟩

/-- Floats and weak ints: their sum is a float with the floats on the left, and their quotient on
either side. -/
theorem strong_prevails_iff_floats : ∃ run r t a b, RecordsInto run r t ∧ run.Holds t a ∧
    run.Holds t b ∧ a.trueDtype = { scalar := .float32 } ∧ b.trueDtype = .ofKind .int ∧
    BinaryOp.add.AnswersType a b run.session { scalar := .float32 } ∧
    BinaryOp.trueDivide.AnswersType b a run.session { scalar := .float32 } := by
  obtain ⟨run, r, t, a, b, h, ha, hb, hshape, hstrong, hweak⟩ :=
    exists_holds_both { scalar := .float32 } (.ofKind .int)
  have hstrong' : a.trueDtype.weak = false := by rw [hstrong]
  have hweak' : b.trueDtype.weak = true := by rw [hweak]; rfl
  have hop : BinaryOp.add.isArithmetic ∧ BinaryOp.trueDivide.isArithmetic := ⟨rfl, rfl⟩
  have hadd := strong_prevails_iff h ha hb hshape hstrong' hweak' hop.1
  have hdivide := strong_prevails_iff h ha hb hshape hstrong' hweak' hop.2
  rw [hstrong, hweak] at hadd hdivide
  exact ⟨run, r, t, a, b, h, ha, hb, hstrong, hweak, hadd.2.1,
    hdivide.2.2.2.1.2 ⟨rfl, rfl, .inr rfl⟩⟩

/-- The sum of weak ints and floats, with the ints on the left, is of weak ints. -/
theorem weak_overrides_strong : ∃ run r t a b, RecordsInto run r t ∧ run.Holds t a ∧
    run.Holds t b ∧ a.shape = b.shape ∧ a.trueDtype = { scalar := .float32 } ∧
    b.trueDtype = .ofKind .int ∧
    BinaryOp.add.AnswersType b a run.session { scalar := .int64, weak := true } ∧
    ¬BinaryOp.add.AnswersType b a run.session { scalar := .float32 } := by
  obtain ⟨run, r, t, a, b, h, ha, hb, hshape, hstrong, hweak⟩ :=
    exists_holds_both { scalar := .float32 } (.ofKind .int)
  have hadd : BinaryOp.add.isArithmetic := rfl
  have hba := answersType_left h hb ha hshape.symm hadd
  rw [hweak] at hba
  refine ⟨run, r, t, a, b, h, ha, hb, hshape, hstrong, hweak, hba, fun hfloat => ?_⟩
  cases hba.unique hfloat

end Run

end ProxyTrace
