import ProxyTrace.Number.Arith
import ProxyTrace.Proofs.Word

/-!
Overflow against the whole numbers. Bools and ints are words, and the whole number that an operator
stands for may not be one: then, and apart from two points only then, the operator overflows.
-/

namespace ProxyTrace

/-! ### What the operators stand for -/

/-- The whole number that an operator on one operand stands for, where overflow is possible. -/
def UnaryOp.onInts? (op : UnaryOp) (i : Int) : Option Int :=
  match op with
  | .abs => some i.natAbs
  | .neg => some (-i)
  | _ => none

/-- The whole number that an operator on two operands stands for. Division is by a nonzero number
and rounds down, and a count is not negative. -/
def BinaryOp.onInts? (op : BinaryOp) (i j : Int) : Option Int :=
  match op with
  | .add => some (i + j)
  | .sub => some (i - j)
  | .mul => some (i * j)
  | .floorDivide => if j = 0 then none else some (i.fdiv j)
  | .mod => if j = 0 then none else some (i.fmod j)
  | .shiftLeft => if j < 0 then none else some (i * 2 ^ j.toNat)
  | .shiftRight => if j < 0 then none else some (i / 2 ^ j.toNat)
  | _ => none

/-- The remainder of the one division whose quotient is no word, and the least word as a shift of
-1: their operators overflow, although the whole number is a word. -/
def BinaryOp.OverflowsEarly (op : BinaryOp) (i j : Int64) : Prop :=
  op = .mod ∧ i = Int64.minValue ∧ j = -1 ∨ op = .shiftLeft ∧ i = -1 ∧ j = 63

namespace Number

variable {a b : Number} {i j w : Int64} {z : Int}

/-! ### Outcomes -/

theorem ofWord?_eq_overflow_iff {op : String} {r : Option Int64} :
    ofWord? op r = .error (.overflow op) ↔ r = none := by
  cases r <;> simp [ofWord?]

theorem single_ofWord?_eq_overflow_iff {op : String} {r : Option Int64} :
    (Answer.single <$> ofWord? op r : Except Error Answer) = .error (.overflow op) ↔ r = none := by
  cases r <;> simp [ofWord?]

theorem single_ofWord?_ofInt?_eq_ok_iff {op : String} {x : Number} :
    Answer.single <$> ofWord? op (Word.ofInt? z) = .ok (.single x) ↔
      ∃ w : Int64, x = int w ∧ w.toInt = z := by
  simp only [← Word.ofInt?_eq_some_iff]
  cases Word.ofInt? z <;> simp [ofWord?, eq_comm]

theorem promote_of_toInt? (ha : a.toInt? = some i) (hb : b.toInt? = some j) :
    promote a b = .ints i j := by
  simp [promote, ha, hb]

theorem unary_of_toInt? (op : UnaryOp) (ha : a.toInt? = some i) : a.unary op = unaryInt op i := by
  cases a <;> simp_all [toInt?, unary]

/-- The outcome of an operator on one word is the word that its whole number is. -/
theorem unary_eq_ofWord? {op : UnaryOp} (ha : a.toInt? = some i)
    (hz : op.onInts? i.toInt = some z) : a.unary op = ofWord? op.name (Word.ofInt? z) := by
  rw [unary_of_toInt? op ha]
  cases op with
  | abs => cases hz; rfl
  | neg => cases hz; rfl
  | _ => simp [UnaryOp.onInts?] at hz

/-- The outcome of an operator on two words is the word that its whole number is, but for the two
points. -/
theorem binary_eq_ofWord? {op : BinaryOp} (ha : a.toInt? = some i) (hb : b.toInt? = some j)
    (hz : op.onInts? i.toInt j.toInt = some z) (hop : ¬op.OverflowsEarly i j) :
    a.binary op b = .single <$> ofWord? op.name (Word.ofInt? z) := by
  have hints := promote_of_toInt? ha hb
  have hne : j.toInt ≠ 0 → j ≠ 0 := by rintro h rfl; exact h rfl
  have hle : ¬j.toInt < 0 → ¬j < 0 := mt (Word.lt_zero_iff j).1
  have hnonneg : ¬j.toInt < 0 → 0 ≤ j := fun h => Int64.not_lt.1 (hle h)
  cases op with
  | add => cases hz; simp [binary, add, hints, Word.add?]
  | sub => cases hz; simp [binary, sub, hints, Word.sub?]
  | mul => cases hz; simp [binary, mul, hints, Word.mul?]
  | floorDivide =>
    simp only [BinaryOp.onInts?, Option.ite_none_left_eq_some, Option.some.injEq] at hz
    obtain ⟨hj, rfl⟩ := hz
    simp [binary, floorDivide, hints, hne hj, Word.floorDiv?_eq_ofInt? (hne hj)]
  | mod =>
    simp only [BinaryOp.onInts?, Option.ite_none_left_eq_some, Option.some.injEq] at hz
    obtain ⟨hj, rfl⟩ := hz
    have hdiv : Word.Divides i j := ⟨hne hj, fun h => hop (.inl ⟨rfl, h⟩)⟩
    simp [binary, mod, hints, hne hj, Word.floorMod?_eq_ofInt? hdiv]
  | shiftLeft =>
    simp only [BinaryOp.onInts?, Option.ite_none_left_eq_some, Option.some.injEq] at hz
    obtain ⟨hj, rfl⟩ := hz
    have hedge : ¬(i = -1 ∧ j = 63) := fun h => hop (.inr ⟨rfl, h⟩)
    simp [binary, shiftLeft, shift, hints, hle hj, Word.shiftLeft?_eq_ofInt? (hnonneg hj) hedge]
  | shiftRight =>
    simp only [BinaryOp.onInts?, Option.ite_none_left_eq_some, Option.some.injEq] at hz
    obtain ⟨hj, rfl⟩ := hz
    rw [← Word.toInt_shiftRight (hnonneg hj), Word.ofInt?_toInt]
    simp [binary, shiftRight, shift, hints, hle hj]
  | _ => simp [BinaryOp.onInts?] at hz

theorem binary_of_overflowsEarly {op : BinaryOp} (ha : a.toInt? = some i) (hb : b.toInt? = some j)
    (hop : op.OverflowsEarly i j) : a.binary op b = .error (.overflow op.name) := by
  have hints := promote_of_toInt? ha hb
  obtain ⟨rfl, rfl, rfl⟩ | ⟨rfl, rfl, rfl⟩ := hop
  · simp only [binary, mod, hints]
    rfl
  · simp only [binary, shiftLeft, shift, hints]
    rfl

/-- **An operator overflows exactly if its whole number is no word, but for two points.** Whenever
the whole number is a word, the other operators answer it. -/
theorem overflows_iff (ha : a.toInt? = some i) (hb : b.toInt? = some j) :
    (∀ op : BinaryOp, ∀ z, op.onInts? i.toInt j.toInt = some z →
      (a.binary op b = .error (.overflow op.name) ↔ ¬Word.InRange z ∨ op.OverflowsEarly i j) ∧
      (Word.InRange z → ¬op.OverflowsEarly i j →
        ∃ w : Int64, a.binary op b = .ok (.single (int w)) ∧ w.toInt = z)) ∧
    ∀ op : UnaryOp, ∀ z, op.onInts? i.toInt = some z →
      (a.unary op = .error (.overflow op.name) ↔ ¬Word.InRange z) ∧
      (Word.InRange z → ∃ w : Int64, a.unary op = .ok (int w) ∧ w.toInt = z) := by
  refine ⟨fun op z hz => ?_, fun op z hz => ?_⟩
  · by_cases hop : op.OverflowsEarly i j
    · simp [hop, binary_of_overflowsEarly ha hb hop]
    · rw [binary_eq_ofWord? ha hb hz hop]
      refine ⟨?_, fun hrange _ => ⟨Int64.ofInt z, ?_, Word.toInt_ofInt hrange⟩⟩
      · simp [single_ofWord?_eq_overflow_iff, Word.ofInt?_eq_none_iff, hop]
      · simp [Word.ofInt?, hrange, ofWord?]
  · rw [unary_eq_ofWord? ha hz]
    refine ⟨?_, fun hrange => ⟨Int64.ofInt z, ?_, Word.toInt_ofInt hrange⟩⟩
    · rw [ofWord?_eq_overflow_iff, Word.ofInt?_eq_none_iff]
    · simp [Word.ofInt?, hrange, ofWord?]

/-- The least word divided by -1 is no word, and its negation is none either. -/
theorem overflows_iff_least :
    (int Int64.minValue).toInt? = some Int64.minValue ∧ (int (-1)).toInt? = some (-1) ∧
    (int Int64.minValue).binary .floorDivide (int (-1)) = .error (.overflow "floor_divide") ∧
    (int Int64.minValue).unary .neg = .error (.overflow "neg") := by
  have h := overflows_iff (a := int Int64.minValue) (b := int (-1)) rfl rfl
  have hquotient := h.1 .floorDivide 0x8000000000000000 (by decide)
  have hnegation := h.2 .neg 0x8000000000000000 (by decide)
  exact ⟨rfl, rfl, hquotient.1.2 (.inl (by decide)), hnegation.1.2 (by decide)⟩

/-- At the two points the whole number is a word. -/
theorem overflow_of_inRange :
    (BinaryOp.onInts? .mod Int64.minValue.toInt (-1) = some 0 ∧ Word.InRange 0 ∧
      (int Int64.minValue).binary .mod (int (-1)) = .error (.overflow "mod")) ∧
    (BinaryOp.onInts? .shiftLeft (-1) 63 = some (-0x8000000000000000) ∧
      Word.InRange (-0x8000000000000000) ∧
      (int (-1)).binary .shiftLeft (int 63) = .error (.overflow "lshift")) := by
  decide

end Number

end ProxyTrace
