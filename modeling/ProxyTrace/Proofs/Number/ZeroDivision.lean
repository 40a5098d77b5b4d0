import ProxyTrace.Proofs.Coercion
import ProxyTrace.Proofs.Number.Kinds
import ProxyTrace.Proofs.Number.Overflow

/-!
# Division by zero

Zero is tested after the operands were widened to their common kind, and by each kind in its own
way. Widening keeps a number on its side of zero (`Number.sign_toFloat?`, `Number.sign_toComplex`),
as a word other than zero is never rounded to it (`Binary64.isZero_ofInt`). So a division by zero is
reported exactly where the values of the operands call for it, with one rule for numbers below
complex and one for complex numbers (`Number.zeroDivision_exact`).
-/

namespace ProxyTrace

/-- The failure of a division by zero. -/
def IsZeroDivision {α : Type} (x : Except Error α) : Prop :=
  ∃ op, x = .error (.zeroDivision op)

section IsZeroDivision

variable {α β : Type}

@[simp] theorem not_isZeroDivision_ok (a : α) : ¬ IsZeroDivision (.ok a) := nofun

@[simp] theorem isZeroDivision_error {e : Error} :
    IsZeroDivision (.error e : Except Error α) ↔ ∃ op, e = .zeroDivision op := by
  simp [IsZeroDivision]

@[simp] theorem isZeroDivision_map (f : α → β) (x : Except Error α) :
    IsZeroDivision (f <$> x) ↔ IsZeroDivision x := by
  cases x with
  | error e => exact isZeroDivision_error.trans isZeroDivision_error.symm
  | ok a => exact iff_of_false (not_isZeroDivision_ok (f a)) (not_isZeroDivision_ok a)

end IsZeroDivision

/-! ### The side of zero -/

theorem Rounding.le_halfEven (num den : Nat) : num / den ≤ halfEven num den := by
  unfold halfEven
  dsimp only
  split
  · exact Nat.le_refl _
  · exact Nat.le_succ _

namespace Binary64

variable {x : Binary64} {k i : Int}

theorem isZero_iff_rank? : x.isZero = true ↔ x.rank? = some 0 := by
  obtain ⟨n, _ | _ | _⟩ := x
  case finite u hu =>
    have hsigned : signed n u = 0 ↔ u = 0 := by rw [← Int.natAbs_eq_zero, natAbs_signed]
    cases u with
    | zero => exact iff_of_true rfl (congrArg some (hsigned.2 rfl))
    | succ u => exact iff_of_false nofun fun h => nomatch hsigned.1 (Option.some.inj h)
  case infinite =>
    have hsigned : signed n unitLimit ≠ 0 := by
      rw [← Int.natAbs_ne_zero, natAbs_signed]
      decide +kernel
    exact iff_of_false nofun fun h => hsigned (Option.some.inj h)
  case nan => exact iff_of_false nofun nofun

theorem place_lt_zero_iff (h : -(unitLimit : Int) ≤ k ∧ k ≤ unitLimit) : place k < 0 ↔ k < 0 := by
  have hzero : place 0 = 0 := by
    rw [place_of_lt (by decide +kernel) (by decide +kernel), ExtendedRat.ofRat_eq_zero, Int.cast_zero,
      zero_div]
  rw [← hzero, ← compare_lt_iff_lt, compare_place h (by decide +kernel), compare_lt_iff_lt]

theorem isBelowZero_iff : x.isBelowZero = true ↔ ∃ v ∈ x.value?, v < 0 := by
  rw [isBelowZero, value?_eq]
  cases hk : x.rank? with
  | none => simp
  | some k => simp [place_lt_zero_iff (rank?_bounds hk)]

/-- Units that are there are not rounded away. -/
theorem nearest_cases (u : Nat) : Magnitude.nearest u 1 = .infinite ∨
    ∃ v hv, Magnitude.nearest u 1 = .finite v hv ∧ (v = 0 ↔ u = 0) := by
  have hone : u / 1 = u := Nat.div_one u
  unfold Magnitude.nearest
  dsimp only
  split <;> rename_i hlimit
  · refine .inr ⟨_, ⟨hlimit, _, _, nearest_le u 1, rfl⟩, rfl, ?_⟩
    rw [hone, Nat.shiftLeft_eq, Nat.shiftLeft_eq, Nat.one_mul, Nat.mul_eq_zero,
      or_iff_left (Nat.two_pow_pos _).ne']
    constructor
    · intro h
      by_contra hu
      have hlog : 2 ^ (u.log2 - 52) ≤ u :=
        (Nat.pow_le_pow_right (by decide) (Nat.sub_le _ _)).trans (Nat.log2_self_le hu)
      have hquotient : 0 < u / 2 ^ (u.log2 - 52) := Nat.div_pos hlog (Nat.two_pow_pos _)
      have := Rounding.le_halfEven u (2 ^ (u.log2 - 52))
      omega
    · rintro rfl
      rfl
  · exact .inl rfl

/-- A whole number keeps its sign, and stays other than zero, when it is rounded. -/
theorem exists_rank?_ofInt (i : Int) :
    ∃ u, (ofInt i).rank? = some (signed (decide (i < 0)) u) ∧ (u = 0 ↔ i = 0) := by
  have hzero : i.natAbs * unitsPerOne = 0 ↔ i = 0 := by
    rw [Nat.mul_eq_zero, Int.natAbs_eq_zero, or_iff_left unitsPerOne_pos.ne']
  rcases nearest_cases (i.natAbs * unitsPerOne) with h | ⟨v, hv, h, hu⟩
  · have hofInt : ofInt i = ⟨decide (i < 0), .infinite⟩ := congrArg (mk _) h
    refine ⟨unitLimit, congrArg rank? hofInt, iff_of_false (by decide +kernel) ?_⟩
    rintro rfl
    rw [Int.natAbs_zero, Nat.zero_mul] at h
    cases h
  · have hofInt : ofInt i = ⟨decide (i < 0), .finite v hv⟩ := congrArg (mk _) h
    exact ⟨v, congrArg rank? hofInt, hu.trans hzero⟩

theorem isZero_ofInt (i : Int) : (ofInt i).isZero = true ↔ i = 0 := by
  obtain ⟨u, hrank, hu⟩ := exists_rank?_ofInt i
  rw [isZero_iff_rank?, hrank, Option.some_inj, ← Int.natAbs_eq_zero, natAbs_signed, hu]

theorem isBelowZero_ofInt (i : Int) : (ofInt i).isBelowZero = true ↔ i < 0 := by
  obtain ⟨u, hrank, hu⟩ := exists_rank?_ofInt i
  rw [isBelowZero, hrank]
  unfold signed
  simp only [decide_eq_true_iff]
  split <;> omega

end Binary64

namespace Number

open Binary64

variable {a b n : Number} {i j : Int64} {x y : Binary64}

/-- Both parts are zero. -/
def IsNull (n : Number) : Prop := n.values = (some 0, some 0)

/-- The real part is below zero. -/
def IsNegative (n : Number) : Prop := ∃ v ∈ n.values.1, v < 0

/-- The imaginary part is zero. -/
def IsReal (n : Number) : Prop := n.values.2 = some 0

/-- An operand is complex. -/
def AnyComplex (a b : Number) : Prop := a.kind = .complex ∨ b.kind = .complex

instance (a b : Number) : Decidable (AnyComplex a b) :=
  inferInstanceAs (Decidable (a.kind = .complex ∨ b.kind = .complex))

theorem isNull_float_iff : (float x).IsNull ↔ x.isZero = true := by
  rw [isZero_eq_true_iff, IsNull, values_of_ne (n := float x) nofun, Prod.mk.injEq, and_iff_left rfl, value?]

theorem isNegative_float_iff : (float x).IsNegative ↔ x.isBelowZero = true :=
  isBelowZero_iff.symm

theorem isNull_of_toInt? (hi : n.toInt? = some i) : n.IsNull ↔ i = 0 := by
  rw [IsNull, values_of_toInt? hi, Prod.mk.injEq, and_iff_left rfl, Option.some_inj,
    ExtendedRat.ofRat_eq_zero, Int.cast_eq_zero, ← Int64.toInt_zero, Int64.toInt_inj]

theorem isNegative_of_toInt? (hi : n.toInt? = some i) : n.IsNegative ↔ i.toInt < 0 := by
  have hzero : (0 : ExtendedRat) = .ofRat 0 := (ExtendedRat.ofRat_eq_zero.2 rfl).symm
  rw [IsNegative, values_of_toInt? hi]
  simp [hzero, ExtendedRat.ofRat_lt_ofRat]

/-- A number below complex is on the side of zero where its float is. -/
theorem sign_toFloat? (h : n.toFloat? = some x) :
    (x.isZero = true ↔ n.IsNull) ∧ (x.isBelowZero = true ↔ n.IsNegative) := by
  have hword {i : Int64} (hi : n.toInt? = some i) (hx : ofInt i.toInt = x) :
      (x.isZero = true ↔ n.IsNull) ∧ (x.isBelowZero = true ↔ n.IsNegative) := by
    rw [← hx, isZero_ofInt, isBelowZero_ofInt, isNull_of_toInt? hi, isNegative_of_toInt? hi,
      ← Int64.toInt_zero, Int64.toInt_inj]
    exact ⟨Iff.rfl, Iff.rfl⟩
  cases n with
  | float y =>
    cases h
    exact ⟨isNull_float_iff.symm, isNegative_float_iff.symm⟩
  | complex z => cases h
  | bool p => exact hword rfl (Option.some.inj h)
  | int j => exact hword rfl (Option.some.inj h)

/-- Each part of a number is on the side of zero where that of its complex number is. -/
theorem sign_toComplex (n : Number) : (n.toComplex.isZero = true ↔ n.IsNull) ∧
    (n.toComplex.re.isBelowZero = true ↔ n.IsNegative) ∧
    (n.toComplex.im.isZero = true ↔ n.IsReal) := by
  by_cases h : n.kind = .complex
  · obtain ⟨z, rfl⟩ := exists_complex h
    refine ⟨?_, isBelowZero_iff, isZero_eq_true_iff⟩
    rw [toComplex, Complex.isZero, Bool.and_eq_true, isZero_eq_true_iff, isZero_eq_true_iff, IsNull,
      values, Prod.mk.injEq]
  · obtain ⟨x, hx⟩ : ∃ x, n.toFloat? = some x := by
      cases n <;> first | exact absurd rfl h | exact ⟨_, rfl⟩
    have hcomplex : n.toComplex = ⟨x, .zero⟩ := by
      cases n <;> first | exact absurd rfl h | cases hx; rfl
    obtain ⟨hnull, hnegative⟩ := sign_toFloat? hx
    have hzero : Complex.isZero ⟨x, .zero⟩ = x.isZero := Bool.and_true _
    rw [hcomplex, hzero]
    exact ⟨hnull, hnegative, iff_of_true rfl (congrArg Prod.snd (values_of_ne h))⟩

theorem isZero_iff : n.isZero = true ↔ n.IsNull := by
  cases n with
  | bool p => rw [isNull_of_toInt? (n := bool p) rfl]; cases p <;> decide
  | int i => rw [isNull_of_toInt? (n := int i) rfl]; exact beq_iff_eq
  | float x => exact isNull_float_iff.symm
  | complex z => exact (sign_toComplex (complex z)).1

/-! ### The operators -/

/-- Two numbers are widened to words if both are words, to complex numbers if one of them is complex
and else to floats. -/
theorem promote_cases (a b : Number) :
    ¬ AnyComplex a b ∧ (∃ i j, a.toInt? = some i ∧ b.toInt? = some j ∧ promote a b = .ints i j) ∨
    ¬ AnyComplex a b ∧
      (∃ x y, a.toFloat? = some x ∧ b.toFloat? = some y ∧ promote a b = .floats x y) ∨
    AnyComplex a b ∧ promote a b = .complexes a.toComplex b.toComplex := by
  unfold AnyComplex
  cases a <;> cases b <;> simp [kind, promote, toInt?, toFloat?]

theorem isZeroDivision_zeroDivision (op : BinaryOp) :
    IsZeroDivision (zeroDivision op : Except Error Number) := ⟨_, rfl⟩

@[simp] theorem not_isZeroDivision_unsupported {α : Type} (op : BinaryOp) (a b : Number) :
    ¬ IsZeroDivision (unsupported op a b : Except Error α) := by
  simp [unsupported]

@[simp] theorem not_isZeroDivision_ofWord? (op : String) (w : Option Int64) :
    ¬ IsZeroDivision (ofWord? op w) := by
  cases w <;> simp [ofWord?]

/-- An outcome that is a division by zero exactly if a test says so. -/
theorem isZeroDivision_ite {p : Prop} [Decidable p] {op : BinaryOp} {x : Except Error Number}
    (h : ¬ IsZeroDivision x) : IsZeroDivision (if p then zeroDivision op else x) ↔ p := by
  split
  · exact iff_of_true (isZeroDivision_zeroDivision op) ‹_›
  · exact iff_of_false h ‹_›

theorem trueDivide_zeroDivision_iff : IsZeroDivision (trueDivide a b) ↔ b.IsNull := by
  rw [trueDivide, isZeroDivision_ite, isZero_iff]
  split <;> exact not_isZeroDivision_ok _

/-- The division by a real number, in words or in floats. -/
theorem real_zeroDivision_iff {op : BinaryOp} {f : Int64 → Int64 → Option Int64}
    {g : Binary64 → Binary64 → Binary64} :
    IsZeroDivision (match promote a b with
      | .ints i j => if j = 0 then zeroDivision op else ofWord? op.name (f i j)
      | .floats x y => if y.isZero then zeroDivision op else .ok (float (g x y))
      | .complexes .. => unsupported op a b) ↔ ¬ AnyComplex a b ∧ b.IsNull := by
  rcases promote_cases a b with ⟨hreal, i, j, -, hb, h⟩ | ⟨hreal, x, y, -, hb, h⟩ | ⟨hcomplex, h⟩ <;>
    rw [h]
  · rw [and_iff_right hreal, isNull_of_toInt? hb]
    exact isZeroDivision_ite (not_isZeroDivision_ofWord? _ _)
  · rw [and_iff_right hreal, ← (sign_toFloat? hb).1]
    exact isZeroDivision_ite (not_isZeroDivision_ok _)
  · exact iff_of_false (not_isZeroDivision_unsupported _ _ _) fun h => h.1 hcomplex

theorem floorDivide_zeroDivision_iff :
    IsZeroDivision (floorDivide a b) ↔ ¬ AnyComplex a b ∧ b.IsNull := real_zeroDivision_iff

theorem mod_zeroDivision_iff : IsZeroDivision (mod a b) ↔ ¬ AnyComplex a b ∧ b.IsNull :=
  real_zeroDivision_iff

/-- The remainder fails by a zero where the quotient does. -/
theorem divmod_zeroDivision_iff :
    IsZeroDivision (binary .divmod a b) ↔ ¬ AnyComplex a b ∧ b.IsNull := by
  have hbind (h : IsZeroDivision (binary .divmod a b)) :
      IsZeroDivision (floorDivide a b) ∨ IsZeroDivision (mod a b) := by
    rw [binary] at h
    cases hq : floorDivide a b with
    | error e =>
      rw [hq] at h
      exact .inl (isZeroDivision_error.2 (isZeroDivision_error.1 h))
    | ok q =>
      cases hr : mod a b with
      | error e =>
        rw [hq, hr] at h
        exact .inr (isZeroDivision_error.2 (isZeroDivision_error.1 h))
      | ok r =>
        rw [hq, hr] at h
        exact absurd h (not_isZeroDivision_ok _)
  constructor
  · intro h
    exact (hbind h).elim floorDivide_zeroDivision_iff.1 mod_zeroDivision_iff.1
  · intro h
    obtain ⟨op, hq⟩ := floorDivide_zeroDivision_iff.2 h
    rw [binary, hq]
    exact ⟨op, rfl⟩

theorem pow_zeroDivision_iff : IsZeroDivision (pow a b) ↔
    a.IsNull ∧ (b.IsNegative ∨ AnyComplex a b ∧ ¬ b.IsReal) := by
  rw [pow]
  rcases promote_cases a b with ⟨hreal, i, j, ha, hb, h⟩ | ⟨hreal, x, y, ha, hb, h⟩ | ⟨hcomplex, h⟩ <;>
    rw [h]
  · rw [isNull_of_toInt? ha, isNegative_of_toInt? hb, or_iff_left fun h => hreal h.1]
    dsimp only
    rw [← Word.lt_zero_iff]
    split
    · rw [isZeroDivision_ite (not_isZeroDivision_ok _), and_iff_left ‹_›]
    · exact iff_of_false (not_isZeroDivision_ofWord? _ _) fun h => absurd h.2 ‹_›
  · rw [← (sign_toFloat? ha).1, ← (sign_toFloat? hb).2, or_iff_left fun h => hreal h.1,
      ← Bool.and_eq_true]
    refine isZeroDivision_ite ?_
    split <;> exact not_isZeroDivision_ok _
  · obtain ⟨-, hnegative, himaginary⟩ := sign_toComplex b
    rw [← (sign_toComplex a).1, ← hnegative, and_iff_right hcomplex, ← himaginary]
    dsimp only
    split
    · rw [isZeroDivision_ite (not_isZeroDivision_ok _), and_iff_right ‹_›]
      simp
    · exact iff_of_false (not_isZeroDivision_ok _) fun h => absurd h.1 ‹_›

/-- Where the values of the operands call for a division by zero. A power of zero does so for
an exponent below zero and, among complex numbers, for every one off the real axis. -/
def DividesByZero (op : BinaryOp) (a b : Number) : Prop :=
  match op with
  | .trueDivide => b.IsNull
  | .floorDivide | .mod | .divmod => ¬ AnyComplex a b ∧ b.IsNull
  | .pow => a.IsNull ∧
      (¬ AnyComplex a b ∧ b.IsNegative ∨ AnyComplex a b ∧ (b.IsNegative ∨ ¬ b.IsReal))
  | _ => False

/-- Operators that stay in the kind of their operands do not divide. -/
theorem not_isZeroDivision_closed {op : String} {f : Int64 → Int64 → Option Int64}
    {g : Binary64 → Binary64 → Binary64} {h : Complex → Complex → Complex} :
    ¬ IsZeroDivision (match promote a b with
      | .ints i j => ofWord? op (f i j)
      | .floats x y => .ok (float (g x y))
      | .complexes z w => .ok (complex (h z w))) := by
  split <;> simp

theorem not_isZeroDivision_shift (op : BinaryOp) (f : Int64 → Int64 → Option Int64) :
    ¬ IsZeroDivision (shift op f a b) := by
  unfold shift
  split
  · split <;> simp
  · simp

theorem not_isZeroDivision_ordered (op : BinaryOp) (holds : Option Ordering → Bool) :
    ¬ IsZeroDivision (ordered op holds a b) := by
  unfold ordered
  split <;> simp

theorem not_isZeroDivision_logical (op : BinaryOp) (f : Bool → Bool → Bool)
    (g : Int64 → Int64 → Int64) : ¬ IsZeroDivision (logical op f g a b) := by
  unfold logical
  split
  · simp
  · split <;> simp

theorem isZeroDivision_binary_iff (op : BinaryOp) (a b : Number) :
    IsZeroDivision (binary op a b) ↔ DividesByZero op a b := by
  cases op with
  | trueDivide => exact (isZeroDivision_map ..).trans trueDivide_zeroDivision_iff
  | floorDivide => exact (isZeroDivision_map ..).trans floorDivide_zeroDivision_iff
  | mod => exact (isZeroDivision_map ..).trans mod_zeroDivision_iff
  | divmod => exact divmod_zeroDivision_iff
  | pow =>
    refine ((isZeroDivision_map ..).trans pow_zeroDivision_iff).trans ?_
    by_cases hcomplex : AnyComplex a b <;> simp [DividesByZero, hcomplex]
  | add | sub | mul =>
    refine iff_of_false (fun h => ?_) id
    exact not_isZeroDivision_closed ((isZeroDivision_map ..).1 h)
  | shiftLeft | shiftRight =>
    refine iff_of_false (fun h => ?_) id
    exact not_isZeroDivision_shift _ _ ((isZeroDivision_map ..).1 h)
  | lt | le | gt | ge =>
    refine iff_of_false (fun h => ?_) id
    exact not_isZeroDivision_ordered _ _ ((isZeroDivision_map ..).1 h)
  | logicalAnd | logicalOr | logicalXor =>
    refine iff_of_false (fun h => ?_) id
    exact not_isZeroDivision_logical _ _ _ ((isZeroDivision_map ..).1 h)
  | matmul => exact iff_of_false (not_isZeroDivision_unsupported _ _ _) id
  | eq | ne => exact iff_of_false (not_isZeroDivision_ok _) id

/-- The values, and whether an operand is complex, are all that a division by zero depends on. -/
theorem dividesByZero_congr {a b c d : Number} (op : BinaryOp) (ha : a.values = c.values)
    (hb : b.values = d.values) (h : AnyComplex a b ↔ AnyComplex c d) :
    DividesByZero op a b ↔ DividesByZero op c d := by
  unfold DividesByZero IsNull IsNegative IsReal
  rw [ha, hb, h]

theorem promote_eq_complex (h : AnyComplex a b) : a.kind.promote b.kind = .complex := by
  rcases h with h | h <;> rw [h]
  · cases b.kind <;> rfl
  · cases a.kind <;> rfl

/-- **Division by zero is reported for the values of the operands**, whatever kinds they have below
complex. So the operators that divide never answer for a divisor that is zero: if they do not report
it, they are not supported. -/
theorem zeroDivision_exact (op : BinaryOp) (a b : Number) :
    (IsZeroDivision (binary op a b) ↔ DividesByZero op a b) ∧
    (∀ c d : Number, a.values = c.values → b.values = d.values →
      (AnyComplex a b ↔ AnyComplex c d) →
      (IsZeroDivision (binary op a b) ↔ IsZeroDivision (binary op c d))) ∧
    (op ∈ [BinaryOp.trueDivide, .floorDivide, .mod, .divmod] → b.IsNull →
      IsZeroDivision (binary op a b) ∨ IsUnsupported (binary op a b)) := by
  refine ⟨isZeroDivision_binary_iff op a b, fun c d ha hb h => ?_, fun hop hzero => ?_⟩
  · rw [isZeroDivision_binary_iff, isZeroDivision_binary_iff, dividesByZero_congr op ha hb h]
  · rw [isZeroDivision_binary_iff]
    by_cases hcomplex : AnyComplex a b
    · simp only [List.mem_cons, List.not_mem_nil, or_false] at hop
      rcases hop with rfl | rfl | rfl | rfl
      · exact .inl hzero
      all_goals
        refine .inr ((isUnsupported_binary_iff rfl a b).2 ?_)
        rw [promote_eq_complex hcomplex]
        rfl
    · simp only [List.mem_cons, List.not_mem_nil, or_false] at hop
      rcases hop with rfl | rfl | rfl | rfl
      · exact .inl hzero
      all_goals exact .inl ⟨hcomplex, hzero⟩

/-- An int is divided by the negative zero as by the false that has its value; with a remainder
rounded down, a complex number is not divided at all. -/
theorem zeroDivision_exact_zeros :
    IsZeroDivision (binary .mod (int 7) (bool false)) ∧
    IsZeroDivision (binary .mod (int 7) (float (-.zero))) ∧
    IsUnsupported (binary .divmod (complex .one) (int 0)) := by
  have hfalse : IsZeroDivision (binary .mod (int 7) (bool false)) :=
    (zeroDivision_exact .mod (int 7) (bool false)).1.2
      ⟨by decide, isZero_iff.1 rfl⟩
  have hvalues : (bool false).values = (float (-.zero)).values :=
    (isZero_iff.1 rfl).trans (isZero_iff.1 rfl).symm
  refine ⟨hfalse, ?_, ?_⟩
  · exact ((zeroDivision_exact .mod (int 7) (bool false)).2.1 (int 7) (float (-.zero)) rfl hvalues
      (by decide)).1 hfalse
  · refine ((zeroDivision_exact .divmod (complex .one) (int 0)).2.2 (by decide)
      (isZero_iff.1 rfl)).resolve_left ?_
    rw [isZeroDivision_binary_iff]
    exact fun h => h.1 (.inl rfl)

end Number

end ProxyTrace
