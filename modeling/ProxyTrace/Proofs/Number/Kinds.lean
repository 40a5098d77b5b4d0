import ProxyTrace.Recorder.Rules

/-!
# Kinds of results

What the recorder derives of the kind of a result, against the kind that the result has. On the
kinds of numbers on which an operator is defined the rules give the kind of its result, or for a
power at most that (`Number.unary?_kind`, `Number.kind_of_binary`), and they give none exactly where
the operator is not supported (`Number.isUnsupported_unary_iff`, `Number.isUnsupported_binary_iff`).

The rules grow with the kinds of the operands (`NumberKind.unary?_mono`, `NumberKind.binary?_mono`).
So where kinds no higher than those of the numbers are all that is known, they do not reject what
can be computed, and never promise too much.
-/

namespace ProxyTrace

/-- The failure of an operation that is not supported on its operands. -/
def IsUnsupported {α : Type} (x : Except Error α) : Prop :=
  ∃ op operand, x = .error (.unsupportedOperation op operand)

section IsUnsupported

variable {α β : Type}

@[simp] theorem not_isUnsupported_ok (a : α) : ¬ IsUnsupported (.ok a) := nofun

@[simp] theorem isUnsupported_error {e : Error} :
    IsUnsupported (.error e : Except Error α) ↔
      ∃ op operand, e = .unsupportedOperation op operand := by
  simp [IsUnsupported]

@[simp] theorem isUnsupported_map (f : α → β) (x : Except Error α) :
    IsUnsupported (f <$> x) ↔ IsUnsupported x := by
  cases x with
  | error e => exact isUnsupported_error.trans isUnsupported_error.symm
  | ok a => exact iff_of_false (not_isUnsupported_ok (f a)) (not_isUnsupported_ok a)

end IsUnsupported

namespace NumberKind

variable {i j k l : NumberKind}

theorem rank_promote (j k : NumberKind) : (j.promote k).rank = max j.rank k.rank := by
  cases j <;> cases k <;> rfl

theorem promote_mono (h : i ≤ k) (h' : j ≤ l) : i.promote j ≤ k.promote l := by
  change (i.promote j).rank ≤ (k.promote l).rank
  have hi : i.rank ≤ k.rank := h
  have hj : j.rank ≤ l.rank := h'
  rw [rank_promote, rank_promote]
  omega

theorem le_of_eq (h : j = k) : j ≤ k := h ▸ Nat.le_refl _

theorem le_complex (k : NumberKind) : k ≤ complex := by cases k <;> decide

/-- What has a kind on greater operands has one, no greater, on smaller ones. -/
theorem unary?_mono {op : UnaryOp} (hjk : j ≤ k) (h : k.unary? op = some i) :
    ∃ i', j.unary? op = some i' ∧ i' ≤ i := by
  cases op <;> cases k <;> cases h <;> cases j <;>
    first | exact ⟨_, rfl, by decide⟩ | exact absurd hjk (by decide)

theorem binary?_mono {op : BinaryOp} (hop : op.isLogical = false) (hjk : j ≤ k)
    (h : k.binary? op = some i) : ∃ i', j.binary? op = some i' ∧ i' ≤ i := by
  cases op <;> cases hop <;> cases k <;> cases h <;> cases j <;>
    first | exact ⟨_, rfl, by decide⟩ | exact absurd hjk (by decide)

end NumberKind

/-- The operators of arithmetic that answer one number. -/
def BinaryOp.isScalar : BinaryOp → Bool
  | add | sub | mul | trueDivide | floorDivide | mod | pow | shiftLeft | shiftRight => true
  | _ => false

namespace Number

variable {a b z : Number}

/-! ### One operand -/

theorem ofWord?_kind {op : String} {w : Option Int64} (h : ofWord? op w = .ok z) :
    z.kind = .int := by
  cases w with
  | none => cases h
  | some i => cases h; rfl

theorem roundFloat_kind {op : UnaryOp} {r : Rounding} {x : Binary64}
    (h : roundFloat op r x = .ok z) : z.kind = .int := by
  unfold roundFloat at h
  split at h
  · cases h
  · split at h <;> cases h
    rfl

theorem unary?_kind {op : UnaryOp} (h : a.unary op = .ok z) : a.kind.unary? op = some z.kind := by
  have hint (i : Int64) (h : unaryInt op i = .ok z) : z.kind = .int := by
    cases op with
    | abs | neg => rw [unaryInt] at h; exact ofWord?_kind h
    | ceil | floor | invert | round | trunc => cases h; rfl
  cases a with
  | bool p => rw [hint _ h]; cases op <;> rfl
  | int i => rw [hint _ h]; cases op <;> rfl
  | float x =>
    cases op with
    | abs | neg => cases h; rfl
    | invert => cases h
    | ceil | floor | round | trunc => rw [roundFloat_kind h]; rfl
  | complex w => cases op <;> cases h <;> rfl

@[simp] theorem not_isUnsupported_ofWord? (op : String) (w : Option Int64) :
    ¬ IsUnsupported (ofWord? op w) := by
  cases w <;> simp [ofWord?]

theorem not_isUnsupported_roundFloat (op : UnaryOp) (r : Rounding) (x : Binary64) :
    ¬ IsUnsupported (roundFloat op r x) := by
  unfold roundFloat
  split
  · simp
  · split <;> simp

/-- An operator on one number is not supported exactly where the rules give no kind. -/
theorem isUnsupported_unary_iff (op : UnaryOp) (a : Number) :
    IsUnsupported (a.unary op) ↔ a.kind.unary? op = none := by
  have hint (i : Int64) : ¬ IsUnsupported (unaryInt op i) := by cases op <;> simp [unaryInt]
  cases a with
  | bool p => exact iff_of_false (hint _) (by cases op <;> exact Option.some_ne_none _)
  | int i => exact iff_of_false (hint _) (by cases op <;> exact Option.some_ne_none _)
  | float x =>
    cases op with
    | abs | neg => simp [unary, unaryFloat, kind, NumberKind.unary?]
    | invert => simp [unary, unaryFloat, kind, NumberKind.unary?]
    | ceil | floor | round | trunc =>
      exact iff_of_false (not_isUnsupported_roundFloat _ _ x) (Option.some_ne_none _)
  | complex z => cases op <;> simp [unary, unaryComplex, kind, NumberKind.unary?]

/-! ### Two operands -/

/-- The kind that two numbers are widened to. -/
def Promoted.kind : Promoted → NumberKind
  | ints .. => .int
  | floats .. => .float
  | complexes .. => .complex

theorem kind_promote (a b : Number) :
    (promote a b).kind = (a.kind.promote b.kind).promote .int := by
  cases a <;> cases b <;> rfl

theorem kind_promote_eq_complex_iff :
    (promote a b).kind = .complex ↔ a.kind.promote b.kind = .complex := by
  rw [kind_promote]
  cases a.kind.promote b.kind <;> decide

theorem kind_promote_eq_int_iff : (promote a b).kind = .int ↔ a.kind.promote b.kind ≤ .int := by
  rw [kind_promote]
  cases a.kind.promote b.kind <;> decide

/-- The numbers of an answer. -/
def Answer.numbers : Answer → List Number
  | single z => [z]
  | pair z w => [z, w]

theorem exists_of_single {x : Except Error Number} {ans : Answer}
    (h : Answer.single <$> x = .ok ans) : ∃ z, x = .ok z ∧ ans = .single z := by
  cases x with
  | error e => cases h
  | ok z => cases h; exact ⟨z, rfl, rfl⟩

/-- An operator that stays in the kind of its operands. -/
theorem kind_of_closed {op : String} {f : Int64 → Int64 → Option Int64}
    {g : Binary64 → Binary64 → Binary64} {h : Complex → Complex → Complex}
    (hz : (match promote a b with
      | .ints i j => ofWord? op (f i j)
      | .floats x y => .ok (float (g x y))
      | .complexes z w => .ok (complex (h z w))) = .ok z) :
    z.kind = (promote a b).kind := by
  split at hz <;> rename_i hp <;> rw [hp]
  · exact ofWord?_kind hz
  · cases hz; rfl
  · cases hz; rfl

theorem add_kind (h : add a b = .ok z) : z.kind = (promote a b).kind := kind_of_closed h

theorem sub_kind (h : sub a b = .ok z) : z.kind = (promote a b).kind := kind_of_closed h

theorem mul_kind (h : mul a b = .ok z) : z.kind = (promote a b).kind := kind_of_closed h

theorem trueDivide_kind (h : trueDivide a b = .ok z) :
    z.kind = (promote a b).kind.promote .float := by
  unfold trueDivide at h
  split at h
  · cases h
  · split at h <;> rename_i hp <;> rw [hp] <;> cases h <;> rfl

/-- The same of an operator that divides, which complex numbers do not have. -/
theorem kind_of_real {op : BinaryOp} {f : Int64 → Int64 → Option Int64}
    {g : Binary64 → Binary64 → Binary64}
    (hz : (match promote a b with
      | .ints i j => if j = 0 then zeroDivision op else ofWord? op.name (f i j)
      | .floats x y => if y.isZero then zeroDivision op else .ok (float (g x y))
      | .complexes .. => unsupported op a b) = .ok z) :
    z.kind = (promote a b).kind ∧ z.kind ≠ .complex := by
  split at hz <;> rename_i hp <;> rw [hp]
  · split at hz
    · cases hz
    · rw [ofWord?_kind hz]
      exact ⟨rfl, nofun⟩
  · split at hz <;> cases hz
    exact ⟨rfl, nofun⟩
  · cases hz

theorem floorDivide_kind (h : floorDivide a b = .ok z) :
    z.kind = (promote a b).kind ∧ z.kind ≠ .complex := kind_of_real h

theorem mod_kind (h : mod a b = .ok z) : z.kind = (promote a b).kind ∧ z.kind ≠ .complex :=
  kind_of_real h

/-- A power of ints may be a float, and a power of floats complex. -/
theorem pow_kind (h : pow a b = .ok z) : (promote a b).kind ≤ z.kind := by
  have hint : NumberKind.int ≤ .float := by decide
  have hfloat : NumberKind.float ≤ .complex := by decide
  unfold pow at h
  split at h <;> rename_i hp <;> rw [hp]
  · split at h
    · split at h <;> cases h
      exact hint
    · rw [ofWord?_kind h]
      exact Nat.le_refl _
  · split at h
    · cases h
    · split at h <;> cases h
      · exact hfloat
      · exact Nat.le_refl _
  · split at h
    · split at h <;> cases h
      exact Nat.le_refl _
    · cases h
      exact Nat.le_refl _

theorem shift_kind {op : BinaryOp} {f : Int64 → Int64 → Option Int64}
    (h : shift op f a b = .ok z) : z.kind = .int ∧ (promote a b).kind = .int := by
  unfold shift at h
  split at h
  · rename_i hp
    split at h
    · cases h
    · exact ⟨ofWord?_kind h, by rw [hp]; rfl⟩
  · cases h

theorem logical_kind {op : BinaryOp} {f : Bool → Bool → Bool} {g : Int64 → Int64 → Int64}
    (h : logical op f g a b = .ok z) :
    a.kind.promote b.kind = z.kind ∧ a.kind.promote b.kind ≤ .int := by
  unfold logical at h
  split at h
  · cases h
    exact ⟨rfl, Nat.zero_le _⟩
  · rename_i hbools
    split at h
    · rename_i hp
      cases h
      refine ⟨?_, kind_promote_eq_int_iff.1 (by rw [hp]; rfl)⟩
      -- two bools were dealt with before
      cases a <;> cases b <;> first | rfl | exact (hbools _ _ rfl rfl).elim | cases hp
    · cases h

/-- The kind `k` that the rules derive fits the number that an operator answers: it is that of the
number, or for a power at most that. -/
def Fits (op : BinaryOp) (k : NumberKind) (z : Number) : Prop :=
  k ≤ z.kind ∧ (op ≠ .pow → k = z.kind)

theorem fits_of_eq {op : BinaryOp} {k : NumberKind} (h : k = z.kind) : Fits op k z :=
  ⟨NumberKind.le_of_eq h, fun _ => h⟩

theorem fits_of_single {op : BinaryOp} {k : NumberKind} {x : Except Error Number} {ans : Answer}
    (h : Answer.single <$> x = .ok ans)
    (hx : ∀ z, x = .ok z → (a.kind.promote b.kind).binary? op = some k ∧ Fits op k z) :
    ∃ k, (a.kind.promote b.kind).binary? op = some k ∧ ∀ z ∈ ans.numbers, Fits op k z := by
  obtain ⟨z, hz, rfl⟩ := exists_of_single h
  obtain ⟨hk, hfits⟩ := hx z hz
  refine ⟨k, hk, fun z' hz' => ?_⟩
  rwa [List.mem_singleton.1 hz']

theorem exists_of_divmod {ans : Answer} (h : a.binary .divmod b = .ok ans) :
    ∃ q r, floorDivide a b = .ok q ∧ mod a b = .ok r ∧ ans = .pair q r := by
  rw [binary] at h
  cases hq : floorDivide a b with
  | error e => rw [hq] at h; cases h
  | ok q =>
    cases hr : mod a b with
    | error e => rw [hq, hr] at h; cases h
    | ok r =>
      rw [hq, hr] at h
      cases h
      exact ⟨q, r, rfl, rfl, rfl⟩

theorem exists_single {op : BinaryOp} (hop : op ≠ .divmod) {ans : Answer}
    (h : a.binary op b = .ok ans) : ∃ z, ans = .single z := by
  cases op with
  | divmod => exact absurd rfl hop
  | matmul => cases h
  | eq | ne =>
    cases h
    exact ⟨_, rfl⟩
  | _ =>
    obtain ⟨z, -, rfl⟩ := exists_of_single h
    exact ⟨z, rfl⟩

/-- Operators other than comparisons answer numbers of the kind that the rules derive or, for a
power, of one that is not below. -/
theorem kind_of_binary {op : BinaryOp} (hop : op.isComparison = false) {ans : Answer}
    (h : a.binary op b = .ok ans) :
    ∃ k, (a.kind.promote b.kind).binary? op = some k ∧ ∀ z ∈ ans.numbers, Fits op k z := by
  have hpromote := kind_promote a b
  have hreal {z : Number} (hz : z.kind = (promote a b).kind ∧ z.kind ≠ .complex) :
      a.kind.promote b.kind ≠ .complex ∧ (a.kind.promote b.kind).promote .int = z.kind := by
    refine ⟨fun hcomplex => hz.2 ?_, (hz.1.trans hpromote).symm⟩
    exact hz.1.trans (kind_promote_eq_complex_iff.2 hcomplex)
  have hshift {z : Number} (hz : z.kind = .int ∧ (promote a b).kind = .int) :
      a.kind.promote b.kind ≤ .int ∧ (a.kind.promote b.kind).promote .int = z.kind :=
    ⟨kind_promote_eq_int_iff.1 hz.2, (hz.1.trans (hz.2.symm.trans hpromote)).symm⟩
  cases op with
  | add => exact fits_of_single h fun z hz => ⟨rfl, fits_of_eq ((add_kind hz).trans hpromote).symm⟩
  | sub => exact fits_of_single h fun z hz => ⟨rfl, fits_of_eq ((sub_kind hz).trans hpromote).symm⟩
  | mul => exact fits_of_single h fun z hz => ⟨rfl, fits_of_eq ((mul_kind hz).trans hpromote).symm⟩
  | trueDivide =>
    refine fits_of_single h fun z hz => ⟨rfl, fits_of_eq ?_⟩
    rw [trueDivide_kind hz, hpromote, NumberKind.promote_assoc _ .int]
    rfl
  | floorDivide =>
    refine fits_of_single (k := (a.kind.promote b.kind).promote .int) h fun z hz => ?_
    obtain ⟨hne, hkind⟩ := hreal (floorDivide_kind hz)
    exact ⟨if_neg hne, fits_of_eq hkind⟩
  | mod =>
    refine fits_of_single (k := (a.kind.promote b.kind).promote .int) h fun z hz => ?_
    obtain ⟨hne, hkind⟩ := hreal (mod_kind hz)
    exact ⟨if_neg hne, fits_of_eq hkind⟩
  | divmod =>
    obtain ⟨q, r, hq, hr, rfl⟩ := exists_of_divmod h
    obtain ⟨hne, hqkind⟩ := hreal (floorDivide_kind hq)
    obtain ⟨-, hrkind⟩ := hreal (mod_kind hr)
    refine ⟨_, if_neg hne, fun z hz => ?_⟩
    rcases List.mem_cons.1 hz with rfl | hz
    · exact fits_of_eq hqkind
    · rw [List.mem_singleton.1 hz]
      exact fits_of_eq hrkind
  | pow =>
    exact fits_of_single h fun z hz => ⟨rfl, hpromote ▸ pow_kind hz, fun hne => absurd rfl hne⟩
  | shiftLeft =>
    refine fits_of_single (k := (a.kind.promote b.kind).promote .int) h fun z hz => ?_
    obtain ⟨hint, hkind⟩ := hshift (shift_kind hz)
    exact ⟨if_pos hint, fits_of_eq hkind⟩
  | shiftRight =>
    refine fits_of_single (k := (a.kind.promote b.kind).promote .int) h fun z hz => ?_
    obtain ⟨hint, hkind⟩ := hshift (shift_kind hz)
    exact ⟨if_pos hint, fits_of_eq hkind⟩
  | logicalAnd | logicalOr | logicalXor =>
    refine fits_of_single (k := a.kind.promote b.kind) h fun z hz => ?_
    obtain ⟨hkind, hint⟩ := logical_kind hz
    exact ⟨if_pos hint, fits_of_eq hkind⟩
  | matmul => cases h
  | _ => cases hop

/-- An operator of arithmetic answers one number, of the kind that the rules derive or, for a
power, of one above. -/
theorem binary?_kind {op : BinaryOp} (hop : op.isScalar = true) {ans : Answer}
    (h : a.binary op b = .ok ans) :
    ∃ z k, ans = .single z ∧ (a.kind.promote b.kind).binary? op = some k ∧ k ≤ z.kind := by
  obtain ⟨hcomparison, hdivmod⟩ : op.isComparison = false ∧ op ≠ .divmod := by
    cases op <;> first | exact ⟨rfl, by decide⟩ | cases hop
  obtain ⟨k, hk, hfits⟩ := kind_of_binary hcomparison h
  obtain ⟨z, rfl⟩ := exists_single hdivmod h
  exact ⟨z, k, rfl, hk, (hfits z (.head _)).1⟩

/-- The two answers of divmod have kinds no lower than the rules derive. -/
theorem binary?_kind_divmod {ans : Answer} (h : a.binary .divmod b = .ok ans) :
    ∃ q r k, ans = .pair q r ∧ (a.kind.promote b.kind).binary? .divmod = some k ∧
      k ≤ q.kind ∧ k ≤ r.kind := by
  obtain ⟨k, hk, hfits⟩ := kind_of_binary rfl h
  obtain ⟨q, r, -, -, rfl⟩ := exists_of_divmod h
  exact ⟨q, r, k, rfl, hk, (hfits q (.head _)).1, (hfits r (.tail _ (.head _))).1⟩

/-! ### Operators that are not supported -/

@[simp] theorem not_isUnsupported_zeroDivision {α : Type} (op : BinaryOp) :
    ¬ IsUnsupported (zeroDivision op : Except Error α) := by
  simp [zeroDivision]

@[simp] theorem isUnsupported_unsupported {α : Type} (op : BinaryOp) (a b : Number) :
    IsUnsupported (unsupported op a b : Except Error α) := ⟨_, _, rfl⟩

/-- An operator that stays in the kind of its operands is supported on all. -/
theorem not_isUnsupported_closed {op : String} {f : Int64 → Int64 → Option Int64}
    {g : Binary64 → Binary64 → Binary64} {h : Complex → Complex → Complex} :
    ¬ IsUnsupported (match promote a b with
      | .ints i j => ofWord? op (f i j)
      | .floats x y => .ok (float (g x y))
      | .complexes z w => .ok (complex (h z w))) := by
  split <;> simp

theorem not_isUnsupported_trueDivide (a b : Number) : ¬ IsUnsupported (trueDivide a b) := by
  unfold trueDivide
  split
  · simp
  · split <;> simp

theorem not_isUnsupported_pow (a b : Number) : ¬ IsUnsupported (pow a b) := by
  unfold pow
  split
  · repeat' split
    all_goals simp
  · repeat' split
    all_goals simp
  · split
    · split <;> simp
    · simp

/-- Division with a remainder is what complex numbers do not have. -/
theorem isUnsupported_real_iff {op : BinaryOp} {f : Int64 → Int64 → Option Int64}
    {g : Binary64 → Binary64 → Binary64} :
    IsUnsupported (match promote a b with
      | .ints i j => if j = 0 then zeroDivision op else ofWord? op.name (f i j)
      | .floats x y => if y.isZero then zeroDivision op else .ok (float (g x y))
      | .complexes .. => unsupported op a b) ↔ a.kind.promote b.kind = .complex := by
  rw [← kind_promote_eq_complex_iff]
  split <;> rename_i hp <;> rw [hp]
  · exact iff_of_false (by split <;> simp) nofun
  · exact iff_of_false (by split <;> simp) nofun
  · exact iff_of_true (isUnsupported_unsupported ..) rfl

theorem isUnsupported_divmod_iff :
    IsUnsupported (a.binary .divmod b) ↔ a.kind.promote b.kind = .complex := by
  have hfloor : IsUnsupported (floorDivide a b) ↔ _ := isUnsupported_real_iff
  have hmod : IsUnsupported (mod a b) ↔ _ := isUnsupported_real_iff
  rw [binary]
  cases hq : floorDivide a b with
  | error e =>
    rw [hq] at hfloor
    exact isUnsupported_error.trans (isUnsupported_error.symm.trans hfloor)
  | ok q =>
    rw [← hmod]
    exact isUnsupported_map (fun r => Answer.pair q r) (mod a b)

theorem kind_promote_ne_int (h : ∀ i j, promote a b ≠ .ints i j) : (promote a b).kind ≠ .int := by
  intro hint
  cases hp : promote a b with
  | ints i j => exact h i j hp
  | _ => rw [hp] at hint; cases hint

theorem isUnsupported_shift_iff {op : BinaryOp} {f : Int64 → Int64 → Option Int64} :
    IsUnsupported (shift op f a b) ↔ ¬ a.kind.promote b.kind ≤ .int := by
  rw [← kind_promote_eq_int_iff, shift]
  split
  · rename_i hp
    rw [hp]
    exact iff_of_false (by split <;> simp) (absurd rfl)
  · exact iff_of_true (isUnsupported_unsupported ..) (kind_promote_ne_int ‹_›)

theorem isUnsupported_logical_iff {op : BinaryOp} {f : Bool → Bool → Bool}
    {g : Int64 → Int64 → Int64} :
    IsUnsupported (logical op f g a b) ↔ ¬ a.kind.promote b.kind ≤ .int := by
  rw [← kind_promote_eq_int_iff]
  unfold logical
  split
  · exact iff_of_false (not_isUnsupported_ok _) (absurd rfl)
  · split
    · rename_i hp
      rw [hp]
      exact iff_of_false (not_isUnsupported_ok _) (absurd rfl)
    · exact iff_of_true (isUnsupported_unsupported ..) (kind_promote_ne_int ‹_›)

/-- An operator other than a comparison is not supported exactly where the rules give no kind. -/
theorem isUnsupported_binary_iff {op : BinaryOp} (hop : op.isComparison = false) (a b : Number) :
    IsUnsupported (a.binary op b) ↔ (a.kind.promote b.kind).binary? op = none := by
  have hreal (k : NumberKind) :
      (if k = .complex then none else some (k.promote .int)) = none ↔ k = .complex := by simp
  have hint (k l : NumberKind) : (if k ≤ .int then some l else none) = none ↔ ¬ k ≤ .int := by simp
  cases op with
  | add | sub | mul =>
    exact iff_of_false (fun h => not_isUnsupported_closed ((isUnsupported_map ..).1 h)) nofun
  | trueDivide =>
    refine iff_of_false (fun h => ?_) nofun
    exact not_isUnsupported_trueDivide a b ((isUnsupported_map ..).1 h)
  | pow =>
    refine iff_of_false (fun h => ?_) nofun
    exact not_isUnsupported_pow a b ((isUnsupported_map ..).1 h)
  | floorDivide | mod =>
    exact (isUnsupported_map ..).trans (isUnsupported_real_iff.trans (hreal _).symm)
  | divmod => exact isUnsupported_divmod_iff.trans (hreal _).symm
  | shiftLeft | shiftRight =>
    exact (isUnsupported_map ..).trans (isUnsupported_shift_iff.trans (hint _ _).symm)
  | logicalAnd | logicalOr | logicalXor =>
    exact (isUnsupported_map ..).trans (isUnsupported_logical_iff.trans (hint _ _).symm)
  | matmul => exact iff_of_true (isUnsupported_unsupported ..) rfl
  | _ => cases hop

/-! ### Kinds that are not above those of the numbers -/

theorem exists_unary? {op : UnaryOp} {j : NumberKind} (hj : j ≤ a.kind) (h : a.unary op = .ok z) :
    ∃ k, j.unary? op = some k ∧ k ≤ z.kind :=
  NumberKind.unary?_mono hj (unary?_kind h)

theorem exists_binary? {op : BinaryOp} (hop : op.isScalar = true) {j k : NumberKind}
    (hj : j ≤ a.kind) (hk : k ≤ b.kind) {ans : Answer} (h : a.binary op b = .ok ans) :
    ∃ z l, ans = .single z ∧ (j.promote k).binary? op = some l ∧ l ≤ z.kind := by
  obtain ⟨z, l, hz, hl, hlz⟩ := binary?_kind hop h
  have hlogical : op.isLogical = false := by cases op <;> first | rfl | cases hop
  obtain ⟨l', hl', hle⟩ := NumberKind.binary?_mono hlogical (NumberKind.promote_mono hj hk) hl
  exact ⟨z, l', hz, hl', Nat.le_trans hle hlz⟩

theorem exists_binary?_divmod {j k : NumberKind} (hj : j ≤ a.kind) (hk : k ≤ b.kind)
    {ans : Answer} (h : a.binary .divmod b = .ok ans) :
    ∃ q r l, ans = .pair q r ∧ (j.promote k).binary? .divmod = some l ∧
      l ≤ q.kind ∧ l ≤ r.kind := by
  obtain ⟨q, r, l, hans, hl, hlq, hlr⟩ := binary?_kind_divmod h
  obtain ⟨l', hl', hle⟩ := NumberKind.binary?_mono rfl (NumberKind.promote_mono hj hk) hl
  exact ⟨q, r, l', hans, hl', Nat.le_trans hle hlq, Nat.le_trans hle hlr⟩

end Number

end ProxyTrace
