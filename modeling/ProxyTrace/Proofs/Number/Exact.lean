import Mathlib.Algebra.Order.Field.Rat
import Mathlib.Algebra.Order.Ring.Cast
import Mathlib.Order.WithBot
import ProxyTrace.Number.Arith
import ProxyTrace.Proofs.Number.Order

/-!
# Exact values

A number below complex stands for a rational or an infinity, unless it is not a number, and places
in the numeric order are ordered as these values are (`Binary64.place_lt_place`). The main
statement, `Number.compares_exact_values`, reads equality, the order and the operators for them as
relations of exact values. It follows that the numbers of all kinds are equal up to an equivalence,
and those below complex totally ordered up to it.
-/

namespace ProxyTrace

/-- The rationals with both infinities. -/
abbrev ExtendedRat := WithBot (WithTop ℚ)

namespace ExtendedRat

def ofRat (q : ℚ) : ExtendedRat := ((q : WithTop ℚ) : WithBot (WithTop ℚ))

theorem ofRat_lt_ofRat {p q : ℚ} : ofRat p < ofRat q ↔ p < q :=
  WithBot.coe_lt_coe.trans WithTop.coe_lt_coe

theorem ofRat_eq_zero {q : ℚ} : ofRat q = 0 ↔ q = 0 :=
  WithBot.coe_inj.trans WithTop.coe_inj

theorem ofRat_lt_top (q : ℚ) : ofRat q < ⊤ := WithBot.coe_lt_coe.2 (WithTop.coe_lt_top q)

theorem bot_lt_ofRat (q : ℚ) : ⊥ < ofRat q := WithBot.bot_lt_coe _

end ExtendedRat

/-- A strict total order up to an equivalence. -/
structure IsStrictTotalUpTo {α : Type} (eq lt : α → α → Prop) : Prop where
  equivalence : Equivalence eq
  congr {a a' b b' : α} : eq a a' → eq b b' → (lt a b ↔ lt a' b')
  trans {a b c : α} : lt a b → lt b c → lt a c
  /-- Of two things exactly one is less, or they are equal. -/
  trichotomy (a b : α) : lt a b ∧ ¬ eq a b ∧ ¬ lt b a ∨ ¬ lt a b ∧ eq a b ∧ ¬ lt b a ∨
    ¬ lt a b ∧ ¬ eq a b ∧ lt b a

/-- What is ordered by values that are totally ordered is so up to equality of values. -/
theorem isStrictTotalUpTo_of_values {α β : Type} [LinearOrder β] (f : α → β) :
    IsStrictTotalUpTo (fun a b => f a = f b) (fun a b => f a < f b) where
  equivalence := ⟨fun _ => rfl, Eq.symm, Eq.trans⟩
  congr h h' := by rw [h, h']
  trans := lt_trans
  trichotomy a b := by
    rcases lt_trichotomy (f a) (f b) with h | h | h
    · exact .inl ⟨h, h.ne, h.asymm⟩
    · exact .inr (.inl ⟨h.not_lt, h, h.not_gt⟩)
    · exact .inr (.inr ⟨h.asymm, h.ne', h⟩)

namespace Binary64

variable {x y : Binary64} {k : Int}

/-- The value of a double that is a number. -/
def value? (x : Binary64) : Option ExtendedRat :=
  match x.magnitude with
  | .finite u _ => some (.ofRat (signed x.negative u / unitsPerOne))
  | .infinite => some (if x.negative then ⊥ else ⊤)
  | .nan => none

/-- The value at a place. -/
def place (k : Int) : ExtendedRat :=
  if k = unitLimit then ⊤ else if k = -unitLimit then ⊥ else .ofRat (k / unitsPerOne)

theorem place_of_lt (hlo : -(unitLimit : Int) < k) (hhi : k < unitLimit) :
    place k = .ofRat (k / unitsPerOne) := by
  rw [place, if_neg hhi.ne, if_neg hlo.ne']

theorem place_neg_unitLimit : place (-unitLimit) = ⊥ := by
  have hpos : 0 < unitLimit := by decide +kernel
  rw [place, if_neg (by omega), if_pos rfl]

theorem place_lt_top (h : k < unitLimit) : place k < ⊤ := by
  rw [place, if_neg h.ne]
  split
  · exact bot_lt_top
  · exact ExtendedRat.ofRat_lt_top _

theorem bot_lt_place (h : -(unitLimit : Int) < k) : ⊥ < place k := by
  rw [place]
  split
  · exact bot_lt_top
  · rw [if_neg h.ne']
    exact ExtendedRat.bot_lt_ofRat _

theorem place_lt_place {j : Int} (hj : -(unitLimit : Int) ≤ j) (hlt : j < k) (hk : k ≤ unitLimit) :
    place j < place k := by
  rcases hk.eq_or_lt with rfl | hk
  · exact (place_lt_top hlt).trans_eq (if_pos rfl).symm
  rcases hj.eq_or_lt with rfl | hj
  · exact place_neg_unitLimit.trans_lt (bot_lt_place hlt)
  have hpos : (0 : ℚ) < unitsPerOne := Nat.cast_pos.2 unitsPerOne_pos
  rw [place_of_lt hj (hlt.trans hk), place_of_lt (hj.trans hlt) hk, ExtendedRat.ofRat_lt_ofRat]
  exact div_lt_div_of_pos_right (Int.cast_lt.2 hlt) hpos

theorem compare_place {j : Int} (hj : -(unitLimit : Int) ≤ j ∧ j ≤ unitLimit)
    (hk : -(unitLimit : Int) ≤ k ∧ k ≤ unitLimit) : compare (place j) (place k) = compare j k := by
  rcases lt_trichotomy j k with h | rfl | h
  · rw [compare_lt_iff_lt.2 h, compare_lt_iff_lt.2 (place_lt_place hj.1 h hk.2)]
  · rw [compare_eq_iff_eq.2 rfl, compare_eq_iff_eq.2 rfl]
  · rw [compare_gt_iff_gt.2 h, compare_gt_iff_gt.2 (place_lt_place hk.1 h hj.2)]

theorem signed_bounds {n : Bool} {u : Nat} (h : u ≤ unitLimit) :
    -(unitLimit : Int) ≤ signed n u ∧ signed n u ≤ unitLimit := by
  unfold signed
  split <;> omega

theorem rank?_bounds (h : x.rank? = some k) : -(unitLimit : Int) ≤ k ∧ k ≤ unitLimit := by
  obtain ⟨n, _ | _ | _⟩ := x
  case finite u hu =>
    cases h
    exact signed_bounds hu.1.le
  case infinite =>
    cases h
    exact signed_bounds le_rfl
  case nan => cases h

theorem value?_eq (x : Binary64) : x.value? = x.rank?.map place := by
  obtain ⟨n, _ | _ | _⟩ := x
  case finite u hu =>
    have hlt : -(unitLimit : Int) < signed n u ∧ signed n u < unitLimit := by
      have hu := hu.1
      unfold signed
      split <;> omega
    exact congrArg some (place_of_lt hlt.1 hlt.2).symm
  case infinite =>
    cases n with
    | false => exact congrArg some (if_pos rfl).symm
    | true => exact congrArg some place_neg_unitLimit.symm
  case nan => rfl

theorem value?_eq_none_iff : x.value? = none ↔ x.isNaN = true := by
  obtain ⟨n, _ | _ | _⟩ := x <;> simp [value?, isNaN]

theorem isZero_eq_true_iff : x.isZero = true ↔ x.value? = some 0 := by
  obtain ⟨n, _ | _ | _⟩ := x
  case finite u hu =>
    have hne : (unitsPerOne : ℚ) ≠ 0 := Nat.cast_ne_zero.2 unitsPerOne_pos.ne'
    have hsigned : signed n u = 0 ↔ u = 0 := by rw [← Int.natAbs_eq_zero, natAbs_signed]
    have hvalue : value? ⟨n, .finite u hu⟩ = some 0 ↔ u = 0 := by
      simp [value?, ExtendedRat.ofRat_eq_zero, hne, hsigned]
    rw [hvalue]
    cases u with
    | zero => exact ⟨fun _ => rfl, fun _ => rfl⟩
    | succ u => exact ⟨nofun, nofun⟩
  case infinite => cases n <;> exact ⟨nofun, nofun⟩
  case nan => exact ⟨nofun, nofun⟩

end Binary64

namespace Number

open Binary64

variable {a b : Number}

/-- The value of a number below complex, unless it is not a number. -/
def value? : Number → Option ExtendedRat
  | float x => x.value?
  | complex _ => none
  | n => n.toInt?.map fun i => .ofRat i.toInt

/-- The values of the real and the imaginary part. -/
def parts? : Number → Option (ExtendedRat × ExtendedRat)
  | complex z => do return (← z.re.value?, ← z.im.value?)
  | n => do return (← n.value?, 0)

/-- A float or a part of a complex number is not a number. -/
def hasNaN : Number → Bool
  | float x => x.isNaN
  | complex z => z.re.isNaN || z.im.isNaN
  | _ => false

/-- Both numbers have values, which are related. -/
def Related (R : ExtendedRat → ExtendedRat → Prop) (a b : Number) : Prop :=
  ∃ v ∈ a.value?, ∃ w ∈ b.value?, R v w

/-- The answer is a bool and tells whether something holds. -/
def Decides (r : Except Error Answer) (P : Prop) : Prop :=
  ∃ p, r = .ok (.single (bool p)) ∧ (p = true ↔ P)

theorem value?_eq_of_toInt? {i : Int64} (h : a.toInt? = some i) :
    a.value? = a.rank?.map place := by
  have hne : (unitsPerOne : ℚ) ≠ 0 := Nat.cast_ne_zero.2 unitsPerOne_pos.ne'
  obtain ⟨hlo, hhi⟩ := abs_word_lt_unitLimit i
  have hvalue : a.value? = some (.ofRat i.toInt) := by
    cases a <;> cases h <;> rfl
  rw [hvalue, rank?_of_toInt? h, Option.map_some, place_of_lt hlo hhi, Int.cast_mul,
    Int.cast_natCast, mul_div_cancel_right₀ _ hne]

theorem value?_eq (a : Number) : a.value? = a.rank?.map place := by
  cases a with
  | float x => exact x.value?_eq
  | complex z => rfl
  | _ => exact value?_eq_of_toInt? rfl

theorem rank?_bounds {k : Int} (h : a.rank? = some k) :
    -(unitLimit : Int) ≤ k ∧ k ≤ unitLimit := by
  have hword {i : Int64} (hi : a.toInt? = some i) : -(unitLimit : Int) ≤ k ∧ k ≤ unitLimit := by
    obtain rfl := Option.some.inj ((rank?_of_toInt? hi).symm.trans h)
    obtain ⟨hlo, hhi⟩ := abs_word_lt_unitLimit i
    exact ⟨hlo.le, hhi.le⟩
  cases a with
  | float x => exact Binary64.rank?_bounds h
  | complex z => cases h
  | _ => exact hword rfl

/-- Numbers below complex are compared by their values. -/
theorem compareReal?_eq_value (a b : Number) :
    a.compareReal? b = (do return compare (← a.value?) (← b.value?)) := by
  rw [compareReal?_eq, value?_eq, value?_eq]
  cases ha : a.rank? with
  | none => rfl
  | some j =>
    cases hb : b.rank? with
    | none => rfl
    | some k => exact congrArg some (compare_place (rank?_bounds ha) (rank?_bounds hb)).symm

theorem value?_eq_none_iff (h : a.kind ≠ .complex) : a.value? = none ↔ a.hasNaN = true := by
  cases a with
  | float x => exact Binary64.value?_eq_none_iff
  | complex z => exact absurd rfl h
  | _ => exact ⟨nofun, nofun⟩

theorem parts?_eq_some_iff_of_ne (h : a.kind ≠ .complex) {v w : ExtendedRat} :
    a.parts? = some (v, w) ↔ a.value? = some v ∧ w = 0 := by
  cases a with
  | complex z => exact absurd rfl h
  | _ =>
    simp only [parts?, Option.bind_eq_bind, Option.bind_eq_some_iff, Option.pure_def,
      Option.some_inj, Prod.mk.injEq, @eq_comm _ 0 w, ← and_assoc, exists_and_right,
      exists_eq_right]

theorem parts?_complex_eq_some_iff {z : Complex} {v w : ExtendedRat} :
    (complex z).parts? = some (v, w) ↔ z.re.value? = some v ∧ z.im.value? = some w := by
  simp [parts?, Option.bind_eq_some_iff]

theorem exists_value?_eq (ha : a.kind ≠ .complex) (h : a.hasNaN = false) :
    ∃ v, a.value? = some v :=
  Option.ne_none_iff_exists'.1 fun hnone => ne_true_of_eq_false h ((value?_eq_none_iff ha).1 hnone)

theorem exists_parts?_eq (h : a.hasNaN = false) : ∃ p, a.parts? = some p := by
  have hreal (ha : a.kind ≠ .complex) : ∃ p, a.parts? = some p := by
    obtain ⟨v, hv⟩ := exists_value?_eq ha h
    exact ⟨_, (parts?_eq_some_iff_of_ne ha).2 ⟨hv, rfl⟩⟩
  cases a with
  | complex z =>
    obtain ⟨hre, him⟩ := Bool.or_eq_false_iff.1 h
    obtain ⟨v, hv⟩ := exists_value?_eq (a := float z.re) nofun hre
    obtain ⟨w, hw⟩ := exists_value?_eq (a := float z.im) nofun him
    exact ⟨_, parts?_complex_eq_some_iff.2 ⟨hv, hw⟩⟩
  | _ => exact hreal nofun

/-! ### Equality -/

theorem equalReal_eq_true_iff_value :
    a.equalReal b = true ↔ ∃ v, a.value? = some v ∧ b.value? = some v := by
  rw [equalReal, compareReal?_eq_value]
  exact compares_eq_iff

theorem equal_complex_eq_true_iff {z w : Complex} :
    z.equal w = true ↔ ∃ p, (complex z).parts? = some p ∧ (complex w).parts? = some p := by
  have hparts {x y : Binary64} : x.equal y = true ↔ ∃ v, x.value? = some v ∧ y.value? = some v :=
    equalReal_eq_true_iff_value (a := float x) (b := float y)
  rw [Complex.equal, Bool.and_eq_true, hparts, hparts]
  constructor
  · rintro ⟨⟨v, hzre, hwre⟩, w, hzim, hwim⟩
    exact ⟨(v, w), parts?_complex_eq_some_iff.2 ⟨hzre, hzim⟩,
      parts?_complex_eq_some_iff.2 ⟨hwre, hwim⟩⟩
  · rintro ⟨⟨v, w⟩, hz, hw⟩
    obtain ⟨hzre, hzim⟩ := parts?_complex_eq_some_iff.1 hz
    obtain ⟨hwre, hwim⟩ := parts?_complex_eq_some_iff.1 hw
    exact ⟨⟨v, hzre, hwre⟩, w, hzim, hwim⟩

theorem equal_complex_real_eq_true_iff {z : Complex} (ha : a.kind ≠ .complex) :
    (z.im.isZero && equalReal (float z.re) a) = true ↔
      ∃ p, (complex z).parts? = some p ∧ a.parts? = some p := by
  rw [Bool.and_eq_true, isZero_eq_true_iff, equalReal_eq_true_iff_value]
  constructor
  · rintro ⟨him, v, hre, hv⟩
    exact ⟨(v, 0), parts?_complex_eq_some_iff.2 ⟨hre, him⟩,
      (parts?_eq_some_iff_of_ne ha).2 ⟨hv, rfl⟩⟩
  · rintro ⟨⟨v, w⟩, hz, hp⟩
    obtain ⟨hre, him⟩ := parts?_complex_eq_some_iff.1 hz
    obtain ⟨hv, rfl⟩ := (parts?_eq_some_iff_of_ne ha).1 hp
    exact ⟨him, v, hre, hv⟩

theorem equalReal_eq_true_iff_parts (ha : a.kind ≠ .complex) (hb : b.kind ≠ .complex) :
    a.equalReal b = true ↔ ∃ p, a.parts? = some p ∧ b.parts? = some p := by
  rw [equalReal_eq_true_iff_value]
  constructor
  · rintro ⟨v, hv, hw⟩
    exact ⟨(v, 0), (parts?_eq_some_iff_of_ne ha).2 ⟨hv, rfl⟩,
      (parts?_eq_some_iff_of_ne hb).2 ⟨hw, rfl⟩⟩
  · rintro ⟨⟨v, w⟩, hp, hq⟩
    exact ⟨v, ((parts?_eq_some_iff_of_ne ha).1 hp).1, ((parts?_eq_some_iff_of_ne hb).1 hq).1⟩

theorem equal_of_ne_complex (ha : a.kind ≠ .complex) (hb : b.kind ≠ .complex) :
    a.equal b = a.equalReal b := by
  unfold equal
  split
  · exact absurd rfl ha
  · exact absurd rfl ha
  · exact absurd rfl hb
  · rfl

theorem exists_complex (h : a.kind = .complex) : ∃ z, a = complex z := by
  cases a with
  | complex z => exact ⟨z, rfl⟩
  | _ => cases h

/-- Numbers are equal if the values of both parts are. -/
theorem equal_eq_true_iff_parts (a b : Number) :
    a.equal b = true ↔ ∃ p, a.parts? = some p ∧ b.parts? = some p := by
  by_cases ha : a.kind = .complex
  · obtain ⟨z, rfl⟩ := exists_complex ha
    by_cases hb : b.kind = .complex
    · obtain ⟨w, rfl⟩ := exists_complex hb
      exact equal_complex_eq_true_iff
    · have h : (complex z).equal b = (z.im.isZero && equalReal (float z.re) b) := by
        cases b <;> first | rfl | exact absurd rfl hb
      rw [h, equal_complex_real_eq_true_iff hb]
  · by_cases hb : b.kind = .complex
    · obtain ⟨w, rfl⟩ := exists_complex hb
      have h : a.equal (complex w) = (w.im.isZero && equalReal (float w.re) a) := by
        cases a <;> first | rfl | exact absurd rfl ha
      rw [h, equal_complex_real_eq_true_iff ha]
      simp only [and_comm]
    · rw [equal_of_ne_complex ha hb, equalReal_eq_true_iff_parts ha hb]

/-! ### The order -/

theorem compare?_of_ne_complex (ha : a.kind ≠ .complex) (hb : b.kind ≠ .complex) :
    a.compare? b = (do return compare (← a.value?) (← b.value?)) := by
  rw [compare?, if_neg (not_or.2 ⟨ha, hb⟩), compareReal?_eq_value]

theorem compare?_eq_none_iff (ha : a.kind ≠ .complex) (hb : b.kind ≠ .complex) :
    a.compare? b = none ↔ a.hasNaN = true ∨ b.hasNaN = true := by
  rw [compare?_of_ne_complex ha hb, ← value?_eq_none_iff ha, ← value?_eq_none_iff hb]
  cases a.value? with
  | none => exact iff_of_true rfl (.inl rfl)
  | some v => cases b.value? <;> simp

/-- A test of the order that fails without an order is a relation of values. -/
theorem test_compare?_iff {R : ExtendedRat → ExtendedRat → Prop} {holds : Option Ordering → Bool}
    (hnone : holds none = false) (h : ∀ v w, holds (some (compare v w)) = true ↔ R v w)
    (ha : a.kind ≠ .complex) (hb : b.kind ≠ .complex) :
    holds (a.compare? b) = true ↔ a.Related R b := by
  rw [compare?_of_ne_complex ha hb, Related]
  cases a.value? with
  | none => simp [hnone]
  | some v =>
    cases b.value? with
    | none => simp [hnone]
    | some w => simp [h]

theorem compare?_eq_some_lt_iff (ha : a.kind ≠ .complex) (hb : b.kind ≠ .complex) :
    a.compare? b = some .lt ↔ a.Related (· < ·) b := by
  have htest : (a.compare? b == some .lt) = true ↔ a.Related (· < ·) b := by
    refine @test_compare?_iff a b _ (· == some .lt) rfl (fun v w => ?_) ha hb
    rw [beq_iff_eq, Option.some_inj, compare_lt_iff_lt]
  rw [← htest, beq_iff_eq]

/-- The order operators on numbers below complex. -/
theorem ordered_decides {R : ExtendedRat → ExtendedRat → Prop} {holds : Option Ordering → Bool}
    (op : BinaryOp) (hnone : holds none = false)
    (h : ∀ v w, holds (some (compare v w)) = true ↔ R v w)
    (ha : a.kind ≠ .complex) (hb : b.kind ≠ .complex) :
    Decides (.single <$> ordered op holds a b) (a.Related R b) := by
  refine ⟨holds (a.compare? b), ?_, test_compare?_iff hnone h ha hb⟩
  rw [ordered, if_neg (not_or.2 ⟨ha, hb⟩)]
  rfl

theorem ordered_of_complex (op : BinaryOp) (holds : Option Ordering → Bool)
    (h : a.kind = .complex ∨ b.kind = .complex) : ordered op holds a b = unsupported op a b :=
  if_pos h

/-- Numbers that are numbers, of all kinds. -/
abbrev Valued := { n : Number // n.hasNaN = false }

/-- Numbers below complex that are numbers. -/
abbrev RealValued := { n : Number // n.hasNaN = false ∧ n.kind ≠ .complex }

theorem equivalence_equal : Equivalence fun a b : Valued => a.1.equal b.1 = true := by
  have h (a b : Valued) : a.1.equal b.1 = true ↔ a.1.parts? = b.1.parts? := by
    obtain ⟨p, hp⟩ := exists_parts?_eq a.2
    rw [equal_eq_true_iff_parts, hp]
    constructor
    · rintro ⟨q, hq, hb⟩
      exact hq.trans hb.symm
    · exact fun hb => ⟨p, rfl, hb.symm⟩
  refine ⟨fun a => (h a a).2 rfl, fun hab => (h ..).2 ((h ..).1 hab).symm, fun hab hbc => ?_⟩
  exact (h ..).2 (((h ..).1 hab).trans ((h ..).1 hbc))

theorem isStrictTotalUpTo_realValued :
    IsStrictTotalUpTo (fun a b : RealValued => a.1.equal b.1 = true)
      (fun a b => a.1.compare? b.1 = some .lt) := by
  let f (a : RealValued) : ExtendedRat := a.1.value?.getD 0
  have hf (a : RealValued) : a.1.value? = some (f a) := by
    obtain ⟨v, hv⟩ := exists_value?_eq a.2.2 a.2.1
    simp only [f, hv, Option.getD_some]
  have heq (a b : RealValued) : a.1.equal b.1 = true ↔ f a = f b := by
    rw [equal_of_ne_complex a.2.2 b.2.2, equalReal_eq_true_iff_value, hf, hf]
    simp [eq_comm]
  have hlt (a b : RealValued) : a.1.compare? b.1 = some .lt ↔ f a < f b := by
    rw [compare?_eq_some_lt_iff a.2.2 b.2.2, Related, hf, hf]
    simp
  simp only [heq, hlt]
  exact isStrictTotalUpTo_of_values f

/-! ### Comparisons and values -/

/-- **Numbers are compared by their exact values.** Below complex, the order is that of the values,
and there is none exactly if one of the numbers is not a number; the operators on two numbers say
so. Numbers of all kinds are equal if the values of both parts are. A complex number has no order
but with its equals. So equality is an equivalence, and the numbers below complex are totally
ordered up to it. -/
theorem compares_exact_values :
    (∀ a b : Number, a.kind ≠ .complex → b.kind ≠ .complex →
      a.compare? b = (do return compare (← a.value?) (← b.value?)) ∧
      (a.compare? b = none ↔ a.hasNaN = true ∨ b.hasNaN = true) ∧
      (a.equal b = true ↔ a.Related (· = ·) b) ∧
      Decides (binary .lt a b) (a.Related (· < ·) b) ∧
      Decides (binary .le a b) (a.Related (· ≤ ·) b) ∧
      Decides (binary .gt a b) (a.Related (· > ·) b) ∧
      Decides (binary .ge a b) (a.Related (· ≥ ·) b)) ∧
    (∀ a b : Number,
      (a.equal b = true ↔ ∃ p, a.parts? = some p ∧ b.parts? = some p) ∧
      Decides (binary .eq a b) (∃ p, a.parts? = some p ∧ b.parts? = some p) ∧
      Decides (binary .ne a b) (¬ ∃ p, a.parts? = some p ∧ b.parts? = some p)) ∧
    (∀ a b : Number, a.kind = .complex ∨ b.kind = .complex →
      a.compare? b = (if a.equal b then some .eq else none) ∧
      ∀ op ∈ [BinaryOp.lt, .le, .gt, .ge], binary op a b =
        .error (.unsupportedOperation op.name s!"{a.kind} and {b.kind}")) ∧
    (Equivalence fun a b : Valued => a.1.equal b.1 = true) ∧
    IsStrictTotalUpTo (fun a b : RealValued => a.1.equal b.1 = true)
      (fun a b => a.1.compare? b.1 = some .lt) := by
  refine ⟨?_, ?_, ?_, equivalence_equal, isStrictTotalUpTo_realValued⟩
  · intro a b ha hb
    refine ⟨compare?_of_ne_complex ha hb, compare?_eq_none_iff ha hb, ?_, ?_, ?_, ?_, ?_⟩
    · rw [equal_of_ne_complex ha hb, equalReal_eq_true_iff_value]
      simp [Related]
    · refine ordered_decides .lt rfl (fun v w => ?_) ha hb
      simp [compare_lt_iff_lt]
    · refine ordered_decides .le rfl (fun v w => ?_) ha hb
      simp [compare_lt_iff_lt, le_iff_lt_or_eq]
    · refine ordered_decides .gt rfl (fun v w => ?_) ha hb
      simp [compare_gt_iff_gt]
    · refine ordered_decides .ge rfl (fun v w => ?_) ha hb
      simp [compare_gt_iff_gt, le_iff_lt_or_eq, @eq_comm _ w v]
  · intro a b
    have h := equal_eq_true_iff_parts a b
    refine ⟨h, ⟨a.equal b, rfl, h⟩, !a.equal b, rfl, ?_⟩
    rw [← equal_eq_true_iff_parts, Bool.not_eq_true', Bool.not_eq_true]
  · intro a b h
    refine ⟨if_pos h, ?_⟩
    have hordered (op : BinaryOp) (holds : Option Ordering → Bool) :
        (Answer.single <$> ordered op holds a b) =
          .error (.unsupportedOperation op.name s!"{a.kind} and {b.kind}") := by
      rw [ordered_of_complex op holds h]
      rfl
    intro op hop
    simp only [List.mem_cons, List.not_mem_nil, or_false] at hop
    obtain rfl | rfl | rfl | rfl := hop
    · exact hordered .lt _
    · exact hordered .le _
    · exact hordered .gt _
    · exact hordered .ge _

/-- The double 2^53 is less than the int after it, which no double is, and that is less than the
double 2^63; a complex number on the real axis equals its real part, and has no order. -/
theorem compares_exact_values_large :
    let x := float (.ofInt 0x20000000000000)
    let i := int 0x20000000000001
    let y := float (.ofInt 0x8000000000000000)
    let z := complex ⟨.ofInt 0x20000000000000, .zero⟩
    x.Related (· < ·) i ∧ x.compare? y = some .lt ∧ (∃ p, x.parts? = some p ∧ z.parts? = some p) ∧
      z.equal x = true ∧
      binary .lt x z = .error (.unsupportedOperation "lt" s!"{x.kind} and {z.kind}") := by
  intro x i y z
  obtain ⟨hreal, hall, hcomplex, hequiv, horder⟩ := compares_exact_values
  have hxi : x.compare? i = some .lt := by decide +kernel
  have hiy : i.compare? y = some .lt := by decide +kernel
  have hxz : x.equal z = true := by decide +kernel
  refine ⟨?_, ?_, (hall x z).1.1 hxz, ?_, (hcomplex x z (.inr rfl)).2 .lt (.head _)⟩
  · obtain ⟨-, -, -, ⟨p, hp, hrelated⟩, -⟩ := hreal x i nofun nofun
    have hlt : binary .lt x i = .ok (.single (bool true)) := by
      change Except.ok (Answer.single (bool (x.compare? i == some .lt))) = _
      rw [hxi]
      rfl
    rw [hlt] at hp
    cases hp
    exact hrelated.1 rfl
  · let real (n : Number) (h : n.hasNaN = false ∧ n.kind ≠ .complex) : RealValued := ⟨n, h⟩
    exact horder.trans (a := real x ⟨by decide +kernel, nofun⟩) (b := real i ⟨rfl, nofun⟩)
      (c := real y ⟨by decide +kernel, nofun⟩) hxi hiy
  · exact hequiv.symm (x := ⟨x, by decide +kernel⟩) (y := ⟨z, by decide +kernel⟩) hxz

end Number

end ProxyTrace
