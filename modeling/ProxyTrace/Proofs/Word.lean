import Mathlib.Algebra.Order.Ring.Int
import Mathlib.Tactic.Linarith
import Mathlib.Tactic.Positivity
import Mathlib.Tactic.Ring
import ProxyTrace.Word

/-!
Words against the whole numbers. Behind its test each operation on words is the one on whole
numbers: the machine's division rounds to zero and is corrected by one, and a shift back undoes a
shift only if no bit was lost.
-/

namespace ProxyTrace.Word

variable {a b n : Int64}

theorem ofInt?_eq_none_iff {i : Int} : ofInt? i = none ↔ ¬InRange i := by
  simp [ofInt?]

theorem not_inRange_iff {i : Int} :
    ¬InRange i ↔ i < -0x8000000000000000 ∨ 0x8000000000000000 ≤ i := by
  unfold InRange
  omega

/-- Only the factors 0 and -1 bring a number back into range. -/
theorem not_inRange_mul {i j : Int} (hi : ¬InRange i) (hzero : j ≠ 0) (hneg : j ≠ -1) :
    ¬InRange (i * j) := by
  rw [not_inRange_iff] at *
  have hj : 1 ≤ j ∨ j ≤ -2 := by omega
  rcases hi with hi | hi <;> rcases hj with hj | hj
  · exact .inl (by nlinarith)
  · exact .inr (by nlinarith)
  · exact .inr (by nlinarith)
  · exact .inl (by nlinarith)

theorem bmod_of_inRange {i : Int} (h : InRange i) : i.bmod (2 ^ 64) = i :=
  Int.bmod_eq_of_le h.1 h.2

theorem lt_zero_iff (a : Int64) : a < 0 ↔ a.toInt < 0 := Int64.lt_iff_toInt_lt

theorem toInt_nonneg (h : 0 ≤ n) : 0 ≤ n.toInt := Int64.le_iff_toInt_le.1 h

theorem toInt_ne_zero (h : b ≠ 0) : b.toInt ≠ 0 := by
  intro h'
  exact h (Int64.toInt_inj.1 h')

/-! ### Division rounded down -/

theorem tmod_neg_iff {i j : Int} (h : i.tmod j ≠ 0) : i.tmod j < 0 ↔ i < 0 := by
  have hpos : 0 ≤ i → 0 ≤ i.tmod j := Int.tmod_nonneg j
  have hneg : 0 ≤ -i → 0 ≤ (-i).tmod j := Int.tmod_nonneg j
  rw [Int.neg_tmod] at hneg
  omega

theorem fdiv_eq_ite {i j : Int} (hj : j ≠ 0) :
    i.fdiv j = if i.tmod j ≠ 0 ∧ ¬(i < 0 ↔ j < 0) then i.tdiv j - 1 else i.tdiv j := by
  rw [Int.fdiv_eq_tdiv]
  simp only [Int.dvd_iff_tmod_eq_zero]
  rcases Int.lt_or_gt_of_ne hj with h | h
  · rw [Int.sign_eq_neg_one_of_neg h]
    grind
  · rw [Int.sign_eq_one_of_pos h]
    grind

theorem fmod_eq_ite (i j : Int) :
    i.fmod j = if i.tmod j ≠ 0 ∧ ¬(i.tmod j < 0 ↔ j < 0) then i.tmod j + j else i.tmod j := by
  rw [Int.fmod_eq_tmod]
  simp only [Int.dvd_iff_tmod_eq_zero]
  by_cases h : i.tmod j = 0
  · simp [h]
  · have := tmod_neg_iff h
    grind

theorem toInt_div (h : Divides a b) : (a / b).toInt = a.toInt.tdiv b.toInt := by
  by_cases ha : a = Int64.minValue
  · exact Int64.toInt_div_of_ne_right a b fun hb => h.2 ⟨ha, hb⟩
  · exact Int64.toInt_div_of_ne_left a b ha

theorem toInt_sub_of_inRange (h : InRange (a.toInt - b.toInt)) :
    (a - b).toInt = a.toInt - b.toInt := by
  rw [Int64.toInt_sub, bmod_of_inRange h]

theorem toInt_add_of_inRange (h : InRange (a.toInt + b.toInt)) :
    (a + b).toInt = a.toInt + b.toInt := by
  rw [Int64.toInt_add, bmod_of_inRange h]

/-- A negative word and one that is not have a word as their sum. -/
theorem inRange_add_of_neg (ha : a < 0) (hb : 0 ≤ b) : InRange (a.toInt + b.toInt) := by
  have harange := inRange_toInt a
  have hbrange := inRange_toInt b
  have hnonneg := toInt_nonneg hb
  rw [lt_zero_iff] at ha
  unfold InRange at *
  omega

theorem inRange_sub_one (ha : 0 ≤ a) : InRange (a.toInt - (1 : Int64).toInt) := by
  have harange := inRange_toInt a
  have hnonneg := toInt_nonneg ha
  rw [Int64.toInt_one]
  unfold InRange at *
  omega

theorem toInt_sub_one (ha : 0 ≤ a) : (a - 1).toInt = a.toInt - 1 :=
  toInt_sub_of_inRange (inRange_sub_one ha)

/-- Where the quotient was rounded up there is a word below it. -/
theorem inRange_div_sub_one (h : Divides a b)
    (hdown : a.toInt.tmod b.toInt ≠ 0 ∧ ¬(a.toInt < 0 ↔ b.toInt < 0)) :
    InRange ((a / b).toInt - (1 : Int64).toInt) := by
  have hfloor : a.toInt.fdiv b.toInt = (a / b).toInt - 1 := by
    rw [fdiv_eq_ite (toInt_ne_zero h.1), if_pos hdown, toInt_div h]
  have hsize := Int.natAbs_fdiv_le_natAbs a.toInt b.toInt
  have ha := inRange_toInt a
  have hq := inRange_toInt (a / b)
  rw [Int64.toInt_one]
  unfold InRange at *
  omega

/-- A remainder and a divisor of different signs have a word as their sum. -/
theorem inRange_mod_add (hdown : ¬(a.toInt.tmod b.toInt < 0 ↔ b.toInt < 0)) :
    InRange ((a % b).toInt + b.toInt) := by
  have hmod := inRange_toInt (a % b)
  have hb := inRange_toInt b
  rw [Int64.toInt_mod] at hmod ⊢
  unfold InRange at *
  omega

theorem floorDiv?_eq_ofInt? (hb : b ≠ 0) :
    floorDiv? a b = ofInt? (a.toInt.fdiv b.toInt) := by
  have hb' : b.toInt ≠ 0 := toInt_ne_zero hb
  by_cases h : Divides a b
  · have hq : (a / b).toInt = a.toInt.tdiv b.toInt := toInt_div h
    symm
    rw [floorDiv?, if_pos h, fdiv_eq_ite hb']
    simp only [ne_eq, ← Int64.toInt_inj, Int64.toInt_mod, lt_zero_iff, Int64.toInt_zero]
    split
    · rename_i hdown
      have hsub : (a / b - 1).toInt = a.toInt.tdiv b.toInt - 1 := by
        rw [toInt_sub_of_inRange (inRange_div_sub_one h hdown), hq, Int64.toInt_one]
      rw [ofInt?_eq_some_iff, hsub]
    · rw [ofInt?_eq_some_iff, hq]
  · have : a = Int64.minValue ∧ b = -1 := by
      by_contra h'
      exact h ⟨hb, h'⟩
    obtain ⟨rfl, rfl⟩ := this
    rfl

theorem floorMod?_eq_ofInt? (h : Divides a b) : floorMod? a b = ofInt? (a.toInt.fmod b.toInt) := by
  symm
  rw [floorMod?, if_pos h, fmod_eq_ite]
  simp only [ne_eq, ← Int64.toInt_inj, Int64.toInt_mod, lt_zero_iff, Int64.toInt_zero]
  split
  · rename_i hdown
    rw [ofInt?_eq_some_iff, toInt_add_of_inRange (inRange_mod_add hdown.2), Int64.toInt_mod]
  · rw [ofInt?_eq_some_iff, Int64.toInt_mod]

/-! ### Shifts -/

/-- A machine shift takes its count modulo 64. -/
theorem toNat_smod (h : 0 ≤ n) (hn : n.toInt < 64) :
    (n.toBitVec.smod 64).toNat = n.toInt.toNat := by
  have hnonneg : 0 ≤ n.toInt := toInt_nonneg h
  have hmod : (n.toBitVec.smod 64).toInt = n.toInt := by
    rw [BitVec.toInt_smod, Int64.toInt_toBitVec]
    exact Int.fmod_eq_of_lt hnonneg hn
  have := BitVec.toInt_eq_toNat_cond (n.toBitVec.smod 64)
  have := (n.toBitVec.smod 64).isLt
  omega

theorem toInt_machineShiftRight (h : 0 ≤ n) (hn : n.toInt < 64) :
    (a >>> n).toInt = a.toInt / 2 ^ n.toInt.toNat := by
  rw [← Int64.toInt_toBitVec, Int64.toBitVec_shiftRight, BitVec.toInt_sshiftRight', toNat_smod h hn,
    Int64.toInt_toBitVec, Int.shiftRight_eq_div_pow]
  norm_cast

theorem toInt_machineShiftLeft (h : 0 ≤ n) (hn : n.toInt < 64) :
    (a <<< n).toInt = (a.toInt * 2 ^ n.toInt.toNat).bmod (2 ^ 64) := by
  rw [← Int64.toInt_toBitVec, Int64.toBitVec_shiftLeft, BitVec.shiftLeft_eq', toNat_smod h hn,
    BitVec.toInt_shiftLeft, Nat.shiftLeft_eq, Int.natCast_mul, Int.natCast_pow, ← Int.bmod_mul_bmod,
    ← BitVec.toInt_eq_toNat_bmod]
  rfl

/-- A product by a power of two is in range only for small counts, unless it is the least word. -/
theorem not_inRange_mul_two_pow {i : Int} {k : Nat} (hi : i ≠ 0) (hk : 63 ≤ k)
    (hedge : ¬(i = -1 ∧ k = 63)) : ¬InRange (i * 2 ^ k) := by
  obtain ⟨d, rfl⟩ := Nat.exists_eq_add_of_le hk
  have hpos : (0 : Int) < 2 ^ d := Int.pow_pos (by decide)
  have hsplit : i * 2 ^ (63 + d) = i * 2 ^ d * 0x8000000000000000 := by
    rw [Int.pow_add]; ring
  rintro ⟨hlow, hhigh⟩
  rw [hsplit] at hlow hhigh
  -- the quotient by the least word's size is -1
  have hquot : i * 2 ^ d = -1 := by
    have : i * 2 ^ d ≠ 0 := Int.mul_ne_zero hi (by omega)
    omega
  have hunit : (2 : Int) ^ d ∣ 1 := ⟨-i, by rw [Int.mul_neg, Int.mul_comm, hquot]; rfl⟩
  have hone : (2 : Int) ^ d = 1 := Int.eq_one_of_dvd_one (by omega) hunit
  have hd : d = 0 := by
    by_contra hd
    have := Int.pow_lt_pow_of_lt (show (1 : Int) < 2 by decide) (Nat.pos_of_ne_zero hd)
    omega
  subst hd
  exact hedge ⟨by simpa using hquot, rfl⟩

/-- A word shifted by 63 or more leaves the range, unless -1 becomes the least word. -/
theorem not_inRange_shift (ha : a ≠ 0) (hn : 63 ≤ n.toInt) (hedge : ¬(a = -1 ∧ n = 63)) :
    ¬InRange (a.toInt * 2 ^ n.toInt.toNat) := by
  refine not_inRange_mul_two_pow (toInt_ne_zero ha) (by omega) fun ⟨hone, hcount⟩ =>
    hedge ⟨Int64.toInt_inj.1 hone, Int64.toInt_inj.1 ?_⟩
  rw [show (63 : Int64).toInt = 63 from rfl]
  omega

/-- Undoing a shift gives the word back exactly if the product had room. -/
theorem bmod_div_two_pow_eq_iff {i : Int} {k : Nat} (hk : k ≤ 64) :
    (i * 2 ^ k).bmod (2 ^ 64) / 2 ^ k = i ↔ InRange (i * 2 ^ k) := by
  have hpow : (2 : Int) ^ k ≠ 0 := by positivity
  constructor
  · intro h
    have hdvd : (2 : Int) ^ k ∣ (i * 2 ^ k).bmod (2 ^ 64) := by
      have hdiff : (2 : Int) ^ k ∣ (i * 2 ^ k).bmod (2 ^ 64) - i * 2 ^ k :=
        (pow_dvd_pow 2 hk).trans (by exact_mod_cast Int.dvd_bmod_sub_self)
      exact (Int.dvd_iff_dvd_of_dvd_sub hdiff).2 (Int.dvd_mul_left _ _)
    have hexact : (i * 2 ^ k).bmod (2 ^ 64) = i * 2 ^ k := by
      rw [← Int.ediv_mul_cancel hdvd, h]
    rw [← hexact]
    exact ⟨by have := @Int.le_bmod (i * 2 ^ k) (2 ^ 64) (by decide); omega,
      by have := @Int.bmod_lt (i * 2 ^ k) (2 ^ 64) (by decide); omega⟩
  · intro h
    rw [bmod_of_inRange h, Int.mul_ediv_cancel _ hpow]

theorem toInt_shiftRight (h : 0 ≤ n) : (shiftRight a n).toInt = a.toInt / 2 ^ n.toInt.toNat := by
  have ha := inRange_toInt a
  have hn : 64 ≤ n ↔ 64 ≤ n.toInt := Int64.le_iff_toInt_le
  simp only [shiftRight, hn, lt_zero_iff]
  split
  · have hsize : (2 : Int) ^ 64 ≤ 2 ^ n.toInt.toNat :=
      pow_le_pow_right₀ (by decide) (by omega)
    unfold InRange at ha
    split
    · exact (Int.ediv_eq_neg_one_of_neg_of_le (by omega) (by omega)).symm
    · exact (Int.ediv_eq_zero_of_lt (by omega) (by omega)).symm
  · exact toInt_machineShiftRight h (by omega)

theorem shiftLeft?_eq_ofInt? (h : 0 ≤ n) (hedge : ¬(a = -1 ∧ n = 63)) :
    shiftLeft? a n = ofInt? (a.toInt * 2 ^ n.toInt.toNat) := by
  have hn : 63 ≤ n ↔ 63 ≤ n.toInt := Int64.le_iff_toInt_le
  have hnonneg : 0 ≤ n.toInt := toInt_nonneg h
  simp only [shiftLeft?, hn]
  split
  · rename_i hzero
    subst hzero
    symm
    rw [ofInt?_eq_some_iff]
    simp
  rename_i hzero
  split
  · exact (ofInt?_eq_none_iff.2 (not_inRange_shift hzero ‹_› hedge)).symm
  · have hshift : (a <<< n).toInt = (a.toInt * 2 ^ n.toInt.toNat).bmod (2 ^ 64) :=
      toInt_machineShiftLeft h (by omega)
    have hback : a <<< n >>> n = a ↔ InRange (a.toInt * 2 ^ n.toInt.toNat) := by
      rw [← Int64.toInt_inj, toInt_machineShiftRight h (by omega), hshift]
      exact bmod_div_two_pow_eq_iff (by omega)
    symm
    split
    · rename_i hexact
      rw [ofInt?_eq_some_iff, hshift, bmod_of_inRange (hback.1 hexact)]
    · rename_i hexact
      rw [ofInt?_eq_none_iff, ← hback]
      exact hexact

/-- What a shift to the left answers has lost no bit. -/
theorem toInt_of_shiftLeft? {w : Int64} (h : 0 ≤ n) (hw : shiftLeft? a n = some w) :
    w.toInt = a.toInt * 2 ^ n.toInt.toNat := by
  by_cases hedge : a = -1 ∧ n = 63
  · obtain ⟨rfl, rfl⟩ := hedge
    have hnone : shiftLeft? (-1) 63 = none := by decide
    cases hnone.symm.trans hw
  · rw [shiftLeft?_eq_ofInt? h hedge] at hw
    exact ofInt?_eq_some_iff.1 hw

end ProxyTrace.Word
