import Mathlib.Algebra.Ring.Int.Parity
import ProxyTrace.Proofs.Number.Overflow

/-!
# Powers of words

A power is computed by squaring, and from exponents of 2^32 on by cases on the base. Neither fails
on the way where the power itself is a word: what is out of range stays there with every factor but
0 and -1 (`Word.not_inRange_mul`), and no square is at the edge from where -1 would bring it back
(`Word.not_inRange_square_mul`). So the power is the word that the exact power is
(`Word.pow?_eq_ofInt?`), and the same as a chain of checked products (`Word.chainPow?_eq_ofInt?`).
The main statement is `Number.pow_exact`.
-/

namespace ProxyTrace

namespace Word

variable {a acc base n : Int64} {i j : Int} {k : Nat}

/-- `a ^ k` multiplied up from 1, with a check after each product. -/
def chainPow? (a : Int64) : Nat → Option Int64
  | 0 => some 1
  | k + 1 => do mul? (← chainPow? a k) a

/-- 2^63 is no square. -/
theorem mul_self_ne (j : Int) : j * j ≠ 0x8000000000000000 := by
  intro h
  have hmod : j * j % 3 = 2 := by rw [h]; rfl
  rw [Int.mul_emod] at hmod
  have : j % 3 = 0 ∨ j % 3 = 1 ∨ j % 3 = 2 := by omega
  rcases this with h | h | h <;> rw [h] at hmod <;> cases hmod

theorem not_inRange_square_mul (hj : ¬InRange (j * j)) (hi : i ≠ 0) : ¬InRange (j * j * i) := by
  by_cases hneg : i = -1
  · have hne := mul_self_ne j
    have hnonneg := mul_self_nonneg j
    subst hneg
    rw [not_inRange_iff] at *
    omega
  · exact not_inRange_mul hj hi hneg

theorem chainPow?_eq_ofInt? (a : Int64) (k : Nat) : chainPow? a k = ofInt? (a.toInt ^ k) := by
  induction k with
  | zero =>
    rw [pow_zero]
    exact (ofInt?_eq_some_iff.2 rfl).symm
  | succ k ih =>
    rw [chainPow?, ih, Int.pow_succ]
    cases hpow : ofInt? (a.toInt ^ k) with
    | some w =>
      rw [← ofInt?_eq_some_iff.1 hpow]
      rfl
    | none =>
      have hrange := ofInt?_eq_none_iff.1 hpow
      symm
      rw [Option.bind_eq_bind, Option.bind_none, ofInt?_eq_none_iff]
      refine not_inRange_mul hrange (fun hzero => hrange ?_) fun hneg => hrange ?_
      · rw [hzero]
        cases k <;> simp [InRange]
      · rw [hneg]
        rcases neg_one_pow_eq_or Int k with h | h <;> rw [h] <;> decide

/-! ### Squaring -/

theorem mul_pow_eq (i j : Int) (k : Nat) :
    i * j ^ k = i * j ^ (k % 2) * (j * j) ^ (k / 2) := by
  conv_lhs => rw [← Nat.mod_add_div k 2]
  rw [pow_add, pow_mul, pow_two, mul_assoc]

/-- One round of the squaring. -/
theorem mulPow?_of_two_le (h : 2 ≤ k) : mulPow? acc base k =
    (ofInt? (acc.toInt * base.toInt ^ (k % 2))).bind fun acc' =>
      (mul? base base).bind fun base' => mulPow? acc' base' (k / 2) := by
  rw [mulPow?, if_neg (by omega), if_neg (by omega)]
  rcases Nat.mod_two_eq_zero_or_one k with hk | hk
  · rw [hk, if_neg (by decide), pow_zero, mul_one, ofInt?_toInt]
    rfl
  · rw [hk, if_pos rfl, pow_one]
    rfl

/-- The product so far is not zero, unless the base is: so what is out of range stays there. -/
theorem mulPow?_eq_ofInt? (h : acc ≠ 0 ∨ base = 0) :
    mulPow? acc base k = ofInt? (acc.toInt * base.toInt ^ k) := by
  induction k using Nat.strong_induction_on generalizing acc base with
  | h k ih =>
  rcases (by omega : k = 0 ∨ k = 1 ∨ 2 ≤ k) with rfl | rfl | hk
  · rw [mulPow?, if_pos rfl, pow_zero, mul_one, ofInt?_toInt]
  · rw [mulPow?, if_neg (by decide), if_pos rfl, pow_one, mul?]
  have hproduct (hbase : base.toInt ≠ 0) : acc.toInt * base.toInt ^ (k % 2) ≠ 0 := by
    refine mul_ne_zero (toInt_ne_zero (h.resolve_right ?_)) (pow_ne_zero _ hbase)
    rintro rfl
    exact hbase rfl
  rw [mulPow?_of_two_le hk, mul_pow_eq acc.toInt base.toInt k]
  cases hacc : ofInt? (acc.toInt * base.toInt ^ (k % 2)) with
  | none =>
    have hrange := ofInt?_eq_none_iff.1 hacc
    have hbase : base.toInt ≠ 0 := by
      intro hzero
      rw [hzero] at hrange
      rcases Nat.mod_two_eq_zero_or_one k with hk | hk <;> rw [hk] at hrange
      · exact hrange (by simpa using inRange_toInt acc)
      · exact hrange (by simp [InRange])
    have hrest : 0 < (base.toInt * base.toInt) ^ (k / 2) := pow_pos (mul_self_pos.2 hbase) _
    exact (ofInt?_eq_none_iff.2 (not_inRange_mul hrange (by omega) (by omega))).symm
  | some acc' =>
    cases hsquare : mul? base base with
    | none =>
      have hrange : ¬InRange (base.toInt * base.toInt) := ofInt?_eq_none_iff.1 hsquare
      have hbase : base.toInt ≠ 0 := by
        intro hzero
        rw [hzero] at hrange
        exact hrange (by decide)
      obtain ⟨m, hm⟩ := Nat.exists_eq_add_of_lt (by omega : 0 < k / 2)
      have hrest : acc.toInt * base.toInt ^ (k % 2) * (base.toInt * base.toInt) ^ m ≠ 0 :=
        mul_ne_zero (hproduct hbase) (pow_ne_zero _ (mul_ne_zero hbase hbase))
      symm
      rw [hm, zero_add, pow_succ, ← mul_assoc, mul_comm]
      exact ofInt?_eq_none_iff.2 (not_inRange_square_mul hrange hrest)
    | some base' =>
      have hacc' := ofInt?_eq_some_iff.1 hacc
      have hbase' : base'.toInt = base.toInt * base.toInt := ofInt?_eq_some_iff.1 hsquare
      rw [← hacc', ← hbase']
      refine ih (k / 2) (by omega) ?_
      by_cases hbase : base.toInt = 0
      · refine .inr (Int64.toInt_inj.1 ?_)
        rw [hbase', hbase]
        rfl
      · refine .inl fun hzero => hproduct hbase ?_
        rw [← hacc', hzero]
        rfl

/-! ### All exponents -/

/-- From exponents of 2^32 on there are no powers but those of 0, 1 and -1. -/
theorem not_inRange_pow (hi : 2 ≤ i.natAbs) (hk : 64 ≤ k) : ¬InRange (i ^ k) := by
  have hlarge : 2 ^ 64 ≤ (i ^ k).natAbs := by
    rw [Int.natAbs_pow]
    exact (Nat.pow_le_pow_right (by decide) hk).trans (Nat.pow_le_pow_left hi k)
  unfold InRange
  omega

theorem neg_one_pow_toNat (hn : 0 ≤ n.toInt) :
    (-1 : Int) ^ n.toInt.toNat = if Even n.toInt then 1 else -1 := by
  obtain ⟨m, hm⟩ := Int.eq_ofNat_of_zero_le hn
  rw [hm, Int.toNat_natCast]
  split
  · rename_i heven
    exact ((Int.even_coe_nat m).1 heven).neg_one_pow
  · rename_i hodd
    exact (Nat.not_even_iff_odd.1 (mt (Int.even_coe_nat m).2 hodd)).neg_one_pow

/-- The power is the word that the exact power is. -/
theorem pow?_eq_ofInt? (hn : 0 ≤ n) : pow? a n = ofInt? (a.toInt ^ n.toInt.toNat) := by
  have hnonneg : 0 ≤ n.toInt := toInt_nonneg hn
  have hsmall : n < 0x100000000 ↔ n.toInt < 0x100000000 := Int64.lt_iff_toInt_lt
  simp only [pow?, hsmall]
  split
  · rw [mulPow?_eq_ofInt? (.inl (by decide)), Int64.toInt_one, one_mul]
  have hlarge : 64 ≤ n.toInt.toNat := by omega
  symm
  split
  · rename_i hunit
    rw [ofInt?_eq_some_iff]
    rcases hunit with rfl | rfl
    · exact (zero_pow (by omega)).symm
    · exact (one_pow _).symm
  rename_i hunit
  split
  · rename_i hneg
    have heven : n % 2 = 0 ↔ Even n.toInt := by
      rw [← Int64.toInt_inj, Int64.toInt_mod, Int.tmod_eq_emod_of_nonneg hnonneg, Int.even_iff]
      rfl
    rw [ofInt?_eq_some_iff, hneg]
    simp only [heven]
    refine Eq.trans ?_ (neg_one_pow_toNat hnonneg).symm
    split <;> rfl
  · rename_i hneg
    have hzero : a.toInt ≠ 0 := fun h => hunit (.inl (Int64.toInt_inj.1 h))
    have hone : a.toInt ≠ 1 := fun h => hunit (.inr (Int64.toInt_inj.1 h))
    have hminus : a.toInt ≠ -1 := fun h => hneg (Int64.toInt_inj.1 h)
    exact ofInt?_eq_none_iff.2 (not_inRange_pow (by omega) hlarge)

end Word

/-! ### Numbers -/

namespace Number

variable {a b : Number} {i n : Int64}

theorem binary_pow_eq_ofWord? (ha : a.toInt? = some i) (hb : b.toInt? = some n) (hn : 0 ≤ n) :
    a.binary .pow b =
      .single <$> ofWord? BinaryOp.pow.name (Word.ofInt? (i.toInt ^ n.toInt.toNat)) := by
  simp [binary, pow, promote_of_toInt? ha hb, Int64.not_lt.2 hn, Word.pow?_eq_ofInt? hn]

/-- **The power of ints is exact for every exponent that is not negative.** It is answered if it is
a word, and overflows otherwise; it is what a chain of checked products answers; and for the bases
0, 1 and -1 it is given by the exponent being zero or even. -/
theorem pow_exact (ha : a.toInt? = some i) (hb : b.toInt? = some n) (hn : 0 ≤ n) :
    (Word.InRange (i.toInt ^ n.toInt.toNat) →
      ∃ w : Int64, a.binary .pow b = .ok (.single (int w)) ∧ w.toInt = i.toInt ^ n.toInt.toNat) ∧
    (¬Word.InRange (i.toInt ^ n.toInt.toNat) → a.binary .pow b = .error (.overflow "pow")) ∧
    a.binary .pow b = .single <$> ofWord? "pow" (Word.chainPow? i n.toInt.toNat) ∧
    (i = 0 → a.binary .pow b = .ok (.single (int (if n = 0 then 1 else 0)))) ∧
    (i = 1 → a.binary .pow b = .ok (.single (int 1))) ∧
    (i = -1 → a.binary .pow b = .ok (.single (int (if Even n.toInt then 1 else -1)))) := by
  have hnonneg : 0 ≤ n.toInt := Word.toInt_nonneg hn
  have hpow := binary_pow_eq_ofWord? ha hb hn
  have hword {w : Int64} (hw : w.toInt = i.toInt ^ n.toInt.toNat) :
      a.binary .pow b = .ok (.single (int w)) := by
    rw [hpow]
    exact single_ofWord?_ofInt?_eq_ok_iff.2 ⟨w, rfl, hw⟩
  refine ⟨fun hrange => ?_, fun hrange => ?_, ?_, ?_, ?_, ?_⟩
  · have hw := Word.toInt_ofInt hrange
    exact ⟨_, hword hw, hw⟩
  · rw [hpow]
    exact single_ofWord?_eq_overflow_iff.2 (Word.ofInt?_eq_none_iff.2 hrange)
  · rw [hpow, Word.chainPow?_eq_ofInt?]
    rfl
  · rintro rfl
    refine hword ?_
    split
    · rename_i hzero
      rw [hzero]
      rfl
    · rename_i hzero
      have hcount := Word.toInt_ne_zero hzero
      exact (zero_pow (by omega)).symm
  · rintro rfl
    exact hword (one_pow _).symm
  · rintro rfl
    refine hword (Eq.trans ?_ (Word.neg_one_pow_toNat hnonneg).symm)
    split <;> rfl

/-- The cube of -2^21 is the least word, and that of 2^21 overflows; -1 has a power for the greatest
exponent; and `false` to the power of `false` is 1. -/
theorem pow_exact_edges :
    (int (-0x200000)).binary .pow (int 3) = .ok (.single (int Int64.minValue)) ∧
    (int 0x200000).binary .pow (int 3) = .error (.overflow "pow") ∧
    (int (-1)).binary .pow (int Int64.maxValue) = .ok (.single (int (-1))) ∧
    (bool false).binary .pow (bool false) = .ok (.single (int 1)) := by
  have hleast := pow_exact (a := int (-0x200000)) (b := int 3) rfl rfl (by decide)
  have hlarge := pow_exact (a := int 0x200000) (b := int 3) rfl rfl (by decide)
  have hneg := pow_exact (a := int (-1)) (b := int Int64.maxValue) rfl rfl (by decide)
  have hzero := pow_exact (a := bool false) (b := bool false) rfl rfl (by decide)
  refine ⟨?_, hlarge.2.1 (by decide), ?_, ?_⟩
  · obtain ⟨w, hw, hvalue⟩ := hleast.1 (by decide)
    obtain rfl : w = Int64.minValue := Int64.toInt_inj.1 hvalue
    exact hw
  · rw [hneg.2.2.2.2.2 rfl, if_neg (by decide)]
  · exact hzero.2.2.2.1 rfl

end Number

end ProxyTrace
