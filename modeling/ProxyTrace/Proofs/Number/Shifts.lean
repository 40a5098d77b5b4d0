import Mathlib.Data.Rat.Floor
import ProxyTrace.Proofs.Number.Overflow

/-!
# Shifts

The machine's shifts take their counts modulo 64 and drop bits, so each shift has a range of counts
of its own, and the left one is undone and compared. What is answered is exact: a product with a
power of two on the left (`Number.binary_shiftLeft_eq_ok_iff`), the quotient rounded down on the
right, for counts of any size. So counts add up, with the one exception of -1, which is not shifted
to the least word at once. The main statement is `Number.shift_exact`.
-/

namespace ProxyTrace

namespace Word

variable {a m n k : Int64}

theorem toInt_shiftRight_eq_floor (hn : 0 ≤ n) :
    (shiftRight a n).toInt = ⌊(a.toInt / 2 ^ n.toInt.toNat : ℚ)⌋ := by
  rw [toInt_shiftRight hn]
  exact_mod_cast (Rat.floor_intCast_div_natCast a.toInt (2 ^ n.toInt.toNat)).symm

theorem nonneg_of_toInt_eq_add (hm : 0 ≤ m) (hn : 0 ≤ n) (hk : k.toInt = m.toInt + n.toInt) :
    0 ≤ k := by
  rw [Int64.le_iff_toInt_le, hk]
  exact Int.add_nonneg (toInt_nonneg hm) (toInt_nonneg hn)

theorem two_pow_add (hm : 0 ≤ m) (hn : 0 ≤ n) (hk : k.toInt = m.toInt + n.toInt) :
    (2 : Int) ^ k.toInt.toNat = 2 ^ m.toInt.toNat * 2 ^ n.toInt.toNat := by
  rw [hk, Int.toNat_add (toInt_nonneg hm) (toInt_nonneg hn), pow_add]

theorem shiftRight_shiftRight (hm : 0 ≤ m) (hn : 0 ≤ n) (hk : k.toInt = m.toInt + n.toInt) :
    shiftRight (shiftRight a m) n = shiftRight a k := by
  have hk' : 0 ≤ k := nonneg_of_toInt_eq_add hm hn hk
  rw [← Int64.toInt_inj, toInt_shiftRight hn, toInt_shiftRight hm, toInt_shiftRight hk',
    two_pow_add hm hn hk]
  exact Int.ediv_ediv_of_nonneg (by positivity)

end Word

namespace Number

variable {a b c d x y : Number} {i m n k : Int64}

/-- The operator with `b`, and then with `c`, answers `y`. -/
def Chained (op : BinaryOp) (a b c y : Number) : Prop :=
  ∃ x, a.binary op b = .ok (.single x) ∧ x.binary op c = .ok (.single y)

theorem binary_shift_of_neg {op : BinaryOp} (hop : op = .shiftLeft ∨ op = .shiftRight)
    (ha : a.toInt? = some i) (hb : b.toInt? = some n) (hn : n < 0) :
    a.binary op b = .error (.invalidOperand op.name "a negative shift count") := by
  have hints := promote_of_toInt? ha hb
  rcases hop with rfl | rfl
  · simp only [binary, shiftLeft, shift, hints, if_pos hn]
    rfl
  · simp only [binary, shiftRight, shift, hints, if_pos hn]
    rfl

theorem binary_shiftRight_eq (ha : a.toInt? = some i) (hb : b.toInt? = some n) (hn : 0 ≤ n) :
    a.binary .shiftRight b = .ok (.single (int (Word.shiftRight i n))) := by
  simp only [binary, shiftRight, shift, promote_of_toInt? ha hb, if_neg (Int64.not_lt.2 hn)]
  rfl

theorem binary_shiftLeft_eq_ok_iff (ha : a.toInt? = some i) (hb : b.toInt? = some n)
    (hn : 0 ≤ n) : a.binary .shiftLeft b = .ok (.single x) ↔
      (∃ w : Int64, x = int w ∧ w.toInt = i.toInt * 2 ^ n.toInt.toNat) ∧ ¬(i = -1 ∧ n = 63) := by
  by_cases hedge : i = -1 ∧ n = 63
  · rw [binary_of_overflowsEarly ha hb (.inr ⟨rfl, hedge⟩)]
    exact iff_of_false nofun fun h => h.2 hedge
  · have hop : ¬BinaryOp.OverflowsEarly .shiftLeft i n := by
      rintro (⟨hop, -⟩ | ⟨-, h⟩)
      · cases hop
      · exact hedge h
    have hz : BinaryOp.onInts? .shiftLeft i.toInt n.toInt = some (i.toInt * 2 ^ n.toInt.toNat) :=
      if_neg (Int.not_lt.2 (Word.toInt_nonneg hn))
    rw [binary_eq_ofWord? ha hb hz hop, single_ofWord?_ofInt?_eq_ok_iff]
    exact (and_iff_left hedge).symm

/-- What is in range after both shifts was in range between them. -/
theorem binary_shiftLeft_eq_ok_iff_chained (ha : a.toInt? = some i) (hb : b.toInt? = some m)
    (hm : 0 ≤ m) (hc : c.toInt? = some n) (hn : 0 ≤ n) (hd : d.toInt? = some k)
    (hk : k.toInt = m.toInt + n.toInt) : a.binary .shiftLeft d = .ok (.single y) ↔
      Chained .shiftLeft a b c y ∧ ¬(i = -1 ∧ k = 63) := by
  have hk' : 0 ≤ k := Word.nonneg_of_toInt_eq_add hm hn hk
  have hpow := Word.two_pow_add hm hn hk
  rw [binary_shiftLeft_eq_ok_iff ha hd hk']
  constructor
  · rintro ⟨⟨w, rfl, hw⟩, hedge⟩
    have hrange : Word.InRange (i.toInt * 2 ^ k.toInt.toNat) := hw ▸ Word.inRange_toInt w
    have hcount (hi : i ≠ 0) : k.toInt < 63 :=
      Int.not_le.1 fun hcount => Word.not_inRange_shift hi hcount hedge hrange
    have hbetween : Word.InRange (i.toInt * 2 ^ m.toInt.toNat) := by
      by_contra hout
      have hpos : (0 : Int) < 2 ^ n.toInt.toNat := by positivity
      rw [hpow, ← mul_assoc] at hrange
      exact Word.not_inRange_mul hout (by omega) (by omega) hrange
    have hm' := Word.toInt_nonneg hm
    have hn' := Word.toInt_nonneg hn
    have hlast : (63 : Int64).toInt = 63 := rfl
    let v := Int64.ofInt (i.toInt * 2 ^ m.toInt.toNat)
    have hv : v.toInt = i.toInt * 2 ^ m.toInt.toNat := Word.toInt_ofInt hbetween
    refine ⟨⟨int v, ?_, ?_⟩, hedge⟩
    · refine (binary_shiftLeft_eq_ok_iff ha hb hm).2 ⟨⟨v, rfl, hv⟩, ?_⟩
      rintro ⟨rfl, rfl⟩
      have := hcount (by decide)
      omega
    · refine (binary_shiftLeft_eq_ok_iff (a := int v) rfl hc hn).2 ⟨⟨w, rfl, ?_⟩, ?_⟩
      · rw [hw, hv, hpow, mul_assoc]
      · rintro ⟨hone, rfl⟩
        have := hcount fun hi => by
          rw [hone, hi] at hv
          simp at hv
        omega
  · rintro ⟨⟨x, hx, hy⟩, hedge⟩
    obtain ⟨⟨v, rfl, hv⟩, -⟩ := (binary_shiftLeft_eq_ok_iff ha hb hm).1 hx
    obtain ⟨⟨w, rfl, hw⟩, -⟩ := (binary_shiftLeft_eq_ok_iff (a := int v) rfl hc hn).1 hy
    exact ⟨⟨w, rfl, by rw [hw, hv, hpow, mul_assoc]⟩, hedge⟩

/-- **Shifts are exact.** A negative count is no operand. A shift to the right answers the quotient
by the power of two rounded down, for every other count. What a shift to the left answers is the
product with the power of two, and a shift back gives the operand. Two shifts of one direction come
to the shift by the sum of their counts, except that -1 is not shifted to the left by 63 at once. -/
theorem shift_exact (ha : a.toInt? = some i) (hb : b.toInt? = some m) :
    (m < 0 → ∀ op, op = .shiftLeft ∨ op = .shiftRight →
      a.binary op b = .error (.invalidOperand op.name "a negative shift count")) ∧
    (0 ≤ m →
      (∃ w : Int64, a.binary .shiftRight b = .ok (.single (int w)) ∧
        w.toInt = ⌊(i.toInt / 2 ^ m.toInt.toNat : ℚ)⌋) ∧
      (∀ x, a.binary .shiftLeft b = .ok (.single x) →
        (∃ w : Int64, x = int w ∧ w.toInt = i.toInt * 2 ^ m.toInt.toNat) ∧
        x.binary .shiftRight b = .ok (.single (int i))) ∧
      ∀ c n d k, c.toInt? = some n → 0 ≤ n → d.toInt? = some k → k.toInt = m.toInt + n.toInt →
        (∃ y, Chained .shiftRight a b c y ∧ a.binary .shiftRight d = .ok (.single y)) ∧
        ∀ y, a.binary .shiftLeft d = .ok (.single y) ↔
          Chained .shiftLeft a b c y ∧ ¬(i = -1 ∧ k = 63)) := by
  refine ⟨fun hm op hop => binary_shift_of_neg hop ha hb hm, fun hm => ⟨?_, ?_, ?_⟩⟩
  · exact ⟨_, binary_shiftRight_eq ha hb hm, Word.toInt_shiftRight_eq_floor hm⟩
  · intro x hx
    obtain ⟨⟨w, rfl, hw⟩, -⟩ := (binary_shiftLeft_eq_ok_iff ha hb hm).1 hx
    have hback : Word.shiftRight w m = i := by
      rw [← Int64.toInt_inj, Word.toInt_shiftRight hm, hw]
      exact Int.mul_ediv_cancel _ (by positivity)
    refine ⟨⟨w, rfl, hw⟩, ?_⟩
    rw [binary_shiftRight_eq (a := int w) rfl hb hm, hback]
  · intro c n d k hc hn hd hk
    have hk' : 0 ≤ k := Word.nonneg_of_toInt_eq_add hm hn hk
    refine ⟨⟨int (Word.shiftRight i k), ⟨_, binary_shiftRight_eq ha hb hm, ?_⟩,
      binary_shiftRight_eq ha hd hk'⟩, fun y => ?_⟩
    · rw [binary_shiftRight_eq (a := int _) rfl hc hn, Word.shiftRight_shiftRight hm hn hk]
    · exact binary_shiftLeft_eq_ok_iff_chained ha hb hm hc hn hd hk

/-- What is left of -5 after a shift by the greatest count; -3 shifted in two steps; and -1, which
is not shifted by 63 at once. -/
theorem shift_exact_least :
    (∃ w : Int64, (int (-5)).binary .shiftRight (int Int64.maxValue) = .ok (.single (int w)) ∧
      w = -1) ∧
    Chained .shiftLeft (int (-3)) (int 40) (bool true) (int (-0x60000000000)) ∧
    (¬∃ y, (int (-1)).binary .shiftLeft (int 63) = .ok (.single y)) ∧
    (bool true).binary .shiftRight (int (-1)) =
      .error (.invalidOperand "rshift" "a negative shift count") := by
  have hright := shift_exact (a := int (-5)) (b := int Int64.maxValue) rfl rfl
  have hleft := shift_exact (a := int (-3)) (b := int 40) rfl rfl
  have hedge := shift_exact (a := int (-1)) (b := int 62) rfl rfl
  have hneg := shift_exact (a := bool true) (b := int (-1)) rfl rfl
  refine ⟨?_, ?_, ?_, hneg.1 (by decide) .shiftRight (.inr rfl)⟩
  · obtain ⟨w, hw, -⟩ := (hright.2 (by decide)).1
    exact ⟨w, hw, by cases hw; rfl⟩
  · have hchain := ((hleft.2 (by decide)).2.2 (bool true) 1 (int 41) 41 rfl (by decide) rfl rfl).2
    exact ((hchain _).1 rfl).1
  · rintro ⟨y, hy⟩
    have hchain := ((hedge.2 (by decide)).2.2 (bool true) 1 (int 63) 63 rfl (by decide) rfl rfl).2
    exact ((hchain y).1 hy).2 ⟨rfl, rfl⟩

end Number

end ProxyTrace
