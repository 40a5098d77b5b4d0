import ProxyTrace.Proofs.Number.Order

/-!
# Exact rounding

The nearest double to a number that some double has is that double
(`Binary64.nearest_of_representable`). A whole number is the value of a double exactly if it is a
whole number of 53 bits, at most, times a power of two (`Binary64.representable_word_iff`).
-/

namespace ProxyTrace

/-- A quotient without a remainder is not rounded. -/
theorem Rounding.halfEven_mul (m : Nat) {d : Nat} (hd : 0 < d) : halfEven (m * d) d = m := by
  simp only [halfEven, Nat.mul_div_cancel m hd, Nat.mul_mod_left, Nat.mul_zero]
  exact if_pos (.inl hd)

namespace Binary64

variable {u n : Nat} {i : Int} {x : Binary64}

/-- A full significand is even, so that 53 bits are enough. -/
theorem Representable.exists_lt (h : Representable u) :
    ∃ m e, m < 2 * hiddenBit ∧ u = m * 2 ^ e := by
  obtain ⟨-, m, e, hm, rfl⟩ := h
  rw [Nat.shiftLeft_eq]
  rcases Nat.lt_or_eq_of_le hm with hm | rfl
  · exact ⟨m, e, hm, rfl⟩
  · exact ⟨hiddenBit, e + 1, by decide, by rw [Nat.pow_succ', ← Nat.mul_assoc, Nat.mul_comm 2]⟩

theorem Representable.dvd (h : Representable u) : 2 ^ (u.log2 - 52) ∣ u := by
  obtain ⟨m, e, hm, rfl⟩ := h.exists_lt
  have hlog : (m * 2 ^ e).log2 - 52 ≤ e := by
    by_cases hzero : m * 2 ^ e = 0
    · rw [hzero]
      exact Nat.zero_le e
    · have hlt : m * 2 ^ e < 2 ^ (53 + e) := by
        rw [Nat.pow_add]
        exact Nat.mul_lt_mul_of_pos_right hm (Nat.two_pow_pos e)
      have := (Nat.log2_lt hzero).2 hlt
      omega
  exact (Nat.pow_dvd_pow 2 hlog).trans (Nat.dvd_mul_left _ _)

/-- Rounding is exact where it can be. -/
theorem nearest_of_representable (h : Representable u) : Magnitude.nearest u 1 = .finite u h := by
  have hpos : 0 < 2 ^ (u.log2 - 52) := Nat.two_pow_pos _
  have hround : Rounding.halfEven u (1 <<< (u.log2 - 52)) <<< (u.log2 - 52) = u := by
    obtain ⟨m, hm⟩ := h.dvd
    rw [Nat.shiftLeft_eq, Nat.shiftLeft_eq, Nat.one_mul]
    generalize 2 ^ (u.log2 - 52) = d at hm hpos
    rw [hm, Nat.mul_comm d, Rounding.halfEven_mul m hpos]
  unfold Magnitude.nearest
  simp only [Nat.div_one, hround, h.1, dif_pos]

/-- A double of whole value. -/
theorem representable_of_rank? (h : x.rank? = some (i * unitsPerOne))
    (hi : (i * unitsPerOne).natAbs ≠ unitLimit) : Representable (i.natAbs * unitsPerOne) := by
  have hnatAbs : (i * unitsPerOne).natAbs = i.natAbs * unitsPerOne := by
    rw [Int.natAbs_mul, Int.natAbs_natCast]
  obtain ⟨negative, _ | _ | _⟩ := x
  case finite u hu =>
    have hu' : u = i.natAbs * unitsPerOne := by
      rw [← hnatAbs, ← Option.some.inj h, natAbs_signed]
    exact hu' ▸ hu
  case infinite =>
    refine absurd ?_ hi
    rw [← Option.some.inj h, natAbs_signed]
  case nan => cases h

theorem rank?_ofInt (h : Representable (i.natAbs * unitsPerOne)) :
    (ofInt i).rank? = some (i * unitsPerOne) := by
  have hnearest : ofInt i = ⟨decide (i < 0), .finite (i.natAbs * unitsPerOne) h⟩ :=
    congrArg (mk _) (nearest_of_representable h)
  rw [hnearest]
  refine congrArg some ?_
  change signed (decide (i < 0)) (i.natAbs * unitsPerOne) = i * unitsPerOne
  unfold signed
  rw [Int.natCast_mul]
  split
  · rename_i hneg
    rw [← Int.neg_mul]
    congr 1
    have := of_decide_eq_true hneg
    omega
  · rename_i hneg
    congr 1
    have := of_decide_eq_false (Bool.eq_false_iff.2 hneg)
    omega

/-- A power of two can be taken from a number of 53 bits times another one. -/
theorem exists_of_mul_two_pow {k m e : Nat} (hm : m ≤ 2 ^ 53) (h : n * 2 ^ k = m * 2 ^ e) :
    ∃ m e, m ≤ 2 ^ 53 ∧ n = m * 2 ^ e := by
  rcases Nat.le_total k e with hle | hle
  · obtain ⟨d, rfl⟩ := Nat.exists_eq_add_of_le hle
    refine ⟨m, d, hm, Nat.eq_of_mul_eq_mul_right (Nat.two_pow_pos k) (h.trans ?_)⟩
    rw [Nat.add_comm k, Nat.pow_add, Nat.mul_assoc]
  · obtain ⟨d, rfl⟩ := Nat.exists_eq_add_of_le hle
    have hdown : n * 2 ^ d = m := by
      refine Nat.eq_of_mul_eq_mul_right (Nat.two_pow_pos e) (.trans ?_ h)
      rw [Nat.add_comm e, Nat.pow_add, Nat.mul_assoc]
    refine ⟨n, 0, Nat.le_trans ?_ hm, (Nat.mul_one n).symm⟩
    rw [← hdown]
    exact Nat.le_mul_of_pos_right n (Nat.two_pow_pos d)

/-- Which whole numbers, in the range of words, are doubles. -/
theorem representable_word_iff (hn : n ≤ 0x8000000000000000) :
    Representable (n * unitsPerOne) ↔ ∃ m e, m ≤ 2 ^ 53 ∧ n = m * 2 ^ e := by
  obtain ⟨k, hunits⟩ : ∃ k, unitsPerOne = 1 <<< k := ⟨_, rfl⟩
  rw [Nat.one_shiftLeft] at hunits
  constructor
  · rintro ⟨-, m, e, hm, h⟩
    rw [hunits, Nat.shiftLeft_eq] at h
    exact exists_of_mul_two_pow hm h
  · rintro ⟨m, e, hm, rfl⟩
    refine ⟨?_, m, e + k, hm, ?_⟩
    · rw [unitLimit_eq]
      refine Nat.mul_lt_mul_of_pos_right (Nat.lt_of_le_of_lt hn ?_) unitsPerOne_pos
      decide +kernel
    · rw [hunits, Nat.shiftLeft_eq, Nat.pow_add, Nat.mul_assoc]

end Binary64

end ProxyTrace
