import ProxyTrace.Proofs.Number.Order
import ProxyTrace.Proxy

/-!
# Hashes and numeric equality

Doubles with one place in the numeric order are the same double or are both zero
(`Binary64.eq_or_isZero`), and a whole number that is a word feeds a hash as that word whatever its
kind (`Number.hashWords_of_word`). So equal numbers feed equal words, with one exception: a complex
number off the real axis feeds the bits of its parts, and the bits of the two zeros differ.
-/

namespace ProxyTrace

namespace Binary64

variable {x y : Binary64} {k : Int}

theorem signed_mul (n : Bool) (u v : Nat) : signed n (u * v) = signed n u * v := by
  unfold signed
  split
  · rw [Int.natCast_mul, Int.neg_mul]
  · exact Int.natCast_mul u v

/-- Signed numbers of units are equal as their signs and units are, but for the sign of zero. -/
theorem eq_of_signed_eq {n m : Bool} {u v : Nat} (h : signed n u = signed m v) :
    u = v ∧ (u = 0 ∨ n = m) := by
  have huv : u = v := by rw [← natAbs_signed n u, h, natAbs_signed]
  subst huv
  refine ⟨rfl, ?_⟩
  cases n <;> cases m
  · exact .inr rfl
  · exact .inl (by change (u : Int) = -u at h; omega)
  · exact .inl (by change -(u : Int) = u at h; omega)
  · exact .inr rfl

/-- What has one place in the order differs in the sign of zero at most. -/
theorem eq_or_isZero (hx : x.rank? = some k) (hy : y.rank? = some k) :
    x = y ∨ x.isZero = true ∧ y.isZero = true := by
  obtain ⟨n, mx⟩ := x
  obtain ⟨m, my⟩ := y
  have hrank := hx.trans hy.symm
  cases mx with
  | nan => cases hx
  | infinite =>
    cases my with
    | nan => cases hy
    | infinite =>
      obtain ⟨-, hlimit | rfl⟩ := eq_of_signed_eq (Option.some.inj hrank)
      · exact absurd hlimit (by decide +kernel)
      · exact .inl rfl
    | finite v hv =>
      obtain ⟨rfl, -⟩ := eq_of_signed_eq (Option.some.inj hrank)
      exact absurd hv.1 (Nat.lt_irrefl _)
  | finite u hu =>
    cases my with
    | nan => cases hy
    | infinite =>
      obtain ⟨rfl, -⟩ := eq_of_signed_eq (Option.some.inj hrank)
      exact absurd hu.1 (Nat.lt_irrefl _)
    | finite v hv =>
      obtain ⟨rfl, rfl | rfl⟩ := eq_of_signed_eq (Option.some.inj hrank)
      · exact .inr ⟨rfl, rfl⟩
      · exact .inl rfl

theorem eq_zero_of_isZero (h : x.isZero = true) :
    x = ⟨x.negative, .finite 0 representable_zero⟩ := by
  obtain ⟨n, _ | _ | _⟩ := x
  · rename_i u hu
    cases u with
    | zero => rfl
    | succ u => cases h
  · cases h
  · cases h

theorem rank?_of_isZero (h : x.isZero = true) :
    x.rank? = some (Int64.toInt 0 * unitsPerOne) := by
  rw [eq_zero_of_isZero h]
  cases x.negative <;> rfl

theorem toBits_eq_iff_of_isZero (hx : x.isZero = true) (hy : y.isZero = true) :
    x.toBits = y.toBits ↔ x.negative = y.negative := by
  rw [eq_zero_of_isZero hx, eq_zero_of_isZero hy]
  cases x.negative <;> cases y.negative <;> decide

end Binary64

namespace Number

open Binary64

variable {a b : Number} {k : Int}

theorem signed_unitLimit_ne (n : Bool) (i : Int64) :
    signed n unitLimit ≠ i.toInt * unitsPerOne := by
  obtain ⟨hlo, hhi⟩ := abs_word_lt_unitLimit i
  cases n with
  | false => exact hhi.ne'
  | true => exact hlo.ne

theorem floatHash_of_word {x : Binary64} {i : Int64}
    (h : x.rank? = some (i.toInt * unitsPerOne)) : floatHash x = .signed i := by
  obtain ⟨n, mx⟩ := x
  cases mx with
  | nan => cases h
  | infinite => exact absurd (Option.some.inj h) (signed_unitLimit_ne n i)
  | finite u hu =>
    have hsigned : signed n u = i.toInt * unitsPerOne := Option.some.inj h
    have hu' : u = i.toInt.natAbs * unitsPerOne := by
      have habs := congrArg Int.natAbs hsigned
      rwa [natAbs_signed, Int.natAbs_mul, Int.natAbs_natCast] at habs
    have hquot : u / unitsPerOne = i.toInt.natAbs := by
      rw [hu', Nat.mul_div_cancel _ unitsPerOne_pos]
    have hint : isIntegral ⟨n, .finite u hu⟩ = true := by
      change (u % unitsPerOne == 0) = true
      rw [hu', Nat.mul_mod_left, beq_self_eq_true]
    -- rounding is exact on a multiple of the unit, whatever the sign
    have hround : round? .towardZero ⟨n, .finite u hu⟩ = some i.toInt := by
      change some (signed n (u / unitsPerOne)) = _
      rw [hu', signed_mul] at hsigned
      rw [hquot, Int.eq_of_mul_eq_mul_right (by have := unitsPerOne_pos; omega) hsigned]
    rw [floatHash, if_pos hint, hround, Option.bind_some, Word.ofInt?_toInt]

theorem exists_float (hi : a.toInt? = none) (h : a.rank? = some k) :
    ∃ x : Binary64, a = float x ∧ x.rank? = some k := by
  cases a with
  | bool p => cases hi
  | int i => cases hi
  | float x => exact ⟨x, rfl, h⟩
  | complex z => cases h

theorem hashWords_of_word {i : Int64} (h : a.rank? = some (i.toInt * unitsPerOne)) :
    a.hashWords = [.signed i] := by
  cases hj : a.toInt? with
  | some j =>
    have hword : a.hashWords = [.signed j] := by cases a <;> cases hj <;> rfl
    have hplace : j.toInt * unitsPerOne = i.toInt * unitsPerOne :=
      Option.some.inj ((rank?_of_toInt? hj).symm.trans h)
    have hpos : (unitsPerOne : Int) ≠ 0 := by
      have := unitsPerOne_pos
      omega
    rw [hword, Int64.toInt_inj.1 (Int.eq_of_mul_eq_mul_right hpos hplace)]
  | none =>
    obtain ⟨x, rfl, hx⟩ := exists_float hj h
    rw [hashWords, floatHash_of_word hx]

/-- Numbers with one place in the order feed the same words. -/
theorem hashWords_of_rank? (ha : a.rank? = some k) (hb : b.rank? = some k) :
    a.hashWords = b.hashWords := by
  cases hi : a.toInt? with
  | some i =>
    obtain rfl := Option.some.inj (ha.symm.trans (rank?_of_toInt? hi))
    rw [hashWords_of_word ha, hashWords_of_word hb]
  | none =>
    cases hj : b.toInt? with
    | some j =>
      obtain rfl := Option.some.inj (hb.symm.trans (rank?_of_toInt? hj))
      rw [hashWords_of_word ha, hashWords_of_word hb]
    | none =>
      obtain ⟨x, rfl, hx⟩ := exists_float hi ha
      obtain ⟨y, rfl, hy⟩ := exists_float hj hb
      rcases eq_or_isZero hx hy with rfl | ⟨hx0, hy0⟩
      · rfl
      · rw [hashWords, hashWords, floatHash_of_word (rank?_of_isZero hx0),
          floatHash_of_word (rank?_of_isZero hy0)]

/-- Complex numbers off the real axis with different zeros as real parts. -/
def OppositeZeros : Number → Number → Prop
  | complex z, complex w =>
    z.im.isZero = false ∧ z.re.isZero = true ∧ w.re.isZero = true ∧ z.re.negative ≠ w.re.negative
  | _, _ => False

theorem OppositeZeros.eq_complex (h : OppositeZeros a b) :
    (∃ z, a = complex z) ∧ ∃ w, b = complex w := by
  unfold OppositeZeros at h
  split at h
  · exact ⟨⟨_, rfl⟩, _, rfl⟩
  · cases h

theorem hashWords_of_im_isZero {z : Complex} (h : z.im.isZero = true) :
    (complex z).hashWords = (float z.re).hashWords := if_pos h

theorem hashWords_of_im_ne_zero {z : Complex} (h : z.im.isZero = false) :
    (complex z).hashWords = [.unsigned z.re.toBits, .unsigned z.im.toBits] :=
  if_neg (Bool.eq_false_iff.1 h)

/-- Off the real axis, equal complex numbers feed equal words unless their real parts are the two
zeros. -/
theorem hashWords_complex_eq_iff {z w : Complex} (h : z.equal w = true) :
    (complex z).hashWords = (complex w).hashWords ↔ ¬ OppositeZeros (complex z) (complex w) := by
  obtain ⟨hre, him⟩ := Bool.and_eq_true_iff.1 h
  obtain ⟨j, hzre, hwre⟩ := equal_eq_true_iff.1 hre
  obtain ⟨k, hzim, hwim⟩ := equal_eq_true_iff.1 him
  rcases eq_or_isZero hzim hwim with hsame | ⟨hz0, hw0⟩
  · cases hz : z.im.isZero with
    | true =>
      rw [hashWords_of_im_isZero hz, hashWords_of_im_isZero (hsame ▸ hz),
        hashWords_of_rank? (a := float z.re) (b := float w.re) hzre hwre]
      exact iff_of_true rfl fun h' => absurd (hz.symm.trans h'.1) (by decide)
    | false =>
      rw [hashWords_of_im_ne_zero hz, hashWords_of_im_ne_zero (hsame ▸ hz), hsame]
      rcases eq_or_isZero hzre hwre with hre | ⟨hzre0, hwre0⟩
      · exact iff_of_true (by rw [hre]) fun h' => h'.2.2.2 (by rw [hre])
      -- here the bits of the real parts are fed, and those of the two zeros differ
      · simp [OppositeZeros, hz, hzre0, hwre0, toBits_eq_iff_of_isZero hzre0 hwre0]
  · rw [hashWords_of_im_isZero hz0, hashWords_of_im_isZero hw0,
      hashWords_of_rank? (a := float z.re) (b := float w.re) hzre hwre]
    exact iff_of_true rfl fun h' => absurd (hz0.symm.trans h'.1) (by decide)

/-- A complex number that equals a real one is on the real axis. -/
theorem hashWords_of_equal_real {z : Complex}
    (h : (z.im.isZero && equalReal (float z.re) a) = true) :
    (complex z).hashWords = a.hashWords := by
  obtain ⟨him, hre⟩ := Bool.and_eq_true_iff.1 h
  obtain ⟨k, hz, ha⟩ := equalReal_eq_true_iff.1 hre
  rw [hashWords_of_im_isZero him, hashWords_of_rank? hz ha]

theorem hashWords_eq_iff (h : a.equal b = true) :
    a.hashWords = b.hashWords ↔ ¬ OppositeZeros a b := by
  unfold equal at h
  split at h
  · exact hashWords_complex_eq_iff h
  · rename_i hreal
    refine iff_of_true (hashWords_of_equal_real h) ?_
    intro h'
    obtain ⟨w, hw⟩ := h'.eq_complex.2
    exact hreal w hw
  · rename_i hreal
    refine iff_of_true (hashWords_of_equal_real h).symm ?_
    intro h'
    obtain ⟨z, hz⟩ := h'.eq_complex.1
    exact hreal z hz
  · obtain ⟨k, ha, hb⟩ := equalReal_eq_true_iff.1 h
    refine iff_of_true (hashWords_of_rank? ha hb) ?_
    intro h'
    obtain ⟨z, rfl⟩ := h'.eq_complex.1
    cases ha

end Number

namespace NumberProxy

theorem hashWords_eq_iff_number {p : NumberProxy} {n : Number} (h : p.equalNumber n = true) :
    p.hashWords = n.hashWords ↔ ¬ ∃ a ∈ p.value, a.OppositeZeros n := by
  unfold equalNumber at h
  unfold hashWords
  cases hp : p.value with
  | none => rw [hp] at h; cases h
  | some a =>
    rw [hp, Option.elim_some] at h
    simpa using Number.hashWords_eq_iff h

theorem hashWords_eq_iff {p q : NumberProxy} (h : p.equal q = true) :
    p.hashWords = q.hashWords ↔ ¬ ∃ a ∈ p.value, ∃ b ∈ q.value, a.OppositeZeros b := by
  unfold equal at h
  split at h
  · rename_i a b ha hb
    have hq : q.hashWords = b.hashWords := by rw [hashWords, hb, Option.elim_some]
    have hn : p.equalNumber b = true := by rwa [equalNumber, ha, Option.elim_some]
    rw [hq, hashWords_eq_iff_number hn]
    simp [hb]
  · cases h

end NumberProxy

/-- **When equal values hash alike.** Equal numbers, equal proxies, and a proxy and a number that
are equal feed a hash with equal words exactly if their values are not opposite zeros beside one
imaginary part. -/
theorem hashWords_eq_iff_of_equal (a b : Number) (p q : NumberProxy) :
    (a.equal b = true → (a.hashWords = b.hashWords ↔ ¬ a.OppositeZeros b)) ∧
    (p.equal q = true →
      (p.hashWords = q.hashWords ↔ ¬ ∃ x ∈ p.value, ∃ y ∈ q.value, x.OppositeZeros y)) ∧
    (p.equalNumber b = true →
      (p.hashWords = b.hashWords ↔ ¬ ∃ x ∈ p.value, x.OppositeZeros b)) :=
  ⟨Number.hashWords_eq_iff, NumberProxy.hashWords_eq_iff, NumberProxy.hashWords_eq_iff_number⟩

/-- The complex number 2, the int 2 and proxies for them. -/
theorem hashWords_eq_iff_of_equal_two :
    let z := Number.complex ⟨.ofInt 2, -.zero⟩
    let p : NumberProxy := ⟨⟨"z", ⟨0⟩⟩, .complex, some z⟩
    let q : NumberProxy := ⟨⟨"n", ⟨1⟩⟩, .int, some (.int 2)⟩
    (z.equal (.int 2) = true ∧ z.hashWords = (Number.int 2).hashWords) ∧
      (p.equal q = true ∧ p.hashWords = q.hashWords) ∧
      p.equalNumber (.int 2) = true ∧ p.hashWords = (Number.int 2).hashWords := by
  intro z p q
  have hz : z.equal (.int 2) = true := by decide +kernel
  have hp : p.equal q = true := hz
  have hn : p.equalNumber (.int 2) = true := by
    rw [NumberProxy.equalNumber, Option.elim_some]
    exact hz
  obtain ⟨hnumbers, hproxies, hmixed⟩ := hashWords_eq_iff_of_equal z (.int 2) p q
  refine ⟨⟨hz, (hnumbers hz).2 id⟩, ⟨hp, (hproxies hp).2 ?_⟩, hn, (hmixed hn).2 ?_⟩
  · rintro ⟨x, -, y, hy, h⟩
    obtain ⟨w, rfl⟩ := h.eq_complex.2
    cases hy
  · rintro ⟨x, -, h⟩
    obtain ⟨w, hw⟩ := h.eq_complex.2
    cases hw

/-- The numbers i and -0 + i are equal and feed different words. -/
theorem hashWords_ne_of_opposite_zeros :
    (Number.complex ⟨.zero, .one⟩).equal (.complex ⟨-.zero, .one⟩) = true ∧
      (Number.complex ⟨.zero, .one⟩).hashWords ≠ (Number.complex ⟨-.zero, .one⟩).hashWords := by
  decide +kernel

end ProxyTrace
