import Mathlib.Algebra.Order.Ring.Int
import Mathlib.Order.Compare
import ProxyTrace.Number.Order

/-!
# Places in the numeric order

A number below complex has a place in the numeric order (`Number.rank?`), counted in units of the
least positive double. The comparison of a word with a double, which rounds the double and never
the word, is the comparison of the places (`Number.compareFloat?_eq`), and so is every comparison of
two numbers below complex (`Number.compareReal?_eq`).
-/

namespace ProxyTrace

/-- The order of two words is that of their values. -/
theorem Word.compare_eq (i j : Int64) : compare i j = compare i.toInt j.toInt := by
  change compareOfLessAndEq i j = compareOfLessAndEq i.toInt j.toInt
  simp only [compareOfLessAndEq, Int64.lt_iff_toInt_lt, Int64.toInt_inj]

theorem compare_mul_right {d : Int} (hd : 0 < d) (i j : Int) :
    compare (i * d) (j * d) = compare i j := by
  rw [← cmp_eq_compare, ← cmp_eq_compare, cmp_mul_pos_right hd]

theorem compare_mul_of_lt_ediv {d i k : Int} (hd : 0 < d) (h : i < k / d) :
    compare (i * d) k = .lt := by
  have hle : (i + 1) * d ≤ k := (Int.le_ediv_iff_mul_le hd).1 h
  rw [Int.add_mul] at hle
  exact compare_lt_iff_lt.2 (by omega)

theorem compare_mul_of_ediv_lt {d i k : Int} (hd : 0 < d) (h : k / d < i) :
    compare (i * d) k = .gt :=
  compare_gt_iff_gt.2 ((Int.ediv_lt_iff_lt_mul hd).1 h)

/-- A multiple of `d` is compared with what is between two multiples as the factor is with the
quotient rounded down. -/
theorem compare_mul_of_emod_ne {d k : Int} (hd : 0 < d) (hk : k % d ≠ 0) (i : Int) :
    compare (i * d) k = if i ≤ k / d then .lt else .gt := by
  have hne : i * d ≠ k := by
    rintro rfl
    exact hk (Int.mul_emod_left ..)
  have hle : i ≤ k / d ↔ i * d ≤ k := Int.le_ediv_iff_mul_le hd
  split
  · exact compare_lt_iff_lt.2 (by omega)
  · exact compare_mul_of_ediv_lt hd (by omega)

/-- Two values that may be missing compare as equal if they are there and are one. -/
theorem compares_eq_iff {α : Type} [LinearOrder α] {a? b? : Option α} :
    ((do return compare (← a?) (← b?)) == some Ordering.eq) = true ↔
      ∃ a, a? = some a ∧ b? = some a := by
  cases a? with
  | none => exact ⟨nofun, nofun⟩
  | some a =>
    cases b? with
    | none => exact ⟨nofun, nofun⟩
    | some b =>
      change (some (compare a b) == some .eq) = true ↔ _
      rw [beq_iff_eq, Option.some_inj, compare_eq_iff_eq]
      constructor
      · rintro rfl
        exact ⟨a, rfl, rfl⟩
      · rintro ⟨_, ha, hb⟩
        exact Option.some.inj (ha.trans hb.symm)

namespace Binary64

variable {x y : Binary64} {k : Int}

theorem unitsPerOne_pos : 0 < unitsPerOne := by decide +kernel

theorem unitLimit_eq : unitLimit = (1 <<< 1024) * unitsPerOne := by decide +kernel

theorem natAbs_signed (n : Bool) (u : Nat) : (signed n u).natAbs = u := by
  unfold signed
  split <;> omega

theorem signed_emod_eq_zero_iff (n : Bool) (u d : Nat) : signed n u % d = 0 ↔ u % d = 0 := by
  rw [← Int.dvd_iff_emod_eq_zero, ← Int.dvd_natAbs, natAbs_signed, Int.natCast_dvd_natCast,
    Nat.dvd_iff_mod_eq_zero]

/-- Rounding a magnitude by its sign is rounding down. -/
theorem signed_quotient_down (n : Bool) (u : Nat) {d : Nat} (hd : 0 < d) :
    signed n (Rounding.down.quotient n u d) = signed n u / d := by
  cases n with
  | false => exact Int.natCast_ediv u d
  | true =>
    change -(Rounding.ceil u d : Int) = -(u : Int) / d
    simp only [Int.neg_ediv, Int.natCast_dvd_natCast, Nat.dvd_iff_mod_eq_zero, Rounding.ceil,
      Int.sign_natCast_of_ne_zero (Nat.ne_of_gt hd)]
    split <;> push_cast <;> omega

theorem equal_eq_true_iff : x.equal y = true ↔ ∃ k, x.rank? = some k ∧ y.rank? = some k :=
  compares_eq_iff

theorem zero_compare?_eq_some_lt_iff (h : x.rank? = some k) :
    zero.compare? x = some .lt ↔ 0 < k := by
  have hzero : zero.compare? x = some (compare 0 k) := by
    rw [compare?, h]
    rfl
  rw [hzero, Option.some_inj, compare_lt_iff_lt]

end Binary64

namespace Number

open Binary64

variable {a b : Number} {j k : Int}

/-- The place of a number in the numeric order, in units of doubles. A complex number has none. -/
def rank? : Number → Option Int
  | float x => x.rank?
  | complex _ => none
  | n => n.toInt?.map fun i => i.toInt * unitsPerOne

theorem rank?_of_toInt? {i : Int64} (h : a.toInt? = some i) :
    a.rank? = some (i.toInt * unitsPerOne) := by
  cases a with
  | bool p => cases h; rfl
  | int j => cases h; rfl
  | float x => cases h
  | complex z => cases h

/-- No word is as far out as the infinities. -/
theorem abs_word_lt_unitLimit (i : Int64) :
    -(unitLimit : Int) < i.toInt * unitsPerOne ∧ i.toInt * unitsPerOne < unitLimit := by
  obtain ⟨hlo, hhi⟩ := Word.inRange_toInt i
  have hpos : (0 : Int) < unitsPerOne := Int.natCast_pos.2 unitsPerOne_pos
  have hlarge : (0x8000000000000000 : Int) < (1 <<< 1024 : Nat) := by decide +kernel
  rw [unitLimit_eq, Int.natCast_mul, ← Int.neg_mul]
  constructor
  · exact Int.mul_lt_mul_of_pos_right (by omega) hpos
  · exact Int.mul_lt_mul_of_pos_right (by omega) hpos

theorem compareFloat?_finite (i : Int64) {n : Bool} {u : Nat} (hu : Representable u) :
    compareFloat? i ⟨n, .finite u hu⟩ = some (compare (i.toInt * unitsPerOne) (signed n u)) := by
  have hpos : (0 : Int) < unitsPerOne := Int.natCast_pos.2 unitsPerOne_pos
  have hround : round? .down ⟨n, .finite u hu⟩ = some (signed n u / unitsPerOne) :=
    congrArg some (signed_quotient_down n u unitsPerOne_pos)
  have hintegral : isIntegral ⟨n, .finite u hu⟩ = true ↔ signed n u % unitsPerOne = 0 :=
    beq_iff_eq.trans (signed_emod_eq_zero_iff n u unitsPerOne).symm
  have hsign : zero.compare? ⟨n, .finite u hu⟩ = some .lt ↔ 0 < signed n u :=
    zero_compare?_eq_some_lt_iff rfl
  have hnan : isNaN ⟨n, .finite u hu⟩ = false := rfl
  rw [compareFloat?, hnan, if_neg Bool.false_ne_true, hround, Option.bind_some]
  generalize signed n u = k at hintegral hsign
  cases hj : Word.ofInt? (k / unitsPerOne) with
  | some j =>
    obtain hj := Word.ofInt?_eq_some_iff.1 hj
    dsimp only
    split
    · rename_i h
      have hk : k / unitsPerOne * unitsPerOne = k :=
        Int.ediv_mul_cancel (Int.dvd_of_emod_eq_zero (hintegral.1 h))
      rw [Word.compare_eq, hj, ← compare_mul_right hpos, hk]
    · rename_i h
      simp only [compare_mul_of_emod_ne hpos (mt hintegral.2 h), Int64.le_iff_toInt_le, hj]
  | none =>
    -- rounded down, the double is still beyond all words, and its sign tells on which side
    have hrange : ¬ Word.InRange (k / unitsPerOne) := by
      intro h
      rw [Word.ofInt?, if_pos h] at hj
      cases hj
    obtain ⟨hlo, hhi⟩ := Word.inRange_toInt i
    unfold Word.InRange at hrange
    dsimp only
    split
    · have hquot : 0 ≤ k / unitsPerOne := Int.ediv_nonneg (hsign.1 ‹_›).le hpos.le
      rw [compare_mul_of_lt_ediv hpos (by omega)]
    · have hquot : k / unitsPerOne ≤ 0 / unitsPerOne :=
        Int.ediv_le_ediv hpos (not_lt.1 (mt hsign.2 ‹_›))
      rw [Int.zero_ediv] at hquot
      rw [compare_mul_of_ediv_lt hpos (by omega)]

/-- Words are compared with doubles by their places. -/
theorem compareFloat?_eq (i : Int64) (x : Binary64) :
    compareFloat? i x = x.rank?.map (compare (i.toInt * unitsPerOne)) := by
  obtain ⟨n, _ | _ | _⟩ := x
  case finite u hu => exact compareFloat?_finite i hu
  case infinite =>
    obtain ⟨hlo, hhi⟩ := abs_word_lt_unitLimit i
    cases n with
    | false => exact congrArg some (compare_lt_iff_lt.2 hhi).symm
    | true => exact congrArg some (compare_gt_iff_gt.2 hlo).symm
  case nan => rfl

theorem compareReal?_of_word {i : Int64} (h : a.toInt? = some i) (b : Number) :
    a.compareReal? b = b.rank?.map (compare (i.toInt * unitsPerOne)) := by
  have hpos : (0 : Int) < unitsPerOne := Int.natCast_pos.2 unitsPerOne_pos
  have hwords {j : Int64} (hj : b.toInt? = some j) :
      some (compare i j) = b.rank?.map (compare (i.toInt * unitsPerOne)) := by
    rw [rank?_of_toInt? hj, Option.map_some, compare_mul_right hpos, Word.compare_eq]
  cases b with
  | float y => cases a <;> cases h <;> exact compareFloat?_eq _ y
  | complex w => cases a <;> cases h <;> rfl
  | _ => cases a <;> cases h <;> exact hwords rfl

theorem compareReal?_float_of_word (x : Binary64) {i : Int64} (h : b.toInt? = some i) :
    (float x).compareReal? b = x.rank?.map (compare · (i.toInt * unitsPerOne)) := by
  have hswap : (float x).compareReal? b = (compareFloat? i x).bind (some ·.swap) := by
    cases b <;> cases h <;> rfl
  rw [hswap, compareFloat?_eq]
  cases x.rank? with
  | none => rfl
  | some j => exact congrArg some Std.OrientedCmp.eq_swap.symm

/-- Numbers below complex are compared by their places. -/
theorem compareReal?_eq (a b : Number) :
    a.compareReal? b = (do return compare (← a.rank?) (← b.rank?)) := by
  have hword {i : Int64} (h : a.toInt? = some i) :
      a.compareReal? b = (do return compare (← a.rank?) (← b.rank?)) := by
    rw [compareReal?_of_word h, rank?_of_toInt? h]
    cases b.rank? <;> rfl
  cases a with
  | float x =>
    have hfloat {i : Int64} (h : b.toInt? = some i) :
        (float x).compareReal? b = (do return compare (← x.rank?) (← b.rank?)) := by
      rw [compareReal?_float_of_word x h, rank?_of_toInt? h]
      cases x.rank? <;> rfl
    cases b with
    | float y => rfl
    | complex w =>
      change none = x.rank?.bind fun _ => none
      cases x.rank? <;> rfl
    | _ => exact hfloat rfl
  | complex z => cases b <;> rfl
  | _ => exact hword rfl

theorem equalReal_eq_true_iff :
    a.equalReal b = true ↔ ∃ k, a.rank? = some k ∧ b.rank? = some k := by
  rw [equalReal, compareReal?_eq]
  exact compares_eq_iff

end Number

end ProxyTrace
