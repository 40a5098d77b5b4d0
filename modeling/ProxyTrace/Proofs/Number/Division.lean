import Mathlib.Data.Rat.Floor
import ProxyTrace.Proofs.Number.Overflow

/-!
# Division rounded down

The quotient and the remainder of two words are computed apart, each by the machine's division
towards zero and a correction of its own. Still they are the two parts of one division rounded down
(`IsFloorDivision`), for all signs, and `divmod` answers both of them exactly where each of the
operators answers. The main statement is `Number.division_law`.
-/

namespace ProxyTrace

/-- Division rounded down of `i` by `j`, with quotient `q` and remainder `r`. -/
structure IsFloorDivision (i j q r : Int) : Prop where
  eq : i = q * j + r
  sign : r = 0 ∨ r.sign = j.sign
  size : r.natAbs < j.natAbs
  floor : q = ⌊(i / j : ℚ)⌋

/-- A remainder between zero and the divisor belongs to the quotient rounded down. -/
theorem isFloorDivision_of_between {i j q r : Int} (heq : i = q * j + r)
    (hr : 0 ≤ r ∧ r < j ∨ j < r ∧ r ≤ 0) : IsFloorDivision i j q r where
  eq := heq
  sign := by
    rcases Int.lt_trichotomy r 0 with hneg | hzero | hpos
    · rw [Int.sign_eq_neg_one_of_neg hneg, Int.sign_eq_neg_one_of_neg (by omega)]
      exact .inr rfl
    · exact .inl hzero
    · rw [Int.sign_eq_one_of_pos hpos, Int.sign_eq_one_of_pos (by omega)]
      exact .inr rfl
  size := by omega
  floor := by
    have hsucc : (q + 1) * j = q * j + j := by rw [Int.add_mul, Int.one_mul]
    symm
    rw [Int.floor_eq_iff]
    rcases hr with hr | hr
    · have hj : (0 : ℚ) < j := by exact_mod_cast (by omega : 0 < j)
      rw [le_div_iff₀ hj, div_lt_iff₀ hj]
      exact_mod_cast (⟨by omega, by omega⟩ : q * j ≤ i ∧ i < (q + 1) * j)
    · have hj : (j : ℚ) < 0 := by exact_mod_cast (by omega : j < 0)
      rw [le_div_iff_of_neg hj, div_lt_iff_of_neg hj]
      exact_mod_cast (⟨by omega, by omega⟩ : i ≤ q * j ∧ (q + 1) * j < i)

theorem isFloorDivision_fdiv {j : Int} (i : Int) (hj : j ≠ 0) :
    IsFloorDivision i j (i.fdiv j) (i.fmod j) := by
  refine isFloorDivision_of_between (Int.fdiv_mul_add_fmod i j).symm ?_
  rcases Int.lt_or_gt_of_ne hj with hneg | hpos
  · obtain ⟨-, hlt, hle⟩ := (Int.fdiv_fmod_unique' hneg).1 ⟨rfl, rfl⟩
    exact .inr ⟨hlt, hle⟩
  · exact .inl ⟨Int.fmod_nonneg_of_pos i hpos, Int.fmod_lt_of_pos i hpos⟩

/-! ### Words -/

namespace Word

variable {a b : Int64}

theorem exists_of_eq_ofInt? {x : Option Int64} {z : Int} (hx : x = ofInt? z) (hsome : x.isSome) :
    ∃ w, x = some w ∧ w.toInt = z := by
  obtain ⟨w, rfl⟩ := Option.isSome_iff_exists.1 hsome
  exact ⟨w, rfl, ofInt?_eq_some_iff.1 hx.symm⟩

theorem exists_floorDiv? (h : Divides a b) :
    ∃ q, floorDiv? a b = some q ∧ q.toInt = a.toInt.fdiv b.toInt := by
  refine exists_of_eq_ofInt? (floorDiv?_eq_ofInt? h.1) ?_
  rw [floorDiv?, if_pos h]
  dsimp only
  split <;> rfl

theorem exists_floorMod? (h : Divides a b) :
    ∃ r, floorMod? a b = some r ∧ r.toInt = a.toInt.fmod b.toInt := by
  refine exists_of_eq_ofInt? (floorMod?_eq_ofInt? h) ?_
  rw [floorMod?, if_pos h]
  dsimp only
  split <;> rfl

end Word

/-! ### Numbers -/

namespace Number

variable {a b : Number} {i j : Int64} {ans : Answer}

theorem binary_divmod_eq_ok_iff : a.binary .divmod b = .ok ans ↔
    ∃ q r, ans = .pair q r ∧ a.binary .floorDivide b = .ok (.single q) ∧
      a.binary .mod b = .ok (.single r) := by
  simp only [binary]
  cases floorDivide a b <;> cases mod a b <;> simp [bind, Except.bind, pure, Except.pure, eq_comm]

theorem binary_of_zero (ha : a.toInt? = some i) (hb : b.toInt? = some 0) :
    a.binary .floorDivide b = .error (.zeroDivision BinaryOp.floorDivide.name) ∧
      a.binary .mod b = .error (.zeroDivision BinaryOp.mod.name) ∧
      a.binary .divmod b = .error (.zeroDivision BinaryOp.floorDivide.name) := by
  have hints := promote_of_toInt? ha hb
  simp only [binary, floorDivide, mod, hints, if_pos]
  exact ⟨rfl, rfl, rfl⟩

/-- Both operators answer, and the parts of one division. -/
theorem exists_binary_of_divides (ha : a.toInt? = some i) (hb : b.toInt? = some j)
    (h : Word.Divides i j) : ∃ q r : Int64, a.binary .floorDivide b = .ok (.single (int q)) ∧
      a.binary .mod b = .ok (.single (int r)) ∧
      IsFloorDivision i.toInt j.toInt q.toInt r.toInt := by
  have hints := promote_of_toInt? ha hb
  obtain ⟨q, hq, hfdiv⟩ := Word.exists_floorDiv? h
  obtain ⟨r, hr, hfmod⟩ := Word.exists_floorMod? h
  refine ⟨q, r, ?_, ?_, ?_⟩
  · simp only [binary, floorDivide, hints, if_neg h.1, hq]
    rfl
  · simp only [binary, mod, hints, if_neg h.1, hr]
    rfl
  · rw [hfdiv, hfmod]
    exact isFloorDivision_fdiv i.toInt (Word.toInt_ne_zero h.1)

theorem binary_mod_of_not_divides (ha : a.toInt? = some i) (hb : b.toInt? = some j)
    (h : ¬Word.Divides i j) : ∃ e, a.binary .mod b = .error e := by
  by_cases hj : j = 0
  · exact ⟨_, (binary_of_zero ha (hj ▸ hb)).2.1⟩
  · have hleast : i = Int64.minValue ∧ j = -1 := by
      by_contra hleast
      exact h ⟨hj, hleast⟩
    exact ⟨_, binary_of_overflowsEarly ha hb (.inl ⟨rfl, hleast⟩)⟩

/-- **Quotient and remainder are the parts of one division rounded down**, whatever the signs of the
operands. A zero divisor is reported by all three operators. Otherwise, what the quotient and the
remainder answer obeys the law of division; `divmod` answers both exactly where both are answered,
and that is everywhere but at the one quotient that is no word. -/
theorem division_law (ha : a.toInt? = some i) (hb : b.toInt? = some j) :
    (j = 0 → a.binary .floorDivide b = .error (.zeroDivision "floor_divide") ∧
      a.binary .mod b = .error (.zeroDivision "mod") ∧
      a.binary .divmod b = .error (.zeroDivision "floor_divide")) ∧
    (∀ q r, a.binary .floorDivide b = .ok (.single q) → a.binary .mod b = .ok (.single r) →
      ∃ q' r' : Int64, q = int q' ∧ r = int r' ∧
        IsFloorDivision i.toInt j.toInt q'.toInt r'.toInt) ∧
    (∀ ans, a.binary .divmod b = .ok ans ↔ ∃ q r, ans = .pair q r ∧
      a.binary .floorDivide b = .ok (.single q) ∧ a.binary .mod b = .ok (.single r)) ∧
    ((∃ ans, a.binary .divmod b = .ok ans) ↔ j ≠ 0 ∧ ¬(i = Int64.minValue ∧ j = -1)) := by
  have hdivides {r : Number} (hr : a.binary .mod b = .ok (.single r)) : Word.Divides i j := by
    by_contra h
    obtain ⟨e, he⟩ := binary_mod_of_not_divides ha hb h
    cases hr.symm.trans he
  refine ⟨?_, fun q r hq hr => ?_, fun _ => binary_divmod_eq_ok_iff, ?_⟩
  · rintro rfl
    exact binary_of_zero ha hb
  · obtain ⟨q', r', hq', hr', hlaw⟩ := exists_binary_of_divides ha hb (hdivides hr)
    cases hq.symm.trans hq'
    cases hr.symm.trans hr'
    exact ⟨q', r', rfl, rfl, hlaw⟩
  · constructor
    · rintro ⟨ans, hans⟩
      obtain ⟨q, r, -, -, hr⟩ := binary_divmod_eq_ok_iff.1 hans
      exact hdivides hr
    · intro h
      obtain ⟨q, r, hq, hr, -⟩ := exists_binary_of_divides ha hb h
      exact ⟨_, binary_divmod_eq_ok_iff.2 ⟨_, _, rfl, hq, hr⟩⟩

/-- The least word by 10, with a remainder that the machine's division does not have; and `true`
by `false`. -/
theorem division_law_least :
    (∃ q r : Int64, (int Int64.minValue).binary .divmod (int 10) = .ok (.pair (int q) (int r)) ∧
      IsFloorDivision Int64.minValue.toInt 10 q.toInt r.toInt ∧ r = 2) ∧
    (bool true).binary .divmod (bool false) = .error (.zeroDivision "floor_divide") := by
  have hleast := division_law (a := int Int64.minValue) (b := int 10) rfl rfl
  have hzero := division_law (a := bool true) (b := bool false) rfl rfl
  obtain ⟨ans, hans⟩ := hleast.2.2.2.2 (by decide)
  obtain ⟨q, r, rfl, hq, hr⟩ := (hleast.2.2.1 ans).1 hans
  obtain ⟨q', r', rfl, rfl, hlaw⟩ := hleast.2.1 q r hq hr
  exact ⟨⟨q', r', hans, hlaw, by cases hr; rfl⟩, (hzero.1 rfl).2.2⟩

end Number

end ProxyTrace
