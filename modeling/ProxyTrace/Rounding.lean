/-!
Rounding of quotients to whole numbers. A quotient is given by its sign and by the numerator and
denominator of its magnitude; the answer is the magnitude of the whole number, whose sign is the
quotient's, so that a negative quotient can round to a negative zero.
-/

namespace ProxyTrace

/-- A direction in which a quotient is brought to a whole number. -/
inductive Rounding where
  | down
  | up
  | towardZero
  | nearestEven
  deriving DecidableEq, Repr

namespace Rounding

/-- The least whole number that is not below `num / den`. -/
def ceil (num den : Nat) : Nat := if num % den = 0 then num / den else num / den + 1

/-- The whole number nearest to `num / den`; of two equally near ones, the even one. -/
def halfEven (num den : Nat) : Nat :=
  let q := num / den
  let r := num % den
  if 2 * r < den ∨ (2 * r = den ∧ q % 2 = 0) then q else q + 1

/-- The magnitude of the rounded quotient. -/
def quotient (r : Rounding) (negative : Bool) (num den : Nat) : Nat :=
  match r, negative with
  | down, false | up, true | towardZero, _ => num / den
  | down, true | up, false => ceil num den
  | nearestEven, _ => halfEven num den

theorem halfEven_le (num den : Nat) : halfEven num den ≤ num / den + 1 := by
  unfold halfEven
  simp only
  split <;> omega

end Rounding

end ProxyTrace
