/-!
Words: the signed integers of 64 bits, with operations that answer only where the exact result is
again a word. The machine's own operations wrap, so each is used behind a test that keeps it
exact.
-/

namespace ProxyTrace.Word

/-- A whole number that is the value of a word. -/
def InRange (i : Int) : Prop := -0x8000000000000000 ≤ i ∧ i < 0x8000000000000000

instance (i : Int) : Decidable (InRange i) := inferInstanceAs (Decidable (_ ∧ _))

theorem inRange_toInt (w : Int64) : InRange w.toInt := ⟨w.le_toInt, w.toInt_lt⟩

/-- The word with the given value, if there is one. -/
def ofInt? (i : Int) : Option Int64 := if InRange i then some (Int64.ofInt i) else none

theorem ofInt?_toInt (w : Int64) : ofInt? w.toInt = some w := by
  rw [ofInt?, if_pos (inRange_toInt w), Int64.ofInt_toInt]

theorem toInt_ofInt {i : Int} (h : InRange i) : (Int64.ofInt i).toInt = i :=
  Int64.toInt_ofInt_of_le h.1 h.2

theorem ofInt?_eq_some_iff {i : Int} {w : Int64} : ofInt? i = some w ↔ w.toInt = i := by
  constructor
  · unfold ofInt?
    split
    · rintro ⟨⟩
      exact toInt_ofInt ‹_›
    · simp
  · rintro rfl
    exact ofInt?_toInt w

def add? (a b : Int64) : Option Int64 := ofInt? (a.toInt + b.toInt)

def sub? (a b : Int64) : Option Int64 := ofInt? (a.toInt - b.toInt)

def mul? (a b : Int64) : Option Int64 := ofInt? (a.toInt * b.toInt)

def neg? (a : Int64) : Option Int64 := ofInt? (-a.toInt)

def abs? (a : Int64) : Option Int64 := ofInt? a.toInt.natAbs

/-- Division by `b` is undefined at zero, and the machine's is at the one quotient out of range. -/
def Divides (a b : Int64) : Prop := b ≠ 0 ∧ ¬(a = Int64.minValue ∧ b = -1)

instance (a b : Int64) : Decidable (Divides a b) := inferInstanceAs (Decidable (_ ∧ _))

/-- The quotient rounded down. -/
def floorDiv? (a b : Int64) : Option Int64 :=
  if Divides a b then
    let q := a / b
    if a % b ≠ 0 ∧ ¬(a < 0 ↔ b < 0) then some (q - 1) else some q
  else none

/-- The remainder of the quotient rounded down; it has the sign of the divisor. Where the quotient
is out of range there is no remainder either. -/
def floorMod? (a b : Int64) : Option Int64 :=
  if Divides a b then
    let r := a % b
    if r ≠ 0 ∧ ¬(r < 0 ↔ b < 0) then some (r + b) else some r
  else none

/-- `a * 2 ^ n` for a count that is not negative. -/
def shiftLeft? (a n : Int64) : Option Int64 :=
  if a = 0 then some 0
  else if 63 ≤ n then none
  else
    let shifted := a <<< n
    if shifted >>> n = a then some shifted else none

/-- `a / 2 ^ n` rounded down, for a count that is not negative. -/
def shiftRight (a n : Int64) : Int64 :=
  if 64 ≤ n then
    if a < 0 then -1 else 0
  else a >>> n

/-- `acc * base ^ n` by squaring. -/
def mulPow? (acc base : Int64) (n : Nat) : Option Int64 :=
  if n = 0 then some acc
  else if n = 1 then mul? acc base
  else do
    let acc ← if n % 2 = 1 then mul? acc base else some acc
    mulPow? acc (← mul? base base) (n / 2)
termination_by n
decreasing_by omega

/-- `a ^ n` for an exponent that is not negative. From 2^32 on only 0, 1 and -1 have a power. -/
def pow? (a n : Int64) : Option Int64 :=
  if n < 0x100000000 then mulPow? 1 a n.toInt.toNat
  else if a = 0 ∨ a = 1 then some a
  else if a = -1 then some (if n % 2 = 0 then 1 else -1)
  else none

end ProxyTrace.Word
