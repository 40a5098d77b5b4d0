import ProxyTrace.Rounding

/-!
Doubles as exact numbers. Every finite double is a whole multiple of the least positive one,
2^-1074; its magnitude is kept as that multiple, so comparison and rounding are whole number
arithmetic. A magnitude carries the proof that it has a bit pattern: at most 53 significant bits
below the overflow limit.
-/

namespace ProxyTrace

namespace Binary64

/-- The bit in front of the 52 bits of a fraction. -/
def hiddenBit : Nat := 0x10000000000000

/-- The number one, counted in multiples of the least positive double. -/
def unitsPerOne : Nat := 1 <<< 1074

/-- The greatest shift of a significand of 53 bits. -/
def topShift : Nat := 2045

/-- The least count of units that is too large for a finite double. -/
def unitLimit : Nat := (2 * hiddenBit) <<< topShift

/-- A count of units that some finite double has. -/
def Representable (units : Nat) : Prop :=
  units < unitLimit ∧ ∃ m e : Nat, m ≤ 2 * hiddenBit ∧ units = m <<< e

theorem representable_of_lt {m e : Nat} (hm : m < 2 * hiddenBit) (he : e ≤ topShift) :
    Representable (m <<< e) := by
  refine ⟨?_, m, e, Nat.le_of_lt hm, rfl⟩
  rw [unitLimit, Nat.shiftLeft_eq, Nat.shiftLeft_eq]
  exact Nat.lt_of_lt_of_le (Nat.mul_lt_mul_of_pos_right hm (Nat.two_pow_pos e))
    (Nat.mul_le_mul_left _ (Nat.pow_le_pow_right (by decide) he))

theorem representable_zero : Representable 0 := by
  simpa using @representable_of_lt 0 0 (by decide) (by decide)

/-- A double without its sign. -/
inductive Magnitude where
  | finite (units : Nat) (representable : Representable units)
  | infinite
  | nan
  deriving DecidableEq

end Binary64

open Binary64 in
/-- A double: a sign and a magnitude. Zero and the value that is not a number have a sign too. -/
structure Binary64 where
  negative : Bool
  magnitude : Magnitude
  deriving DecidableEq

namespace Binary64

def zero : Binary64 := ⟨false, .finite 0 representable_zero⟩

/-- What an operation without a meaningful answer gives. -/
def invalid : Binary64 := ⟨true, .nan⟩

def nan : Binary64 := ⟨false, .nan⟩

def infinity : Binary64 := ⟨false, .infinite⟩

instance : Inhabited Binary64 := ⟨zero⟩

def isNaN (x : Binary64) : Bool := x.magnitude matches .nan

def isInfinite (x : Binary64) : Bool := x.magnitude matches .infinite

def isFinite (x : Binary64) : Bool := x.magnitude matches .finite ..

/-- Either zero. -/
def isZero (x : Binary64) : Bool := x.magnitude matches .finite 0 _

instance : Neg Binary64 := ⟨fun x => ⟨!x.negative, x.magnitude⟩⟩

def abs (x : Binary64) : Binary64 := ⟨false, x.magnitude⟩

/-- The magnitude of `x` with the sign of `y`. -/
def copySign (x y : Binary64) : Binary64 := ⟨y.negative, x.magnitude⟩

/-- A whole number with the given sign and magnitude. -/
def signed (negative : Bool) (units : Nat) : Int := if negative then -units else units

/-- The place of a double in the numeric order, in units; an infinity lies at the limit, and what
is not a number has no place. Both zeros have one place. -/
def rank? (x : Binary64) : Option Int :=
  match x.magnitude with
  | .finite u _ => some (signed x.negative u)
  | .infinite => some (signed x.negative unitLimit)
  | .nan => none

/-- The numeric order. What is not a number compares with nothing. -/
def compare? (x y : Binary64) : Option Ordering := do
  return compare (← x.rank?) (← y.rank?)

/-- Numeric equality: both zeros are equal, and what is not a number differs from itself. -/
def equal (x y : Binary64) : Bool := x.compare? y == some .eq

/-- Below zero; false for both zeros and for what is not a number. -/
def isBelowZero (x : Binary64) : Bool :=
  match x.rank? with
  | some k => decide (k < 0)
  | none => false

/-- A finite double without a fractional part. -/
def isIntegral (x : Binary64) : Bool :=
  match x.magnitude with
  | .finite u _ => u % unitsPerOne == 0
  | _ => false

theorem nearest_le (num den : Nat) :
    Rounding.halfEven num (den <<< ((num / den).log2 - 52)) ≤ 2 * hiddenBit := by
  refine Nat.le_trans (Rounding.halfEven_le _ _) ?_
  rw [Nat.shiftLeft_eq, ← Nat.div_div_eq_div_mul]
  refine Nat.succ_le_of_lt (Nat.div_lt_of_lt_mul ?_)
  have h : 2 * hiddenBit = Nat.pow 2 53 := by decide
  rw [h, Nat.pow_eq, ← Nat.pow_add]
  exact Nat.lt_of_lt_of_le Nat.lt_log2_self (Nat.pow_le_pow_right (by decide) (by omega))

/-- The nearest magnitude to `num / den` units, ties to even; from the limit on it is infinite. -/
def Magnitude.nearest (num den : Nat) : Magnitude :=
  let e := (num / den).log2 - 52
  let m := Rounding.halfEven num (den <<< e)
  if h : m <<< e < unitLimit then
    .finite (m <<< e) ⟨h, m, e, nearest_le num den, rfl⟩
  else
    .infinite

/-- The nearest double to a quotient of units. -/
def nearest (negative : Bool) (num den : Nat) : Binary64 := ⟨negative, .nearest num den⟩

/-- The nearest double to a quotient. -/
def ofRatio (num : Int) (den : Nat) : Binary64 :=
  nearest (decide (num < 0)) (num.natAbs * unitsPerOne) den

/-- The nearest double to a whole number. -/
def ofInt (i : Int) : Binary64 := ofRatio i 1

def one : Binary64 := ofInt 1

/-- The whole number that a finite double rounds to. -/
def round? (r : Rounding) (x : Binary64) : Option Int :=
  match x.magnitude with
  | .finite u _ => some (signed x.negative (r.quotient x.negative u unitsPerOne))
  | _ => none

/-- The greatest whole double that is not above `x`; a zero keeps its sign. -/
def floor (x : Binary64) : Binary64 :=
  match x.magnitude with
  | .finite u _ =>
    nearest x.negative (Rounding.down.quotient x.negative u unitsPerOne * unitsPerOne) 1
  | _ => x

/-! ### Bit patterns -/

/-- The 64 bits of a double: sign, 11 bits of exponent, 52 bits of fraction. -/
def toBits (x : Binary64) : UInt64 :=
  let body := match x.magnitude with
    | .finite u _ => let e := u.log2 - 52; e * hiddenBit + u >>> e
    | .infinite => 2047 * hiddenBit
    | .nan => 2047 * hiddenBit + hiddenBit / 2
  UInt64.ofNat (if x.negative then 2048 * hiddenBit + body else body)

/-- The double with the given bits. All patterns that are not numbers are read as one value. -/
def ofBits (w : UInt64) : Binary64 :=
  let field := w.toNat / hiddenBit % 2048
  let fraction := w.toNat % hiddenBit
  have hfraction : fraction < hiddenBit := Nat.mod_lt _ (by decide)
  { negative := decide (2048 * hiddenBit ≤ w.toNat)
    magnitude :=
      if h : field = 2047 then
        if fraction = 0 then .infinite else .nan
      else if field = 0 then
        .finite (fraction <<< 0) (representable_of_lt (by omega) (Nat.zero_le _))
      else
        .finite ((hiddenBit + fraction) <<< (field - 1))
          (representable_of_lt (by omega) (by
            have : field < 2048 := Nat.mod_lt _ (by decide)
            unfold topShift
            omega)) }

end Binary64

end ProxyTrace
