import ProxyTrace.Binary64.Basic

/-!
The arithmetic of doubles: every operation takes the exact result of its operands and rounds it
once. An operand that is not a number is the answer, the first one if both are. The elementary
functions are those of the machine.
-/

namespace ProxyTrace.Binary64

/-- The first operand that is not a number, or else `r`. -/
def orNaN (x y r : Binary64) : Binary64 :=
  if x.isNaN then x else if y.isNaN then y else r

/-- The sum. Opposite operands cancel to positive zero. -/
def add (x y : Binary64) : Binary64 :=
  orNaN x y <|
    match x.magnitude, y.magnitude with
    | .finite u _, .finite v _ =>
      let s := signed x.negative u + signed y.negative v
      nearest (if s = 0 then x.negative && y.negative else decide (s < 0)) s.natAbs 1
    | .infinite, .infinite => if x.negative = y.negative then x else invalid
    | .infinite, _ => x
    | _, _ => y

def sub (x y : Binary64) : Binary64 := orNaN x y (add x (-y))

/-- The product. Zero times infinity is invalid. -/
def mul (x y : Binary64) : Binary64 :=
  let negative := x.negative != y.negative
  orNaN x y <|
    match x.magnitude, y.magnitude with
    | .finite u _, .finite v _ => nearest negative (u * v) unitsPerOne
    | _, _ => if x.isZero || y.isZero then invalid else ⟨negative, .infinite⟩

/-- The quotient. Zero by zero and infinity by infinity are invalid. -/
def div (x y : Binary64) : Binary64 :=
  let negative := x.negative != y.negative
  orNaN x y <|
    match x.magnitude, y.magnitude with
    | .finite u _, .finite v _ =>
      if v = 0 then
        if u = 0 then invalid else ⟨negative, .infinite⟩
      else nearest negative (u * unitsPerOne) v
    | .finite .., _ => ⟨negative, zero.magnitude⟩
    | _, .finite .. => ⟨negative, .infinite⟩
    | _, _ => invalid

/-- The remainder of the quotient rounded toward zero; it has the sign of the dividend. -/
def rem (x y : Binary64) : Binary64 :=
  orNaN x y <|
    match x.magnitude, y.magnitude with
    | .finite u _, .finite v _ => if v = 0 then invalid else nearest x.negative (u % v) 1
    | .finite .., _ => x
    | _, _ => invalid

instance : Add Binary64 := ⟨add⟩
instance : Sub Binary64 := ⟨sub⟩
instance : Mul Binary64 := ⟨mul⟩
instance : Div Binary64 := ⟨div⟩
instance : Mod Binary64 := ⟨rem⟩

/-- The remainder of the quotient rounded down; it has the sign of the divisor, a zero too. -/
def floorMod (x y : Binary64) : Binary64 :=
  let r := x % y
  if r.isZero then zero.copySign y
  else if r.isBelowZero = y.isBelowZero then r
  else r + y

/-- The length of the hypotenuse over two sides; one infinite side makes it infinite. -/
def hypot (x y : Binary64) : Binary64 :=
  if x.isInfinite || y.isInfinite then infinity
  else orNaN x y <|
    match x.magnitude, y.magnitude with
    | .finite u _, .finite v _ =>
      -- 64 more bits than a unit, and one that says whether the root was cut off
      let square := (u * u + v * v) <<< 128
      let root := square.sqrt
      nearest false (2 * root + if root * root = square then 0 else 1) (1 <<< 65)
    | _, _ => invalid

/-! ### Elementary functions

These are evaluated by the machine and leave exact arithmetic; nothing is known of them here but
their value at an argument that is not a number. -/

def toMachine (x : Binary64) : Float := Float.ofBits x.toBits

def ofMachine (f : Float) : Binary64 := ofBits f.toBits

/-- A machine function of one argument; where it has no value, the answer is invalid. -/
def machine (f : Float → Float) (x : Binary64) : Binary64 :=
  let y := ofMachine (f x.toMachine)
  if y.isNaN then orNaN x x invalid else y

/-- A machine function of two arguments; where it has no value, the answer is invalid. -/
def machine₂ (f : Float → Float → Float) (x y : Binary64) : Binary64 :=
  let z := ofMachine (f x.toMachine y.toMachine)
  if z.isNaN then orNaN x y invalid else z

def exp : Binary64 → Binary64 := machine Float.exp

def log : Binary64 → Binary64 := machine Float.log

def sin : Binary64 → Binary64 := machine Float.sin

def cos : Binary64 → Binary64 := machine Float.cos

def pow : Binary64 → Binary64 → Binary64 := machine₂ Float.pow

/-- The angle of the point with the given height and width. -/
def atan2 : Binary64 → Binary64 → Binary64 := machine₂ Float.atan2

end ProxyTrace.Binary64
