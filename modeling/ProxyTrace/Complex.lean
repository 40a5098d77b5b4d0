import ProxyTrace.Binary64.Text

/-!
Complex numbers with doubles as parts.
-/

namespace ProxyTrace

/-- A complex number. -/
structure Complex where
  re : Binary64
  im : Binary64
  deriving DecidableEq

namespace Complex

def zero : Complex := ⟨.zero, .zero⟩

def one : Complex := ⟨.one, .zero⟩

def isZero (z : Complex) : Bool := z.re.isZero && z.im.isZero

/-- Numeric equality of both parts. -/
def equal (z w : Complex) : Bool := z.re.equal w.re && z.im.equal w.im

instance : Neg Complex := ⟨fun z => ⟨-z.re, -z.im⟩⟩

instance : Add Complex := ⟨fun z w => ⟨z.re + w.re, z.im + w.im⟩⟩

instance : Sub Complex := ⟨fun z w => ⟨z.re - w.re, z.im - w.im⟩⟩

instance : Mul Complex :=
  ⟨fun z w => ⟨z.re * w.re - z.im * w.im, z.re * w.im + z.im * w.re⟩⟩

/-- The quotient, with both parts over the squared length of the divisor. -/
instance : Div Complex where
  div z w :=
    let n := w.re * w.re + w.im * w.im
    ⟨(z.re * w.re + z.im * w.im) / n, (z.im * w.re - z.re * w.im) / n⟩

/-- The length. -/
def abs (z : Complex) : Binary64 := z.re.hypot z.im

/-- The angle. -/
def arg (z : Complex) : Binary64 := z.im.atan2 z.re

/-- The number with the given length and angle. -/
def ofPolar (length angle : Binary64) : Complex := ⟨length * angle.cos, length * angle.sin⟩

def log (z : Complex) : Complex := ⟨z.abs.log, z.arg⟩

/-- The exponential. An infinite real part outweighs an imaginary part that has no angle. -/
def exp (z : Complex) : Complex :=
  if z.re.isInfinite && z.re.negative && !z.im.isFinite then zero
  else if z.re.isInfinite && !z.re.negative && (z.im.isZero || !z.im.isFinite) then
    ⟨z.re, if z.im.isInfinite then .nan else z.im⟩
  else if z.re.isNaN && z.im.isZero then z
  else ofPolar z.re.exp z.im

/-- The power with a real exponent. -/
def powReal (z : Complex) (e : Binary64) : Complex :=
  if e.isZero then one else ofPolar (z.abs.pow e) (z.arg * e)

def pow (z w : Complex) : Complex := if w.isZero then one else exp (w * log z)

/-- Real part, sign, imaginary part and `i`. A negative zero keeps its own sign. -/
def text (z : Complex) : String :=
  let part := Binary64.textWith Binary64.partLayout
  if z.im.isBelowZero then s!"{part z.re}-{part (-z.im)}i" else s!"{part z.re}+{part z.im}i"

end Complex

end ProxyTrace
