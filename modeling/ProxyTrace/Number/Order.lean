import ProxyTrace.Number.Basic

/-!
Equality and order of numbers by their exact values, across the kinds, and the words that a hash
of a number is made of.
-/

namespace ProxyTrace.Number

/-- The order of a word and a double, without rounding the word: the word is compared with the
double rounded down. Where that is out of the range of words, its sign decides. -/
def compareFloat? (i : Int64) (x : Binary64) : Option Ordering :=
  if x.isNaN then none
  else match (x.round? .down).bind Word.ofInt? with
    | some j => if x.isIntegral then some (compare i j) else some (if i ≤ j then .lt else .gt)
    | none => some (if Binary64.zero.compare? x = some .lt then .lt else .gt)

/-- The numeric order of numbers below complex. -/
def compareReal? : Number → Number → Option Ordering
  | float x, float y => x.compare? y
  | float x, b => do return (← compareFloat? (← b.toInt?) x).swap
  | a, float y => do compareFloat? (← a.toInt?) y
  | a, b => do return compare (← a.toInt?) (← b.toInt?)

def equalReal (a b : Number) : Bool := a.compareReal? b == some .eq

/-- Numeric equality: a complex number equals a real one if its imaginary part is zero and its
real part equals it. -/
def equal : Number → Number → Bool
  | complex z, complex w => z.equal w
  | complex z, n | n, complex z => z.im.isZero && equalReal (float z.re) n
  | a, b => equalReal a b

/-- The numeric order. A complex number is comparable only with what equals it. -/
def compare? (a b : Number) : Option Ordering :=
  if a.kind = .complex ∨ b.kind = .complex then
    if a.equal b then some .eq else none
  else a.compareReal? b

/-- A word that a hash is fed with. -/
inductive HashWord where
  | signed (i : Int64)
  | unsigned (w : UInt64)
  deriving DecidableEq, Repr

/-- A whole number in the range of words feeds as that word, and any other double as its bits. -/
def floatHash (x : Binary64) : HashWord :=
  match if x.isIntegral then (x.round? .towardZero).bind Word.ofInt? else none with
  | some i => .signed i
  | none => .unsigned x.toBits

/-- The words that a number feeds; equal numbers feed equal words. -/
def hashWords : Number → List HashWord
  | bool b => [.signed (if b then 1 else 0)]
  | int i => [.signed i]
  | float x => [floatHash x]
  | complex z =>
    if z.im.isZero then [floatHash z.re] else [.unsigned z.re.toBits, .unsigned z.im.toBits]

end ProxyTrace.Number
