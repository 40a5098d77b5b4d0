/-!
Decimals: digits scaled by a power of ten. As text, a decimal is a run of digits with a point, or
digits with the power of ten that the first of them counts.
-/

namespace ProxyTrace

/-- The number `digits * 10 ^ exponent`. -/
structure Decimal where
  digits : Nat
  exponent : Int
  deriving DecidableEq, Repr

namespace Decimal

/-! ### The shortest decimal in an interval

For 1, 2, ... digits the two neighbours of a quotient on the grid of that many digits are tried; the
first grid with a hit decides, of two hits the nearer is taken, and of two equally near ones the
greater. -/

/-- A quotient `value / den` with the interval from `low / den` to `high / den` around it. -/
structure Interval where
  low : Nat
  value : Nat
  high : Nat
  den : Nat
  /-- Whether the ends belong to the interval. -/
  closed : Bool

def Interval.contains (i : Interval) (num den : Nat) : Bool :=
  if i.closed then i.low * den ≤ num * i.den && num * i.den ≤ i.high * den
  else i.low * den < num * i.den && num * i.den < i.high * den

/-- The power of ten at the first digit of a positive quotient that is at least 10^-`places`. -/
def leadingExponent (num den places : Nat) : Int :=
  (Nat.toDigits 10 (num * Nat.pow 10 places / den)).length - 1 - places

/-- `digits * 10 ^ exponent` as a quotient of whole numbers. -/
def ratio (d : Decimal) : Nat × Nat :=
  (d.digits * Nat.pow 10 d.exponent.toNat, Nat.pow 10 (-d.exponent).toNat)

/-- The decimal with `n` digits or less that lies in the interval and nearest to its value. -/
def Interval.withDigits? (i : Interval) (lead : Int) (n : Nat) : Option Decimal :=
  let e := lead - (n - 1 : Nat)
  -- the value counted in steps of the grid
  let num := i.value * Nat.pow 10 (-e).toNat
  let den := i.den * Nat.pow 10 e.toNat
  let below := num / den
  let hit (d : Nat) : Option Decimal :=
    let x : Decimal := if d = Nat.pow 10 n then ⟨1, e + n⟩ else ⟨d, e⟩
    if i.contains x.ratio.1 x.ratio.2 then some x else none
  match hit below, hit (below + 1) with
  | some x, some y =>
    if num - below * den < (below + 1) * den - num then some x else some y
  | x, y => x <|> y

/-- The shortest decimal in the interval; `none` if more than `limit` digits are needed. -/
def Interval.shortest? (i : Interval) (lead : Int) (limit : Nat) : Option Decimal :=
  (List.range limit).findSome? fun n => i.withDigits? lead (n + 1)

/-! ### Reading runs of digits -/

/-- The value of a text of digits, and how many there are. -/
def digits? (cs : List Char) : Option (Nat × Nat) :=
  if cs.all Char.isDigit then some (Nat.ofDigitChars 10 cs 0, cs.length) else none

/-- The value of a text of one digit or more. -/
def natural? (cs : List Char) : Option Nat :=
  match digits? cs with
  | some (n, _ + 1) => some n
  | _ => none

/-- A natural number with an optional plus sign. -/
def positive? : List Char → Option Nat
  | '+' :: cs => natural? cs
  | cs => natural? cs

/-- A whole number with an optional sign. -/
def whole? : List Char → Option Int
  | '-' :: cs => (natural? cs).map fun n => -n
  | cs => (positive? cs).map fun n => n

/-! ### Writing and reading -/

/-- How a decimal is written. -/
structure Layout where
  /-- Whether a number whose first digit counts this power of ten is written without it. -/
  positional : Int → Bool
  /-- What follows the digits of a whole number that is written positionally. -/
  wholeEnd : String

def digitText (d : Decimal) : String := Nat.repr d.digits

/-- The power of ten that the first digit counts. -/
def lead (d : Decimal) : Int := d.exponent + (d.digitText.length - 1 : Nat)

def zeros (n : Nat) : String := String.ofList (List.replicate n '0')

/-- The first `n` characters of a text, and the others. -/
def splitText (s : String) (n : Nat) : String × String :=
  (String.ofList (s.toList.take n), String.ofList (s.toList.drop n))

def positionalText (layout : Layout) (d : Decimal) : String :=
  let ds := d.digitText
  if d.exponent ≥ 0 then ds ++ zeros d.exponent.toNat ++ layout.wholeEnd
  else if d.lead < 0 then "0." ++ zeros (-d.lead - 1).toNat ++ ds
  else
    let (whole, fraction) := splitText ds (d.lead.toNat + 1)
    whole ++ "." ++ fraction

def scientificText (d : Decimal) : String :=
  let (first, others) := splitText d.digitText 1
  first ++ (if others.isEmpty then "" else "." ++ others) ++ "e" ++ toString d.lead

def text (layout : Layout) (d : Decimal) : String :=
  if layout.positional d.lead then positionalText layout d else scientificText d

/-- A number without sign: digits with at most one point, at least one digit, and after an `e`
the power of ten that scales it. -/
def ofChars? (cs : List Char) : Option Decimal := do
  let isMark (c : Char) := c == 'e' || c == 'E'
  let significand := cs.takeWhile (!isMark ·)
  let scale ← match cs.dropWhile (!isMark ·) with
    | [] => some 0
    | _ :: cs => whole? cs
  let (whole, wholeCount) ← digits? (significand.takeWhile (· != '.'))
  let (fraction, fractionCount) ← digits? ((significand.dropWhile (· != '.')).drop 1)
  if wholeCount + fractionCount = 0 then none
  else some ⟨whole * Nat.pow 10 fractionCount + fraction, scale - fractionCount⟩

end Decimal

end ProxyTrace
