import ProxyTrace.Binary64.Arith
import ProxyTrace.Decimal

/-!
Doubles as text. A finite double is written with the fewest digits that read back as it; reading
takes the exact decimal and rounds it once.
-/

namespace ProxyTrace.Binary64

/-- The reals that read back as the double of `u` units, over four times the number of units in
one. The ends belong to them if the significand is even. -/
def readBack (u : Nat) : Decimal.Interval :=
  let e := u.log2 - 52
  -- below a power of two the doubles are twice as dense
  let below := if u = hiddenBit <<< e ∧ e ≠ 0 then 1 <<< e else 2 <<< e
  { low := 4 * u - below
    value := 4 * u
    high := 4 * u + 2 <<< e
    den := 4 * unitsPerOne
    closed := u >>> e % 2 == 0 }

/-- The shortest decimal that reads back as the double of `u` units. -/
def shortest (u : Nat) : Decimal :=
  let lead := Decimal.leadingExponent u unitsPerOne 324
  (readBack u |>.shortest? lead 17).getD ⟨0, 0⟩

/-- Numbers are written positionally from 10^-4 up to 10^16, whole ones with one decimal. -/
def plainLayout : Decimal.Layout := ⟨fun k => -4 ≤ k && k < 16, ".0"⟩

/-- Parts of a complex number are always written positionally, whole ones without a point. -/
def partLayout : Decimal.Layout := ⟨fun _ => true, ""⟩

def textWith (layout : Decimal.Layout) (x : Binary64) : String :=
  let sign := if x.negative then "-" else ""
  match x.magnitude with
  | .finite 0 _ => sign ++ "0" ++ layout.wholeEnd
  | .finite u _ => sign ++ (shortest u).text layout
  | .infinite => sign ++ "inf"
  | .nan => "NaN"

def text : Binary64 → String := textWith plainLayout

/-- The nearest double to a decimal with the given sign. Powers of ten far beyond the range of
doubles are not computed. -/
def ofDecimal (negative : Bool) (d : Decimal) : Binary64 :=
  if d.digits = 0 then ⟨negative, zero.magnitude⟩
  else if d.lead > 400 then ⟨negative, .infinite⟩
  else if d.lead < -400 then ⟨negative, zero.magnitude⟩
  else nearest negative (d.ratio.1 * unitsPerOne) d.ratio.2

/-- The double that a text without a sign denotes, with the given sign. Words are read in any
case. -/
def ofChars? (negative : Bool) (cs : List Char) : Option Binary64 :=
  match String.ofList (cs.map Char.toLower) with
  | "inf" | "infinity" => some ⟨negative, .infinite⟩
  | "nan" => some ⟨negative, .nan⟩
  | _ => (Decimal.ofChars? cs).map (ofDecimal negative)

/-- The double that a text denotes: a decimal, an infinity or what is not a number, with an
optional sign. -/
def ofText? (s : String) : Option Binary64 :=
  match s.toList with
  | '-' :: cs => ofChars? true cs
  | '+' :: cs => ofChars? false cs
  | cs => ofChars? false cs

end ProxyTrace.Binary64
