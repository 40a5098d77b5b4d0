import ProxyTrace.Complex
import ProxyTrace.Error
import ProxyTrace.Word

/-!
Numbers of the four kinds and their widening. A number widens to its own kind and to every kind
above it; an int becomes the nearest float.
-/

namespace ProxyTrace

/-- A concrete number. -/
inductive Number where
  | bool (b : Bool)
  | int (i : Int64)
  | float (x : Binary64)
  | complex (z : Complex)
  deriving DecidableEq

namespace Number

instance : Inhabited Number := ⟨bool false⟩

def kind : Number → NumberKind
  | bool _ => .bool
  | int _ => .int
  | float _ => .float
  | complex _ => .complex

/-- The word that a bool or an int is. -/
def toInt? : Number → Option Int64
  | bool b => some (if b then 1 else 0)
  | int i => some i
  | _ => none

/-- The float that a number below complex widens to. -/
def toFloat? : Number → Option Binary64
  | float x => some x
  | complex _ => none
  | n => n.toInt?.map fun i => .ofInt i.toInt

/-- The complex number that a number widens to. -/
def toComplex : Number → Complex
  | complex z => z
  | n => ⟨n.toFloat?.getD .nan, .zero⟩

def text : Number → String
  | bool b => if b then "true" else "false"
  | int i => toString i.toInt
  | float x => x.text
  | complex z => z.text

instance : ToString Number := ⟨text⟩

def isZero : Number → Bool
  | bool b => !b
  | int i => i == 0
  | float x => x.isZero
  | complex z => z.isZero

/-- The number as one of kind `k`, if its own kind is not above. -/
def widen? (k : NumberKind) (n : Number) : Option Number :=
  match k with
  | .bool => if n.kind = .bool then some n else none
  | .int => n.toInt?.map int
  | .float => n.toFloat?.map float
  | .complex => some (complex n.toComplex)

/-- Widening; a number of a kind above `k` is not representable. -/
def coerce (n : Number) (k : NumberKind) : Except Error Number :=
  match n.widen? k with
  | some m => .ok m
  | none => .error (.kindMismatch k n.text)

theorem coerce_kind (n : Number) : n.coerce n.kind = .ok n := by
  cases n <;> rfl

end Number

/-- What a number of the kind is without its tag. -/
abbrev NumberKind.Native : NumberKind → Type
  | bool => Bool
  | int => Int64
  | float => Binary64
  | complex => Complex

namespace Number

def ofNative : (k : NumberKind) → k.Native → Number
  | .bool, b => bool b
  | .int, i => int i
  | .float, x => float x
  | .complex, z => complex z

/-- The number without its tag, if it is of kind `k`. -/
def native? : (k : NumberKind) → Number → Option k.Native
  | .bool, bool b => some b
  | .int, int i => some i
  | .float, float x => some x
  | .complex, complex z => some z
  | _, _ => none

@[simp] theorem native?_ofNative (k : NumberKind) (x : k.Native) :
    native? k (ofNative k x) = some x := by
  cases k <;> rfl

@[simp] theorem kind_ofNative (k : NumberKind) (x : k.Native) : (ofNative k x).kind = k := by
  cases k <;> rfl

end Number

end ProxyTrace
