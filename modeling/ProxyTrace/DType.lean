import ProxyTrace.Error

/-!
Element types of tensors. Each scalar type has a strong and a weak form; a weak one comes from a
bare number and yields to a type inferred elsewhere.
-/

namespace ProxyTrace

/-- What one element of a tensor is. -/
inductive ScalarType where
  | bool8
  | uint8
  | int8
  | int16
  | int32
  | int64
  | bfloat16
  | float16
  | float32
  | float64
  | complex32
  | complex64
  | complex128
  deriving DecidableEq, Repr

namespace ScalarType

def all : List ScalarType :=
  [bool8, uint8, int8, int16, int32, int64, bfloat16, float16, float32, float64,
    complex32, complex64, complex128]

def name : ScalarType → String
  | bool8 => "bool8"
  | uint8 => "uint8"
  | int8 => "int8"
  | int16 => "int16"
  | int32 => "int32"
  | int64 => "int64"
  | bfloat16 => "bfloat16"
  | float16 => "float16"
  | float32 => "float32"
  | float64 => "float64"
  | complex32 => "complex32"
  | complex64 => "complex64"
  | complex128 => "complex128"

def shortName : ScalarType → String
  | bool8 => "b8"
  | uint8 => "u8"
  | int8 => "i8"
  | int16 => "i16"
  | int32 => "i32"
  | int64 => "i64"
  | bfloat16 => "bf16"
  | float16 => "f16"
  | float32 => "f32"
  | float64 => "f64"
  | complex32 => "c32"
  | complex64 => "c64"
  | complex128 => "c128"

def isInteger : ScalarType → Bool
  | uint8 | int8 | int16 | int32 | int64 => true
  | _ => false

def isFloat : ScalarType → Bool
  | bfloat16 | float16 | float32 | float64 => true
  | _ => false

def isComplex : ScalarType → Bool
  | complex32 | complex64 | complex128 => true
  | _ => false

/-- The scalar type with the given name or short name. -/
def ofName? (s : String) : Option ScalarType := all.find? fun t => t.name == s || t.shortName == s

@[simp] theorem ofName?_name (t : ScalarType) : ofName? t.name = some t := by
  cases t <;> decide

@[simp] theorem ofName?_shortName (t : ScalarType) : ofName? t.shortName = some t := by
  cases t <;> decide

end ScalarType

/-- An element type. -/
structure DType where
  scalar : ScalarType
  weak : Bool := false
  deriving DecidableEq, Repr

namespace DType

def toStrong (d : DType) : DType := { d with weak := false }

def toWeak (d : DType) : DType := { d with weak := true }

/-- What follows the name of a type to mark it as weak. -/
def mark (d : DType) : String := if d.weak then "_" else ""

def text (d : DType) : String := d.scalar.name ++ d.mark

def shortText (d : DType) : String := d.scalar.shortName ++ d.mark

instance : ToString DType := ⟨text⟩

/-- A name or short name, with one underscore at its end for the weak form. -/
def ofChars? (cs : List Char) : Option DType :=
  let weak := cs.getLast? == some '_'
  let base := if weak then cs.dropLast else cs
  (ScalarType.ofName? (String.ofList base)).map fun scalar => { scalar, weak }

def ofText (s : String) : Except Error DType :=
  match ofChars? s.toList with
  | some d => .ok d
  | none => .error (.invalidDType s)

/-- The type that a bare number of a kind implies. -/
def ofKind : NumberKind → DType
  | .bool => { scalar := .bool8 }
  | .int => { scalar := .int64, weak := true }
  | .float => { scalar := .float32, weak := true }
  | .complex => { scalar := .complex64, weak := true }

end DType

/-- An element type, or a kind of number that stands for the type it implies. -/
inductive DTypeLike where
  | dtype (d : DType)
  | kind (k : NumberKind)
  deriving DecidableEq, Repr

namespace DTypeLike

def isKind : DTypeLike → Bool
  | kind _ => true
  | dtype _ => false

def resolve : DTypeLike → DType
  | dtype d => d
  | kind k => DType.ofKind k

end DTypeLike

end ProxyTrace
