import ProxyTrace.Decimal
import ProxyTrace.Error

/-!
Devices: `cpu`, `meta`, `cuda` or `cuda:N`.
-/

namespace ProxyTrace

/-- Where a tensor lives. -/
inductive Device where
  | cpu
  | cuda (index : UInt32)
  /-- Tensors without storage. -/
  | metadata
  deriving DecidableEq, Repr

namespace Device

/-- The device without its index. -/
def typeName : Device → String
  | cpu => "cpu"
  | cuda _ => "cuda"
  | metadata => "meta"

def index? : Device → Option UInt32
  | cuda i => some i
  | _ => none

def text (d : Device) : String :=
  match d with
  | cuda i => s!"cuda:{i.toNat}"
  | d => d.typeName

instance : ToString Device := ⟨text⟩

/-- An index that fits 32 bits. -/
def ofIndex? (cs : List Char) : Option Device := do
  let i ← Decimal.positive? cs
  if i < UInt32.size then some (cuda (.ofNat i)) else none

/-- The device of a text; only `cuda` takes an index, which follows the first colon. -/
def ofChars? (cs : List Char) : Option Device :=
  match String.ofList (cs.takeWhile (· ≠ ':')), cs.dropWhile (· ≠ ':') with
  | "cpu", [] => some cpu
  | "meta", [] => some metadata
  | "cuda", [] => some (cuda 0)
  | "cuda", _ :: index => ofIndex? index
  | _, _ => none

def ofText (s : String) : Except Error Device :=
  match ofChars? s.toList with
  | some d => .ok d
  | none => .error (.invalidDevice s)

end Device

end ProxyTrace
