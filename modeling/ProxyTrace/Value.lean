import ProxyTrace.Number.Arith
import ProxyTrace.Proxy
import ProxyTrace.Slice

/-!
Values that flow into and out of operators, and the terms that are left of them when each proxy is
replaced by its name. Terms are what a graph mentions, and the text of a value is the text of its
term.
-/

namespace ProxyTrace

/-- A native value, a proxy, or a compound of both. -/
inductive Value where
  | none
  | number (n : Number)
  | proxy (p : Proxy)
  /-- A native tensor, of which only the shape is read. -/
  | tensor (shape : List Nat)
  | tuple (items : List Value)
  | slice (s : Slice)

/-- A value with names in place of proxies. -/
inductive Term where
  | none
  | number (n : Number)
  | name (n : Name)
  | tensor (shape : List Nat)
  | tuple (items : List Term)
  | slice (s : Slice)

mutual

def Term.text : Term → String
  | .none => "None"
  | .number n => n.text
  | .name n => n
  | .tensor shape => "tensor" ++ shapeText shape
  | .tuple items => "(" ++ ", ".intercalate (Term.texts items) ++ ")"
  | .slice s => s.text

def Term.texts : List Term → List String
  | [] => []
  | t :: ts => t.text :: Term.texts ts

end

namespace Value

instance : Inhabited Value := ⟨none⟩

mutual

/-- The value with names in place of proxies. -/
def toTerm : Value → Term
  | none => .none
  | number n => .number n
  | proxy p => .name p.name
  | tensor shape => .tensor shape
  | tuple items => .tuple (toTerms items)
  | slice s => .slice s

def toTerms : List Value → List Term
  | [] => []
  | v :: vs => v.toTerm :: toTerms vs

end

theorem toTerms_eq_map (vs : List Value) : toTerms vs = vs.map toTerm := by
  induction vs with
  | nil => rfl
  | cons v vs ih => rw [toTerms, ih, List.map_cons]

def text (v : Value) : String := v.toTerm.text

instance : ToString Value := ⟨text⟩

/-- A short description for error messages. -/
def describe : Value → String
  | none => "None"
  | number n => s!"{n.kind} {n}"
  | proxy p => s!"proxy {p.name}"
  | tensor shape => s!"tensor {shapeText shape}"
  | tuple items => s!"tuple of {items.length}"
  | slice s => s!"slice {s.text}"

def number? : Value → Option Number
  | number n => some n
  | _ => Option.none

def proxy? : Value → Option Proxy
  | proxy p => some p
  | _ => Option.none

def numberProxy? : Value → Option NumberProxy
  | proxy (.number p) => some p
  | _ => Option.none

def tensorProxy? : Value → Option TensorProxy
  | proxy (.tensor t) => some t
  | _ => Option.none

def int (i : Int64) : Value := number (.int i)

def float (x : Binary64) : Value := number (.float x)

def ofAnswer : Number.Answer → Value
  | .single n => number n
  | .pair q r => tuple [number q, number r]

instance : Coe Number Value := ⟨number⟩

instance : Coe NumberProxy Value := ⟨fun p => proxy (.number p)⟩

instance : Coe TensorProxy Value := ⟨fun t => proxy (.tensor t)⟩

/-- The operand is none that `op` takes. -/
def invalid {α : Type} (op : String) (v : Value) : Except Error α :=
  .error (.invalidOperand op v.describe)

/-- The concrete number that a value stands for. -/
def known (op : String) (v : Value) : Except Error Number :=
  match v with
  | number n => .ok n
  | proxy (.number p) =>
    match p.value with
    | some n => .ok n
    | Option.none => .error (.noActiveContext op)
  | v => v.invalid op

/-- The kind of a number or number proxy. -/
def kind (op : String) (v : Value) : Except Error NumberKind :=
  match v with
  | number n => .ok n.kind
  | proxy (.number p) => .ok p.kind
  | v => v.invalid op

/-- The word that a bool or an int, or a proxy of known value for one, stands for. -/
def knownInt (op : String) (v : Value) : Except Error Int64 := do
  match (← v.known op).toInt? with
  | some i => .ok i
  | Option.none => v.invalid op

/-- An operator on two values that both stand for concrete numbers. -/
def evaluate (op : BinaryOp) (a b : Value) : Except Error Value := do
  let x ← a.known op.name
  let y ← b.known op.name
  ofAnswer <$> Number.binary op x y

end Value

end ProxyTrace
