import ProxyTrace.Value

/-!
# Relabelings

A relabeling gives the proxies in a value, at any depth, other owners and other known values. It
leaves alone what the value shows, its term and its description, and its kind.
-/

namespace ProxyTrace

/-- Owners for proxies, and known values for those of numbers. -/
structure Relabeling where
  owner : Proxy → TraceId
  value : NumberProxy → Option Number

variable {ρ : Relabeling}

def TensorProxy.relabel (ρ : Relabeling) (t : TensorProxy) : TensorProxy :=
  { t with symbol.owner := ρ.owner (.tensor t) }

namespace Proxy

def relabel (ρ : Relabeling) : Proxy → Proxy
  | untyped s => untyped { s with owner := ρ.owner (untyped s) }
  | number p => number { p with symbol.owner := ρ.owner (number p), value := ρ.value p }
  | tensor t => tensor (t.relabel ρ)

@[simp] theorem name_relabel (p : Proxy) : (p.relabel ρ).name = p.name := by
  cases p <;> rfl

@[simp] theorem owner_relabel (p : Proxy) : (p.relabel ρ).owner = ρ.owner p := by
  cases p <;> rfl

end Proxy

namespace Value

mutual

def relabel (ρ : Relabeling) : Value → Value
  | proxy p => proxy (p.relabel ρ)
  | tuple items => tuple (relabelItems ρ items)
  | v => v

def relabelItems (ρ : Relabeling) : List Value → List Value
  | [] => []
  | v :: vs => v.relabel ρ :: relabelItems ρ vs

end

theorem relabelItems_eq_map (vs : List Value) : relabelItems ρ vs = vs.map (relabel ρ) := by
  induction vs with
  | nil => rfl
  | cons v vs ih => rw [relabelItems, ih, List.map_cons]

mutual

/-- A term shows the names of proxies, and not whose they are. -/
@[simp] theorem toTerm_relabel : ∀ v : Value, (v.relabel ρ).toTerm = v.toTerm
  | none | number _ | tensor _ | slice _ => rfl
  | proxy p => by rw [relabel, toTerm, toTerm, Proxy.name_relabel]
  | tuple items => by rw [relabel, toTerm, toTerm, toTerms_relabelItems items]

theorem toTerms_relabelItems : ∀ vs : List Value, toTerms (relabelItems ρ vs) = toTerms vs
  | [] => rfl
  | v :: vs => by rw [relabelItems, toTerms, toTerms, toTerm_relabel v, toTerms_relabelItems vs]

end

/-- So do the descriptions in errors. -/
@[simp] theorem describe_relabel (v : Value) : (v.relabel ρ).describe = v.describe := by
  cases v with
  | proxy p => rw [relabel, describe, describe, Proxy.name_relabel]
  | tuple items => simp only [relabel, describe, relabelItems_eq_map, List.length_map]
  | _ => rfl

@[simp] theorem invalid_relabel {α : Type} (op : String) (v : Value) :
    ((v.relabel ρ).invalid op : Except Error α) = v.invalid op := by
  rw [invalid, invalid, describe_relabel]

/-- A proxy keeps its kind whatever its value is. -/
@[simp] theorem kind_relabel (op : String) (v : Value) : (v.relabel ρ).kind op = v.kind op := by
  cases v with
  | proxy p =>
    cases p with
    | number p => rfl
    | untyped s => exact invalid_relabel op (proxy (.untyped s))
    | tensor t => exact invalid_relabel op (proxy (.tensor t))
  | tuple items => exact invalid_relabel op (tuple items)
  | _ => rfl

/-- Only a proxy has a known value to lose. -/
theorem known_relabel (op : String) {v : Value} (hv : v.numberProxy? = Option.none) :
    (v.relabel ρ).known op = v.known op := by
  cases v with
  | proxy p =>
    cases p with
    | number p => cases hv
    | untyped s => exact invalid_relabel op (proxy (.untyped s))
    | tensor t => exact invalid_relabel op (proxy (.tensor t))
  | tuple items => exact invalid_relabel op (tuple items)
  | _ => rfl

@[simp] theorem proxy?_relabel (v : Value) :
    (v.relabel ρ).proxy? = v.proxy?.map (Proxy.relabel ρ) := by
  cases v <;> rfl

@[simp] theorem tensorProxy?_relabel (v : Value) :
    (v.relabel ρ).tensorProxy? = v.tensorProxy?.map (TensorProxy.relabel ρ) := by
  cases v with
  | proxy p => cases p <;> rfl
  | _ => rfl

@[simp] theorem isSome_numberProxy?_relabel (v : Value) :
    (v.relabel ρ).numberProxy?.isSome = v.numberProxy?.isSome := by
  cases v with
  | proxy p => cases p <;> rfl
  | _ => rfl

end Value

end ProxyTrace
