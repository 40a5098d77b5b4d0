import ProxyTrace.Dispatch
import ProxyTrace.Proofs.Plan

/-!
# Translations

A translation gives the proxies in a value other names and other owners; all else that is known of a
proxy stays (`Proxy.sketch_translate`). What is computed from a value that is no name
comes to the same on its translation, or fails with an error of the same kind (`Matches`): only the
texts of errors show names. A plan is carried out alike on both sides (`Plan.result_translate`,
`Plan.nodes_translate`).
-/

namespace ProxyTrace

variable {α β γ δ : Type}

/-! ### Outcomes that match -/

/-- Which of the ways of failing it is, by its place in their list. -/
def Error.kind (e : Error) : Nat := e.ctorIdx

/-- Two outcomes: answers of which one is `g` of the other, or failures of the same kind. -/
inductive Matches (g : α → β) : Except Error α → Except Error β → Prop
  | ok (a : α) : Matches g (.ok a) (.ok (g a))
  | error {e e' : Error} (h : e.kind = e'.kind) : Matches g (.error e) (.error e')

namespace Matches

variable {g : α → β} {h : γ → δ} {x : Except Error α} {y : Except Error β}

theorem refl (x : Except Error α) : Matches id x x := by
  cases x with
  | ok a => exact .ok a
  | error e => exact .error rfl

theorem ok_of_eq {a : α} {b : β} (h : g a = b) : Matches g (.ok a) (.ok b) := h ▸ .ok a

theorem eq_of_ok {a : α} {b : β} (h : Matches g (.ok a) (.ok b)) : g a = b := by
  cases h
  rfl

theorem congr {g' : α → β} (hxy : Matches g x y) (h : ∀ a, x = .ok a → g a = g' a) :
    Matches g' x y := by
  cases hxy with
  | ok a => exact ok_of_eq (h a rfl).symm
  | error he => exact .error he

theorem bind {f : α → Except Error γ} {f' : β → Except Error δ} (hxy : Matches g x y)
    (hf : ∀ a, x = .ok a → Matches h (f a) (f' (g a))) : Matches h (x >>= f) (y >>= f') := by
  cases hxy with
  | ok a => exact hf a rfl
  | error he => exact .error he

/-- What comes after the same computation. -/
theorem bind_same {x : Except Error α} {f : α → Except Error γ} {f' : α → Except Error δ}
    (hf : ∀ a, x = .ok a → Matches h (f a) (f' a)) : Matches h (x >>= f) (x >>= f') :=
  (refl x).bind hf

theorem map {f : α → γ} {f' : β → δ} (hxy : Matches g x y) (hf : ∀ a, f' (g a) = h (f a)) :
    Matches h (do return f (← x)) (do return f' (← y)) := by
  exact hxy.bind fun a _ => ok_of_eq (hf a).symm

theorem ite {p q : Prop} [Decidable p] [Decidable q] {x' : Except Error α} {y' : Except Error β}
    (hpq : p ↔ q) (hxy : p → Matches g x y) (hxy' : ¬p → Matches g x' y') :
    Matches g (if p then x else x') (if q then y else y') := by
  by_cases h : p
  · rw [if_pos h, if_pos (hpq.1 h)]
    exact hxy h
  · rw [if_neg h, if_neg (mt hpq.2 h)]
    exact hxy' h

end Matches

/-! ### Values and nodes -/

/-- Other names, and other traces that own them. -/
structure Translation where
  name : Name → Name
  owner : TraceId → TraceId

variable (τ : Translation)

def Symbol.translate (σ : Symbol) : Symbol := ⟨τ.name σ.name, τ.owner σ.owner⟩

def NumberProxy.translate (p : NumberProxy) : NumberProxy :=
  { p with symbol := p.symbol.translate τ }

def TensorProxy.translate (t : TensorProxy) : TensorProxy :=
  { t with symbol := t.symbol.translate τ }

namespace Proxy

def translate : Proxy → Proxy
  | untyped σ => untyped (σ.translate τ)
  | number p => number (p.translate τ)
  | tensor t => tensor (t.translate τ)

@[simp] theorem symbol_translate (p : Proxy) :
    (p.translate τ).symbol = p.symbol.translate τ := by
  cases p <;> rfl

@[simp] theorem sketch_translate (p : Proxy) : (p.translate τ).sketch = p.sketch := by
  cases p <;> rfl

variable {τ} in
theorem translate_eq_self {p : Proxy} (h : p.symbol.translate τ = p.symbol) :
    p.translate τ = p := by
  rw [← (p.translate τ).named_sketch, sketch_translate, symbol_translate, h, named_sketch]

end Proxy

@[simp] theorem Sketch.translate_named (σ : Symbol) (k : Sketch) :
    (k.named σ).translate τ = k.named (σ.translate τ) := by
  cases k <;> rfl

mutual

def Value.translate : Value → Value
  | .proxy p => .proxy (p.translate τ)
  | .tuple items => .tuple (Value.translateItems items)
  | v => v

def Value.translateItems : List Value → List Value
  | [] => []
  | v :: vs => v.translate :: Value.translateItems vs

end

mutual

def Term.translate : Term → Term
  | .name n => .name (τ.name n)
  | .tuple items => .tuple (Term.translateItems items)
  | t => t

def Term.translateItems : List Term → List Term
  | [] => []
  | t :: ts => t.translate :: Term.translateItems ts

end

def Node.translate (n : Node) : Node :=
  ⟨n.op, n.args.map (Term.translate τ), n.output.translate τ⟩

variable {τ} in
mutual

theorem Term.translate_eq_self (h : ∀ n, τ.name n = n) : ∀ t : Term, t.translate τ = t
  | .name n => congrArg Term.name (h n)
  | .tuple items => congrArg Term.tuple (Term.translateItems_eq_self h items)
  | .none | .number _ | .tensor _ | .slice _ => rfl

theorem Term.translateItems_eq_self (h : ∀ n, τ.name n = n) :
    ∀ ts : List Term, Term.translateItems τ ts = ts
  | [] => rfl
  | t :: ts => by
    rw [Term.translateItems, t.translate_eq_self h, Term.translateItems_eq_self h ts]

end

namespace Value

theorem translateItems_eq_map (vs : List Value) : translateItems τ vs = vs.map (translate τ) := by
  induction vs with
  | nil => rfl
  | cons v vs ih => rw [translateItems, ih, List.map_cons]

mutual

theorem toTerm_translate : ∀ v : Value, (v.translate τ).toTerm = v.toTerm.translate τ
  | none | number _ | tensor _ | slice _ => rfl
  | proxy p => by cases p <;> rfl
  | tuple items => by
    rw [translate, toTerm, toTerm, Term.translate, toTerms_translateItems items]

theorem toTerms_translateItems :
    ∀ vs : List Value, toTerms (translateItems τ vs) = Term.translateItems τ (toTerms vs)
  | [] => rfl
  | v :: vs => by
    rw [translateItems, toTerms, toTerms, Term.translateItems, toTerm_translate v,
      toTerms_translateItems vs]

end

mutual

theorem proxies_translate : ∀ v : Value, (v.translate τ).proxies = v.proxies.map (Proxy.translate τ)
  | none | number _ | tensor _ | slice _ | proxy _ => rfl
  | tuple items => by rw [translate, proxies, proxies, itemProxies_translateItems items]

theorem itemProxies_translateItems :
    ∀ vs : List Value, itemProxies (translateItems τ vs) = (itemProxies vs).map (Proxy.translate τ)
  | [] => rfl
  | v :: vs => by
    rw [translateItems, itemProxies, itemProxies, List.map_append, proxies_translate v,
      itemProxies_translateItems vs]

end

variable {τ} in
mutual

/-- A value is its own translation if its proxies are. -/
theorem translate_eq_self :
    ∀ {v : Value}, (∀ p ∈ v.proxies, p.translate τ = p) → v.translate τ = v
  | none, _ | number _, _ | tensor _, _ | slice _, _ => rfl
  | proxy p, h => congrArg proxy (h p (.head _))
  | tuple _, h => congrArg tuple (translateItems_eq_self h)

theorem translateItems_eq_self :
    ∀ {vs : List Value}, (∀ p ∈ itemProxies vs, p.translate τ = p) → translateItems τ vs = vs
  | [], _ => rfl
  | v :: vs, h => by
    rw [translateItems, translate_eq_self fun p hp => h p (List.mem_append_left _ hp),
      translateItems_eq_self fun p hp => h p (List.mem_append_right _ hp)]

end

/-- A native value has no name to translate. -/
theorem translate_of_proxies_eq_nil {v : Value} (h : v.proxies = []) : v.translate τ = v := by
  refine translate_eq_self ?_
  rw [h]
  exact List.forall_mem_nil _

variable (υ : Translation)

mutual

/-- Two translations in a row come to one. -/
theorem translate_translate : ∀ v : Value, (v.translate τ).translate υ =
    v.translate ⟨fun n => υ.name (τ.name n), fun id => υ.owner (τ.owner id)⟩
  | none | number _ | tensor _ | slice _ => rfl
  | proxy p => by cases p <;> rfl
  | tuple items => by
    rw [translate, translate, translate, translateItems_translateItems items]

theorem translateItems_translateItems : ∀ vs : List Value,
    translateItems υ (translateItems τ vs) =
      translateItems ⟨fun n => υ.name (τ.name n), fun id => υ.owner (τ.owner id)⟩ vs
  | [] => rfl
  | v :: vs => by
    rw [translateItems, translateItems, translateItems, translate_translate v,
      translateItems_translateItems vs]

end

/-! ### What is read off a value -/

@[simp] theorem proxy?_translate (v : Value) :
    (v.translate τ).proxy? = v.proxy?.map (Proxy.translate τ) := by
  cases v <;> rfl

@[simp] theorem tensorProxy?_translate (v : Value) :
    (v.translate τ).tensorProxy? = v.tensorProxy?.map (TensorProxy.translate τ) := by
  cases v with
  | proxy p => cases p <;> rfl
  | _ => rfl

@[simp] theorem isSome_numberProxy?_translate (v : Value) :
    (v.translate τ).numberProxy?.isSome = v.numberProxy?.isSome := by
  cases v with
  | proxy p => cases p <;> rfl
  | _ => rfl

theorem matches_invalid {g : α → β} (op : String) (v : Value) :
    Matches g (v.invalid op) ((v.translate τ).invalid op) := .error rfl

theorem matches_kind (op : String) (v : Value) :
    Matches id (v.kind op) ((v.translate τ).kind op) := by
  cases v with
  | number n => exact .ok _
  | proxy p =>
    cases p with
    | number p => exact .ok _
    | _ => exact .error rfl
  | _ => exact .error rfl

/-- A known value is no name, and stays known. -/
theorem matches_known (op : String) (v : Value) :
    Matches id (v.known op) ((v.translate τ).known op) := by
  cases v with
  | number n => exact .ok _
  | proxy p =>
    cases p with
    | number p => exact .refl _
    | _ => exact .error rfl
  | _ => exact .error rfl

theorem matches_knownInt (op : String) (v : Value) :
    Matches id (v.knownInt op) ((v.translate τ).knownInt op) := by
  refine (v.matches_known τ op).bind fun n _ => ?_
  rw [id]
  split
  · exact .ok _
  · exact v.matches_invalid τ op

/-- What is computed natively is the same number, or fails for the same reason. -/
theorem matches_evaluate (op : BinaryOp) (a b : Value) :
    Matches id (evaluate op a b) (evaluate op (a.translate τ) (b.translate τ)) :=
  (a.matches_known τ op.name).bind fun _ _ => (b.matches_known τ op.name).bind fun _ _ => .refl _

end Value

theorem NumberProxy.matches_compared (op : BinaryOp) (v : Value) :
    Matches id (compared op v) (compared op (v.translate τ)) := by
  have hproxy (p : NumberProxy) : Matches id (compared op p) (compared op (p.translate τ)) := by
    simp only [compared, Value.numberProxy?, translate]
    cases p.value with
    | none => exact .error rfl
    | some n => exact .ok n
  cases v with
  | proxy p =>
    cases p with
    | number p => exact hproxy p
    | _ => exact .error rfl
  | number n => exact .ok n
  | _ => exact .error rfl

/-! ### Plans -/

namespace Plan

def translate : Plan → Plan
  | answer v => answer (v.translate τ)
  | draw k => draw k
  | record op args k => record op (args.map (Value.translate τ)) k
  | recordTwice op args k => recordTwice op (args.map (Value.translate τ)) k

theorem draws_translate (plan : Plan) : (plan.translate τ).draws = plan.draws := by
  cases plan <;> rfl

/-- A plan passes on the translations of what it was given. -/
theorem given_translate (plan : Plan) :
    (plan.translate τ).given = plan.given.map (Proxy.translate τ) := by
  cases plan with
  | answer v => exact v.proxies_translate τ
  | draw k => rfl
  | record op args k | recordTwice op args k =>
    rw [translate, given, given, ← Value.translateItems_eq_map, Value.itemProxies_translateItems]

/-- The symbols that a plan draws are translated by those of the other run. -/
theorem result_translate {symbol symbol' : Nat → Symbol}
    (h : ∀ j, symbol' j = (symbol j).translate τ) (plan : Plan) :
    (plan.translate τ).result symbol' = (plan.result symbol).translate τ := by
  cases plan <;> simp [translate, result, Value.translate, Value.translateItems, h]

theorem nodes_translate (output : Value) (plan : Plan) :
    (plan.translate τ).nodes (output.translate τ) = (plan.nodes output).map (Node.translate τ) := by
  cases plan <;>
    simp [translate, nodes, Node.ofCall, Node.translate, Value.toTerm_translate]

end Plan

end ProxyTrace
