import ProxyTrace.Proofs.Instruction
import ProxyTrace.Proofs.ValuePlan

/-!
# Scripts

A script works on registers by commands: instructions and methods, and constructions of proxies
without requesting names. What comes next may hang on all that an outcome shows besides names and
owners: on the answer without them, or on the kind of the failure, after which the script goes on.

While a recorder is active, and the innermost trace owns all proxies in its operands, a command
carries out a plan that is made from the operands alone (`Script.Command.on_run_eq`). The plan for
translated operands is the translated plan (`Script.Command.matches_plan`).
-/

namespace ProxyTrace

variable {α β γ : Type} {n : Nat} {s : Session} {t : Trace} {r : Recorder}

open SessionM

namespace Script

/-- A value without proxies. -/
abbrev Literal := { v : Value // v.proxies = [] }

/-- What a step of a script does, on operands of a type. -/
inductive Command (α : Type) where
  | operate (i : Instruction α)
  /-- The method of a tensor proxy, looked up in the active context and called. -/
  | method (a : α) (name : String) (args : List α)
  | makeUntyped
  | makeNumber (kind : NumberKind) (value : Option Number)
  /-- A tensor proxy, from the given fields and those of another tensor proxy. -/
  | makeTensor (like : Option α) (shape : Option (List Int64))
    (device : Option (Except Error Device)) (dtype : Option (Except Error DType))
  | lift (a : α)

/-- The tensor that is given like another. -/
def spec (like : Option Value) (shape : Option (List Int64))
    (device : Option (Except Error Device)) (dtype : Option (Except Error DType)) : TensorSpec :=
  { like := like.bind Value.tensorProxy?, shape, device, dtype }

namespace Command

def map (f : α → β) : Command α → Command β
  | operate i => operate (i.map f)
  | method a name args => method (f a) name (args.map f)
  | makeUntyped => makeUntyped
  | makeNumber kind value => makeNumber kind value
  | makeTensor like shape device dtype => makeTensor (like.map f) shape device dtype
  | lift a => lift (f a)

def operands : Command α → List α
  | operate i => i.operands
  | method a _ args => a :: args
  | makeUntyped | makeNumber .. => []
  | makeTensor like .. => like.toList
  | lift a => [a]

@[simp] theorem operands_map (f : α → β) (c : Command α) :
    (c.map f).operands = c.operands.map f := by
  cases c with
  | operate i => exact i.operands_map f
  | makeTensor like _ _ _ => cases like <;> rfl
  | _ => rfl

theorem map_map (g : β → γ) (f : α → β) (c : Command α) :
    (c.map f).map g = c.map fun a => g (f a) := by
  cases c with
  | operate i => exact congrArg operate (i.map_map g f)
  | method a name args => exact congrArg (method _ name) (List.map_map ..)
  | makeTensor like shape device dtype =>
    exact congrArg (makeTensor · shape device dtype) (Option.map_map ..)
  | _ => rfl

theorem map_eq_self {f : α → α} {c : Command α} (h : ∀ a ∈ c.operands, f a = a) :
    c.map f = c := by
  cases c with
  | operate i => exact congrArg operate (Instruction.map_eq_self h)
  | method a name args =>
    have hargs := (List.map_congr_left fun a ha => h a (.tail _ ha)).trans (List.map_id args)
    rw [map, h a (.head _), hargs]
  | makeTensor like shape device dtype =>
    cases like with
    | none => rfl
    | some a => rw [map, Option.map_some, h a (.head _)]
  | lift a => rw [map, h a (.head _)]
  | _ => rfl

def run : Command Value → SessionM Value
  | operate i => i.run
  | method a name args =>
    match a.tensorProxy? with
    | some t => do (← t.attribute name).call args
    | none => a.invalid "attr"
  | makeUntyped => do return .proxy (← Proxy.makeUntyped)
  | makeNumber kind value => do return (← NumberProxy.make kind value : Value)
  | makeTensor like shape device dtype => do return (← (spec like shape device dtype).build : Value)
  | lift a => ProxyTrace.lift a

end Command

end Script

/-- The answer as what comes next sees it: all proxies have one name and one owner. -/
def Value.anonymous (v : Value) : Value := v.translate ⟨fun _ => "", fun _ => ⟨0⟩⟩

theorem Value.anonymous_translate (τ : Translation) (v : Value) :
    (v.translate τ).anonymous = v.anonymous := v.translate_translate τ _

/-- A program of which `n` registers are filled. -/
inductive Script : Nat → Type where
  | done {n : Nat} : Script n
  /-- A command, and what comes after its answer, which fills a register, or its failure. -/
  | step {n : Nat} (c : Script.Command (Argument Script.Literal n)) (next : Value → Script (n + 1))
    (caught : Nat → Script n) : Script n

/-- The outcomes of all steps. -/
def Script.run {n : Nat} (ρ : Registers Value n) :
    Script n → StateM Session (List (Except Error Value))
  | done => return []
  | step c next caught => do
    match ← SessionM.attempt (c.map (·.read Subtype.val ρ)).run with
    | .ok v => return .ok v :: (← (next v.anonymous).run (ρ.push v))
    | .error e => return .error e :: (← (caught e.kind).run ρ)

/-! ### The plan of a command -/

def Instruction.plan : Instruction Value → Except Error Plan
  | unary op a => a.planUnary op
  | binary op a b => a.planBinary op b
  | getItem a key => Recorder.planGetItem a key
  | tuple items => return .answer (.tuple items)
  | item i a => do return .answer (← a.item i)

/-- An instruction carries out its plan. -/
theorem Instruction.on_run_eq (hc : s.context? = some r.context)
    (ht : s.workspace.active? = some t) {i : Instruction Value}
    (howned : ∀ v ∈ i.operands, ∀ p ∈ v.proxies, p.owner = t.id) :
    i.run.on s = on (liftM (Plan.carryOut r i.plan)) s := by
  cases i with
  | unary op a => exact Value.on_unary_eq hc ht op (howned a (.head _))
  | binary op a b =>
    exact Value.on_binary_eq hc ht op (howned a (.head _)) (howned b (.tail _ (.head _)))
  | getItem a key =>
    exact Value.on_getItem_eq hc ht (howned a (.head _)) (howned key (.tail _ (.head _)))
  | tuple items => rfl
  | item i a => exact (Plan.on_carryOut_answer r _ s).symm

namespace Script.Command

def plan : Command Value → Except Error Plan
  | operate i => i.plan
  | method a name args => a.planMethod name args
  | makeUntyped => return .draw .untyped
  | makeNumber kind value => Value.planNumber kind value
  | makeTensor like shape device dtype => do return .draw (← (spec like shape device dtype).sketch)
  | lift a => a.planLift

/-- A command carries out its plan. -/
theorem on_run_eq (hc : s.context? = some r.context) (ht : s.workspace.active? = some t)
    {c : Command Value} (howned : ∀ v ∈ c.operands, ∀ p ∈ v.proxies, p.owner = t.id) :
    c.run.on s = on (liftM (Plan.carryOut r c.plan)) s := by
  cases c with
  | operate i => exact Instruction.on_run_eq hc ht howned
  | method a name args => exact Value.on_method_eq hc ht name _ (howned a (.head _))
  | makeUntyped => exact on_makeUntyped_eq s
  | makeNumber kind value => exact on_makeNumber_eq r kind value s
  | makeTensor like shape device dtype => exact on_build_eq r rfl s
  | lift a => exact on_lift_eq hc a

end Script.Command

/-! ### Plans for translated operands -/

section Translation

variable (τ : Translation)

theorem Value.matches_item (i : Nat) (v : Value) :
    Matches (translate τ) (v.item i) ((v.translate τ).item i) := by
  cases v with
  | tuple items =>
    rw [translate, translateItems_eq_map, item, item, List.getElem?_map]
    cases items[i]? with
    | none => exact .error rfl
    | some v => exact .ok v
  | _ => exact .error rfl

theorem Instruction.matches_plan (i : Instruction Value) :
    Matches (Plan.translate τ) i.plan (i.map (Value.translate τ)).plan := by
  cases i with
  | unary op a => exact Value.matches_planUnary τ op a
  | binary op a b => exact Value.matches_planBinary τ op a b
  | getItem a key => exact Recorder.matches_planGetItem τ a key
  | tuple items =>
    rw [map, plan, plan, ← Value.translateItems_eq_map]
    exact .ok _
  | item i a => exact (Value.matches_item τ i a).map fun _ => rfl

namespace Script

/-- What is like a tensor has its shape, device and element type, where they are not given. -/
theorem resolve_spec_translate (like : Option Value) (shape : Option (List Int64))
    (device : Option (Except Error Device)) (dtype : Option (Except Error DType)) :
    (spec (like.map (Value.translate τ)) shape device dtype).resolve =
      (spec like shape device dtype).resolve := by
  cases like with
  | none => rfl
  | some v =>
    simp only [spec, Option.map_some, Option.bind_some, Value.tensorProxy?_translate]
    cases v.tensorProxy? with
    | none => rfl
    | some u => cases shape <;> cases device <;> cases dtype <;> rfl

/-- The plan for translated operands is the translated plan. -/
theorem Command.matches_plan (c : Command Value) :
    Matches (Plan.translate τ) c.plan (c.map (Value.translate τ)).plan := by
  cases c with
  | operate i => exact i.matches_plan τ
  | method a name args => exact Value.matches_planMethod τ name a args
  | makeUntyped => exact .ok _
  | makeNumber kind value => exact .bind_same fun _ _ => .ok _
  | makeTensor like shape device dtype =>
    rw [map, plan, plan, TensorSpec.sketch, TensorSpec.sketch, resolve_spec_translate]
    exact .bind_same fun _ _ => .ok _
  | lift a => exact Value.matches_planLift τ a

/-- A translation of the registers translates what a command is applied to. -/
theorem Command.map_read_translate (ρ : Registers Value n) (c : Command (Argument Literal n)) :
    c.map (·.read Subtype.val fun i => (ρ i).translate τ) =
      (c.map (·.read Subtype.val ρ)).map (Value.translate τ) := by
  rw [c.map_map]
  refine congrArg c.map (funext fun a => ?_)
  exact a.rel_read (R := fun v w : Value => v = w.translate τ)
    (fun c => (c.val.translate_of_proxies_eq_nil τ c.property).symm) fun _ => rfl

end Script

end Translation

namespace Script

/-- A plan is given proxies of the operands only. -/
theorem Command.given_plan {names : List Name} {id : TraceId} {c : Command Value} {plan : Plan}
    (h : ∀ v ∈ c.operands, ∀ p ∈ v.proxies, p.name ∈ names ∧ p.owner = id)
    (hplan : c.plan = .ok plan) : ∀ p ∈ plan.given, p.name ∈ names ∧ p.owner = id := by
  intro p hp
  -- a translation that leaves the operands as they are leaves the plan as it is
  have hfixed (f : Name → Name) (hf : ∀ n ∈ names, f n = n) :
      (⟨f p.name, id⟩ : Symbol) = p.symbol := by
    have hoperands : c.map (Value.translate ⟨f, fun _ => id⟩) = c := by
      refine map_eq_self fun v hv => Value.translate_eq_self fun q hq => Proxy.translate_eq_self ?_
      obtain ⟨hname, howner⟩ := h v hv q hq
      rw [Symbol.translate, ← howner]
      exact congrArg (Symbol.mk · q.owner) (hf q.name hname)
    have hmatches := c.matches_plan ⟨f, fun _ => id⟩
    rw [hoperands, hplan] at hmatches
    have hgiven := plan.given_translate ⟨f, fun _ => id⟩
    rw [hmatches.eq_of_ok] at hgiven
    have hp := List.map_inj_left.1 (hgiven.symm.trans (List.map_id _).symm) p hp
    exact (p.symbol_translate ⟨f, fun _ => id⟩).symm.trans (congrArg Proxy.symbol hp)
  constructor
  · refine Classical.byContradiction fun hname => ?_
    obtain ⟨m, hm⟩ : ∃ m : Name, m ≠ p.name := by
      by_cases hempty : p.name = ""
      · exact ⟨"t", by rw [hempty]; decide⟩
      · exact ⟨"", Ne.symm hempty⟩
    have hrenamed := congrArg Symbol.name
      (hfixed (fun n => if n ∈ names then n else m) fun n hn => if_pos hn)
    exact hm ((if_neg hname).symm.trans hrenamed)
  · exact (congrArg Symbol.owner (hfixed (fun n => n) fun _ _ => rfl)).symm

end Script

end ProxyTrace
