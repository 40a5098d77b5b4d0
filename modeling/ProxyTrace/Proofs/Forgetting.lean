import ProxyTrace.Proofs.Dispatch
import ProxyTrace.Proofs.Recorder.Relabeling

/-!
# Operators and known values

`Value.forget` makes the known value of every proxy in a value unknown. While a recorder is active,
operators and indexing do on values as they do on what is left of them (`Value.on_unary_forget`,
`Value.on_binary_forget`, `Value.on_getItem_forget`). Comparison and logical operators are the
exception: they compute with known values if no operand is a proxy for a tensor.
-/

namespace ProxyTrace

/-- Owners as they are, and no value known. -/
def Relabeling.forget : Relabeling := ⟨Proxy.owner, fun _ => none⟩

def Value.forget (v : Value) : Value := v.relabel .forget

theorem Proxy.symbol_relabel_forget (p : Proxy) : (p.relabel .forget).symbol = p.symbol := by
  cases p <;> rfl

/-- Values that agree but for known values show the same. -/
theorem Value.toTerm_eq_of_forget_eq {v w : Value} (h : v.forget = w.forget) :
    v.toTerm = w.toTerm := by
  rw [← v.toTerm_relabel, ← w.toTerm_relabel]
  exact congrArg toTerm h

theorem Value.forget_tuple (items : List Value) : (tuple items).forget = tuple (items.map forget) :=
  congrArg tuple (relabelItems_eq_map items)

mutual

theorem Value.forget_forget : ∀ v : Value, v.forget.forget = v.forget
  | none | number _ | tensor _ | slice _ => rfl
  | proxy p => by cases p <;> rfl
  | tuple items => by rw [forget_tuple, forget_tuple, map_forget_forget items]

theorem Value.map_forget_forget : ∀ vs : List Value, (vs.map forget).map forget = vs.map forget
  | [] => rfl
  | v :: vs => by
    rw [List.map_cons, List.map_cons, v.forget_forget, map_forget_forget vs]

end

@[simp] theorem Value.tensorProxy?_forget (v : Value) : v.forget.tensorProxy? = v.tensorProxy? := by
  rw [forget, tensorProxy?_relabel]
  cases v.tensorProxy? <;> rfl

theorem Value.proxy?_forget_eq_none {v : Value} (h : v.proxy? = .none) :
    v.forget.proxy? = .none := by
  rw [forget, proxy?_relabel, h, Option.map_none]

@[simp] theorem Value.invalid_forget {α : Type} (op : String) (v : Value) :
    (v.forget.invalid op : Except Error α) = v.invalid op := v.invalid_relabel op

/-- Owners are checked whatever values are known. -/
theorem Workspace.checkOwners_forget (w : Workspace) (vs : List Value) :
    w.checkOwners (vs.map Value.forget) = w.checkOwners vs := by
  have h : (vs.map Value.forget).filterMap Value.proxy? =
      (vs.filterMap Value.proxy?).map (Proxy.relabel .forget) := by
    rw [List.filterMap_map, List.map_filterMap]
    exact congrArg (List.filterMap · vs) (funext Value.proxy?_relabel)
  rw [checkOwners, checkOwners, h]
  simp [Proxy.symbol_relabel_forget]

theorem WorkspaceM.checkOwners_forget (vs : List Value) :
    WorkspaceM.checkOwners (vs.map Value.forget) = WorkspaceM.checkOwners vs := by
  simp only [checkOwners, Workspace.checkOwners_forget]

open SessionM

variable {s : Session} {r : Recorder} {op : BinaryOp} {a b : Value}

namespace TensorProxy

variable (hc : s.context? = some r.context) (t : TensorProxy)

include hc

theorem on_binary_forget (op : BinaryOp) (b : Value) :
    (t.binary op b.forget).on s = (t.binary op b).on s := by
  have howners : WorkspaceM.checkOwners [b.forget] = WorkspaceM.checkOwners [b] :=
    WorkspaceM.checkOwners_forget [b]
  have hhook : r.context.binary op t b.forget = r.context.binary op t b :=
    r.context_binary_relabel (ρ := .forget) op t b
  rw [TensorProxy.binary, TensorProxy.binary, on_context_bind hc, on_context_bind hc, howners,
    hhook]

theorem on_reflected_forget (op : BinaryOp) (a : Value) :
    (t.reflected op a.forget).on s = (t.reflected op a).on s := by
  have howners : WorkspaceM.checkOwners [a.forget] = WorkspaceM.checkOwners [a] :=
    WorkspaceM.checkOwners_forget [a]
  have hhook : r.context.binary op a.forget t = r.context.binary op a t :=
    r.context_binary_relabel (ρ := .forget) op a t
  rw [reflected, reflected, on_context_bind hc, on_context_bind hc, howners, hhook]

theorem on_getItem_forget (key : Value) :
    (t.getItem key.forget).on s = (t.getItem key).on s := by
  have howners : WorkspaceM.checkOwners [key.forget] = WorkspaceM.checkOwners [key] :=
    WorkspaceM.checkOwners_forget [key]
  have hhook : r.context.getItem t key.forget = r.context.getItem t key :=
    r.getItem_relabel (ρ := .forget) t key
  rw [getItem, getItem, on_context_bind hc, on_context_bind hc, howners, hhook]

end TensorProxy

theorem NumberProxy.on_unary_forget (hc : s.context? = some r.context) (op : UnaryOp)
    (p : NumberProxy) : ((p : Value).forget.unary op).on s = ((p : Value).unary op).on s := by
  have hhook : r.context.unary op (p : Value).forget = r.context.unary op p :=
    r.context_unary_relabel op (p : Value)
  change (NumberProxy.unary op { p with value := none }).on s = (p.unary op).on s
  rw [NumberProxy.unary, NumberProxy.unary, on_bind_ok (on_context? s), on_bind_ok (on_context? s),
    hc]
  dsimp only
  rw [← hhook]
  rfl

/-- A comparison or logical operator has a tensor to compare. -/
def BinaryOp.Compares (op : BinaryOp) (a b : Value) : Prop :=
  (op.isComparison || op.isLogical) = true → a.tensorProxy?.isSome ∨ b.tensorProxy?.isSome

theorem NumberProxy.on_dispatch_forget (hc : s.context? = some r.context) (h : op.Compares a b)
    {p q : NumberProxy} (hname : q.name = p.name) :
    (q.dispatch op a.forget b.forget).on s = (p.dispatch op a b).on s := by
  rw [dispatch, dispatch, hname]
  by_cases hm : op = .matmul
  · rw [if_pos hm, if_pos hm]
  · rw [if_neg hm, if_neg hm]
    by_cases hop : (op.isComparison || op.isLogical) = true
    · rw [if_pos hop, if_pos hop, compareKnown, compareKnown, Value.tensorProxy?_forget,
        Value.tensorProxy?_forget]
      -- a tensor beside the number takes the operator over, and there is one
      cases hb : b.tensorProxy? with
      | some t => exact t.on_reflected_forget hc op a
      | none =>
        cases ha : a.tensorProxy? with
        | some t => exact t.on_binary_forget hc op b
        | none => exact absurd (h hop) (by simp [ha, hb])
    · have howners : WorkspaceM.checkOwners [a.forget, b.forget] = WorkspaceM.checkOwners [a, b] :=
        WorkspaceM.checkOwners_forget [a, b]
      have hhook : r.context.binary op a.forget b.forget = r.context.binary op a b :=
        r.context_binary_relabel op a b
      rw [if_neg hop, if_neg hop, on_bind_ok (on_context? s), on_bind_ok (on_context? s), hc]
      dsimp only
      rw [howners, hhook]

namespace Value

theorem on_unary_forget (hc : s.context? = some r.context) (op : UnaryOp) (a : Value) :
    (a.forget.unary op).on s = (a.unary op).on s := by
  cases a with
  | proxy p =>
    cases p with
    | number p => exact p.on_unary_forget hc op
    | _ => rfl
  | tuple items =>
    have hinvalid : ((tuple items).forget.invalid op.name : Except Error Value) =
        (tuple items).invalid op.name := invalid_forget ..
    exact congrArg (fun x : Except Error Value => (liftM x : SessionM Value).on s) hinvalid
  | _ => rfl

/-- Without a proxy among the operands there is nothing to forget but inside of tuples. -/
theorem binary_forget_of_proxy?_eq_none (ha : a.proxy? = .none) (hb : b.proxy? = .none) :
    a.forget.binary op b.forget = a.binary op b := by
  have hinvalid (v : Value) : (v.forget.invalid op.name : Except Error Value) = v.invalid op.name :=
    v.invalid_relabel op.name
  cases a with
  | proxy p => cases ha
  | number x =>
    cases b with
    | proxy p => cases hb
    | tuple items => exact congrArg liftM (hinvalid (tuple items))
    | _ => rfl
  | tuple items =>
    cases b with
    | proxy p => cases hb
    | _ => exact congrArg liftM (hinvalid (tuple items))
  | _ =>
    cases b with
    | proxy p => cases hb
    | _ => rfl

/-- The operand that decides is the same, and the recorder sees the same of both. -/
theorem on_binary_forget (hc : s.context? = some r.context) (h : op.Compares a b) :
    (a.forget.binary op b.forget).on s = (a.binary op b).on s := by
  cases ha : a.proxy? with
  | some p =>
    obtain rfl := eq_of_proxy? ha
    cases p with
    | untyped σ => rfl
    | number p => exact NumberProxy.on_dispatch_forget hc h rfl
    | tensor t => exact t.on_binary_forget hc op b
  | none =>
    cases hb : b.proxy? with
    | none => rw [binary_forget_of_proxy?_eq_none ha hb]
    | some p =>
      obtain rfl := eq_of_proxy? hb
      have hforget : a.forget.binary op (proxy p).forget =
          (p.relabel .forget).reflected op a.forget :=
        binary_proxy_right (proxy?_forget_eq_none ha)
      rw [hforget, binary_proxy_right ha]
      cases p with
      | untyped σ => rfl
      | number p => exact NumberProxy.on_dispatch_forget hc h rfl
      | tensor t => exact t.on_reflected_forget hc op a

theorem on_getItem_forget (hc : s.context? = some r.context) (a key : Value) :
    (a.forget.getItem key.forget).on s = (a.getItem key).on s := by
  cases a with
  | proxy p =>
    cases p with
    | tensor t => exact t.on_getItem_forget hc key
    | _ => rfl
  | tuple items =>
    have hdescribe : (tuple items).forget.describe = (tuple items).describe := describe_relabel ..
    change on (throw (.unsupportedOperation "get_item" (tuple items).forget.describe)) s = _
    rw [hdescribe]
    rfl
  | _ => rfl

end Value

end ProxyTrace
