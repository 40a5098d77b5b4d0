import ProxyTrace.Proofs.Relabeling
import ProxyTrace.Recorder.Context

/-!
# A recorder and relabelings

Operators and indexing are recorded in the same way whatever the owners of the proxies and the
values that are known of them (`Recorder.unary_relabel`, `Recorder.binary_relabel`,
`Recorder.getItem_relabel`): from its operands a recorder derives kinds, shapes and element types,
and terms.
-/

namespace ProxyTrace

variable {ρ : Relabeling}

/-- An index by a proxy selects by its kind alone, which a relabeling keeps. -/
theorem Shape.select_relabel (rank : Nat) (keys : List Value) (shape : List Nat) :
    select rank (keys.map (Value.relabel ρ)) shape = select rank keys shape := by
  induction keys generalizing shape with
  | nil => rfl
  | cons key keys ih =>
    cases shape with
    | nil => cases key <;> simp only [List.map_cons, Value.relabel, select, ih]
    | cons len shape =>
      cases key with
      | proxy p =>
        have hkind : (Value.proxy (p.relabel ρ)).kind "get_item" =
            (Value.proxy p).kind "get_item" := Value.kind_relabel "get_item" (.proxy p)
        have hinvalid :
            ((Value.proxy (p.relabel ρ)).invalid "get_item" : Except Error (List Nat)) =
              (Value.proxy p).invalid "get_item" := Value.invalid_relabel "get_item" (.proxy p)
        simp only [List.map_cons, Value.relabel, select, ih, hkind, hinvalid]
      | tuple items =>
        have hkind : (Value.tuple (Value.relabelItems ρ items)).kind "get_item" =
            (Value.tuple items).kind "get_item" := Value.kind_relabel "get_item" (.tuple items)
        simp only [List.map_cons, Value.relabel, select, hkind]
        rfl
      | _ => simp only [List.map_cons, Value.relabel, select, ih]

namespace Recorder

variable (r : Recorder)

/-- A node holds terms, and so names of proxies only. -/
theorem record_relabel (op : String) (args : List Value) (output : Value) :
    WorkspaceM.record r op (args.map (Value.relabel ρ)) output =
      WorkspaceM.record r op args output := by
  have h : (args.map (Value.relabel ρ)).map Value.toTerm = args.map Value.toTerm := by
    rw [List.map_map]
    exact List.map_congr_left fun v _ => v.toTerm_relabel
  simp only [WorkspaceM.record, Node.ofCall, h]

theorem keys_relabel (key : Value) : keys (key.relabel ρ) = (keys key).map (Value.relabel ρ) := by
  cases key with
  | tuple items => exact Value.relabelItems_eq_map items
  | _ => rfl

/-- Indexing looks at the shape of the tensor, at kinds in the key, and at native numbers there. -/
theorem getItem_relabel (a key : Value) :
    r.getItem (a.relabel ρ) (key.relabel ρ) = r.getItem a key := by
  cases a with
  | proxy p =>
    cases p with
    | tensor t =>
      have hrecord (output : Value) :
          WorkspaceM.record r "get_item" [(t.relabel ρ : Value), key.relabel ρ] output =
            WorkspaceM.record r "get_item" [(t : Value), key] output :=
        r.record_relabel "get_item" [t, key] output
      simp only [getItem, Value.relabel, Proxy.relabel, keys_relabel, Shape.select_relabel, hrecord]
      rfl
    | _ => rfl
  | tuple items =>
    have hdescribe : (Value.tuple (Value.relabelItems ρ items)).describe =
        (Value.tuple items).describe := Value.describe_relabel (.tuple items)
    simp only [getItem, Value.relabel, hdescribe]
  | _ => rfl

/-- The result is derived from the kind of a number, or the shape and element type of a tensor. -/
theorem unary_relabel (op : UnaryOp) (a : Value) : r.unary op (a.relabel ρ) = r.unary op a := by
  have hrecord (output : Value) : WorkspaceM.record r op.name [a.relabel ρ] output =
      WorkspaceM.record r op.name [a] output := r.record_relabel op.name [a] output
  cases a with
  | proxy p =>
    rw [Value.relabel] at hrecord ⊢
    cases p with
    | untyped s => rfl
    | number p =>
      rw [Proxy.relabel] at hrecord ⊢
      simp only [unary, hrecord]
    | tensor t =>
      rw [Proxy.relabel] at hrecord ⊢
      simp only [unary, hrecord]
      rfl
  | tuple items =>
    have hinvalid : ((Value.tuple (Value.relabelItems ρ items)).invalid op.name :
        Except Error Value) = (Value.tuple items).invalid op.name :=
      Value.invalid_relabel op.name (.tuple items)
    simp only [unary, Value.relabel, hinvalid]
  | _ => rfl

theorem checkScalar_relabel (op : BinaryOp) (v : Value) :
    checkScalar op (v.relabel ρ) = checkScalar op v := by
  rw [checkScalar, checkScalar, Value.kind_relabel]

theorem binaryTensor_relabel (op : BinaryOp) (a b : Value) (t : TensorProxy) (shape : List Nat) :
    r.binaryTensor op (a.relabel ρ) (b.relabel ρ) (t.relabel ρ) shape =
      r.binaryTensor op a b t shape := by
  have hrecord (output : Value) : WorkspaceM.record r op.name [a.relabel ρ, b.relabel ρ] output =
      WorkspaceM.record r op.name [a, b] output := r.record_relabel op.name [a, b] output
  simp only [binaryTensor, hrecord]
  rfl

/-- Without a number proxy it is native numbers that are computed with, and these have no label. -/
theorem evaluate_relabel (op : BinaryOp) {a b : Value}
    (h : (a.numberProxy?.isSome || b.numberProxy?.isSome) = false) :
    Value.evaluate op (a.relabel ρ) (b.relabel ρ) = Value.evaluate op a b := by
  rw [Bool.or_eq_false_iff, Option.isSome_eq_false_iff, Option.isSome_eq_false_iff,
    Option.isNone_iff_eq_none, Option.isNone_iff_eq_none] at h
  rw [Value.evaluate, Value.evaluate, Value.known_relabel _ h.1, Value.known_relabel _ h.2]

theorem binary_relabel (op : BinaryOp) (a b : Value) :
    r.binary op (a.relabel ρ) (b.relabel ρ) = r.binary op a b := by
  simp only [binary, Value.tensorProxy?_relabel]
  cases a.tensorProxy? with
  | some t =>
    cases b.tensorProxy? with
    | some u =>
      simp only [Option.map_some, binaryTensor_relabel]
      rfl
    | none =>
      simp only [Option.map_some, Option.map_none, binaryTensor_relabel, checkScalar_relabel]
      rfl
  | none =>
    cases b.tensorProxy? with
    | some u =>
      simp only [Option.map_some, Option.map_none, binaryTensor_relabel, checkScalar_relabel]
      rfl
    | none =>
      have hrecord (output : Value) :
          WorkspaceM.record r op.name [a.relabel ρ, b.relabel ρ] output =
            WorkspaceM.record r op.name [a, b] output := r.record_relabel op.name [a, b] output
      simp only [Option.map_none, Value.isSome_numberProxy?_relabel, Value.kind_relabel, hrecord]
      by_cases h : (a.numberProxy?.isSome || b.numberProxy?.isSome) = true
      · rw [if_pos h, if_pos h]
      · rw [if_neg h, if_neg h, evaluate_relabel op (Bool.eq_false_iff.2 h)]

/-- The context of a recorder comes to its generic hooks, and so to the same. -/
theorem context_unary_relabel (op : UnaryOp) (a : Value) :
    r.context.unary op (a.relabel ρ) = r.context.unary op a := by
  rw [unary_context, unary_relabel]

theorem context_binary_relabel (op : BinaryOp) (a b : Value) :
    r.context.binary op (a.relabel ρ) (b.relabel ρ) = r.context.binary op a b := by
  rw [binary_context, binary_relabel]

end Recorder

end ProxyTrace
