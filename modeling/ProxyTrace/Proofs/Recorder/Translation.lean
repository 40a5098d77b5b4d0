import ProxyTrace.Proofs.Recorder.Plan
import ProxyTrace.Proofs.Translation

/-!
# A recorder and translations

The plan for a call on translated operands is the translated plan: from its operands a recorder
derives kinds, shapes and element types, and passes them on to the node as they are
(`Recorder.matches_planUnary` and the following, one for each call).
-/

namespace ProxyTrace

variable (τ : Translation)

/-- Keys select by what they are, and a key that is refused is so under any name. -/
theorem Shape.matches_select (rank : Nat) (keys : List Value) (shape : List Nat) :
    Matches id (select rank keys shape) (select rank (keys.map (Value.translate τ)) shape) := by
  induction keys generalizing shape with
  | nil => cases shape <;> exact .ok _
  | cons key keys ih =>
    cases shape with
    | nil =>
      cases key with
      | none => exact (ih []).map fun _ => rfl
      | _ => exact .error rfl
    | cons len shape =>
      cases key with
      | none => exact (ih (len :: shape)).map fun _ => rfl
      | slice s => exact .bind_same fun n _ => (ih shape).map fun _ => rfl
      | number i => exact .bind_same fun i _ => .bind_same fun _ _ => ih shape
      | proxy p =>
        refine ((Value.proxy p).matches_kind τ "get_item").bind fun k _ => ?_
        rw [id]
        split
        · exact ih shape
        · exact Value.matches_invalid τ _ _
      | tensor s => exact .error rfl
      | tuple items => exact .error rfl

namespace Recorder

theorem matches_checkScalar (op : BinaryOp) (v : Value) :
    Matches id (checkScalar op v) (checkScalar op (v.translate τ)) := by
  unfold checkScalar
  refine Matches.bind (g := id) ?_ fun _ _ => .refl _
  exact (v.matches_kind τ op.name).map fun _ => rfl

/-- An operator with two results records them in one node, under any names. -/
theorem translate_planResults (op : BinaryOp) (args : List Value) (k : Sketch) :
    (planResults op args k).translate τ = planResults op (args.map (Value.translate τ)) k := by
  unfold planResults
  split <;> rfl

theorem matches_planUnary (op : UnaryOp) (a : Value) :
    Matches (Plan.translate τ) (planUnary op a) (planUnary op (a.translate τ)) := by
  cases a with
  | number n => exact .bind_same fun _ _ => .ok _
  | proxy p =>
    cases p with
    | untyped σ => exact .error rfl
    | number p => exact .bind_same fun _ _ => .ok _
    | tensor t => exact .bind_same fun _ _ => .ok _
  | _ => exact .error rfl

/-- The result is like one of the tensors, of which names are no part. -/
theorem matches_planBinaryTensor (op : BinaryOp) (a b : Value) (like : TensorProxy)
    (shape : List Nat) :
    Matches (Plan.translate τ) (planBinaryTensor op a b like shape)
      (planBinaryTensor op (a.translate τ) (b.translate τ) (like.translate τ) shape) := by
  exact .bind_same fun k _ => .ok_of_eq (translate_planResults τ op [a, b] k)

/-- Which tensor the result is like, or that there is none, is the same after a translation. -/
theorem matches_planBinary (op : BinaryOp) (a b : Value) :
    Matches (Plan.translate τ) (planBinary op a b)
      (planBinary op (a.translate τ) (b.translate τ)) := by
  simp only [planBinary, Value.tensorProxy?_translate, Value.isSome_numberProxy?_translate]
  cases a.tensorProxy? with
  | some t =>
    cases b.tensorProxy? with
    | some u => exact .bind_same fun _ _ => matches_planBinaryTensor τ op a b t _
    | none =>
      exact (matches_checkScalar τ op b).bind fun _ _ => matches_planBinaryTensor τ op a b t _
  | none =>
    cases b.tensorProxy? with
    | some u =>
      exact (matches_checkScalar τ op a).bind fun _ _ => matches_planBinaryTensor τ op a b u _
    | none =>
      dsimp only [Option.map_none]
      split
      · refine (a.matches_kind τ op.name).bind fun j _ => ?_
        refine (b.matches_kind τ op.name).bind fun k _ => .bind_same fun kind _ => ?_
        exact .ok_of_eq (translate_planResults τ op [a, b] (.number kind none))
      · refine (Value.matches_evaluate τ op a b).bind fun v hv => ?_
        have hv := Value.translate_of_proxies_eq_nil τ (Value.proxies_of_evaluate hv)
        exact .ok_of_eq (congrArg Plan.answer hv)

theorem matches_planReshaped (op : String) (args : List Value) (t : TensorProxy)
    (shape : List Nat) :
    Matches (Plan.translate τ) (planReshaped op args t shape)
      (planReshaped op (args.map (Value.translate τ)) (t.translate τ) shape) :=
  .bind_same fun _ _ => .ok _

/-- The keys in a tuple are translated one by one. -/
theorem keys_translate (key : Value) :
    keys (key.translate τ) = (keys key).map (Value.translate τ) := by
  cases key with
  | tuple items => exact Value.translateItems_eq_map τ items
  | _ => rfl

theorem matches_planGetItem (a key : Value) :
    Matches (Plan.translate τ) (planGetItem a key)
      (planGetItem (a.translate τ) (key.translate τ)) := by
  cases a with
  | proxy p =>
    cases p with
    | tensor t =>
      have hselect := Shape.matches_select τ t.ndim (keys key) t.shape
      rw [← keys_translate] at hselect
      exact hselect.bind fun shape _ => matches_planReshaped τ "get_item" [_, key] t shape
    | _ => exact .error rfl
  | _ => exact .error rfl

/-! ### Methods -/

variable (args : List Value)

/-- A method is called on a tensor, or fails on what else comes first. -/
theorem matches_receiver (op : String) :
    Matches (TensorProxy.translate τ) (receiver op args)
      (receiver op (args.map (Value.translate τ))) := by
  cases args with
  | nil => exact .error rfl
  | cons v vs =>
    cases v with
    | proxy p =>
      cases p with
      | tensor t => exact .ok t
      | _ => exact .error rfl
    | _ => exact .error rfl

theorem matches_planElementwise (op : String) :
    Matches (Plan.translate τ) (planElementwise op args)
      (planElementwise op (args.map (Value.translate τ))) :=
  (matches_receiver τ args op).bind fun _ _ => .bind_same fun _ _ => .ok _

theorem matches_planReduction (op : String) :
    Matches (Plan.translate τ) (planReduction op args)
      (planReduction op (args.map (Value.translate τ))) := by
  refine (matches_receiver τ args op).bind fun t _ => ?_
  rw [List.getElem?_map]
  cases args[1]? with
  | some dim =>
    refine (dim.matches_knownInt τ op).bind fun i _ => .bind_same fun axis _ => ?_
    exact matches_planReshaped τ op args t _
  | none => exact matches_planReshaped τ op args t []

/-- The extents are given one by one or as one tuple, whose items are translated too. -/
theorem extents_translate (dims : List Value) :
    extents (dims.map (Value.translate τ)) = (extents dims).map (Value.translate τ) := by
  cases dims with
  | nil => rfl
  | cons dim dims =>
    cases dims with
    | nil =>
      cases dim with
      | tuple items => exact Value.translateItems_eq_map τ items
      | _ => rfl
    | cons dim' dims => cases dim <;> rfl

theorem matches_mapM_knownInt (op : String) (dims : List Value) :
    Matches id (dims.mapM (Value.knownInt op))
      ((dims.map (Value.translate τ)).mapM (Value.knownInt op)) := by
  induction dims with
  | nil => exact .ok _
  | cons dim dims ih =>
    rw [List.map_cons, List.mapM_cons, List.mapM_cons]
    exact (dim.matches_knownInt τ op).bind fun _ _ => ih.map fun _ => rfl

theorem matches_planReshape :
    Matches (Plan.translate τ) (planReshape args)
      (planReshape (args.map (Value.translate τ))) := by
  refine (matches_receiver τ args "reshape").bind fun t _ => ?_
  have hextents := matches_mapM_knownInt τ "reshape" (extents (args.drop 1))
  rw [← extents_translate, List.map_drop] at hextents
  refine hextents.bind fun shape _ => ?_
  exact .ite .rfl (fun _ => .bind_same fun _ _ => .ok _) fun _ => .error rfl

theorem matches_planTranspose :
    Matches (Plan.translate τ) (planTranspose args)
      (planTranspose (args.map (Value.translate τ))) := by
  refine (matches_receiver τ args "t").bind fun t _ => ?_
  exact .ite .rfl (fun _ => .error rfl) fun _ => matches_planReshaped τ "t" args t _

/-- Which method it is, is said by its own name, and that is not translated. -/
theorem matches_planMethod {name : String} {plan : List Value → Except Error Plan}
    (h : planMethod? name = some plan) :
    Matches (Plan.translate τ) (plan args) (plan (args.map (Value.translate τ))) := by
  unfold planMethod? at h
  split at h <;> cases h
  · exact matches_planElementwise τ args _
  · exact matches_planElementwise τ args _
  · exact matches_planElementwise τ args _
  · exact matches_planReduction τ args _
  · exact matches_planReduction τ args _
  · exact matches_planReshape τ args
  · exact matches_planTranspose τ args

end Recorder

end ProxyTrace
