import ProxyTrace.Proofs.Dispatch
import ProxyTrace.Proofs.Recorder.Recording
import ProxyTrace.Proofs.Recorder.Relabeling

/-!
# Recorded proxies and their owners

A recorder does not look at owners: a part of a tensor (`Recorder.getItem_ownedBy`) and a call of a
method (`Recorder.method?_ownedBy`) are the same with all proxies, at any depth, in the hands of any
trace. What keeps a foreign proxy out of the graph is the check on the way to the recorder alone,
and that one is made for a tensor and its key, but neither inside a key nor for what a bound method
is called with.
-/

namespace ProxyTrace

variable {α β : Type} {id : TraceId}

namespace Recorder

variable (r : Recorder)

theorem record_ownedBy (op : String) (args : List Value) (output : Value) :
    WorkspaceM.record r op (args.map (Value.ownedBy id)) output =
      WorkspaceM.record r op args output := by
  rw [Value.map_ownedBy, record_relabel]

theorem extents_ownedBy (dims : List Value) :
    extents (dims.map (Value.ownedBy id)) = (extents dims).map (Value.ownedBy id) := by
  obtain _ | ⟨v, _ | ⟨w, dims⟩⟩ := dims
  · rfl
  · cases v with
    | tuple items => exact Value.itemsOwnedBy_eq_map items
    | _ => rfl
  · cases v <;> rfl

theorem getItem_ownedBy (a key : Value) :
    r.getItem (a.ownedBy id) (key.ownedBy id) = r.getItem a key := by
  rw [Value.ownedBy_eq_relabel, Value.ownedBy_eq_relabel, getItem_relabel]

theorem receiver_ownedBy (op : String) (args : List Value) :
    receiver op (args.map (Value.ownedBy id)) =
      (receiver op args).map (TensorProxy.ownedBy id) := by
  cases args with
  | nil => rfl
  | cons v args =>
    cases v with
    | proxy p => cases p <;> rfl
    | tuple items => exact Value.invalid_ownedBy op (.tuple items)
    | _ => rfl

theorem elementwise_ownedBy (op : String) (args : List Value) :
    r.elementwise op (args.map (Value.ownedBy id)) = r.elementwise op args := by
  simp only [elementwise, receiver_ownedBy, record_ownedBy]
  cases receiver op args <;> rfl

theorem reduction_ownedBy (op : String) (args : List Value) :
    r.reduction op (args.map (Value.ownedBy id)) = r.reduction op args := by
  simp only [reduction, receiver_ownedBy, record_ownedBy, List.getElem?_map]
  cases receiver op args with
  | error e => rfl
  | ok t =>
    cases args[1]? with
    | none => rfl
    | some dim =>
      simp only [Option.map_some, Value.knownInt_ownedBy]
      rfl

theorem mapM_knownInt_ownedBy (op : String) (vs : List Value) :
    (vs.map (Value.ownedBy id)).mapM (Value.knownInt op) = vs.mapM (Value.knownInt op) := by
  simp only [List.mapM_map, Function.comp_def, Value.knownInt_ownedBy]

theorem reshape_ownedBy (args : List Value) :
    r.reshape (args.map (Value.ownedBy id)) = r.reshape args := by
  simp only [reshape, receiver_ownedBy, record_ownedBy]
  cases receiver "reshape" args with
  | error e => rfl
  | ok t =>
    rw [← List.map_drop, extents_ownedBy, mapM_knownInt_ownedBy]
    rfl

theorem transpose_ownedBy (args : List Value) :
    r.transpose (args.map (Value.ownedBy id)) = r.transpose args := by
  simp only [transpose, receiver_ownedBy, record_ownedBy]
  cases receiver "t" args <;> rfl

theorem method?_ownedBy {name : String} {f : Method} (hf : r.method? name = some f)
    (args : List Value) : f (args.map (Value.ownedBy id)) = f args := by
  unfold method? at hf
  split at hf <;> cases hf
  · exact r.elementwise_ownedBy _ args
  · exact r.elementwise_ownedBy _ args
  · exact r.elementwise_ownedBy _ args
  · exact r.reduction_ownedBy _ args
  · exact r.reduction_ownedBy _ args
  · exact r.reshape_ownedBy args
  · exact r.transpose_ownedBy args

end Recorder

/-! ### What the guard lets through -/

open SessionM

variable {s : Session} {t : Trace}

/-- The same method on the same receiver, whose proxies are in the hands of one trace. -/
def BoundMethod.ownedBy (id : TraceId) (m : BoundMethod) : BoundMethod :=
  { m with receiver := m.receiver.ownedBy id }

/-- The method was looked up while a recorder was active. -/
def BoundMethod.OfRecorder (m : BoundMethod) : Prop :=
  ∃ (r : Recorder) (x : TensorProxy) (name : String) (s s' : Session),
    s.context? = some r.context ∧ (x.attribute name).on s = (.ok m, s')

theorem BoundMethod.OfRecorder.method? {m : BoundMethod} (hm : m.OfRecorder) :
    ∃ (r : Recorder) (name : String), r.method? name = some m.method := by
  obtain ⟨r, x, name, s, s', hc, h⟩ := hm
  rw [TensorProxy.attribute, TensorProxy.on_context_bind hc, on_bind, on_checkOwner] at h
  cases howner : s.workspace.checkOwner x.symbol with
  | error e => rw [howner] at h; cases h
  | ok =>
    rw [howner] at h
    cases hf : r.method? name with
    | none => simp only [Recorder.context, hf] at h; cases h
    | some f => simp only [Recorder.context, hf] at h; cases h; exact ⟨r, name, hf⟩

/-- What the guard promises of a call on `vs` while `t` is active, where `owned` is the same call
with all proxies owned by `t`: with a foreign proxy anywhere in `vs` the call fails and changes
nothing, and if nothing else is wrong with it, a foreign proxy is what it reports. -/
def SessionM.Guarded (x owned : SessionM α) (vs : List Value) (t : Trace) (s : Session) : Prop :=
  (∃ p ∈ Value.itemProxies vs, p.owner ≠ t.id) →
    ∃ e, x.on s = (.error e, s) ∧ ((∃ v, (owned.on s).1 = .ok v) →
      ∃ p ∈ Value.itemProxies vs, p.owner ≠ t.id ∧ e = .staleProxy p.name p.owner t.id)

/-- A call that does not look at owners is guarded only where there is nothing to guard. -/
theorem SessionM.guarded_iff_of_eq {x owned : SessionM α} {vs : List Value}
    (hx : x.on s = owned.on s) (hatomic : ∀ e, (owned.on s).1 = .error e → (owned.on s).2 = s) :
    Guarded x owned vs t s ↔
      (∀ p ∈ Value.itemProxies vs, p.owner = t.id) ∨ ∃ e, (owned.on s).1 = .error e := by
  constructor
  · intro h
    refine Classical.or_iff_not_imp_left.2 ?_
    intro hforeign
    obtain ⟨p, hp, hne⟩ : ∃ p ∈ Value.itemProxies vs, p.owner ≠ t.id := by simpa using hforeign
    obtain ⟨e, he, -⟩ := h ⟨p, hp, hne⟩
    exact ⟨e, by rw [← hx, he]⟩
  · rintro (howned | ⟨e, he⟩) ⟨p, hp, hne⟩
    · exact absurd (howned p hp) hne
    · refine ⟨e, hx.trans (Prod.ext he (hatomic e he)), ?_⟩
      rintro ⟨v, hv⟩
      exact nomatch hv.symm.trans he

namespace Recorder

variable {r : Recorder}

theorem on_getItem (hc : s.context? = some r.context) (x : TensorProxy) (key : Value) :
    on (Value.getItem x key) s =
      on (do WorkspaceM.checkOwners [(x : Value), key]; r.getItem x key) s := by
  rw [Value.getItem, TensorProxy.getItem, TensorProxy.on_context_bind hc]
  exact on_checkOwner_bind (.tensor x) ..

theorem getItem_of_not_tensor {a : Value} (ha : a.tensorProxy? = none) (key : Value) :
    a.getItem key = throw (.unsupportedOperation "get_item" a.describe) := by
  unfold Value.getItem
  split
  · cases ha
  · rfl

/-- The check of a tensor and its key does not see what is inside the key. -/
theorem getItem_guarded_iff (hc : s.context? = some r.context) (ht : s.workspace.active? = some t)
    (a key : Value) :
    Guarded (a.getItem key) ((a.ownedBy t.id).getItem (key.ownedBy t.id)) [a, key] t s ↔
      (∀ p ∈ Value.itemProxies [a, key], p.owner = t.id) ∨
      (∃ p ∈ [a, key].filterMap Value.proxy?, p.owner ≠ t.id) ∨
      ∃ e, (((a.ownedBy t.id).getItem (key.ownedBy t.id)).on s).1 = .error e := by
  cases ha : a.tensorProxy? with
  | none =>
    have ha' : (a.ownedBy t.id).tensorProxy? = none := by
      rw [← Option.not_isSome_iff_eq_none, Value.isSome_tensorProxy?_ownedBy, ha]
      exact Bool.false_ne_true
    rw [getItem_of_not_tensor ha, getItem_of_not_tensor ha']
    exact iff_of_true (fun _ => ⟨_, rfl, nofun⟩) (.inr (.inr ⟨_, rfl⟩))
  | some x =>
    obtain rfl := Value.eq_of_tensorProxy? ha
    have howned : on (Value.getItem (Value.ownedBy t.id x) (key.ownedBy t.id)) s =
        on (r.getItem x key : SessionM Value) s := by
      have hcheck := Workspace.checkOwners_ownedBy ht [(x : Value), key]
      rw [List.map_cons, List.map_cons, List.map_nil] at hcheck
      rw [Value.ownedBy, Proxy.ownedBy] at hcheck ⊢
      rw [on_getItem hc, on_checkOwners_bind, hcheck]
      exact congrArg (fun y : WorkspaceM Value => on (liftM y) s) (r.getItem_ownedBy x key)
    -- the check looks at the tensor and at the key itself, not at the items of the key
    cases hcheck : s.workspace.checkOwners [(x : Value), key] with
    | error e =>
      obtain ⟨p, hp, hne, rfl⟩ := Workspace.checkOwners_eq_error ht hcheck
      have hcall : on (Value.getItem x key) s = (.error (.staleProxy p.name p.owner t.id), s) := by
        rw [on_getItem hc, on_checkOwners_bind, hcheck]
      refine iff_of_true (fun _ => ⟨_, hcall, fun _ => ?_⟩) (.inr (.inl ⟨p, hp, hne⟩))
      exact ⟨p, Value.mem_itemProxies_of_mem_filterMap hp, hne, rfl⟩
    | ok =>
      have htop := (Workspace.checkOwners_eq_ok_iff ht).1 hcheck
      have hcall : on (Value.getItem x key) s = on (r.getItem x key : SessionM Value) s := by
        rw [on_getItem hc, on_checkOwners_bind, hcheck]
      rw [guarded_iff_of_eq (hcall.trans howned.symm)]
      · refine or_congr_right (or_iff_right ?_).symm
        rintro ⟨p, hp, hne⟩
        exact hne (htop p hp)
      · intro e he
        rw [howned] at he ⊢
        have hatomic := (r.ensures_getItem x key).atomic _ e he
        exact congrArg (fun w => { s with workspace := w }) hatomic

/-- Nothing that a bound method is called with is checked. -/
theorem call_guarded_iff (t : Trace) (s : Session) {m : BoundMethod} (hm : m.OfRecorder)
    (args : List Value) :
    Guarded (m.call args) ((m.ownedBy t.id).call (args.map (Value.ownedBy t.id)))
        (m.receiver :: args) t s ↔
      (∀ p ∈ Value.itemProxies (m.receiver :: args), p.owner = t.id) ∨
      ∃ e, (((m.ownedBy t.id).call (args.map (Value.ownedBy t.id))).on s).1 = .error e := by
  obtain ⟨r, name, hf⟩ := hm.method?
  have howned : (m.ownedBy t.id).call (args.map (Value.ownedBy t.id)) = m.call args :=
    congrArg _ (r.method?_ownedBy hf (m.receiver :: args))
  rw [howned]
  refine guarded_iff_of_eq rfl ?_
  intro e he
  have hw := (r.ensures_method? hf (m.receiver :: args)).atomic _ e he
  exact congrArg (fun w => { s with workspace := w }) hw

/-- **Which foreign proxies are let through.** With a recorder active, the guard against foreign
proxies fails exactly on the calls that would have an answer were all proxies owned, but whose
foreign proxies are all inside a key or are among what a bound method is called with: those
answer. -/
theorem guarded_iff (hc : s.context? = some r.context) (ht : s.workspace.active? = some t) :
    (∀ a key : Value,
      Guarded (a.getItem key) ((a.ownedBy t.id).getItem (key.ownedBy t.id)) [a, key] t s ↔
        (∀ p ∈ Value.itemProxies [a, key], p.owner = t.id) ∨
        (∃ p ∈ [a, key].filterMap Value.proxy?, p.owner ≠ t.id) ∨
        ∃ e, (((a.ownedBy t.id).getItem (key.ownedBy t.id)).on s).1 = .error e) ∧
    ∀ (m : BoundMethod) (args : List Value), m.OfRecorder →
      (Guarded (m.call args) ((m.ownedBy t.id).call (args.map (Value.ownedBy t.id)))
          (m.receiver :: args) t s ↔
        (∀ p ∈ Value.itemProxies (m.receiver :: args), p.owner = t.id) ∨
        ∃ e, (((m.ownedBy t.id).call (args.map (Value.ownedBy t.id))).on s).1 = .error e) :=
  ⟨getItem_guarded_iff hc ht, fun _ args hm => call_guarded_iff t s hm args⟩

/-- A session with a recorder in the inner of two traces. -/
def nested : Session :=
  let (r, w) := ((Workspace.enter {}).enter).newRecorder
  ⟨w, [r.context]⟩

/-- A tensor of the inner trace of `nested`. -/
def innerTensor : TensorProxy where
  symbol := ⟨"x", ⟨1⟩⟩
  shape := [3]
  device := .cpu
  dtype := { scalar := .float32 }
  trueDtype := { scalar := .float32 }
  numel := 3
  ndim := 1

/-- A number of the outer trace of `nested`. -/
def outerNumber : Proxy := .number ⟨⟨"n", ⟨0⟩⟩, .int, none⟩

/-- The guard stops a foreign number that is a key, and lets the same number through inside a key
and as an argument of a method. -/
theorem guarded_iff_nested :
    let t := Trace.empty ⟨1⟩
    let x := (innerTensor : Value)
    let key := Value.tuple [.proxy outerNumber]
    let m : BoundMethod := { name := "exp", receiver := x, method := elementwise ⟨0⟩ "exp" }
    let args := [Value.proxy outerNumber]
    Guarded (x.getItem (.proxy outerNumber)) (x.getItem (.proxy (outerNumber.ownedBy t.id)))
        [x, .proxy outerNumber] t nested ∧
      ¬ Guarded (x.getItem key) (x.getItem (key.ownedBy t.id)) [x, key] t nested ∧
      ¬ Guarded (m.call args) (m.call (args.map (Value.ownedBy t.id))) (x :: args) t nested := by
  intro t x key m args
  have hguard := guarded_iff (s := nested) (r := ⟨0⟩) (t := t) rfl rfl
  have hm : m.OfRecorder := ⟨⟨0⟩, innerTensor, "exp", nested, nested, rfl, rfl⟩
  refine ⟨(hguard.1 x (.proxy outerNumber)).2 (.inr (.inl ?_)), fun h => ?_, fun h => ?_⟩
  · exact ⟨outerNumber, .tail _ (.head _), by decide⟩
  · rcases (hguard.1 x key).1 h with howned | ⟨p, hp, hne⟩ | ⟨e, he⟩
    · exact absurd (howned outerNumber (.tail _ (.head _))) (by decide)
    · obtain rfl : p = .tensor innerTensor := List.mem_singleton.1 hp
      exact hne rfl
    · cases he
  · rcases (hguard.2 m args hm).1 h with howned | ⟨e, he⟩
    · exact absurd (howned outerNumber (.tail _ (.head _))) (by decide)
    · cases he

/-- A number of the outer trace is recorded, and a name given out, for a key that holds it and for
a method that it is an argument of. -/
theorem foreign_recorded :
    let x := (innerTensor : Value)
    let m : BoundMethod := { name := "exp", receiver := x, method := elementwise ⟨0⟩ "exp" }
    let recorded (y : SessionM Value) : Prop := ∃ v s', y.on nested = (.ok v, s') ∧
      (s'.workspace.graph ⟨0⟩).size = 1 ∧ s'.workspace.active?.map (·.names.length) = some 1
    nested.context? = some (context ⟨0⟩) ∧ nested.workspace.active? = some (.empty ⟨1⟩) ∧
      outerNumber.owner = ⟨0⟩ ∧ (innerTensor.attribute "exp").on nested = (.ok m, nested) ∧
      recorded (x.getItem (.tuple [.proxy outerNumber])) ∧
      recorded (m.call [.proxy outerNumber]) := by
  intro x m recorded
  exact ⟨rfl, rfl, rfl, rfl, ⟨_, _, rfl, rfl, rfl⟩, ⟨_, _, rfl, rfl, rfl⟩⟩

end Recorder

end ProxyTrace
