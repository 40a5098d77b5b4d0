import ProxyTrace.Proofs.Recorder.Recording
import ProxyTrace.Proofs.Shape

/-!
# Well-formed proxies

What a tensor proxy says twice, it says alike: the number of elements is what the extents multiply
up to, the rank is their number, and the element type is the strong form of the type as it was
given; each extent is a word. A number proxy of known value holds a number of its kind. All of it is
checked where a proxy is built (`TensorSpec.wellFormed_of_resolve`), and what a recorder answers to
well-formed proxies is well-formed (`Recorder.yields_unary` and the following), because it builds
each result like an operand.
-/

namespace ProxyTrace

variable {α β : Type} {w w' : Workspace}

/-! ### What every answer is -/

namespace WorkspaceM

/-- Whatever the workspace, an answer of the computation satisfies `P`. -/
def Yields (x : WorkspaceM α) (P : α → Prop) : Prop := ∀ w a w', x.on w = (.ok a, w') → P a

variable {x : WorkspaceM α} {f : α → WorkspaceM β} {P : α → Prop} {Q : β → Prop}

theorem yields_true : Yields x fun _ => True := fun _ _ _ _ => trivial

theorem yields_pure {a : α} (h : P a) : Yields (pure a) P := by
  rintro w _ _ ⟨⟩
  exact h

theorem yields_throw (e : Error) : Yields (throw e) P := nofun

theorem yields_liftM {y : Except Error α} (h : ∀ a, y = .ok a → P a) : Yields (liftM y) P := by
  intro w a w' ha
  exact h a (congrArg Prod.fst ha)

theorem Yields.bind (hx : x.Yields P) (hf : ∀ a, P a → (f a).Yields Q) : Yields (x >>= f) Q := by
  intro w b w' h
  rw [on_bind] at h
  rcases hxw : x.on w with ⟨e | a, w₁⟩ <;> rw [hxw] at h
  · cases h
  · exact hf a (hx w a w₁ hxw) w₁ b w' h

theorem Yields.map (hx : x.Yields P) (g : α → β) (h : ∀ a, P a → Q (g a)) :
    Yields (do return g (← x)) Q :=
  hx.bind fun a ha => yields_pure (h a ha)

theorem Yields.liftM_bind (y : Except Error α) (hf : ∀ a, y = .ok a → (f a).Yields Q) :
    Yields (liftM y >>= f) Q :=
  (yields_liftM fun _ h => h).bind hf

theorem Ensures.and_yields {post : Workspace → α → Workspace → Prop} (hx : x.Ensures post)
    (hP : x.Yields P) : x.Ensures fun w a w' => post w a w' ∧ P a := by
  intro w
  rcases hxw : x.on w with ⟨e | a, w'⟩
  · exact hx.of_error hxw
  · exact ⟨hx.of_ok hxw, hP w a w' hxw⟩

end WorkspaceM

/-! ### Well-formed proxies -/

structure TensorProxy.WellFormed (t : TensorProxy) : Prop where
  count : Shape.numel? t.shape = some t.numel
  ndim : t.ndim = t.shape.length
  extents : ∀ n ∈ t.shape, (n : Int) ≤ Int64.maxValue.toInt
  dtype : t.dtype = t.trueDtype.toStrong

namespace Proxy

def WellFormed : Proxy → Prop
  | untyped _ => True
  | number p => ∀ x, p.value = some x → x.kind = p.kind
  | tensor t => t.WellFormed

end Proxy

/-- The proxies in the value, at any depth, are well-formed. -/
def Value.WellFormed (v : Value) : Prop := ∀ p ∈ v.proxies, p.WellFormed

variable {t : TensorProxy} {v : Value}

namespace TensorProxy.WellFormed

/-- The count is exact, as it was made without an overflow. -/
theorem numel (h : t.WellFormed) : t.numel = t.shape.prod := (Shape.numel?_eq_some h.count).1

theorem numel_lt (h : t.WellFormed) : t.numel < UInt64.size := (Shape.numel?_eq_some h.count).2

theorem weak_eq_false (h : t.WellFormed) : t.dtype.weak = false := by
  rw [h.dtype]
  rfl

theorem toInt_extent (h : t.WellFormed) {n : Nat} (hn : n ∈ t.shape) :
    (Int64.ofNat n).toInt = n := Shape.toInt_ofNat (h.extents n hn)

end TensorProxy.WellFormed

namespace Value

theorem wellFormed_of_proxies_eq_nil (h : v.proxies = []) : v.WellFormed := by
  simp [WellFormed, h]

theorem wellFormed_proxy {p : Proxy} : (proxy p).WellFormed ↔ p.WellFormed := by
  simp [WellFormed, proxies]

theorem wellFormed_pair {u v : Value} (hu : u.WellFormed) (hv : v.WellFormed) :
    (tuple [u, v]).WellFormed := by
  simp only [WellFormed, proxies, itemProxies, List.append_nil, List.forall_mem_append]
  exact ⟨hu, hv⟩

end Value

/-! ### Constructions -/

namespace TensorSpec

variable {spec : TensorSpec} {f : Symbol → TensorProxy}

/-- A shape is asked for in words, or is that of a tensor. -/
theorem le_maxValue_of_shapeOf {shape : List Nat} (h : spec.shapeOf = .ok shape)
    (hlike : ∀ t, spec.like = some t → t.WellFormed) :
    ∀ n ∈ shape, (n : Int) ≤ Int64.maxValue.toInt := by
  unfold shapeOf at h
  split at h
  · split at h
    · cases h
      exact Shape.le_maxValue_of_ofExtents? ‹_›
    · cases h
  · cases h
    exact (hlike _ ‹_›).extents
  · cases h

/-- Fields that are given, or taken from a tensor that is well-formed, make one. -/
theorem wellFormed_of_resolve (h : spec.resolve = .ok f)
    (hlike : ∀ t, spec.like = some t → t.WellFormed) (σ : Symbol) : (f σ).WellFormed := by
  obtain ⟨shape, device, dtype, numel, hshape, -, -, hnumel, rfl⟩ := resolve_eq_ok h
  exact ⟨hnumel, rfl, le_maxValue_of_shapeOf hshape hlike, rfl⟩

theorem yields_build (hlike : ∀ t, spec.like = some t → t.WellFormed) :
    spec.build.Yields TensorProxy.WellFormed := by
  intro w t w' h
  obtain ⟨-, f, hf, ht⟩ := spec.ensures_build.of_ok h
  rw [ht]
  exact wellFormed_of_resolve hf hlike t.symbol

end TensorSpec

/-- A value is coerced to the kind that is asked for. -/
theorem NumberProxy.yields_make (kind : NumberKind) (value : Option Number) (name : Option Name) :
    (make kind value name).Yields fun p => (Proxy.number p).WellFormed := by
  intro w p w' h x hx
  obtain ⟨-, hkind, hvalue⟩ := (ensures_make kind value name).of_ok h
  rw [hx] at hvalue
  rw [hkind]
  cases value with
  | none => cases hvalue
  | some y =>
    change some <$> y.coerce kind = .ok (some x) at hvalue
    cases hy : y.coerce kind with
    | error e => rw [hy] at hvalue; cases hvalue
    | ok z =>
      rw [hy] at hvalue
      cases hvalue
      exact Number.kind_of_coerce hy

theorem Proxy.yields_makeUntyped (name : Option Name) : (makeUntyped name).Yields WellFormed :=
  WorkspaceM.yields_true.map _ fun _ _ => trivial

theorem Proxy.yields_rename {p : Proxy} (hp : p.WellFormed) (name : Name) :
    (p.rename name).Yields WellFormed := by
  cases p with
  | untyped σ => exact yields_makeUntyped name
  | number p => exact WorkspaceM.yields_true.map _ fun _ _ => hp
  | tensor t =>
    refine (TensorSpec.yields_build ?_).map _ fun _ h => h
    rintro _ ⟨⟩
    exact hp

/-! ### What a recorder answers -/

namespace Recorder

variable {x : WorkspaceM Value}

theorem yields_freshNumber (kind : NumberKind) : (freshNumber kind).Yields Value.WellFormed :=
  (NumberProxy.yields_make kind none none).map _ fun _ h => Value.wellFormed_proxy.2 h

theorem yields_freshTensor {spec : TensorSpec} (hlike : ∀ t, spec.like = some t → t.WellFormed) :
    (freshTensor spec).Yields Value.WellFormed :=
  (TensorSpec.yields_build hlike).map _ fun _ h => Value.wellFormed_proxy.2 h

theorem yields_results (hx : x.Yields Value.WellFormed) (op : BinaryOp) :
    (results op x).Yields Value.WellFormed := by
  unfold results
  split
  · exact hx.bind fun u hu => hx.map _ fun v hv => Value.wellFormed_pair hu hv
  · exact hx

/-- What is recorded is what is answered. -/
theorem yields_record (r : Recorder) (op : String) (args : List Value)
    (hx : x.Yields Value.WellFormed) :
    WorkspaceM.Yields (do WorkspaceM.record r op args (← x)) Value.WellFormed := by
  refine hx.bind fun v hv => ?_
  rintro w _ w' ⟨⟩
  exact hv

variable (r : Recorder) {a b : Value}

theorem yields_unary (op : UnaryOp) (ha : a.WellFormed) :
    (r.unary op a).Yields Value.WellFormed := by
  unfold unary
  split
  · exact .liftM_bind _ fun n _ => WorkspaceM.yields_pure (Value.wellFormed_of_proxies_eq_nil rfl)
  · exact .liftM_bind _ fun k _ => yields_record r _ _ (yields_freshNumber k)
  · refine yields_record r _ _ (yields_freshTensor ?_)
    rintro _ ⟨⟩
    exact Value.wellFormed_proxy.1 ha
  · exact WorkspaceM.yields_liftM nofun

theorem yields_binaryTensor (op : BinaryOp) (a b : Value) {like : TensorProxy}
    (hlike : like.WellFormed) (shape : List Nat) :
    (r.binaryTensor op a b like shape).Yields Value.WellFormed := by
  refine yields_record r _ _ (yields_results (yields_freshTensor ?_) op)
  rintro _ ⟨⟩
  exact hlike

/-- The tensor that the result is like is one of the operands. -/
theorem yields_binary (op : BinaryOp) (ha : a.WellFormed) (hb : b.WellFormed) :
    (r.binary op a b).Yields Value.WellFormed := by
  have hlike {v : Value} {t : TensorProxy} (hv : v.WellFormed) (ht : v.tensorProxy? = some t) :
      t.WellFormed := by
    obtain rfl := Value.eq_of_tensorProxy? ht
    exact Value.wellFormed_proxy.1 hv
  unfold binary
  split
  · exact .liftM_bind _ fun _ _ => r.yields_binaryTensor op a b (hlike ha ‹_›) _
  · exact .liftM_bind _ fun _ _ => r.yields_binaryTensor op a b (hlike ha ‹_›) _
  · exact .liftM_bind _ fun _ _ => r.yields_binaryTensor op a b (hlike hb ‹_›) _
  · split
    · refine .liftM_bind _ fun j _ => .liftM_bind _ fun k _ => .liftM_bind _ fun kind _ => ?_
      exact yields_record r _ _ (yields_results (yields_freshNumber kind) op)
    · refine WorkspaceM.yields_liftM fun v hv => ?_
      exact Value.wellFormed_of_proxies_eq_nil (Value.proxies_of_evaluate hv)

theorem yields_reshaped {t : TensorProxy} (ht : t.WellFormed) (shape : List Nat) :
    (reshaped t shape).Yields TensorProxy.WellFormed := by
  refine TensorSpec.yields_build ?_
  rintro _ ⟨⟩
  exact ht

/-- A tensor that is built and recorded. -/
theorem yields_record_tensor (op : String) (args : List Value) {y : WorkspaceM TensorProxy}
    (hy : y.Yields TensorProxy.WellFormed) :
    WorkspaceM.Yields (do WorkspaceM.record r op args (← y : Value)) Value.WellFormed := by
  refine hy.bind fun t ht => ?_
  rintro w _ w' ⟨⟩
  exact Value.wellFormed_proxy.2 ht

theorem yields_getItem (ha : a.WellFormed) (key : Value) :
    (r.getItem a key).Yields Value.WellFormed := by
  unfold getItem
  split
  · refine .liftM_bind _ fun shape _ => r.yields_record_tensor _ _ (yields_reshaped ?_ shape)
    exact Value.wellFormed_proxy.1 ha
  · exact WorkspaceM.yields_throw _

theorem wellFormed_receiver {op : String} {args : List Value} {t : TensorProxy}
    (hargs : ∀ p ∈ Value.itemProxies args, p.WellFormed) (h : receiver op args = .ok t) :
    t.WellFormed := by
  unfold receiver at h
  split at h <;> cases h
  exact hargs (.tensor t) (List.mem_append_left _ (.head _))

section Methods

variable {args : List Value} (hargs : ∀ p ∈ Value.itemProxies args, p.WellFormed)

include hargs

theorem yields_elementwise (op : String) : (r.elementwise op args).Yields Value.WellFormed := by
  refine .liftM_bind _ fun t ht => r.yields_record_tensor _ _ (TensorSpec.yields_build ?_)
  rintro _ ⟨⟩
  exact wellFormed_receiver hargs ht

theorem yields_reduction (op : String) : (r.reduction op args).Yields Value.WellFormed := by
  refine .liftM_bind _ fun t ht => ?_
  have hrecord (shape : List Nat) : WorkspaceM.Yields
      (do WorkspaceM.record r op args (← reshaped t shape : Value)) Value.WellFormed :=
    r.yields_record_tensor _ _ (yields_reshaped (wellFormed_receiver hargs ht) shape)
  dsimp only
  split
  · exact .liftM_bind _ fun _ _ => .liftM_bind _ fun _ _ => hrecord _
  · exact hrecord []

theorem yields_reshape : (r.reshape args).Yields Value.WellFormed := by
  refine .liftM_bind _ fun t ht => .liftM_bind _ fun shape _ => ?_
  split
  · refine r.yields_record_tensor _ _ (TensorSpec.yields_build ?_)
    rintro _ ⟨⟩
    exact wellFormed_receiver hargs ht
  · exact WorkspaceM.yields_throw _

theorem yields_transpose : (r.transpose args).Yields Value.WellFormed := by
  refine .liftM_bind _ fun t ht => ?_
  split
  · exact WorkspaceM.yields_throw _
  · exact r.yields_record_tensor _ _ (yields_reshaped (wellFormed_receiver hargs ht) _)

/-- The tensor on which a method is called is the first of the arguments. -/
theorem yields_method? {name : String} {f : Method} (hf : r.method? name = some f) :
    (f args).Yields Value.WellFormed := by
  unfold method? at hf
  split at hf <;> cases hf
  · exact r.yields_elementwise hargs _
  · exact r.yields_elementwise hargs _
  · exact r.yields_elementwise hargs _
  · exact r.yields_reduction hargs _
  · exact r.yields_reduction hargs _
  · exact r.yields_reshape hargs
  · exact r.yields_transpose hargs

end Methods

theorem yields_tensorProxy (name : Option Name) (v : Value) :
    (tensorProxy name v).Yields TensorProxy.WellFormed := by
  unfold tensorProxy
  split
  · exact TensorSpec.yields_build fun _ h => nomatch h
  · exact WorkspaceM.yields_throw _

end Recorder

end ProxyTrace
