import ProxyTrace.Proofs.Construction
import ProxyTrace.Proofs.ValuePlan
import ProxyTrace.Proofs.WellFormed

/-!
# Matrix products and transposition

Two tensors of rank 1 or 2 that agree on the inner extent have a product, of the rows of the left
one and the columns of the right one, if its elements can be counted (`Shape.Multiplies`,
`Shape.outer`). Read backwards, the shapes multiply in the other order, to the shape read backwards
(`Shape.multiplies_reverse_iff`, `Shape.outer_reverse`). So transposition reverses products
(`Run.matmul_transposed`).

A computation of several calls is followed by the tensors that it makes (`MakesTensor`): of each
only the shape counts, and that the next call takes it.
-/

namespace ProxyTrace

open SessionM

namespace Shape

variable {left right shape : List Nat}

/-! ### Shapes of products -/

/-- The rows of the left shape and the columns of the right one; a vector has none. -/
def outer (left right : List Nat) : List Nat := left.dropLast ++ right.tail

/-- The shape is that of a vector or a matrix. -/
def IsFactor (shape : List Nat) : Prop := shape.length = 1 ∨ shape.length = 2

/-- The shapes of two tensors that have a product. -/
structure Multiplies (left right : List Nat) : Prop where
  isFactor_left : IsFactor left
  isFactor_right : IsFactor right
  inner : left.getLast? = right.head?
  count : (outer left right).prod < UInt64.size

theorem isFactor_iff_exists :
    IsFactor shape ↔ (∃ k, shape = [k]) ∨ ∃ n k, shape = [n, k] := by
  rw [IsFactor, List.length_eq_one_iff, List.length_eq_two]

theorem matmul?_eq_some_iff : matmul? left right = some shape ↔
    IsFactor left ∧ IsFactor right ∧ left.getLast? = right.head? ∧ outer left right = shape := by
  unfold matmul?
  split
  -- neither a vector nor a matrix on one side
  case h_5 hvv hvm hmv hmm =>
    refine iff_of_false nofun fun ⟨hleft, hright, _⟩ => ?_
    rcases isFactor_iff_exists.1 hleft with ⟨k, rfl⟩ | ⟨n, k, rfl⟩ <;>
      rcases isFactor_iff_exists.1 hright with ⟨k', rfl⟩ | ⟨k', m, rfl⟩
    · exact hvv _ _ rfl rfl
    · exact hvm _ _ _ rfl rfl
    · exact hmv _ _ _ rfl rfl
    · exact hmm _ _ _ _ rfl rfl
  all_goals simp [IsFactor, outer]

theorem IsFactor.length_le (h : IsFactor shape) : shape.length ≤ 2 := by
  unfold IsFactor at h
  omega

theorem length_outer_le (hleft : IsFactor left) (hright : IsFactor right) :
    (outer left right).length ≤ 2 := by
  rw [outer, List.length_append, List.length_dropLast, List.length_tail]
  unfold IsFactor at hleft hright
  omega

theorem outer_reverse (left right : List Nat) :
    outer right.reverse left.reverse = (outer left right).reverse := by
  rw [outer, outer, List.dropLast_reverse, List.tail_reverse, List.reverse_append]

theorem IsFactor.reverse (h : IsFactor shape) : IsFactor shape.reverse := by
  rwa [IsFactor, List.length_reverse]

theorem Multiplies.reverse (h : Multiplies left right) :
    Multiplies right.reverse left.reverse where
  isFactor_left := h.isFactor_right.reverse
  isFactor_right := h.isFactor_left.reverse
  inner := by rw [List.getLast?_reverse, List.head?_reverse, h.inner]
  count := by
    rw [outer_reverse, List.prod_reverse]
    exact h.count

theorem multiplies_reverse_iff :
    Multiplies right.reverse left.reverse ↔ Multiplies left right :=
  ⟨fun h => by simpa only [List.reverse_reverse] using h.reverse, Multiplies.reverse⟩

/-- Of two extents only the product can be too large. -/
theorem numel?_of_length_le_two (hrank : shape.length ≤ 2)
    (hextents : ∀ n ∈ shape, (n : Int) ≤ Int64.maxValue.toInt) :
    numel? shape = if shape.prod < UInt64.size then some shape.prod else none := by
  have hlt : ∀ n ∈ shape, n < UInt64.size := by
    intro n hn
    have hle := hextents n hn
    rw [Int64.toInt_maxValue] at hle
    rw [show UInt64.size = 2 ^ 64 from rfl]
    omega
  change count? UInt64.size 1 shape = _
  match shape with
  | [] => rfl
  | [n] =>
    rw [count?_cons, Nat.one_mul, List.prod_singleton]
    rfl
  | [n, m] =>
    rw [count?_cons, Nat.one_mul, if_pos (hlt n (.head _)), count?_cons, List.prod_pair]
    rfl

end Shape

/-! ### The tensors that calls make -/

variable {s : Session} {run : Run} {r : Recorder} {t : Trace} {id : TraceId} {a b x : TensorProxy}
  {P Q : Prop} {shape shape' : List Nat} {o : Except Error Value × Session}

/-- The recorder is active, and the innermost trace is the one of that identity. -/
structure Session.RecordsInto (s : Session) (r : Recorder) (id : TraceId) : Prop where
  context : s.context? = some r.context
  active : ∃ t, s.workspace.active? = some t ∧ t.id = id

/-- The calls in the trace take the tensor. -/
structure TensorProxy.TakenIn (x : TensorProxy) (id : TraceId) : Prop where
  wellFormed : x.WellFormed
  owner : x.symbol.owner = id

theorem TensorProxy.TakenIn.owned (hx : x.TakenIn id) :
    ∀ p ∈ (x : Value).proxies, p.owner = id := by
  intro p hp
  obtain rfl := List.mem_singleton.1 hp
  exact hx.owner

/-- If `P` holds, a computation makes a tensor of the shape, which the next call takes, and
otherwise it fails. -/
inductive MakesTensor (r : Recorder) (id : TraceId) (P : Prop) (shape : List Nat) :
    Except Error Value × Session → Prop
  | ok {y : TensorProxy} {s : Session} (hP : P) (hs : s.RecordsInto r id) (hy : y.TakenIn id)
    (hshape : y.shape = shape) : MakesTensor r id P shape (.ok y, s)
  | error {e : Error} {s : Session} (hP : ¬P) : MakesTensor r id P shape (.error e, s)

namespace MakesTensor

theorem congr (h : MakesTensor r id P shape o) (hPQ : P ↔ Q) (hshape : shape = shape') :
    MakesTensor r id Q shape' o := by
  subst hshape
  cases h with
  | ok hP hs hy hshape => exact .ok (hPQ.1 hP) hs hy hshape
  | error hP => exact .error (mt hPQ.2 hP)

theorem exists_ok_iff (h : MakesTensor r id P shape o) : (∃ v s, o = (.ok v, s)) ↔ P := by
  cases h with
  | ok hP => exact iff_of_true ⟨_, _, rfl⟩ hP
  | error hP => exact iff_of_false nofun hP

theorem exists_tensor (h : MakesTensor r id P shape o) (hP : P) :
    ∃ (y : TensorProxy) (s : Session), o = (.ok y, s) ∧ y.shape = shape ∧ y.numel = shape.prod := by
  cases h with
  | ok _ _ hy hshape => exact ⟨_, _, rfl, hshape, hshape ▸ hy.wellFormed.numel⟩
  | error hP' => exact absurd hP hP'

/-- The next call may go on with any tensor of the shape. -/
theorem bind {f : Value → SessionM Value} {y : SessionM Value}
    (hy : MakesTensor r id P shape (y.on s))
    (hf : ∀ (y : TensorProxy) (s : Session), s.RecordsInto r id → y.TakenIn id →
      y.shape = shape → MakesTensor r id Q shape' ((f y).on s)) :
    MakesTensor r id (P ∧ Q) shape' (SessionM.on (y >>= f) s) := by
  rw [on_bind]
  generalize y.on s = o at hy
  cases hy with
  | ok hP hs hy hshape => exact (hf _ _ hs hy hshape).congr (and_iff_right hP).symm rfl
  | error hP => exact .error fun h => hP h.1

end MakesTensor

theorem Recorder.planReshaped_of_rank_le_two (op : String) (args : List Value) (x : TensorProxy)
    (hrank : shape.length ≤ 2) (hextents : ∀ n ∈ shape, (n : Int) ≤ Int64.maxValue.toInt) :
    planReshaped op args x shape =
      if shape.prod < UInt64.size then
        .ok (.record op args
          (.tensor shape x.device x.trueDtype.toStrong x.trueDtype shape.prod shape.length))
      else .error (.invalidShape (Shape.toExtents shape) "numel overflows") := by
  let spec : TensorSpec := { like := x, shape := Shape.toExtents shape }
  have hshape : spec.shapeOf = .ok shape := by
    simp only [spec, TensorSpec.shapeOf, Shape.ofExtents?_toExtents hextents]
  have hresolve := TensorSpec.resolve_of_ok hshape rfl rfl
  rw [Shape.numel?_of_length_le_two hrank hextents] at hresolve
  change (do return Plan.record op args (← spec.sketch)) = _
  rw [TensorSpec.sketch, hresolve]
  by_cases hlt : shape.prod < UInt64.size
  · simp only [if_pos hlt]
    rfl
  · simp only [if_neg hlt]
    rfl

/-- A tensor of a shape of rank at most 2, and for the rest like another. -/
theorem makesTensor_planReshaped (hs : s.RecordsInto r id) (op : String) (args : List Value)
    (x : TensorProxy) (hrank : shape.length ≤ 2)
    (hextents : ∀ n ∈ shape, (n : Int) ≤ Int64.maxValue.toInt) :
    MakesTensor r id (shape.prod < UInt64.size) shape
      (on (liftM (Plan.carryOut r (Recorder.planReshaped op args x shape))) s) := by
  rw [Recorder.planReshaped_of_rank_le_two op args x hrank hextents]
  by_cases hlt : shape.prod < UInt64.size
  · have hcount := Shape.numel?_of_length_le_two hrank hextents
    rw [if_pos hlt] at hcount
    obtain ⟨t, ht, rfl⟩ := hs.active
    obtain ⟨w, hw, hactive, -⟩ := Plan.on_carryOut_ok (k := 0) _ r ht
    rw [if_pos hlt, hw]
    exact .ok hlt ⟨hs.context, _, hactive, t.id_after _⟩ ⟨⟨hcount, rfl, hextents, rfl⟩, rfl⟩ rfl
  · rw [if_neg hlt]
    exact .error hlt

/-! ### Products and transposition -/

/-- The product of two tensors. -/
def Value.matmul (a b : Value) : SessionM Value := a.binary .matmul b

/-- The transposed of a tensor, by the bound method. -/
def Value.transposed (v : Value) : SessionM Value :=
  match v.tensorProxy? with
  | some x => do (← x.attribute "t").call []
  | Option.none => v.invalid "attr"

theorem Recorder.planBinary_matmul (a b : TensorProxy) : planBinary .matmul a b = (do
    planReshaped "matmul" [(a : Value), b] a (← Shape.binary .matmul a.shape b.shape)) := rfl

theorem Recorder.planTranspose_tensor (x : TensorProxy) : planTranspose [(x : Value)] =
    if 2 < x.ndim then .error (.unsupportedOperation "t" s!"a tensor of rank {x.ndim}")
    else planReshaped "t" [(x : Value)] x x.shape.reverse := by
  rw [planTranspose]
  change (if 2 < x.ndim then _ else _) = _
  split <;> rfl

/-- Two tensors have a product exactly if their shapes do. -/
theorem makesTensor_matmul (hs : s.RecordsInto r id) (ha : a.TakenIn id) (hb : b.TakenIn id) :
    MakesTensor r id (Shape.Multiplies a.shape b.shape) (Shape.outer a.shape b.shape)
      (((a : Value).matmul b).on s) := by
  obtain ⟨t, ht, rfl⟩ := hs.active
  have hcall : ((a : Value).matmul b).on s =
      on (liftM (Plan.carryOut r (Recorder.planBinary .matmul a b))) s :=
    Value.on_binary_eq hs.context ht .matmul ha.owned hb.owned
  rw [hcall, Recorder.planBinary_matmul, Shape.binary, if_pos rfl]
  cases hshape : Shape.matmul? a.shape b.shape with
  | some shape =>
    obtain ⟨hleft, hright, hinner, rfl⟩ := Shape.matmul?_eq_some_iff.1 hshape
    have hextents : ∀ n ∈ Shape.outer a.shape b.shape, (n : Int) ≤ Int64.maxValue.toInt := by
      intro n hn
      rcases List.mem_append.1 hn with hn | hn
      · exact ha.wellFormed.extents n (List.mem_of_mem_dropLast hn)
      · exact hb.wellFormed.extents n (List.mem_of_mem_tail hn)
    have hproduct := makesTensor_planReshaped hs "matmul" [(a : Value), b] a
      (Shape.length_outer_le hleft hright) hextents
    exact hproduct.congr ⟨fun hlt => ⟨hleft, hright, hinner, hlt⟩, Shape.Multiplies.count⟩ rfl
  | none =>
    refine .error fun h => ?_
    have hsome := Shape.matmul?_eq_some_iff.2
      ⟨h.isFactor_left, h.isFactor_right, h.inner, rfl⟩
    rw [hshape] at hsome
    cases hsome

/-- A tensor of rank at most 2 has a transposed. -/
theorem makesTensor_transposed (hs : s.RecordsInto r id) (hx : x.TakenIn id) :
    MakesTensor r id (x.ndim ≤ 2) x.shape.reverse ((x : Value).transposed.on s) := by
  obtain ⟨t, ht, rfl⟩ := hs.active
  have hcall : (x : Value).transposed.on s =
      on (liftM (Plan.carryOut r (Recorder.planTranspose [(x : Value)]))) s :=
    Value.on_method_eq (a := x) hs.context ht "t" [] hx.owned
  rw [hcall, Recorder.planTranspose_tensor]
  by_cases hrank : x.ndim ≤ 2
  · rw [if_neg (Nat.not_lt.2 hrank)]
    have hwf := hx.wellFormed
    have hlength : x.shape.reverse.length ≤ 2 := by rwa [List.length_reverse, ← hwf.ndim]
    have hcount : x.shape.reverse.prod < UInt64.size := by
      rw [List.prod_reverse, ← hwf.numel]
      exact hwf.numel_lt
    have hmakes := makesTensor_planReshaped hs "t" [(x : Value)] x hlength
      fun n hn => hwf.extents n (List.mem_reverse.1 hn)
    exact hmakes.congr (iff_of_true hcount hrank) rfl
  · rw [if_pos (Nat.not_le.1 hrank)]
    exact .error hrank

/-- The product of two tensors, transposed. -/
def Value.matmulTransposed (a b : Value) : SessionM Value := do
  (← a.matmul b).transposed

/-- The product of the transposed tensors, in the other order. -/
def Value.transposedMatmul (a b : Value) : SessionM Value := do
  (← b.transposed).matmul (← a.transposed)

theorem makesTensor_matmulTransposed (hs : s.RecordsInto r id) (ha : a.TakenIn id)
    (hb : b.TakenIn id) :
    MakesTensor r id (Shape.Multiplies a.shape b.shape) (Shape.outer a.shape b.shape).reverse
      (((a : Value).matmulTransposed b).on s) := by
  have hmakes : MakesTensor r id
      (Shape.Multiplies a.shape b.shape ∧ (Shape.outer a.shape b.shape).length ≤ 2)
      (Shape.outer a.shape b.shape).reverse (((a : Value).matmulTransposed b).on s) := by
    refine (makesTensor_matmul hs ha hb).bind fun y s₁ hs₁ hy hshape => ?_
    rw [← hshape, ← hy.wellFormed.ndim]
    exact makesTensor_transposed hs₁ hy
  refine hmakes.congr (and_iff_left_of_imp fun h => ?_) rfl
  exact Shape.length_outer_le h.isFactor_left h.isFactor_right

theorem makesTensor_transposedMatmul (hs : s.RecordsInto r id) (ha : a.TakenIn id)
    (hb : b.TakenIn id) :
    MakesTensor r id (Shape.Multiplies a.shape b.shape) (Shape.outer a.shape b.shape).reverse
      (((a : Value).transposedMatmul b).on s) := by
  have hmakes : MakesTensor r id
      (b.ndim ≤ 2 ∧ a.ndim ≤ 2 ∧ Shape.Multiplies b.shape.reverse a.shape.reverse)
      (Shape.outer b.shape.reverse a.shape.reverse) (((a : Value).transposedMatmul b).on s) := by
    refine (makesTensor_transposed hs hb).bind fun b' s₁ hs₁ hb' hbshape => ?_
    refine (makesTensor_transposed hs₁ ha).bind fun a' s₂ hs₂ ha' hashape => ?_
    rw [← hbshape, ← hashape]
    exact makesTensor_matmul hs₂ hb' ha'
  rw [Shape.multiplies_reverse_iff, Shape.outer_reverse] at hmakes
  -- what has a product is of a rank that is transposed
  refine hmakes.congr ⟨fun h => h.2.2, fun h => ⟨?_, ?_, h⟩⟩ rfl
  · rw [hb.wellFormed.ndim]
    exact h.isFactor_right.length_le
  · rw [ha.wellFormed.ndim]
    exact h.isFactor_left.length_le

theorem makesTensor_transposed_transposed (hs : s.RecordsInto r id) (hx : x.TakenIn id) :
    MakesTensor r id (x.ndim ≤ 2) x.shape (on (do (← (x : Value).transposed).transposed) s) := by
  have hmakes : MakesTensor r id (x.ndim ≤ 2 ∧ x.shape.reverse.length ≤ 2) x.shape.reverse.reverse
      (on (do (← (x : Value).transposed).transposed) s) := by
    refine (makesTensor_transposed hs hx).bind fun y s₁ hs₁ hy hshape => ?_
    rw [← hshape, ← hy.wellFormed.ndim]
    exact makesTensor_transposed hs₁ hy
  rwa [List.length_reverse, ← hx.wellFormed.ndim, and_self_iff, List.reverse_reverse] at hmakes

namespace Run

theorem RecordsInto.session (h : run.RecordsInto r t) : run.session.RecordsInto r t.id :=
  ⟨h.context, t, h.active, rfl⟩

theorem RecordsInto.takenIn (h : run.RecordsInto r t) (hx : run.Holds t x) : x.TakenIn t.id :=
  ⟨h.wellFormed hx, hx.owner⟩

/-- **Transposition reverses products.** Two tensors have a product exactly if they are vectors or
matrices that agree on the inner extent and its elements can be counted, and it has the rows of the
left one and the columns of the right one. The transposed tensors have a product in the other order
exactly if these have one, and then it has the shape of the transposed product. A tensor of rank at
most 2 that is transposed twice has its shape and its number of elements again. -/
theorem matmul_transposed (h : run.RecordsInto r t) (ha : run.Holds t a) (hb : run.Holds t b) :
    ((∃ v s, ((a : Value).matmul b).on run.session = (.ok v, s)) ↔
      Shape.Multiplies a.shape b.shape) ∧
    (∀ v s, ((a : Value).matmul b).on run.session = (.ok v, s) →
      ∃ y : TensorProxy, v = y ∧ y.shape = Shape.outer a.shape b.shape) ∧
    ((∃ v s, ((a : Value).matmul b).on run.session = (.ok v, s)) ↔
      ∃ v s, ((a : Value).transposedMatmul b).on run.session = (.ok v, s)) ∧
    ((∃ v s, ((a : Value).matmul b).on run.session = (.ok v, s)) →
      ∃ (y z : TensorProxy) (s s' : Session),
        ((a : Value).matmulTransposed b).on run.session = (.ok y, s) ∧
        ((a : Value).transposedMatmul b).on run.session = (.ok z, s') ∧ y.shape = z.shape) ∧
    (a.ndim ≤ 2 → ∃ (y : TensorProxy) (s : Session),
      SessionM.on (do (← (a : Value).transposed).transposed) run.session = (.ok y, s) ∧
        y.shape = a.shape ∧ y.numel = a.numel) := by
  have hs := h.session
  have ha := h.takenIn ha
  have hb := h.takenIn hb
  have hproduct := makesTensor_matmul hs ha hb
  have hreversed := makesTensor_transposedMatmul hs ha hb
  refine ⟨hproduct.exists_ok_iff, fun v s hv => ?_, ?_, fun hok => ?_, fun hrank => ?_⟩
  · obtain ⟨y, s', hy, hshape, -⟩ := hproduct.exists_tensor (hproduct.exists_ok_iff.1 ⟨v, s, hv⟩)
    rw [hv] at hy
    cases hy
    exact ⟨y, rfl, hshape⟩
  · rw [hproduct.exists_ok_iff, hreversed.exists_ok_iff]
  · have hmultiplies := hproduct.exists_ok_iff.1 hok
    obtain ⟨y, s, hy, hyshape, -⟩ :=
      (makesTensor_matmulTransposed hs ha hb).exists_tensor hmultiplies
    obtain ⟨z, s', hz, hzshape, -⟩ := hreversed.exists_tensor hmultiplies
    exact ⟨y, z, s, s', hy, hz, hyshape.trans hzshape.symm⟩
  · obtain ⟨y, s, hy, hshape, hnumel⟩ :=
      (makesTensor_transposed_transposed hs ha).exists_tensor hrank
    exact ⟨y, s, hy, hshape, hnumel.trans ha.wellFormed.numel.symm⟩

/-- A matrix and a vector, whose product is transposed, or which are transposed first. -/
theorem matmul_transposed_vector : ∃ run r t a b, RecordsInto run r t ∧ run.Holds t a ∧
    run.Holds t b ∧ a.shape = [2, 3] ∧ b.shape = [3] ∧
    ∃ (y z : TensorProxy) (s s' : Session),
      ((a : Value).matmulTransposed b).on run.session = (.ok y, s) ∧
      ((a : Value).transposedMatmul b).on run.session = (.ok z, s') ∧ y.shape = z.shape := by
  obtain ⟨run₀, r, t₀, h₀⟩ := exists_recordsInto
  obtain ⟨run₁, t₁, σ, h₁, ha, -⟩ :=
    h₀.exists_build (TensorSpec.floats.withExtents [2, 3]) rfl rfl rfl
  obtain ⟨run, t, τ, h, hb, hkept⟩ :=
    h₁.exists_build (TensorSpec.floats.withExtents [3]) rfl rfl rfl
  obtain ⟨hproduct, -, -, hreverses, -⟩ := matmul_transposed h (hkept _ ha) hb
  refine ⟨run, r, t, _, _, h, hkept _ ha, hb, rfl, rfl, hreverses (hproduct.2 ?_)⟩
  have hcount : (Shape.outer [2, 3] [3]).prod < UInt64.size := by decide
  exact ⟨.inr rfl, .inl rfl, rfl, hcount⟩

end Run

end ProxyTrace
