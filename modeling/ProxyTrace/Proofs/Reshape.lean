import ProxyTrace.Proofs.Construction
import ProxyTrace.Proofs.ValuePlan
import ProxyTrace.Proofs.WellFormed

/-!
# Reshaping

A tensor takes another shape with the same number of elements, if its extents before the first zero
multiply to a word (`Run.reshape_iff`). The number of elements of a tensor is counted in 64 bits and
that of the shape that is asked for in words, so that a tensor of 2^63 elements or more does not
even take its own shape (`Run.reshape_own_fails`).
-/

namespace ProxyTrace

open SessionM Shape

variable {run : Run} {r : Recorder} {t : Trace} {x : TensorProxy} {ds : List Int64}
  {args : List Value}

/-- The extents as the arguments of a method: one by one, or as one tuple. -/
inductive Shape.GivenAs (ds : List Int64) : List Value → Prop
  | spread : GivenAs ds (ds.map .int)
  | tuple : GivenAs ds [.tuple (ds.map .int)]

theorem Shape.GivenAs.mapM_knownInt (h : GivenAs ds args) (op : String) :
    (Recorder.extents args).mapM (Value.knownInt op) = .ok ds := by
  have hextents : Recorder.extents args = ds.map .int := by
    cases h with
    | spread =>
      unfold Recorder.extents
      split
      · rename_i hmap
        obtain ⟨d, -, hd⟩ := List.mem_map.1 (hmap ▸ List.mem_singleton_self _)
        cases hd
      · rfl
    | tuple => rfl
  rw [hextents]
  clear hextents h
  induction ds with
  | nil => rfl
  | cons d ds ih =>
    rw [List.map_cons, List.mapM_cons, ih]
    rfl

/-- The same elements in another shape, by the bound method. -/
def TensorProxy.reshape (x : TensorProxy) (args : List Value) : SessionM Value := do
  (← x.attribute "reshape").call args

/-- The tensor is reshaped. -/
def TensorProxy.Reshapes (x : TensorProxy) (s : Session) (args : List Value) : Prop :=
  ∃ v s', (x.reshape args).on s = (.ok v, s')

/-- Everything but the shape is that of the tensor. -/
theorem TensorProxy.sketch_reshape (x : TensorProxy) (hproduct : product ds = x.numel)
    (hfits : Fits 0x8000000000000000 ds) :
    TensorSpec.sketch { like := x, shape := ds } =
      .ok (.tensor (naturals ds) x.device x.trueDtype.toStrong x.trueDtype x.numel
        (naturals ds).length) := by
  have hshape := TensorSpec.shapeOf_withExtents { like := x } ds
  rw [if_pos hfits.1] at hshape
  refine TensorSpec.sketch_of_count hshape rfl rfl ?_
  exact (count?_naturals_eq_some_iff (by decide) hfits.1).2 ⟨hproduct, hfits.mono (by decide)⟩

theorem Recorder.planReshape_eq (x : TensorProxy) (hargs : GivenAs ds args) :
    planReshape ((x : Value) :: args) =
      if product ds = x.numel ∧ Fits 0x8000000000000000 ds then
        .ok (.record "reshape" ((x : Value) :: args)
          (.tensor (naturals ds) x.device x.trueDtype.toStrong x.trueDtype x.numel
            (naturals ds).length))
      else .error (.invalidShape ds s!"cannot reshape {x.numel} elements") := by
  have hreceiver : receiver "reshape" ((x : Value) :: args) = .ok x := rfl
  have hextents : (extents (((x : Value) :: args).drop 1)).mapM (Value.knownInt "reshape") =
      .ok ds := hargs.mapM_knownInt "reshape"
  rw [planReshape, hreceiver]
  dsimp only [bind, Except.bind]
  rw [hextents]
  dsimp only
  simp only [wordCount?_eq_some_iff]
  split
  · rename_i h
    rw [x.sketch_reshape h.1 h.2]
    rfl
  · rfl

namespace Run

/-- A tensor of the shape and, for the rest, as it was; or else a failure that names the shape. -/
theorem on_reshape (h : run.RecordsInto r t) (hx : run.Holds t x) (hargs : GivenAs ds args) :
    SucceedsIff run.session (product ds = x.numel ∧ Fits 0x8000000000000000 ds)
      (fun v : Value => ∃ y : TensorProxy, v = y ∧ toExtents y.shape = ds ∧ y.numel = x.numel ∧
        y.device = x.device ∧ y.dtype = x.dtype ∧ y.trueDtype = x.trueDtype)
      (· = .invalidShape ds s!"cannot reshape {x.numel} elements")
      ((x.reshape args).on run.session) := by
  have hcall : (x.reshape args).on run.session =
      on (liftM (Plan.carryOut r (Recorder.planReshape (x :: args)))) run.session :=
    Value.on_method_eq (a := x) h.context h.active "reshape" args hx.owned
  rw [hcall, Recorder.planReshape_eq x hargs]
  by_cases hds : product ds = x.numel ∧ Fits 0x8000000000000000 ds
  · rw [if_pos hds]
    obtain ⟨w, hw, -⟩ := Plan.on_carryOut_ok (k := 0) _ r h.active
    rw [hw]
    refine .ok hds ⟨_, rfl, toExtents_naturals hds.2.1, rfl, rfl, ?_, rfl⟩
    exact (h.wellFormed hx).dtype.symm
  · rw [if_neg hds]
    exact .error hds rfl

theorem reshapes_iff_fits (h : run.RecordsInto r t) (hx : run.Holds t x) (hargs : GivenAs ds args) :
    x.Reshapes run.session args ↔ product ds = x.numel ∧ Fits 0x8000000000000000 ds :=
  (on_reshape h hx hargs).exists_ok_iff

/-- **Which shapes a tensor takes**: those of its number of elements whose extents before the first
zero multiply to a word. The result has the shape and is like the tensor for the rest, and a failure
names the shape and changes nothing. The number of elements decides alone unless those extents
multiply to more; and so it is with the tensor's own shape. -/
theorem reshape_iff (h : run.RecordsInto r t) (hx : run.Holds t x) :
    (∀ ds args, GivenAs ds args →
      (x.Reshapes run.session args ↔ Nonnegative ds ∧ product ds = x.numel ∧
        product (leading ds) < 0x8000000000000000) ∧
      ((x.Reshapes run.session args ↔ Nonnegative ds ∧ product ds = x.numel) ↔
        ¬(Nonnegative ds ∧ product ds = x.numel ∧
          0x8000000000000000 ≤ product (leading ds))) ∧
      (∀ v s, (x.reshape args).on run.session = (.ok v, s) → ∃ y : TensorProxy, v = y ∧
        toExtents y.shape = ds ∧ y.numel = x.numel ∧ y.device = x.device ∧ y.dtype = x.dtype ∧
        y.trueDtype = x.trueDtype) ∧
      (¬x.Reshapes run.session args → (x.reshape args).on run.session =
        (.error (.invalidShape ds s!"cannot reshape {x.numel} elements"), run.session))) ∧
    ∀ args, GivenAs (toExtents x.shape) args → (x.Reshapes run.session args ↔
      (x.shape.takeWhile (· ≠ 0)).prod < 0x8000000000000000) := by
  refine ⟨fun ds args hargs => ⟨?_, ?_, ?_, ?_⟩, fun args hargs => ?_⟩
  · rw [reshapes_iff_fits h hx hargs, Fits]
    exact and_left_comm
  · rw [reshapes_iff_fits h hx hargs, Fits, ← Int.not_lt]
    have hlimit : ((0x8000000000000000 : Nat) : Int) = 0x8000000000000000 := rfl
    rw [hlimit]
    tauto
  · intro v s hv
    exact (on_reshape h hx hargs).of_ok hv
  · intro hnot
    rw [reshapes_iff_fits h hx hargs] at hnot
    obtain ⟨_, herror, rfl⟩ := (on_reshape h hx hargs).of_not hnot
    exact herror
  · have hwf := h.wellFormed hx
    rw [reshapes_iff_fits h hx hargs, Fits, product_toExtents hwf.extents, ← hwf.numel,
      product_leading_toExtents hwf.extents, Int.ofNat_lt]
    exact ⟨fun hfits => hfits.2.2, fun hlt => ⟨rfl, toExtents_nonneg hwf.extents, hlt⟩⟩

/-- A program may hold a tensor of any extents that are built. -/
theorem exists_holds (ds : List Int64) (hds : Fits UInt64.size ds) : ∃ run r t x,
    RecordsInto run r t ∧ run.Holds t x ∧ x.shape = naturals ds ∧ x.numel = (naturals ds).prod := by
  have hshape := TensorSpec.floats.shapeOf_withExtents ds
  rw [if_pos hds.1] at hshape
  have hcount : numel? (naturals ds) = some (naturals ds).prod :=
    (count?_naturals_eq_some_iff (by decide) hds.1).2 ⟨(prod_naturals hds.1).symm, hds⟩
  have hresolve := TensorSpec.resolve_of_ok hshape rfl rfl
  rw [hcount] at hresolve
  obtain ⟨run₀, r, t₀, h₀⟩ := exists_recordsInto
  obtain ⟨run, t, σ, h, hx, -⟩ := h₀.exists_build _ hresolve rfl rfl
  exact ⟨run, r, t, _, h, hx, rfl, rfl⟩

/-- A matrix takes the shape of its transposed, given as a tuple, and its own. -/
theorem reshape_iff_matrix : ∃ run r t x, RecordsInto run r t ∧ run.Holds t x ∧ x.shape = [2, 3] ∧
    x.Reshapes run.session [.tuple [.int 3, .int 2]] ∧
    x.Reshapes run.session [.int 2, .int 3] ∧ ¬x.Reshapes run.session [.int (-2), .int (-3)] := by
  obtain ⟨run, r, t, x, h, hx, hshape, hnumel⟩ := exists_holds [2, 3] (by decide)
  obtain ⟨hshapes, hown⟩ := reshape_iff h hx
  rw [hshape] at hown
  refine ⟨run, r, t, x, h, hx, hshape, ?_, ?_, ?_⟩
  · exact (hshapes [3, 2] _ .tuple).1.2 ⟨by decide, by rw [hnumel]; rfl, by decide⟩
  · exact (hown _ .spread).2 (by decide)
  · exact fun hneg => absurd ((hshapes [-2, -3] _ .spread).1.1 hneg).1 (by decide)

/-- A tensor of 2^63 elements does not take its own shape, and an empty one not another shape of no
elements, for large extents before its zero. -/
theorem reshape_own_fails :
    (∃ run r t x, RecordsInto run r t ∧ run.Holds t x ∧ x.shape = [0x100000000, 0x80000000] ∧
      (x.reshape [.int 0x100000000, .int 0x80000000]).on run.session =
        (.error (.invalidShape [0x100000000, 0x80000000]
          "cannot reshape 9223372036854775808 elements"), run.session)) ∧
    ∃ run r t x, RecordsInto run r t ∧ run.Holds t x ∧ x.numel = 0 ∧
      product [0x100000000, 0x100000000, 0] = 0 ∧
      (x.reshape [.int 0x100000000, .int 0x100000000, .int 0]).on run.session =
        (.error (.invalidShape [0x100000000, 0x100000000, 0] "cannot reshape 0 elements"),
          run.session) := by
  constructor
  · obtain ⟨run, r, t, x, h, hx, hshape, hnumel⟩ :=
      exists_holds [0x100000000, 0x80000000] (by decide)
    have hargs : GivenAs [0x100000000, 0x80000000] _ := .spread
    refine ⟨run, r, t, x, h, hx, hshape, ?_⟩
    obtain ⟨_, herror, rfl⟩ := (on_reshape h hx hargs).of_not fun hds => absurd hds.2 (by decide)
    rw [hnumel] at herror
    exact herror
  · obtain ⟨run, r, t, x, h, hx, -, hnumel⟩ := exists_holds [0] (by decide)
    have hargs : GivenAs [0x100000000, 0x100000000, 0] _ := .spread
    refine ⟨run, r, t, x, h, hx, hnumel, rfl, ?_⟩
    obtain ⟨_, herror, rfl⟩ := (on_reshape h hx hargs).of_not fun hds => absurd hds.2 (by decide)
    rw [hnumel] at herror
    exact herror

end Run

end ProxyTrace
