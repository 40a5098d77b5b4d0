import ProxyTrace.Proofs.Allocation
import ProxyTrace.Proofs.Shape

/-!
# Which shapes are built

Where everything but the shape of a tensor is in order (`TensorSpec.Ready`), the extents alone
decide whether it is built: none may be negative, and those before the first zero multiply to less
than 64 bits hold (`TensorSpec.builds_iff`). Extents of an exact product of that size are built with
that number of elements; but an empty tensor is refused if its zero stands behind extents that are
too large, and built if it stands before them (`TensorSpec.invalidShape_of_empty`).
-/

namespace ProxyTrace

open Shape

variable {w w' : Workspace} {spec : TensorSpec} {extents : List Int64}

namespace TensorSpec

/-- Everything but the shape is in order. -/
structure Ready (spec : TensorSpec) (w : Workspace) : Prop where
  device : ∃ device, spec.deviceOf = .ok device
  dtype : ∃ dtype, spec.dtypeOf = .ok dtype
  room : w.HasRoom spec.name

/-- The specification with the given extents. -/
def withExtents (spec : TensorSpec) (extents : List Int64) : TensorSpec :=
  { spec with shape := some extents }

/-- A tensor of the extents is built. -/
def Builds (spec : TensorSpec) (w : Workspace) (extents : List Int64) : Prop :=
  ∃ x w', (spec.withExtents extents).build.on w = (.ok x, w')

theorem shapeOf_withExtents (spec : TensorSpec) (extents : List Int64) :
    (spec.withExtents extents).shapeOf =
      if Nonnegative extents then .ok (naturals extents)
      else .error (.invalidShape extents "extents must be non-negative") := by
  simp only [shapeOf, withExtents, ofExtents?_eq]
  by_cases h : Nonnegative extents
  · simp only [if_pos h]
  · simp only [if_neg h]

/-- A tensor of the extents, or else a failure that names them. -/
theorem on_build (h : spec.Ready w) (extents : List Int64) :
    SucceedsIff w (Fits UInt64.size extents)
      (fun x => toExtents x.shape = extents ∧ x.numel = product extents)
      (fun e => ∃ reason, e = .invalidShape extents reason)
      ((spec.withExtents extents).build.on w) := by
  obtain ⟨⟨device, hdevice⟩, ⟨dtype, hdtype⟩, hroom⟩ := h
  have hshape := spec.shapeOf_withExtents extents
  by_cases hnonneg : Nonnegative extents
  · rw [if_pos hnonneg] at hshape
    have hresolve := resolve_of_ok hshape hdevice hdtype
    have hcount {n : Nat} : numel? (naturals extents) = some n ↔ _ :=
      count?_naturals_eq_some_iff (by decide) hnonneg
    cases hnumel : numel? (naturals extents) with
    | some n =>
      rw [hnumel] at hresolve
      obtain ⟨hproduct, hfits⟩ := hcount.1 hnumel
      obtain ⟨σ, w', hbuild⟩ := exists_build_of_resolve hresolve hroom
      rw [hbuild]
      exact .ok hfits ⟨toExtents_naturals hnonneg, hproduct.symm⟩
    | none =>
      rw [hnumel, toExtents_naturals hnonneg] at hresolve
      rw [on_build_of_resolve_error hresolve]
      refine .error (fun hfits => ?_) ⟨_, rfl⟩
      have hsome := hcount.2 ⟨(prod_naturals hnonneg).symm, hfits⟩
      rw [hnumel] at hsome
      cases hsome
  · rw [if_neg hnonneg] at hshape
    have hresolve : (spec.withExtents extents).resolve =
        .error (.invalidShape extents "extents must be non-negative") := by
      rw [resolve, hshape]
      rfl
    rw [on_build_of_resolve_error hresolve]
    exact .error (fun hfits => hnonneg hfits.1) ⟨_, rfl⟩

/-- **Which extents are built.** None may be negative, and those before the first zero multiply to
less than 64 bits hold. So the exact product decides, whatever the order of the extents, unless a
zero stands behind extents that are too large. What is built has the extents and their product, and
a failure names the extents and changes nothing. -/
theorem builds_iff (h : spec.Ready w) (extents : List Int64) :
    (spec.Builds w extents ↔
      Nonnegative extents ∧ product (leading extents) < UInt64.size) ∧
    ((spec.Builds w extents ↔ Nonnegative extents ∧ product extents < UInt64.size) ↔
      ¬(Nonnegative extents ∧ 0 ∈ extents ∧ UInt64.size ≤ product (leading extents))) ∧
    ((∀ extents', extents.Perm extents' → (spec.Builds w extents' ↔ spec.Builds w extents)) ↔
      ¬(Nonnegative extents ∧ 0 ∈ extents ∧ UInt64.size ≤ product (nonzero extents))) ∧
    (∀ x w', (spec.withExtents extents).build.on w = (.ok x, w') →
      toExtents x.shape = extents ∧ x.numel = product extents) ∧
    (¬spec.Builds w extents → ∃ reason,
      (spec.withExtents extents).build.on w = (.error (.invalidShape extents reason), w)) := by
  have hbuilds (extents : List Int64) : spec.Builds w extents ↔ Fits UInt64.size extents :=
    (on_build h extents).exists_ok_iff
  refine ⟨hbuilds extents, ?_, ?_, ?_, ?_⟩
  · rw [hbuilds]
    exact fits_iff_product_iff (by decide)
  · simp only [hbuilds]
    exact fits_perm_iff (by decide)
  · intro x w' hx
    exact (on_build h extents).of_ok hx
  · intro hnot
    rw [hbuilds] at hnot
    obtain ⟨_, herror, reason, rfl⟩ := (on_build h extents).of_not hnot
    exact ⟨reason, herror⟩

/-- Floats on the processor, of a shape to be given. -/
def floats : TensorSpec :=
  { device := some (.ok .cpu), dtype := some (.ok { scalar := .float32 }) }

theorem ready_floats : floats.Ready (Workspace.enter {}) := ⟨⟨_, rfl⟩, ⟨_, rfl⟩, _, rfl, nofun⟩

/-- The zero stands before the large extents; and without it there are too many elements. -/
theorem builds_iff_zero_first : floats.Ready (Workspace.enter {}) ∧
    floats.Builds (Workspace.enter {}) [0, 0x100000000, 0x100000000] ∧
    ¬floats.Builds (Workspace.enter {}) [0x100000000, 0x100000000] := by
  have hempty := (builds_iff ready_floats [0, 0x100000000, 0x100000000]).1
  have hlarge := (builds_iff ready_floats [0x100000000, 0x100000000]).1
  exact ⟨ready_floats, hempty.2 (by decide), fun h => absurd (hlarge.1 h) (by decide)⟩

/-- An empty tensor is refused for its number of elements, which is zero, and built if its extents
are given in another order. -/
theorem invalidShape_of_empty :
    let w := Workspace.enter {}
    let extents : List Int64 := [0x100000000, 0x100000000, 0]
    floats.Ready w ∧ Nonnegative extents ∧ 0 ∈ extents ∧ product extents = 0 ∧
      (floats.withExtents extents).build.on w =
        (.error (.invalidShape extents "numel overflows"), w) ∧
      extents.Perm [0, 0x100000000, 0x100000000] ∧
      floats.Builds w [0, 0x100000000, 0x100000000] := by
  refine ⟨ready_floats, by decide, by decide, by decide, rfl, by decide, ?_⟩
  exact ⟨_, _, rfl⟩

end TensorSpec

end ProxyTrace
