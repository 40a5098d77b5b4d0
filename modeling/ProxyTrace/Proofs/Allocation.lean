import ProxyTrace.Construct
import ProxyTrace.Proofs.Computation

/-!
# Giving out names

Every name comes from `WorkspaceM.allocate`, which gives out one symbol of the innermost trace: a
name that is new to that trace, and the trace's identity (`Workspace.GivesOut`). A proxy is made in
one way: what is given of it is checked, and then its symbol is allocated, so that a construction
that fails has changed nothing (`NumberProxy.ensures_make`, `TensorSpec.ensures_build`,
`Proxy.ensures_rename`).
-/

namespace ProxyTrace

variable {w w₁ w' : Workspace} {t t₁ : Trace} {σ : Symbol} {σs τs : List Symbol}

namespace Workspace

/-- The workspace with another trace in the place of the innermost one. -/
def setActive (t : Trace) (w : Workspace) : Workspace :=
  { w with scopes := t :: w.scopes.tail }

@[simp] theorem active?_setActive (t : Trace) (w : Workspace) :
    (w.setActive t).active? = some t := rfl

@[simp] theorem setActive_setActive (t t₁ : Trace) (w : Workspace) :
    (w.setActive t).setActive t₁ = w.setActive t₁ := rfl

theorem graph_record (r : Recorder) (n : Node) (w : Workspace) :
    (w.record r n).graph r = (w.graph r).push n := by
  rw [record, graph_setGraph_self]

theorem graph_record_of_ne {r r' : Recorder} (h : r' ≠ r) (n : Node) (w : Workspace) :
    (w.record r n).graph r' = w.graph r' := by
  rw [record, graph_setGraph_of_ne h]

/-- The innermost trace `t` gives out the symbols, whose names are new to it, and nothing else
happens. -/
structure GivesOut (w : Workspace) (t : Trace) (σs : List Symbol) (w' : Workspace) : Prop where
  active : w.active? = some t
  owner : ∀ σ ∈ σs, σ.owner = t.id
  fresh : ∀ σ ∈ σs, σ.name ∉ t.names
  distinct : (σs.map Symbol.name).Nodup
  after : ∃ source, w' = w.setActive { t with names := t.names ++ σs.map Symbol.name, source }

/-- One symbol is given out, with the requested name if there is one. -/
def Allocates (requested : Option Name) (w : Workspace) (σ : Symbol) (w' : Workspace) : Prop :=
  (∃ t, w.GivesOut t [σ] w') ∧ ∀ n, requested = some n → σ.name = n

theorem GivesOut.append (h : w.GivesOut t σs w₁) (h₁ : w₁.GivesOut t₁ τs w') :
    w.GivesOut t (σs ++ τs) w' := by
  obtain ⟨source, rfl⟩ := h.after
  obtain ⟨source₁, rfl⟩ := h₁.after
  obtain rfl := Option.some.inj h₁.active
  have hfresh : ∀ τ ∈ τs, τ.name ∉ t.names ∧ τ.name ∉ σs.map Symbol.name := by
    intro τ hτ
    have hnew := h₁.fresh τ hτ
    rw [List.mem_append, not_or] at hnew
    exact hnew
  refine ⟨h.active, ?_, ?_, ?_, source₁, ?_⟩
  · intro σ hσ
    rcases List.mem_append.1 hσ with hσ | hσ
    · exact h.owner σ hσ
    · exact h₁.owner σ hσ
  · intro σ hσ
    rcases List.mem_append.1 hσ with hσ | hσ
    · exact h.fresh σ hσ
    · exact (hfresh σ hσ).1
  · rw [List.map_append]
    refine List.nodup_append.2 ⟨h.distinct, h₁.distinct, ?_⟩
    rintro m hm n hn rfl
    obtain ⟨τ, hτ, rfl⟩ := List.mem_map.1 hn
    exact (hfresh τ hτ).2 hm
  · rw [setActive_setActive, List.map_append, List.append_assoc]

theorem exists_scopes (ht : w.active? = some t) : ∃ ts, w.scopes = t :: ts :=
  List.head?_eq_some_iff.1 ht

theorem allocate_none (ht : w.active? = some t) :
    w.allocate none = .ok (⟨t.makeName.1, t.id⟩, w.setActive t.makeName.2) := by
  obtain ⟨ts, hs⟩ := exists_scopes ht
  simp only [allocate, setActive, hs, List.tail_cons, Trace.id_makeName]

theorem allocate_some (ht : w.active? = some t) (name : Name) :
    w.allocate (some name) = (do return (⟨name, t.id⟩, w.setActive (← t.addName name))) := by
  obtain ⟨ts, hs⟩ := exists_scopes ht
  simp only [allocate, setActive, hs, List.tail_cons]
  cases h : t.addName name with
  | error e => rfl
  | ok t' =>
    obtain ⟨-, rfl⟩ := Trace.addName_eq_ok_iff.1 h
    rfl

theorem allocate_eq_error (ht : w.active? = none) (requested : Option Name) :
    w.allocate requested = .error .noActiveTrace := by
  have hs : w.scopes = [] := List.head?_eq_none_iff.1 ht
  simp only [allocate, hs]

theorem allocates_of_ok {requested : Option Name} (h : w.allocate requested = .ok (σ, w')) :
    w.Allocates requested σ w' := by
  cases ht : w.active? with
  | none => rw [allocate_eq_error ht] at h; cases h
  | some t =>
    cases requested with
    | none =>
      rw [allocate_none ht] at h
      cases h
      refine ⟨⟨t, ht, ?_, ?_, ?_, t.makeName.2.source, rfl⟩, nofun⟩
      · simp
      · simpa using t.makeName_not_mem
      · simp
    | some name =>
      rw [allocate_some ht] at h
      cases hadd : t.addName name with
      | error e => rw [hadd] at h; cases h
      | ok t' =>
        obtain ⟨hnew, rfl⟩ := Trace.addName_eq_ok_iff.1 hadd
        rw [hadd] at h
        cases h
        refine ⟨⟨t, ht, ?_, ?_, ?_, t.source, rfl⟩, ?_⟩
        · simp
        · simpa using hnew
        · simp
        · rintro n ⟨⟩
          rfl

/-- There is an innermost trace, in which the requested name is free. -/
def HasRoom (w : Workspace) (requested : Option Name) : Prop :=
  ∃ t, w.active? = some t ∧ ∀ name, requested = some name → name ∉ t.names

theorem HasRoom.exists_allocate {requested : Option Name} (h : w.HasRoom requested) :
    ∃ σ w', w.allocate requested = .ok (σ, w') := by
  obtain ⟨t, ht, hfree⟩ := h
  cases requested with
  | none => exact ⟨_, _, allocate_none ht⟩
  | some name =>
    have hadd := Trace.addName_eq_ok_iff.2 ⟨hfree name rfl, rfl⟩
    exact ⟨_, _, (allocate_some ht name).trans (by rw [hadd]; rfl)⟩

end Workspace

open Workspace

namespace WorkspaceM

theorem ensures_allocate (requested : Option Name) :
    (allocate requested).Ensures (Allocates requested) :=
  ensures_change fun _ _ _ => allocates_of_ok

theorem on_allocate_none (ht : w.active? = some t) :
    (allocate none).on w = (.ok ⟨t.makeName.1, t.id⟩, w.setActive t.makeName.2) :=
  on_change_ok (Workspace.allocate_none ht)

theorem ensures_makeName :
    makeName.Ensures fun w n w' => ∃ σ, w.Allocates none σ w' ∧ σ.name = n :=
  (ensures_allocate none).bind_pure _ fun _ σ _ h => ⟨σ, h, rfl⟩

theorem ensures_addName (name : Name) :
    (addName name).Ensures fun w _ w' => ∃ σ, w.Allocates (some name) σ w' :=
  (ensures_allocate (some name)).bind_pure _ fun _ σ _ h => ⟨σ, h⟩

end WorkspaceM

/-! ### Constructions -/

theorem Number.kind_of_coerce {x y : Number} {k : NumberKind} (h : x.coerce k = .ok y) :
    y.kind = k := by
  unfold coerce at h
  split at h <;> cases h
  rename_i hwiden
  unfold widen? at hwiden
  split at hwiden
  · split at hwiden <;> cases hwiden
    assumption
  · obtain ⟨i, -, rfl⟩ := Option.map_eq_some_iff.1 hwiden
    rfl
  · obtain ⟨z, -, rfl⟩ := Option.map_eq_some_iff.1 hwiden
    rfl
  · cases hwiden
    rfl

theorem NumberProxy.make_eq (kind : NumberKind) (value : Option Number) (name : Option Name) :
    make kind value name = (do
      let value ← (value.mapM (·.coerce kind) : Except Error (Option Number))
      return { symbol := ← WorkspaceM.allocate name, kind, value }) := by
  cases value with
  | none => rfl
  | some n =>
    change (some <$> liftM (n.coerce kind) >>= _ : WorkspaceM NumberProxy) =
      liftM (some <$> n.coerce kind) >>= _
    cases n.coerce kind <;> rfl

theorem NumberProxy.ensures_make (kind : NumberKind) (value : Option Number) (name : Option Name) :
    (make kind value name).Ensures fun w p w' => w.Allocates name p.symbol w' ∧
      p.kind = kind ∧ value.mapM (·.coerce kind) = .ok p.value := by
  rw [make_eq]
  apply WorkspaceM.Ensures.liftM_bind
  intro v hv
  exact (WorkspaceM.ensures_allocate name).bind_pure _ fun _ _ _ h => ⟨h, rfl, hv⟩

namespace TensorSpec

variable {s : TensorSpec} {f : Symbol → TensorProxy} {shape : List Nat} {device : Device}
  {dtype : DType}

/-- Once the fields are there, only the number of elements may fail. -/
theorem resolve_of_ok (hshape : s.shapeOf = .ok shape) (hdevice : s.deviceOf = .ok device)
    (hdtype : s.dtypeOf = .ok dtype) :
    s.resolve = match Shape.numel? shape with
      | some numel => .ok fun symbol =>
        ⟨symbol, shape, device, dtype.toStrong, dtype, numel, shape.length⟩
      | none => .error (.invalidShape (Shape.toExtents shape) "numel overflows") := by
  rw [resolve, hshape, hdevice, hdtype]
  dsimp only [bind, Except.bind]
  cases Shape.numel? shape <;> rfl

theorem resolve_eq_ok (h : s.resolve = .ok f) : ∃ shape device dtype numel,
    s.shapeOf = .ok shape ∧ s.deviceOf = .ok device ∧ s.dtypeOf = .ok dtype ∧
      Shape.numel? shape = some numel ∧ f = fun symbol =>
        ⟨symbol, shape, device, dtype.toStrong, dtype, numel, shape.length⟩ := by
  cases hshape : s.shapeOf with
  | error e => rw [resolve, hshape] at h; cases h
  | ok shape =>
    cases hdevice : s.deviceOf with
    | error e => rw [resolve, hshape, hdevice] at h; cases h
    | ok device =>
      cases hdtype : s.dtypeOf with
      | error e => rw [resolve, hshape, hdevice, hdtype] at h; cases h
      | ok dtype =>
        rw [resolve_of_ok hshape hdevice hdtype] at h
        split at h
        · cases h
          exact ⟨shape, device, dtype, _, rfl, rfl, rfl, ‹_›, rfl⟩
        · cases h

theorem symbol_of_resolve (h : s.resolve = .ok f) (σ : Symbol) : (f σ).symbol = σ := by
  obtain ⟨shape, device, dtype, numel, -, -, -, -, rfl⟩ := resolve_eq_ok h
  rfl

theorem ensures_build (s : TensorSpec) :
    s.build.Ensures fun w t w' => w.Allocates s.name t.symbol w' ∧
      ∃ f, s.resolve = .ok f ∧ t = f t.symbol := by
  apply WorkspaceM.Ensures.liftM_bind
  intro f hf
  refine (WorkspaceM.ensures_allocate s.name).bind_pure _ fun _ σ _ h => ?_
  rw [symbol_of_resolve hf]
  exact ⟨h, f, hf, rfl⟩

theorem on_build_of_resolve_error {e : Error} (h : s.resolve = .error e) (w : Workspace) :
    s.build.on w = (.error e, w) := by
  rw [build, h]
  rfl

theorem exists_build_of_resolve {f : Symbol → TensorProxy} (h : s.resolve = .ok f)
    (hroom : w.HasRoom s.name) : ∃ σ w', s.build.on w = (.ok (f σ), w') := by
  obtain ⟨σ, w', hallocate⟩ := hroom.exists_allocate
  refine ⟨σ, w', ?_⟩
  rw [build, h]
  exact WorkspaceM.on_bind_ok (WorkspaceM.on_change_ok hallocate)

end TensorSpec

theorem Proxy.ensures_makeUntyped (name : Option Name) :
    (makeUntyped name).Ensures fun w p w' => w.Allocates name p.symbol w' :=
  (WorkspaceM.ensures_allocate name).bind_pure _ fun _ _ _ h => h

theorem Proxy.ensures_rename (p : Proxy) (name : Name) :
    (p.rename name).Ensures fun w p' w' => w.Allocates (some name) p'.symbol w' := by
  cases p with
  | untyped σ => exact ensures_makeUntyped (some name)
  | number p => exact (WorkspaceM.ensures_allocate (some name)).bind_pure _ fun _ _ _ h => h
  | tensor t => exact (TensorSpec.ensures_build _).bind_pure _ fun _ _ _ h => h.1

end ProxyTrace
