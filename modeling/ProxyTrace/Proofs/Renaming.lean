import ProxyTrace.Proofs.Plan
import ProxyTrace.Proofs.WellFormed

/-!
# Renaming

A well-formed proxy is renamed by giving what is known of it to a new symbol of the innermost trace
(`Proxy.WellFormed.rename_eq`). A tensor is built again for that, and every check on it passes again
(`TensorProxy.WellFormed.resolve_like`). So it is the innermost trace and the name that decide
whether a proxy of a run is renamed, and not the proxy or the trace that owns it
(`Run.renames_iff`).
-/

namespace ProxyTrace

variable {w : Workspace} {t : Trace} {n : Name}

/-! ### Requested names -/

namespace WorkspaceM

theorem on_allocate_of_none (ht : w.active? = none) (requested : Option Name) :
    (allocate requested).on w = (.error .noActiveTrace, w) :=
  on_change_error (Workspace.allocate_eq_error ht requested)

theorem on_allocate_of_mem (ht : w.active? = some t) (hn : n ∈ t.names) :
    (allocate (some n)).on w = (.error (.duplicateName n), w) := by
  refine on_change_error ?_
  rw [Workspace.allocate_some ht, Trace.addName, if_pos hn]
  rfl

theorem on_allocate_of_not_mem (ht : w.active? = some t) (hn : n ∉ t.names) :
    (allocate (some n)).on w = (.ok ⟨n, t.id⟩, w.setActive { t with names := t.names ++ [n] }) := by
  refine on_change_ok ?_
  rw [Workspace.allocate_some ht, Trace.addName, if_neg hn]
  rfl

end WorkspaceM

/-! ### Renaming a proxy -/

@[simp] theorem Sketch.sketch_named (σ : Symbol) (k : Sketch) : (k.named σ).sketch = k := by
  cases k <;> rfl

/-- A tensor like a well-formed one is that one, but for its symbol. -/
theorem TensorProxy.WellFormed.resolve_like {x : TensorProxy} (hx : x.WellFormed)
    (name : Option Name) :
    TensorSpec.resolve { name, like := x } = .ok fun σ => { x with symbol := σ } := by
  rw [TensorSpec.resolve_of_ok rfl rfl rfl, hx.count]
  dsimp only
  rw [← hx.dtype, ← hx.ndim]

theorem Proxy.WellFormed.rename_eq {p : Proxy} (hp : p.WellFormed) (n : Name) :
    p.rename n = do return p.sketch.named (← WorkspaceM.allocate (some n)) := by
  cases p with
  | untyped σ => exact map_eq_pure_bind _ _
  | number p => rfl
  | tensor x =>
    have hx : x.WellFormed := hp
    rw [rename, TensorSpec.build, hx.resolve_like]
    simp only [bind_assoc, pure_bind]
    rfl

/-- The innermost trace registers the name, and the proxy of that name is as it was for the rest. -/
theorem Proxy.WellFormed.on_rename {p : Proxy} (hp : p.WellFormed) (ht : w.active? = some t)
    (hn : n ∉ t.names) : (p.rename n).on w =
      (.ok (p.sketch.named ⟨n, t.id⟩), w.setActive { t with names := t.names ++ [n] }) := by
  rw [hp.rename_eq, WorkspaceM.on_bind_ok (WorkspaceM.on_allocate_of_not_mem ht hn)]
  rfl

namespace Run

variable {run : Run} {p : Proxy}

/-- A program that renames a proxy it holds is answered the new one, and is otherwise as it was but
for its workspace. -/
theorem step_rename (hp : p ∈ run.held) {q : Proxy} {w' : Workspace}
    (h : (p.rename n).on run.session.workspace = (.ok q, w')) :
    Step run { run.inWorkspace w' with held := run.held ++ [q] } := by
  have hadmits : Admits run (.rename p n) none := ⟨by simpa [Call.given] using hp, False.elim⟩
  have hrun : (Call.rename p n).run.on run.session =
      (.ok (.value (.proxy q)), { run.session with workspace := w' }) := by
    rw [Call.run, SessionM.on_bind, SessionM.on_liftM_workspace, h]
    rfl
  have hlog : run.after (.rename p n) none (.value (.proxy q))
      { run.session with workspace := w' } =
        { run.inWorkspace w' with held := run.held ++ [q] } := by
    simp [after, inWorkspace, Call.trail, Call.Trail.entries, Call.Answer.proxies, Value.proxies]
  rw [← hlog]
  exact .call hadmits hrun

/-- **When a proxy is renamed.** Whatever it stands for, and whichever trace owns it, closed or
shadowed, it is renamed exactly if there is an innermost trace and the name is not registered there;
a failure says which of the two it is and changes nothing. The new proxy belongs to the innermost
trace, and all that is known of it besides its symbol is what is known of the old one. The program
goes on holding the old one, and nothing else changes but that the trace registers the name. -/
theorem renames_iff (h : Reachable run) (hp : p ∈ run.held) (n : Name) :
    let w := run.session.workspace
    ((∃ q w', (p.rename n).on w = (.ok q, w')) ↔ ∃ t, w.active? = some t ∧ n ∉ t.names) ∧
    (w.active? = none → (p.rename n).on w = (.error .noActiveTrace, w)) ∧
    ∀ t, w.active? = some t →
      (n ∈ t.names → (p.rename n).on w = (.error (.duplicateName n), w)) ∧
      (n ∉ t.names → ∃ (q : Proxy) (w' : Workspace), (p.rename n).on w = (.ok q, w') ∧
        q.name = n ∧ q.owner = t.id ∧ q.sketch = p.sketch ∧
        w' = w.setActive { t with names := t.names ++ [n] } ∧
        Step run { run.inWorkspace w' with held := run.held ++ [q] }) := by
  intro w
  have hwf : p.WellFormed := h.wellFormed p hp
  have hnone (ht : w.active? = none) : (p.rename n).on w = (.error .noActiveTrace, w) := by
    rw [hwf.rename_eq]
    exact WorkspaceM.on_bind_error (WorkspaceM.on_allocate_of_none ht _)
  have hmem {t : Trace} (ht : w.active? = some t) (hn : n ∈ t.names) :
      (p.rename n).on w = (.error (.duplicateName n), w) := by
    rw [hwf.rename_eq]
    exact WorkspaceM.on_bind_error (WorkspaceM.on_allocate_of_mem ht hn)
  refine ⟨⟨?_, ?_⟩, hnone, fun t ht => ⟨hmem ht, fun hn => ?_⟩⟩
  · rintro ⟨q, w', hq⟩
    cases ht : w.active? with
    | none =>
      rw [hnone ht] at hq
      cases hq
    | some t =>
      refine ⟨t, rfl, fun hn => ?_⟩
      rw [hmem ht hn] at hq
      cases hq
  · rintro ⟨t, ht, hn⟩
    exact ⟨_, _, hwf.on_rename ht hn⟩
  · have hrename := hwf.on_rename ht hn
    exact ⟨_, _, hrename, by simp [Proxy.name], by simp [Proxy.owner], by simp, rfl,
      step_rename hp hrename⟩

/-- A weakly typed tensor of an outer trace, whose zero stands before large extents, under a name of
the inner trace that the outer one has given out too. -/
theorem renames_iff_nested : ∃ run p, Reachable run ∧ p ∈ run.held ∧ p.name = "x" ∧ p.owner = ⟨0⟩ ∧
    p.sketch = .tensor [0, 0x100000000, 0x100000000] .cpu ⟨.int64, false⟩ ⟨.int64, true⟩ 0 3 ∧
    (∃ q w', (p.rename "x").on run.session.workspace = (.ok q, w') ∧ q.name = "x" ∧
      q.owner = ⟨1⟩ ∧ q.sketch = p.sketch) ∧
    (p.rename "y").on run.session.workspace =
      (.error (.duplicateName "y"), run.session.workspace) := by
  let spec : TensorSpec := ⟨some "x", none, some [0, 0x100000000, 0x100000000], some (.ok .cpu),
    some (.ok ⟨.int64, true⟩)⟩
  let x : TensorProxy := ⟨⟨"x", ⟨0⟩⟩, [0, 0x100000000, 0x100000000], .cpu, ⟨.int64, false⟩,
    ⟨.int64, true⟩, 0, 3⟩
  have hx := (Reachable.start.step (.move (.enter default))).step
    (.call (⟨List.nil_subset _, False.elim⟩ : Admits _ (.build spec) none) rfl)
  have hy := (hx.step (.move (.enter default))).step
    (.call (⟨List.nil_subset _, False.elim⟩ : Admits _ (.addName "y") none) rfl)
  have hiff (n : Name) := renames_iff (p := .tensor x) hy (.head _) n
  obtain ⟨-, -, hfree⟩ := hiff "x"
  obtain ⟨-, -, htaken⟩ := hiff "y"
  obtain ⟨q, w', hq, hname, howner, hsketch, -⟩ := (hfree _ rfl).2 (by decide)
  exact ⟨_, .tensor x, hy, .head _, rfl, rfl, rfl, ⟨q, w', hq, hname, howner, hsketch⟩,
    (htaken _ rfl).1 (by decide)⟩

end Run

end ProxyTrace
