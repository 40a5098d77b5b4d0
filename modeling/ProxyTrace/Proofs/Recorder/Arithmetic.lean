import ProxyTrace.Proofs.Allocation
import ProxyTrace.Recorder.Context

/-!
# Recorded arithmetic

What a recorder does with an operator on numbers of which at least one is a proxy: if the rules
give the result a kind, it draws a fresh name of the innermost trace for each number that comes
out and appends one node; otherwise it fails, and nothing is changed.
-/

namespace ProxyTrace

variable {w : Workspace} {t : Trace} {r : Recorder} {j k : NumberKind}

/-- A proxy of the next fresh name of the trace. -/
def Trace.nextNumber (t : Trace) (k : NumberKind) (value : Option Number := none) : NumberProxy :=
  ⟨⟨t.makeName.1, t.id⟩, k, value⟩

namespace Recorder

theorem on_freshNumber (ht : w.active? = some t) (k : NumberKind) :
    (freshNumber k).on w = (.ok (t.nextNumber k), w.setActive t.makeName.2) := by
  have hmake : (NumberProxy.make k).on w = (.ok (t.nextNumber k), w.setActive t.makeName.2) := by
    refine (WorkspaceM.on_bind_ok (a := none) rfl).trans ?_
    exact WorkspaceM.on_bind_ok (WorkspaceM.on_allocate_none ht)
  exact WorkspaceM.on_bind_ok hmake

theorem on_unary (ht : w.active? = some t) {op : UnaryOp} {p : NumberProxy}
    (hk : p.kind.unary? op = some k) :
    (r.unary op p).on w = (.ok (t.nextNumber k), (w.setActive t.makeName.2).record r
      ⟨op.name, [.name p.name], .name t.makeName.1⟩) := by
  rw [unary, hk]
  refine (WorkspaceM.on_bind_ok (a := k) rfl).trans ?_
  exact WorkspaceM.on_bind_ok (on_freshNumber ht k)

theorem on_unary_error {op : UnaryOp} {p : NumberProxy} (hk : p.kind.unary? op = none) :
    (r.unary op p).on w = (.error (.unsupportedOperation op.name p.kind.name), w) := by
  rw [unary, hk]
  exact WorkspaceM.on_bind_error rfl

section Binary

variable {op : BinaryOp} {a b : Value}

theorem tensorProxy?_of_kind {v : Value} {op : String} (h : v.kind op = .ok k) :
    v.tensorProxy? = none := by
  unfold Value.tensorProxy?
  split
  · cases h
  · rfl

/-- An operator on numbers of which one is a proxy looks at their kinds alone. -/
theorem binary_eq (ha : a.kind op.name = .ok j) (hb : b.kind op.name = .ok k)
    (hproxy : (a.numberProxy?.isSome || b.numberProxy?.isSome) = true) :
    r.binary op a b = (do
      let kind ← orUnsupported op.name s!"{j} and {k}" ((j.promote k).binary? op)
      WorkspaceM.record r op.name [a, b] (← results op (freshNumber kind))) := by
  rw [binary, tensorProxy?_of_kind ha, tensorProxy?_of_kind hb]
  simp only [hproxy, if_true, ha, hb]
  rfl

theorem on_binary (ht : w.active? = some t) (ha : a.kind op.name = .ok j)
    (hb : b.kind op.name = .ok k) (hproxy : (a.numberProxy?.isSome || b.numberProxy?.isSome) = true)
    (hop : op ≠ .divmod) {l : NumberKind} (hl : (j.promote k).binary? op = some l) :
    (r.binary op a b).on w = (.ok (t.nextNumber l), (w.setActive t.makeName.2).record r
      ⟨op.name, [a.toTerm, b.toTerm], .name t.makeName.1⟩) := by
  rw [binary_eq ha hb hproxy, hl]
  refine (WorkspaceM.on_bind_ok (a := l) rfl).trans ?_
  rw [results, if_neg hop]
  exact WorkspaceM.on_bind_ok (on_freshNumber ht l)

theorem on_divmod (ht : w.active? = some t) (ha : a.kind BinaryOp.divmod.name = .ok j)
    (hb : b.kind BinaryOp.divmod.name = .ok k)
    (hproxy : (a.numberProxy?.isSome || b.numberProxy?.isSome) = true)
    {l : NumberKind} (hl : (j.promote k).binary? .divmod = some l) :
    let t' := t.makeName.2
    (r.binary .divmod a b).on w = (.ok (.tuple [(t.nextNumber l : Value), t'.nextNumber l]),
      ((w.setActive t').setActive t'.makeName.2).record r
        ⟨BinaryOp.divmod.name, [a.toTerm, b.toTerm],
          .tuple [.name t.makeName.1, .name t'.makeName.1]⟩) := by
  intro t'
  rw [binary_eq ha hb hproxy, hl]
  refine (WorkspaceM.on_bind_ok (a := l) rfl).trans ?_
  have hboth : (results .divmod (freshNumber l)).on w =
      (.ok (.tuple [(t.nextNumber l : Value), t'.nextNumber l]),
        (w.setActive t').setActive t'.makeName.2) := by
    rw [results, if_pos rfl]
    refine (WorkspaceM.on_bind_ok (on_freshNumber ht l)).trans ?_
    exact WorkspaceM.on_bind_ok (on_freshNumber (w.active?_setActive t') l)
  exact WorkspaceM.on_bind_ok hboth

theorem on_binary_error (ha : a.kind op.name = .ok j) (hb : b.kind op.name = .ok k)
    (hproxy : (a.numberProxy?.isSome || b.numberProxy?.isSome) = true)
    (hl : (j.promote k).binary? op = none) :
    (r.binary op a b).on w = (.error (.unsupportedOperation op.name s!"{j} and {k}"), w) := by
  rw [binary_eq ha hb hproxy, hl]
  exact WorkspaceM.on_bind_error rfl

end Binary

end Recorder

end ProxyTrace
