import ProxyTrace.Error
import ProxyTrace.Name

/-!
Traces. A trace gives out names, each only once: chosen by the caller, or the next free candidate
of its source.
-/

namespace ProxyTrace

/-- A registry of names. -/
structure Trace where
  id : TraceId
  /-- The names given out, oldest first. -/
  names : List Name
  source : NameSource

namespace Trace

/-- A trace that has given out no name. -/
def empty (id : TraceId) (source : NameSource := default) : Trace := ⟨id, [], source⟩

def hasName (t : Trace) (name : Name) : Bool := t.names.contains name

/-- Registers a name that the caller chose. -/
def addName (t : Trace) (name : Name) : Except Error Trace :=
  if name ∈ t.names then .error (.duplicateName name)
  else .ok { t with names := t.names ++ [name] }

/-- Gives out the next free name of the source. -/
def makeName (t : Trace) : Name × Trace :=
  let (name, source) := t.source.draw t.names
  (name, { t with names := t.names ++ [name], source })

theorem addName_eq_ok_iff {t t' : Trace} {name : Name} :
    t.addName name = .ok t' ↔ name ∉ t.names ∧ t' = { t with names := t.names ++ [name] } := by
  unfold addName
  split <;> simp_all [eq_comm]

theorem makeName_not_mem (t : Trace) : t.makeName.1 ∉ t.names := t.source.draw_not_mem t.names

@[simp] theorem id_makeName (t : Trace) : t.makeName.2.id = t.id := rfl

@[simp] theorem names_makeName (t : Trace) : t.makeName.2.names = t.names ++ [t.makeName.1] := rfl

end Trace

end ProxyTrace
