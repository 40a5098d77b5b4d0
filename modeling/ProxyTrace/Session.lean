import ProxyTrace.LanguageContext

/-!
Sessions: a workspace and the active language contexts, innermost first. A body that runs in a
scope may open scopes of its own; those that it leaves open end with it.
-/

namespace ProxyTrace

/-- A workspace with its active language contexts. -/
structure Session where
  workspace : Workspace := {}
  /-- The active language contexts, innermost first. -/
  contexts : List LanguageContext := []

namespace Session

instance : Inhabited Session := ⟨{}⟩

/-- The innermost language context. -/
def context? (s : Session) : Option LanguageContext := s.contexts.head?

/-- Ends all scopes but the outermost ones, as many as given. -/
def unwind (s : Session) (traces contexts : Nat) : Session :=
  { workspace := s.workspace.closeTo traces
    contexts := s.contexts.drop (s.contexts.length - contexts) }

/-- The session in which the body of a trace scope runs. -/
def enterTrace (s : Session) (source : NameSource) : Session :=
  { s with workspace := s.workspace.enter source }

/-- The session in which the body of a scope of a trace runs that was handed to the caller. -/
def resumeTrace (s : Session) (t : Trace) : Session :=
  { s with workspace := s.workspace.resume t }

/-- Ends the innermost trace scope. -/
def closeTrace (s : Session) : Session := { s with workspace := s.workspace.close }

/-- The end of a trace scope that was opened in `before`: its trace, and the session afterwards. -/
def leaveTrace (before s : Session) : Trace × Session :=
  let s := s.unwind (before.workspace.scopes.length + 1) before.contexts.length
  (s.workspace.active?.getD (.empty before.workspace.nextTrace),
    { s with workspace := s.workspace.takeBack })

/-- The session in which the body of a context scope runs. -/
def enterContext (s : Session) (c : LanguageContext) : Session :=
  { s with contexts := c :: s.contexts }

/-- Ends the innermost context scope. -/
def closeContext (s : Session) : Session := { s with contexts := s.contexts.tail }

/-- The end of a context scope that was opened in `before`. -/
def leaveContext (before s : Session) : Session :=
  s.unwind before.workspace.scopes.length before.contexts.length

/-- An action on the workspace of the session. -/
def onWorkspace {α : Type} (f : Workspace → α × Workspace) (s : Session) : α × Session :=
  let (a, w) := f s.workspace
  (a, { s with workspace := w })

end Session

/-- Computations in a session that may fail. -/
abbrev SessionM := ExceptT Error (StateM Session)

namespace SessionM

variable {α : Type}

/-- A computation on the workspace of the session. -/
def ofWorkspace (x : WorkspaceM α) : SessionM α := ExceptT.mk (Session.onWorkspace x.run.run)

instance : MonadLift WorkspaceM SessionM := ⟨ofWorkspace⟩

def ofExcept (x : Except Error α) : SessionM α := ExceptT.mk fun s => (x, s)

instance : MonadLift (Except Error) SessionM := ⟨ofExcept⟩

/-- The innermost language context. -/
def context? : SessionM (Option LanguageContext) := ExceptT.mk fun s => (.ok s.context?, s)

end SessionM

section Scopes

variable {m : Type → Type} [MonadStateOf Session m] {α : Type}

/-- Runs a computation that may fail where state is all there is, and answers its failure. -/
def SessionM.attempt (x : SessionM α) : m (Except Error α) :=
  modifyGetThe Session fun s => x.run.run s

variable [Monad m]

/-- Runs a body in a new trace, and hands the trace back with what the body answers. A failure is
part of that answer. -/
def withTrace (source : NameSource) (body : m α) : m (Trace × α) := do
  let before ← getThe Session
  set (before.enterTrace source)
  let a ← body
  let (t, after) := before.leaveTrace (← getThe Session)
  set after
  return (t, a)

/-- Runs a body in a trace that was handed to the caller, and hands it back as `withTrace` does. -/
def withTraceOf (t : Trace) (body : m α) : m (Trace × α) := do
  let before ← getThe Session
  set (before.resumeTrace t)
  let a ← body
  let (t, after) := before.leaveTrace (← getThe Session)
  set after
  return (t, a)

/-- Runs a body with a language context active. -/
def withContext (c : LanguageContext) (body : m α) : m α := do
  let before ← getThe Session
  set (before.enterContext c)
  let a ← body
  modifyThe Session before.leaveContext
  return a

end Scopes

end ProxyTrace
