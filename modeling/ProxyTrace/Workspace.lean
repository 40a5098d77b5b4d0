import ProxyTrace.Graph
import ProxyTrace.Trace

/-!
The workspace: the active traces, innermost first, the references kept to them, and the graphs of
the recorders. It is what an operation under a language context may change; an operation that
fails keeps the changes it has made so far.
-/

namespace ProxyTrace

/-- The identity of a recorder, by which its graph is found. -/
structure Recorder where
  index : Nat
  deriving DecidableEq, Repr

/-- Traces and graphs. -/
structure Workspace where
  /-- The identity of the next trace. -/
  nextTrace : TraceId := ⟨0⟩
  /-- The active traces, innermost first. -/
  scopes : List Trace := []
  /-- The traces to which a reference is kept, in the order in which they were kept. -/
  references : List TraceId := []
  /-- What the references to a trace show after its scope has ended. -/
  ended : List (TraceId × Trace) := []
  /-- The identity of the next recorder. -/
  nextRecorder : Recorder := ⟨0⟩
  /-- The graph of each recorder that has been made. -/
  graphs : List (Recorder × Graph) := []

namespace Workspace

instance : Inhabited Workspace := ⟨{}⟩

/-! ### Scopes -/

/-- The innermost trace. -/
def active? (w : Workspace) : Option Trace := w.scopes.head?

/-- Opens a scope with a new trace. -/
def enter (w : Workspace) (source : NameSource := default) : Workspace :=
  { w with nextTrace := ⟨w.nextTrace.index + 1⟩, scopes := .empty w.nextTrace source :: w.scopes }

/-- A new trace that is in no scope yet. -/
def newTrace (w : Workspace) (source : NameSource := default) : Trace × Workspace :=
  (.empty w.nextTrace source, { w with nextTrace := ⟨w.nextTrace.index + 1⟩ })

/-- Opens a scope with a trace that was handed to the caller. References from its earlier scope go
on showing what they have shown since that ended. -/
def resume (t : Trace) (w : Workspace) : Workspace :=
  let key (id : TraceId) : TraceId :=
    match w.ended.lookup t.id with
    | some shown => if id = t.id then shown.id else id
    | none => id
  { w with
    scopes := t :: w.scopes
    references := w.references.map key
    ended := w.ended.map fun (id, shown) => (key id, shown) }

/-- Ends the innermost scope. References to its trace go on showing it. -/
def close (w : Workspace) : Workspace :=
  match w.scopes with
  | [] => w
  | t :: scopes =>
    { w with scopes, ended := if t.id ∈ w.references then (t.id, t) :: w.ended else w.ended }

/-- Ends the innermost scope, whose trace is handed to the caller. References to it show a new
empty trace from then on. -/
def takeBack (w : Workspace) : Workspace :=
  match w.scopes with
  | [] => w
  | t :: scopes =>
    if t.id ∈ w.references then
      { w with
        nextTrace := ⟨w.nextTrace.index + 1⟩
        scopes
        ended := (t.id, .empty w.nextTrace) :: w.ended }
    else { w with scopes }

/-- Ends scopes until at most `n` are left. -/
def closeTo (w : Workspace) (n : Nat) : Workspace :=
  if _h : n < w.scopes.length then closeTo w.close n else w
termination_by w.scopes.length
decreasing_by
  unfold close
  split <;> simp_all

/-- Keeps a reference to the innermost trace. -/
def keep (w : Workspace) : Except Error Workspace :=
  match w.active? with
  | some t => .ok { w with references := w.references ++ [t.id] }
  | none => .error .noActiveTrace

/-- Gives up a reference. -/
def release (id : TraceId) (w : Workspace) : Workspace :=
  { w with references := w.references.erase id }

/-- The traces that the references show now. -/
def kept (w : Workspace) : List Trace :=
  w.references.filterMap fun id => w.scopes.find? (·.id = id) <|> w.ended.lookup id

/-! ### Names -/

/-- A symbol of the innermost trace, with the requested name or else a fresh one. -/
def allocate (w : Workspace) (requested : Option Name) : Except Error (Symbol × Workspace) :=
  match w.scopes, requested with
  | [], _ => .error .noActiveTrace
  | t :: scopes, none =>
    let (name, t) := t.makeName
    .ok (⟨name, t.id⟩, { w with scopes := t :: scopes })
  | t :: scopes, some name => do
    let t ← t.addName name
    return (⟨name, t.id⟩, { w with scopes := t :: scopes })

/-- Fails if a trace other than the owner is innermost. -/
def checkOwner (w : Workspace) (s : Symbol) : Except Error Unit :=
  match w.active? with
  | some t => if t.id = s.owner then .ok () else .error (.staleProxy s.name s.owner t.id)
  | none => .ok ()

/-- Checks the owners of those values that are proxies. -/
def checkOwners (w : Workspace) (vs : List Value) : Except Error Unit :=
  (vs.filterMap Value.proxy?).forM fun p => w.checkOwner p.symbol

/-! ### Graphs -/

/-- The graph of a recorder. -/
def graph (w : Workspace) (r : Recorder) : Graph := (w.graphs.lookup r).getD .empty

theorem graph_of_graphs_eq {w w' : Workspace} (h : w'.graphs = w.graphs) (r : Recorder) :
    w'.graph r = w.graph r := by
  rw [graph, graph, h]

theorem graphs_close (w : Workspace) : w.close.graphs = w.graphs := by
  unfold close
  split <;> rfl

theorem graphs_closeTo (w : Workspace) (n : Nat) : (w.closeTo n).graphs = w.graphs := by
  fun_induction closeTo w n with
  | case1 w h ih => rw [ih, graphs_close]
  | case2 => rfl

theorem graphs_takeBack (w : Workspace) : w.takeBack.graphs = w.graphs := by
  unfold takeBack
  split
  · rfl
  · split <;> rfl

/-- The graphs with one replaced, or added if the recorder has none. -/
def replaceGraph (r : Recorder) (g : Graph) : List (Recorder × Graph) → List (Recorder × Graph)
  | [] => [(r, g)]
  | (r', g') :: rest => if r' = r then (r, g) :: rest else (r', g') :: replaceGraph r g rest

def setGraph (w : Workspace) (r : Recorder) (g : Graph) : Workspace :=
  { w with graphs := replaceGraph r g w.graphs }

theorem lookup_replaceGraph (r r' : Recorder) (g : Graph) (gs : List (Recorder × Graph)) :
    (replaceGraph r g gs).lookup r' = if r' = r then some g else gs.lookup r' := by
  fun_induction replaceGraph r g gs with
  | case1 => by_cases h : r' = r <;> simp [List.lookup_cons, h, beq_eq_false_iff_ne.2]
  | case2 => by_cases h : r' = r <;> simp [List.lookup_cons, h, beq_eq_false_iff_ne.2]
  | case3 r'' _ _ hne ih =>
    by_cases h : r' = r''
    · simp [h, hne]
    · simp [List.lookup_cons, beq_eq_false_iff_ne.2 h, ih]

@[simp] theorem graph_setGraph_self (w : Workspace) (r : Recorder) (g : Graph) :
    (w.setGraph r g).graph r = g := by
  simp [graph, setGraph, lookup_replaceGraph]

@[simp] theorem graph_setGraph_of_ne {r r' : Recorder} (h : r' ≠ r) (w : Workspace) (g : Graph) :
    (w.setGraph r g).graph r' = w.graph r' := by
  simp [graph, setGraph, lookup_replaceGraph, h]

/-- Appends a node to the graph of a recorder. -/
def record (w : Workspace) (r : Recorder) (n : Node) : Workspace :=
  w.setGraph r ((w.graph r).push n)

/-- A new recorder, with an empty graph. -/
def newRecorder (w : Workspace) : Recorder × Workspace :=
  let r := w.nextRecorder
  (r, { w with nextRecorder := ⟨r.index + 1⟩ }.setGraph r .empty)

/-- The graph of a recorder, which is emptied. -/
def takeGraph (r : Recorder) (w : Workspace) : Graph × Workspace := (w.graph r, w.setGraph r .empty)

end Workspace

/-- Computations on a workspace that may fail. -/
abbrev WorkspaceM := ExceptT Error (StateM Workspace)

namespace WorkspaceM

variable {α : Type}

/-- Answers from the workspace, without a change. -/
def read (f : Workspace → Except Error α) : WorkspaceM α := ExceptT.mk fun w => (f w, w)

/-- Changes the workspace, except on failure. -/
def change (f : Workspace → Except Error (α × Workspace)) : WorkspaceM α :=
  ExceptT.mk fun w =>
    match f w with
    | .ok (a, w') => (.ok a, w')
    | .error e => (.error e, w)

def ofExcept (x : Except Error α) : WorkspaceM α := read fun _ => x

instance : MonadLift (Except Error) WorkspaceM := ⟨ofExcept⟩

/-- The innermost trace. -/
def active : WorkspaceM Trace :=
  read fun w =>
    match w.active? with
    | some t => .ok t
    | none => .error .noActiveTrace

/-- A symbol of the innermost trace, with the requested name or else a fresh one. -/
def allocate (requested : Option Name) : WorkspaceM Symbol := change (·.allocate requested)

/-- A fresh name of the innermost trace. -/
def makeName : WorkspaceM Name := Symbol.name <$> allocate none

/-- Registers a name in the innermost trace. -/
def addName (name : Name) : WorkspaceM Unit := discard (allocate (some name))

def checkOwner (s : Symbol) : WorkspaceM Unit := read (·.checkOwner s)

def checkOwners (vs : List Value) : WorkspaceM Unit := read (·.checkOwners vs)

/-- Keeps a reference to the innermost trace. -/
def keep : WorkspaceM Unit := change fun w => do return ((), ← w.keep)

/-- Records a call, and answers its output. -/
def record (r : Recorder) (op : String) (args : List Value) (output : Value) : WorkspaceM Value :=
  change fun w => .ok (output, w.record r (.ofCall op args output))

end WorkspaceM

end ProxyTrace
