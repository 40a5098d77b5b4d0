import ProxyTrace.Proofs.Scopes
import ProxyTrace.Proofs.Script

/-!
# Renumbering

Traces and recorders are numbered in the order in which they are made, by whomever. What is run
before a program so moves the numbers that the program gets (`Renumbering`), and nothing else:
computations of the library never look at a number but to compare it with another. From sessions
that are the same up to the numbers (`Session.Renumbered`) a command goes on to sessions of this
kind, and if it is given the same up to the numbers, it answers the same up to the numbers
(`Script.Command.renumbers_run`).
-/

namespace ProxyTrace

variable {α β γ δ : Type}

/-! ### Two computations side by side -/

section Corresponds

variable {σ : Type} {S : Nat → σ → σ → Prop}

/-- From states that are related at some stage both computations end in states that are related at
that stage, with related answers. What is related at a later stage is so at an earlier one: a stage
stands for what has been made before. -/
def Corresponds (S : Nat → σ → σ → Prop) (R : α → β → Prop) (x : StateM σ α) (y : StateM σ β) :
    Prop :=
  ∀ n s s', S n s s' → R (x.run s).1 (y.run s').1 ∧ S n (x.run s).2 (y.run s').2

theorem Corresponds.bind {R : α → β → Prop} {R' : γ → δ → Prop} {x : StateM σ α} {y : StateM σ β}
    {f : α → StateM σ γ} {f' : β → StateM σ δ} (hx : Corresponds S R x y)
    (hf : ∀ a b, R a b → Corresponds S R' (f a) (f' b)) :
    Corresponds S R' (x >>= f) (y >>= f') := by
  intro n s s' h
  obtain ⟨hab, h⟩ := hx n s s' h
  exact hf _ _ hab n _ _ h

/-- Of two computations that may fail, the second one answers `g` of what the first one does, or
both fail, in the same way. -/
abbrev CorrespondsBy (S : Nat → σ → σ → Prop) (g : α → β) (x : ExceptT Error (StateM σ) α)
    (y : ExceptT Error (StateM σ) β) : Prop :=
  Corresponds S (Matches g) x.run y.run

namespace CorrespondsBy

variable {g : α → β} {h : γ → δ} {x : ExceptT Error (StateM σ) α}
  {y : ExceptT Error (StateM σ) β}

theorem except {u : Except Error α} {v : Except Error β} (huv : Matches g u v) :
    CorrespondsBy S g (ExceptT.mk fun s => (u, s)) (ExceptT.mk fun s => (v, s)) :=
  fun _ _ _ hs => ⟨huv, hs⟩

theorem pure (a : α) : CorrespondsBy S g (Pure.pure a) (Pure.pure (g a)) := except (.ok a)

theorem throw {e e' : Error} (he : e.kind = e'.kind) :
    CorrespondsBy S g (MonadExcept.throw e) (MonadExcept.throw e') := except (.error he)

theorem bind {f : α → ExceptT Error (StateM σ) γ} {f' : β → ExceptT Error (StateM σ) δ}
    (hx : CorrespondsBy S g x y) (hf : ∀ a, CorrespondsBy S h (f a) (f' (g a))) :
    CorrespondsBy S h (x >>= f) (y >>= f') := by
  rw [CorrespondsBy, ExceptT.run_bind, ExceptT.run_bind]
  refine Corresponds.bind hx fun a b hab => ?_
  cases hab with
  | ok a => exact hf a
  | error he => exact CorrespondsBy.throw he

theorem map (hx : CorrespondsBy S g x y) {k : α → γ} {k' : β → δ}
    (hk : ∀ a, k' (g a) = h (k a)) :
    CorrespondsBy S h (do return k (← x)) (do return k' (← y)) := by
  refine hx.bind fun a => ?_
  rw [hk]
  exact .pure _

end CorrespondsBy

end Corresponds

/-! ### Renumberings -/

/-- The numbers from the first one on are moved up. -/
structure Shift where
  first : Nat
  offset : Nat

namespace Shift

variable (σ : Shift) {n : Nat}

def apply (n : Nat) : Nat := if n < σ.first then n else n + σ.offset

theorem apply_of_lt (h : n < σ.first) : σ.apply n = n := if_pos h

theorem apply_succ (h : σ.first ≤ n) : σ.apply (n + 1) = σ.apply n + 1 := by
  unfold apply
  split <;> split <;> omega

theorem injective_apply : Function.Injective σ.apply := by
  intro m n h
  unfold apply at h
  split at h <;> split at h <;> omega

/-- What would be the first number is the second one instead. -/
def between (m n : Nat) : Shift := ⟨m, n - m⟩

theorem apply_between {m n : Nat} (h : m ≤ n) : (between m n).apply m = n :=
  (if_neg (Nat.lt_irrefl m)).trans (Nat.add_sub_cancel' h)

theorem le_apply_between {m n k : Nat} (h : m ≤ k) : n ≤ (between m n).apply k := by
  have hmoved : (between m n).apply k = k + (n - m) := if_neg (Nat.not_lt.2 h)
  omega

end Shift

/-- Other numbers for the traces and recorders that are made later. -/
structure Renumbering where
  traces : Shift
  recorders : Shift

namespace Renumbering

def trace (π : Renumbering) (id : TraceId) : TraceId := ⟨π.traces.apply id.index⟩

def recorder (π : Renumbering) (r : Recorder) : Recorder := ⟨π.recorders.apply r.index⟩

/-- Proxies keep their names. -/
def translation (π : Renumbering) : Translation := ⟨fun n => n, π.trace⟩

/-- The footprint, and all recorders and traces that are made later. -/
def extend (π : Renumbering) (F : Footprint) : Footprint :=
  { F with
    recorders := fun r => r.index < π.recorders.first → F.recorders r
    traces := fun id => id.index < π.traces.first → F.traces id }

variable (π : Renumbering)

theorem injective_trace : Function.Injective π.trace := by
  rintro ⟨m⟩ ⟨n⟩ h
  exact congrArg TraceId.mk (π.traces.injective_apply (congrArg TraceId.index h))

theorem injective_recorder : Function.Injective π.recorder := by
  rintro ⟨m⟩ ⟨n⟩ h
  exact congrArg Recorder.mk (π.recorders.injective_apply (congrArg Recorder.index h))

end Renumbering

variable {π : Renumbering} {F : Footprint}

/-- No name is changed, so that nodes show the same. -/
theorem Value.toTerm_renumber (v : Value) : (v.translate π.translation).toTerm = v.toTerm := by
  rw [toTerm_translate]
  exact v.toTerm.translate_eq_self fun _ => rfl

/-- Nodes show names, which stay. -/
theorem Node.ofCall_renumber (op : String) (args : List Value) (output : Value) :
    ofCall op (args.map (Value.translate π.translation)) (output.translate π.translation) =
      ofCall op args output := by
  rw [ofCall, List.map_map, output.toTerm_renumber]
  exact congrArg (Node.mk op · _) (List.map_congr_left fun v _ => v.toTerm_renumber)

/-! ### Traces -/

/-- The trace under its other number. -/
def Trace.renumber (π : Renumbering) (t : Trace) : Trace := { t with id := π.trace t.id }

theorem Trace.give_renumber (requested : Option Name) (t : Trace) :
    (t.renumber π).give requested =
      ((t.give requested).1, (t.give requested).2.renumber π) := by
  cases requested with
  | none => rfl
  | some name =>
    have hnames : (t.renumber π).names = t.names := rfl
    simp only [give, addName, hnames]
    by_cases hname : name ∈ t.names
    · rw [if_pos hname, if_pos hname]
    · rw [if_neg hname, if_neg hname]
      rfl

theorem WorkspaceM.allocateIn_renumber (requested : Option Name) (ts : List Trace) :
    allocateIn requested (ts.map (Trace.renumber π)) =
      (Symbol.translate π.translation <$> (allocateIn requested ts).1,
        (allocateIn requested ts).2.map (Trace.renumber π)) := by
  cases ts with
  | nil => rfl
  | cons t ts =>
    rw [List.map_cons, allocateIn, allocateIn, t.give_renumber]
    cases (t.give requested).1 <;> rfl

/-! ### Workspaces -/

namespace Workspace

/-- At least `made` recorders have been made. The same traces are open, and the recorders and
references of the footprint show the same, up to the numbers. All recorders and traces that are made
from now on belong to those that are made later. -/
structure Renumbered (π : Renumbering) (F : Footprint) (made : Nat) (w w' : Workspace) :
    Prop where
  made : made ≤ w.nextRecorder.index
  scopes : w'.scopes = w.scopes.map (Trace.renumber π)
  opened : ∀ t ∈ w.scopes, (π.extend F).traces t.id
  graph : ∀ r, (π.extend F).recorders r → r.index < w.nextRecorder.index →
    w'.graph (π.recorder r) = w.graph r
  references : ∀ id, (π.extend F).traces id → (π.trace id ∈ w'.references ↔ id ∈ w.references)
  nextTrace : w'.nextTrace = π.trace w.nextTrace
  nextRecorder : w'.nextRecorder = π.recorder w.nextRecorder
  firstTrace : π.traces.first ≤ w.nextTrace.index
  firstRecorder : π.recorders.first ≤ w.nextRecorder.index

namespace Renumbered

variable {made : Nat} {w w' : Workspace}

theorem active? (h : w.Renumbered π F made w') : w'.active? = w.active?.map (Trace.renumber π) := by
  rw [Workspace.active?, h.scopes, List.head?_map]
  rfl

theorem length_scopes (h : w.Renumbered π F made w') :
    w'.scopes.length = w.scopes.length := by
  rw [h.scopes, List.length_map]

theorem setGraph (h : w.Renumbered π F made w') (r : Recorder) {g g' : Graph}
    (hg : r.index < w.nextRecorder.index → g' = g) :
    (w.setGraph r g).Renumbered π F made (w'.setGraph (π.recorder r) g') :=
  { h with
    graph := fun r' hr' hmade => by
      by_cases heq : r' = r
      · rw [heq, graph_setGraph_self, graph_setGraph_self, hg (heq ▸ hmade)]
      · have hne : π.recorder r' ≠ π.recorder r := fun h => heq (π.injective_recorder h)
        rw [graph_setGraph_of_ne heq, graph_setGraph_of_ne hne, h.graph r' hr' hmade] }

theorem matches_checkOwner (h : w.Renumbered π F made w') (σ : Symbol) :
    Matches id (w.checkOwner σ) (w'.checkOwner (σ.translate π.translation)) := by
  rw [checkOwner, checkOwner, h.active?]
  cases w.active? with
  | none => exact .ok ()
  | some t =>
    exact .ite π.injective_trace.eq_iff.symm (fun _ => .ok ()) fun _ => .error rfl

theorem matches_checkOwners (h : w.Renumbered π F made w') (vs : List Value) :
    Matches id (w.checkOwners vs)
      (w'.checkOwners (vs.map (Value.translate π.translation))) := by
  have hproxies : (vs.map (Value.translate π.translation)).filterMap Value.proxy? =
      (vs.filterMap Value.proxy?).map (Proxy.translate π.translation) := by
    rw [List.filterMap_map, List.map_filterMap]
    exact congrArg (List.filterMap · vs) (funext fun v => v.proxy?_translate _)
  rw [checkOwners, checkOwners, hproxies]
  generalize vs.filterMap Value.proxy? = ps
  induction ps with
  | nil => exact .ok ()
  | cons p ps ih =>
    have hp := h.matches_checkOwner p.symbol
    rw [← p.symbol_translate] at hp
    exact hp.bind fun _ _ => ih

theorem setScopes (h : w.Renumbered π F made w') {ts : List Trace}
    (hts : ∀ t ∈ ts, (π.extend F).traces t.id) :
    Renumbered π F made { w with scopes := ts } { w' with scopes := ts.map (Trace.renumber π) } :=
  { h with
    scopes := rfl
    opened := hts }

end Renumbered

end Workspace

namespace WorkspaceM

/-- In workspaces that are the same up to the numbers, both computations change them alike, and the
second one answers `g` of what the first one does. -/
abbrev Renumbers (π : Renumbering) (F : Footprint) (g : α → β) (x : WorkspaceM α)
    (y : WorkspaceM β) : Prop :=
  CorrespondsBy (Workspace.Renumbered π F) g x y

theorem renumbers_allocate (requested : Option Name) :
    (allocate requested).Renumbers π F (Symbol.translate π.translation) (allocate requested) := by
  intro made w w' h
  have hopened : ∀ t ∈ (allocateIn requested w.scopes).2, (π.extend F).traces t.id := by
    have hopened := h.opened
    generalize w.scopes = ts at hopened ⊢
    cases ts with
    | nil => exact hopened
    | cons t ts =>
      obtain ⟨ht, hts⟩ := List.forall_mem_cons.1 hopened
      exact List.forall_mem_cons.2 ⟨(t.id_give requested).symm ▸ ht, hts⟩
  have hon : (allocate requested).on w' = _ := on_allocate requested w'
  rw [h.scopes, allocateIn_renumber] at hon
  change Matches _ ((allocate requested).on w).1 ((allocate requested).on w').1 ∧
    Workspace.Renumbered π F made ((allocate requested).on w).2 ((allocate requested).on w').2
  rw [hon, on_allocate]
  refine ⟨?_, h.setScopes hopened⟩
  dsimp only
  cases (allocateIn requested w.scopes).1 with
  | error e => exact .error rfl
  | ok σ => exact .ok σ

theorem renumbers_checkOwner (σ : Symbol) :
    (checkOwner σ).Renumbers π F id (checkOwner (σ.translate π.translation)) :=
  fun _ _ _ h => ⟨h.matches_checkOwner σ, h⟩

theorem renumbers_checkOwners (vs : List Value) :
    (checkOwners vs).Renumbers π F id
      (checkOwners (vs.map (Value.translate π.translation))) :=
  fun _ _ _ h => ⟨h.matches_checkOwners vs, h⟩

theorem renumbers_record {r : Recorder} (hr : (π.extend F).recorders r) (op : String)
    (args : List Value) (output : Value) :
    (record r op args output).Renumbers π F (Value.translate π.translation)
      (record (π.recorder r) op (args.map (Value.translate π.translation))
        (output.translate π.translation)) := by
  intro made w w' h
  refine ⟨.ok output, ?_⟩
  change (w.record r _).Renumbered π F made (w'.record (π.recorder r) _)
  rw [Node.ofCall_renumber]
  exact h.setGraph r fun hmade => congrArg (Graph.push · _) (h.graph r hr hmade)

end WorkspaceM

open WorkspaceM

/-! ### Constructions and recorders -/

theorem Sketch.renumbers_draw (k : Sketch) :
    k.draw.Renumbers π F (Value.translate π.translation) k.draw :=
  (renumbers_allocate none).map fun σ => by
    rw [Value.translate, Sketch.translate_named]

theorem Plan.renumbers_perform {r : Recorder} (hr : (π.extend F).recorders r) (plan : Plan) :
    (plan.perform r).Renumbers π F (Value.translate π.translation)
      ((plan.translate π.translation).perform (π.recorder r)) := by
  cases plan with
  | answer v => exact .pure v
  | draw k => exact k.renumbers_draw
  | record op args k => exact k.renumbers_draw.bind fun v => renumbers_record hr op args v
  | recordTwice op args k =>
    exact k.renumbers_draw.bind fun v => k.renumbers_draw.bind fun v' =>
      renumbers_record hr op args (.tuple [v, v'])

theorem Plan.renumbers_carryOut {r : Recorder} (hr : (π.extend F).recorders r)
    {plan plan' : Except Error Plan} (h : Matches (Plan.translate π.translation) plan plan') :
    (carryOut r plan).Renumbers π F (Value.translate π.translation)
      (carryOut (π.recorder r) plan') :=
  (CorrespondsBy.except h).bind fun plan => plan.renumbers_perform hr

theorem NumberProxy.renumbers_make (kind : NumberKind) (value : Option Number)
    (name : Option Name) : (make kind value name).Renumbers π F
      (NumberProxy.translate π.translation) (make kind value name) := by
  rw [make_eq]
  refine (CorrespondsBy.except (Matches.refl _)).bind fun value => ?_
  exact (renumbers_allocate name).map fun _ => rfl

theorem Proxy.renumbers_makeUntyped (name : Option Name) :
    (makeUntyped name).Renumbers π F (translate π.translation) (makeUntyped name) :=
  (renumbers_allocate name).map fun _ => rfl

/-- A tensor is built from what its fields come to, which a tensor that it is like gives under any
number. -/
theorem TensorSpec.renumbers_build {spec spec' : TensorSpec}
    (hresolve : spec'.resolve = spec.resolve) (hname : spec'.name = spec.name) :
    spec.build.Renumbers π F (TensorProxy.translate π.translation) spec'.build := by
  rw [build, build, hresolve, hname]
  cases hresolve : spec.resolve with
  | error e => exact .throw rfl
  | ok f =>
    obtain ⟨shape, device, dtype, numel, -, -, -, -, rfl⟩ := resolve_eq_ok hresolve
    exact (renumbers_allocate spec.name).map fun _ => rfl

/-- What two contexts do is the same up to the numbers. -/
structure LanguageContext.Renumbered (π : Renumbering) (F : Footprint) (c c' : LanguageContext) :
    Prop where
  unary : ∀ op a, (c.unary op a).Renumbers π F (Value.translate π.translation)
    (c'.unary op (a.translate π.translation))
  binary : ∀ op a b, (c.binary op a b).Renumbers π F (Value.translate π.translation)
    (c'.binary op (a.translate π.translation) (b.translate π.translation))
  getItem : ∀ a key, (c.getItem a key).Renumbers π F (Value.translate π.translation)
    (c'.getItem (a.translate π.translation) (key.translate π.translation))
  method? : ∀ name, Option.Rel
    (fun f f' => ∀ args, (f args).Renumbers π F (Value.translate π.translation)
      (f' (args.map (Value.translate π.translation))))
    (c.method? name) (c'.method? name)
  isTensor : ∀ v, c'.isTensor (v.translate π.translation) = c.isTensor v
  tensorProxy : ∀ name v, (c.tensorProxy name v).Renumbers π F
    (TensorProxy.translate π.translation) (c'.tensorProxy name (v.translate π.translation))

theorem Recorder.renumbered_context {r : Recorder} (hr : (π.extend F).recorders r) :
    r.context.Renumbered π F (π.recorder r).context where
  unary op a := by
    rw [unary_context, unary_context, unary_eq, unary_eq]
    exact Plan.renumbers_carryOut hr (matches_planUnary _ op a)
  binary op a b := by
    rw [binary_context, binary_context, binary_eq_carryOut, binary_eq_carryOut]
    exact Plan.renumbers_carryOut hr (matches_planBinary _ op a b)
  getItem a key := by
    change (r.getItem a key).Renumbers π F _ ((π.recorder r).getItem _ _)
    rw [getItem_eq_carryOut, getItem_eq_carryOut]
    exact Plan.renumbers_carryOut hr (matches_planGetItem _ a key)
  method? name := by
    change Option.Rel _ (r.method? name) ((π.recorder r).method? name)
    rw [method?_eq_map, method?_eq_map]
    cases hplan : planMethod? name with
    | none => exact .none
    | some plan =>
      exact .some fun args => Plan.renumbers_carryOut hr (matches_planMethod _ args hplan)
  isTensor v := by cases v <;> rfl
  tensorProxy name v := by
    cases v with
    | tensor shape => exact TensorSpec.renumbers_build rfl rfl
    | _ => exact .throw rfl

/-! ### Sessions -/

/-- The workspaces are the same up to the numbers, and so is what the active contexts do. -/
structure Session.Renumbered (π : Renumbering) (F : Footprint) (made : Nat) (s s' : Session) :
    Prop where
  workspace : s.workspace.Renumbered π F made s'.workspace
  contexts : List.Forall₂ (LanguageContext.Renumbered π F) s.contexts s'.contexts

namespace SessionM

/-- In sessions that are the same up to the numbers, both computations change them alike, and the
second one answers `g` of what the first one does. -/
abbrev Renumbers (π : Renumbering) (F : Footprint) (g : α → β) (x : SessionM α) (y : SessionM β) :
    Prop :=
  CorrespondsBy (Session.Renumbered π F) g x y

variable {g : α → β} {h : γ → δ}

theorem renumbers_liftM {x : WorkspaceM α} {y : WorkspaceM β} (hxy : x.Renumbers π F g y) :
    Renumbers π F g (liftM x : SessionM α) (liftM y : SessionM β) := by
  intro made s s' hs
  obtain ⟨hanswer, hworkspace⟩ := hxy made s.workspace s'.workspace hs.workspace
  exact ⟨hanswer, hworkspace, hs.contexts⟩

/-- What comes after a look at the active context. -/
theorem renumbers_ask {f : Option LanguageContext → SessionM α}
    {f' : Option LanguageContext → SessionM β} (hnone : Renumbers π F g (f none) (f' none))
    (hsome : ∀ c c' : LanguageContext, c.Renumbered π F c' →
      Renumbers π F g (f (some c)) (f' (some c'))) :
    Renumbers π F g (context? >>= f) (context? >>= f') := by
  rintro made ⟨w, contexts⟩ ⟨w', contexts'⟩ ⟨hworkspace, hcontexts⟩
  cases hcontexts with
  | nil => exact hnone _ _ _ ⟨hworkspace, .nil⟩
  | cons hc hcontexts => exact hsome _ _ hc _ _ _ ⟨hworkspace, .cons hc hcontexts⟩

end SessionM

open SessionM

namespace TensorProxy

theorem renumbers_context_bind (op : String) (t : TensorProxy)
    {f f' : LanguageContext → SessionM Value}
    (hf : ∀ c c' : LanguageContext, c.Renumbered π F c' →
      Renumbers π F (Value.translate π.translation) (f c) (f' c')) :
    Renumbers π F (Value.translate π.translation) (t.context op >>= f)
      ((t.translate π.translation).context op >>= f') := by
  rw [context, context, bind_assoc, bind_assoc]
  refine renumbers_ask (.throw rfl) fun c c' hc => ?_
  simp only [bind_assoc, pure_bind]
  exact (renumbers_liftM (renumbers_checkOwner t.symbol)).bind fun _ => hf c c' hc

theorem renumbers_unary (op : UnaryOp) (t : TensorProxy) :
    (t.unary op).Renumbers π F (Value.translate π.translation)
      ((t.translate π.translation).unary op) :=
  t.renumbers_context_bind _ fun _ _ hc => renumbers_liftM (hc.unary op t)

theorem renumbers_binary (op : BinaryOp) (t : TensorProxy) (other : Value) :
    (t.binary op other).Renumbers π F (Value.translate π.translation)
      ((t.translate π.translation).binary op (other.translate π.translation)) :=
  t.renumbers_context_bind _ fun _ _ hc =>
    (renumbers_liftM (renumbers_checkOwners [other])).bind fun _ =>
      renumbers_liftM (hc.binary op t other)

theorem renumbers_reflected (op : BinaryOp) (t : TensorProxy) (other : Value) :
    (t.reflected op other).Renumbers π F (Value.translate π.translation)
      ((t.translate π.translation).reflected op (other.translate π.translation)) :=
  t.renumbers_context_bind _ fun _ _ hc =>
    (renumbers_liftM (renumbers_checkOwners [other])).bind fun _ =>
      renumbers_liftM (hc.binary op other t)

theorem renumbers_getItem (t : TensorProxy) (key : Value) :
    (t.getItem key).Renumbers π F (Value.translate π.translation)
      ((t.translate π.translation).getItem (key.translate π.translation)) :=
  t.renumbers_context_bind _ fun _ _ hc =>
    (renumbers_liftM (renumbers_checkOwners [key])).bind fun _ =>
      renumbers_liftM (hc.getItem t key)

/-- A method is looked up, and called at once. -/
theorem renumbers_method (name : String) (t : TensorProxy) (args : List Value) :
    Renumbers π F (Value.translate π.translation) (do (← t.attribute name).call args) (do
      (← (t.translate π.translation).attribute name).call
        (args.map (Value.translate π.translation))) := by
  rw [TensorProxy.attribute, TensorProxy.attribute, bind_assoc, bind_assoc]
  refine t.renumbers_context_bind _ fun c c' hc => ?_
  have hmethod := hc.method? name
  generalize c.method? name = f at hmethod ⊢
  generalize c'.method? name = f' at hmethod ⊢
  cases hmethod with
  | none => exact .throw rfl
  | some hf => exact renumbers_liftM (hf (t :: args))

end TensorProxy

namespace NumberProxy

theorem renumbers_unary (op : UnaryOp) (p : NumberProxy) :
    (p.unary op).Renumbers π F (Value.translate π.translation)
      ((p.translate π.translation).unary op) := by
  refine renumbers_ask ?_ fun c c' hc => ?_
  · dsimp only [NumberProxy.translate]
    cases p.value with
    | none => exact .throw rfl
    | some n => exact (CorrespondsBy.except (Matches.refl (n.unary op))).map fun _ => rfl
  · exact (renumbers_liftM (renumbers_checkOwner p.symbol)).bind fun _ =>
      renumbers_liftM (hc.unary op p)

/-- Which operand is a tensor is the same under other numbers. -/
theorem renumbers_compareKnown (op : BinaryOp) (a b : Value) :
    (compareKnown op a b).Renumbers π F (Value.translate π.translation)
      (compareKnown op (a.translate π.translation) (b.translate π.translation)) := by
  rw [compareKnown, compareKnown, Value.tensorProxy?_translate, Value.tensorProxy?_translate]
  cases b.tensorProxy? with
  | some t => exact t.renumbers_reflected op a
  | none =>
    cases a.tensorProxy? with
    | some t => exact t.renumbers_binary op b
    | none =>
      refine (CorrespondsBy.except (matches_compared _ op a)).bind fun x => ?_
      refine (CorrespondsBy.except (matches_compared _ op b)).bind fun y => ?_
      refine (CorrespondsBy.except (Matches.refl (Number.binary op x y))).map fun ans => ?_
      exact ((Value.ofAnswer ans).translate_of_proxies_eq_nil _ (Value.proxies_ofAnswer ans)).symm

theorem renumbers_dispatch (op : BinaryOp) (p : NumberProxy) (a b : Value) :
    (p.dispatch op a b).Renumbers π F (Value.translate π.translation)
      ((p.translate π.translation).dispatch op (a.translate π.translation)
        (b.translate π.translation)) := by
  unfold dispatch
  split
  · exact .throw rfl
  · split
    · exact renumbers_compareKnown op a b
    · refine renumbers_ask (CorrespondsBy.except ?_) fun c c' hc => ?_
      · refine (Value.matches_evaluate _ op a b).congr fun v hv => ?_
        exact (v.translate_of_proxies_eq_nil _ (Value.proxies_of_evaluate hv)).symm
      · exact (renumbers_liftM (renumbers_checkOwners [a, b])).bind fun _ =>
          renumbers_liftM (hc.binary op a b)

end NumberProxy

theorem Proxy.renumbers_binary (op : BinaryOp) (p : Proxy) (other : Value) :
    (p.binary op other).Renumbers π F (Value.translate π.translation)
      ((p.translate π.translation).binary op (other.translate π.translation)) := by
  cases p with
  | untyped σ => exact .throw rfl
  | number p => exact p.renumbers_dispatch op p other
  | tensor t => exact t.renumbers_binary op other

theorem Proxy.renumbers_reflected (op : BinaryOp) (p : Proxy) (other : Value) :
    (p.reflected op other).Renumbers π F (Value.translate π.translation)
      ((p.translate π.translation).reflected op (other.translate π.translation)) := by
  cases p with
  | untyped σ => exact .throw rfl
  | number p => exact p.renumbers_dispatch op other p
  | tensor t => exact t.renumbers_reflected op other

namespace Value

theorem renumbers_unary (op : UnaryOp) (a : Value) :
    (a.unary op).Renumbers π F (translate π.translation)
      ((a.translate π.translation).unary op) := by
  cases a with
  | proxy p =>
    cases p with
    | untyped σ => exact .throw rfl
    | number p => exact p.renumbers_unary op
    | tensor t => exact t.renumbers_unary op
  | number n => exact (CorrespondsBy.except (Matches.refl (n.unary op))).map fun _ => rfl
  | _ => exact .throw rfl

theorem renumbers_binary (op : BinaryOp) (a b : Value) :
    (a.binary op b).Renumbers π F (translate π.translation)
      ((a.translate π.translation).binary op (b.translate π.translation)) := by
  cases a with
  | proxy p => exact p.renumbers_binary op b
  | number x =>
    cases b with
    | proxy p => exact p.renumbers_reflected op (number x)
    | number y =>
      refine (CorrespondsBy.except (Matches.refl (x.binary op y))).map fun ans => ?_
      exact ((ofAnswer ans).translate_of_proxies_eq_nil _ (proxies_ofAnswer ans)).symm
    | _ => exact .throw rfl
  | _ =>
    cases b with
    | proxy p => exact p.renumbers_reflected op _
    | _ => exact .throw rfl

theorem renumbers_getItem (a key : Value) :
    (a.getItem key).Renumbers π F (translate π.translation)
      ((a.translate π.translation).getItem (key.translate π.translation)) := by
  cases a with
  | proxy p =>
    cases p with
    | tensor t => exact t.renumbers_getItem key
    | _ => exact .throw rfl
  | _ => exact .throw rfl

end Value

theorem renumbers_liftNumber (v : Value) (name : Option Name) :
    (liftNumber v name).Renumbers π F (Value.translate π.translation)
      (liftNumber (v.translate π.translation) name) := by
  cases v with
  | number x => exact (NumberProxy.renumbers_make x.kind x name).map fun _ => rfl
  | _ => exact .pure _

theorem renumbers_lift (v : Value) (name : Option Name) :
    (lift v name).Renumbers π F (Value.translate π.translation)
      (lift (v.translate π.translation) name) := by
  refine renumbers_ask (renumbers_liftM (renumbers_liftNumber v name)) fun c c' hc => ?_
  dsimp only
  rw [hc.isTensor]
  split
  · exact (renumbers_liftM (hc.tensorProxy name v)).map fun _ => rfl
  · exact renumbers_liftM (renumbers_liftNumber v name)

/-! ### Commands -/

theorem Instruction.renumbers_run (i : Instruction Value) :
    i.run.Renumbers π F (Value.translate π.translation)
      (i.map (Value.translate π.translation)).run := by
  cases i with
  | unary op a => exact a.renumbers_unary op
  | binary op a b => exact a.renumbers_binary op b
  | getItem a key => exact a.renumbers_getItem key
  | tuple items =>
    rw [run, map, run, ← Value.translateItems_eq_map]
    exact .pure (Value.tuple items)
  | item i a => exact .except (Value.matches_item _ i a)

namespace Script.Command

/-- A command goes on to sessions that are the same up to the numbers, and so are the answers. -/
theorem renumbers_run (c : Command Value) :
    c.run.Renumbers π F (Value.translate π.translation)
      (c.map (Value.translate π.translation)).run := by
  cases c with
  | operate i => exact i.renumbers_run
  | method a name args =>
    rw [run, map, run, Value.tensorProxy?_translate]
    cases a.tensorProxy? with
    | none => exact .throw rfl
    | some t => exact t.renumbers_method name args
  | makeUntyped =>
    exact (renumbers_liftM (Proxy.renumbers_makeUntyped none)).map fun _ => rfl
  | makeNumber kind value =>
    exact (renumbers_liftM (NumberProxy.renumbers_make kind value none)).map fun _ => rfl
  | makeTensor like shape device dtype =>
    have hresolve := resolve_spec_translate π.translation like shape device dtype
    exact (renumbers_liftM (TensorSpec.renumbers_build hresolve rfl)).map fun _ => rfl
  | lift a => exact renumbers_lift a none

end Script.Command

end ProxyTrace
