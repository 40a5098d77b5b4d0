import Mathlib.Data.List.Forall2
import ProxyTrace.Proofs.Uses

/-!
# Footprints

A footprint is made up of recorders and traces, and says whether the innermost trace and the active
context may be touched as well. A computation stays in one (`StaysIn`) if it changes nothing else
that there was, leaves both stacks in place (`Session.WorksIn`), and comes to the same in sessions
that agree on the footprint (`Session.Alike`).

The main statement is `SessionM.Uses.staysIn`: what the library computes stays in a footprint of
the recorders that it uses, where the innermost trace and the active context belong to it
(`Session.Ready`).
-/

namespace ProxyTrace

variable {α β : Type}

/-- What a computation may touch. -/
structure Footprint where
  recorders : Recorder → Prop
  traces : TraceId → Prop
  /-- Whether it may touch the innermost trace, which is one of the traces then. -/
  active : Prop
  /-- Whether it may ask the active context, which uses the recorders only then. -/
  asks : Prop

namespace Footprint

def all : Footprint := ⟨fun _ => True, fun _ => True, True, True⟩

/-- The recorders and traces alone. -/
def own (recorders : Recorder → Prop) (traces : TraceId → Prop) : Footprint :=
  ⟨recorders, traces, False, False⟩

def addRecorder (F : Footprint) (r : Recorder) : Footprint :=
  { F with recorders := fun r' => r' = r ∨ F.recorders r' }

/-- With the trace, where that is innermost. -/
def inTrace (F : Footprint) (id : TraceId) : Footprint :=
  { F with traces := fun id' => id' = id ∨ F.traces id', active := True }

/-- Where a context of the footprint is active. -/
def inContext (F : Footprint) : Footprint := { F with asks := True }

end Footprint

variable {F G : Footprint} {opens : Bool} {t t' : Trace} {ts ts' : List Trace}

/-! ### The open traces -/

/-- The trace has the same identity, and is the same if it is not of the footprint. -/
def Trace.ChangedIn (F : Footprint) (t t' : Trace) : Prop :=
  t'.id = t.id ∧ (¬ F.traces t.id → t' = t)

theorem Trace.ChangedIn.refl (t : Trace) : ChangedIn F t t := ⟨rfl, fun _ => rfl⟩

namespace Scopes

open Trace

theorem changedIn_refl (ts : List Trace) : List.Forall₂ (ChangedIn F) ts ts :=
  List.forall₂_same.2 fun t _ => .refl t

theorem changedIn_trans {ts₁ ts₂ : List Trace} (h : List.Forall₂ (ChangedIn F) ts ts₁)
    (h₁ : List.Forall₂ (ChangedIn G) ts₁ ts₂) (hG : ∀ t ∈ ts, G.traces t.id → F.traces t.id) :
    List.Forall₂ (ChangedIn F) ts ts₂ := by
  induction h generalizing ts₂ with
  | nil =>
    cases h₁
    exact .nil
  | @cons t t₁ ts ts₁ ht h ih =>
    cases h₁ with
    | @cons _ t₂ _ ts₂ ht₁ h₁ =>
      refine .cons ⟨ht₁.1.trans ht.1, fun hF => ?_⟩ (ih h₁ fun t hmem => hG t (.tail _ hmem))
      have hG₁ : ¬ G.traces t₁.id := by
        rw [ht.1]
        exact fun hGt => hF (hG t (.head _) hGt)
      rw [ht₁.2 hG₁, ht.2 hF]

theorem ids_of_changedIn (h : List.Forall₂ (ChangedIn F) ts ts') :
    ts'.map Trace.id = ts.map Trace.id := by
  induction h with
  | nil => rfl
  | cons ht _ ih => rw [List.map_cons, List.map_cons, ht.1, ih]

theorem eq_of_changedIn (h : List.Forall₂ (ChangedIn F) ts ts')
    (hF : ∀ t ∈ ts, ¬ F.traces t.id) : ts' = ts := by
  induction h with
  | nil => rfl
  | cons ht _ ih =>
    rw [ht.2 (hF _ (.head _)), ih fun t hmem => hF t (.tail _ hmem)]

theorem id_mem_of_changedIn (h : List.Forall₂ (ChangedIn F) ts ts') (ht' : t' ∈ ts') :
    ∃ t ∈ ts, t.id = t'.id := by
  have hid : t'.id ∈ ts'.map Trace.id := List.mem_map_of_mem ht'
  rw [ids_of_changedIn h] at hid
  exact List.mem_map.1 hid

theorem id_head?_of_changedIn (h : List.Forall₂ (ChangedIn F) ts ts') :
    ts'.head?.map Trace.id = ts.head?.map Trace.id := by
  rw [← List.head?_map, ids_of_changedIn h, List.head?_map]

end Scopes

/-! ### Workspaces -/

namespace Workspace

variable {w w' w₁ w₂ : Workspace}

/-- The identities in use have been given out. -/
structure Valid (w : Workspace) : Prop where
  scopes : ∀ t ∈ w.scopes, t.id.index < w.nextTrace.index
  references : ∀ id ∈ w.references, id.index < w.nextTrace.index
  ended : ∀ p ∈ w.ended, p.1.index < w.nextTrace.index

/-- On the way from `w` to `w'` nothing that there was has changed but in the footprint, and the
same traces are open. -/
structure WorksIn (F : Footprint) (w w' : Workspace) : Prop where
  scopes : List.Forall₂ (Trace.ChangedIn F) w.scopes w'.scopes
  graph : ∀ r, r.index < w.nextRecorder.index → ¬ F.recorders r → w'.graph r = w.graph r
  references : ∀ id, id.index < w.nextTrace.index → ¬ F.traces id →
    w'.references.count id = w.references.count id
  ended : ∀ id, id.index < w.nextTrace.index → ¬ F.traces id →
    w'.ended.lookup id = w.ended.lookup id
  nextTrace : w.nextTrace.index ≤ w'.nextTrace.index
  nextRecorder : w.nextRecorder.index ≤ w'.nextRecorder.index
  valid : w'.Valid

/-- The same traces are open, and what is of the footprint is the same, as are the next identities
if they may be given out. -/
structure Alike (opens : Bool) (F : Footprint) (w w' : Workspace) : Prop where
  scopes : w'.scopes = w.scopes
  graph : ∀ r, F.recorders r → w'.graph r = w.graph r
  references : ∀ id, F.traces id → w'.references.count id = w.references.count id
  ended : ∀ id, F.traces id → w'.ended.lookup id = w.ended.lookup id
  next : opens = true → w'.nextTrace = w.nextTrace ∧ w'.nextRecorder = w.nextRecorder

theorem WorksIn.refl (h : w.Valid) : w.WorksIn F w where
  scopes := Scopes.changedIn_refl _
  graph _ _ _ := rfl
  references _ _ _ := rfl
  ended _ _ _ := rfl
  nextTrace := Nat.le_refl _
  nextRecorder := Nat.le_refl _
  valid := h

/-- What the second part may touch beyond the first footprint must be new. -/
theorem WorksIn.trans (hw : w.Valid) (h : w.WorksIn F w₁) (h₁ : w₁.WorksIn G w₂)
    (hrecorders : ∀ r, r.index < w.nextRecorder.index → G.recorders r → F.recorders r)
    (htraces : ∀ id, id.index < w.nextTrace.index → G.traces id → F.traces id) :
    w.WorksIn F w₂ where
  scopes := Scopes.changedIn_trans h.scopes h₁.scopes fun t ht => htraces _ (hw.scopes t ht)
  graph r hr hF :=
    (h₁.graph r (Nat.lt_of_lt_of_le hr h.nextRecorder) fun hG => hF (hrecorders r hr hG)).trans
      (h.graph r hr hF)
  references id hid hF :=
    (h₁.references id (Nat.lt_of_lt_of_le hid h.nextTrace) fun hG => hF (htraces id hid hG)).trans
      (h.references id hid hF)
  ended id hid hF :=
    (h₁.ended id (Nat.lt_of_lt_of_le hid h.nextTrace) fun hG => hF (htraces id hid hG)).trans
      (h.ended id hid hF)
  nextTrace := Nat.le_trans h.nextTrace h₁.nextTrace
  nextRecorder := Nat.le_trans h.nextRecorder h₁.nextRecorder
  valid := h₁.valid

theorem WorksIn.active (h : w.WorksIn F w') :
    w'.active?.map Trace.id = w.active?.map Trace.id := Scopes.id_head?_of_changedIn h.scopes

theorem Alike.active? (h : w.Alike opens F w') : w'.active? = w.active? :=
  congrArg List.head? h.scopes

theorem Valid.of_changedIn (hw : w.Valid) (h : List.Forall₂ (Trace.ChangedIn F) w.scopes ts) :
    ({ w with scopes := ts } : Workspace).Valid where
  scopes t ht := by
    obtain ⟨u, hu, hid⟩ := Scopes.id_mem_of_changedIn h ht
    rw [← hid]
    exact hw.scopes u hu
  references := hw.references
  ended := hw.ended

theorem WorksIn.setScopes (hw : w.Valid) (h : List.Forall₂ (Trace.ChangedIn F) w.scopes ts) :
    w.WorksIn F { w with scopes := ts } :=
  { WorksIn.refl hw with
    scopes := h
    valid := hw.of_changedIn h }

theorem Alike.setScopes (h : w.Alike opens F w') (ts : List Trace) :
    Alike opens F { w with scopes := ts } { w' with scopes := ts } :=
  { h with scopes := rfl }

/-- The workspace is valid and its innermost trace is in the footprint if it may be touched. -/
structure Ready (F : Footprint) (w : Workspace) : Prop where
  valid : w.Valid
  active : F.active → ∀ t ∈ w.active?, F.traces t.id

theorem WorksIn.ready (h : w.WorksIn F w') (hw : w.Ready F) : w'.Ready F where
  valid := h.valid
  active hF t' ht' := by
    have hid : w'.active?.map Trace.id = some t'.id := by rw [ht']; rfl
    rw [h.active] at hid
    obtain ⟨t, ht, hid⟩ := Option.map_eq_some_iff.1 hid
    rw [← hid]
    exact hw.active hF t ht

/-- The action works in the footprint, and agrees with itself in workspaces that are alike. -/
def StaysIn (opens : Bool) (F : Footprint) (f : Workspace → α × Workspace) : Prop :=
  ∀ w, w.Ready F → w.WorksIn F (f w).2 ∧
    ∀ w', w'.Ready F → w.Alike opens F w' →
      (f w').1 = (f w).1 ∧ (f w).2.Alike opens F (f w').2

/-- An action that looks at the open traces and may change them. -/
theorem staysIn_scopes (hF : F.active) {g : List Trace → α × List Trace}
    (hg : ∀ ts, (∀ t ∈ ts.head?, F.traces t.id) →
      List.Forall₂ (Trace.ChangedIn F) ts (g ts).2) :
    StaysIn opens F fun w => ((g w.scopes).1, { w with scopes := (g w.scopes).2 }) := by
  refine fun w hw => ⟨.setScopes hw.valid (hg w.scopes (hw.active hF)), fun w' _ h => ?_⟩
  dsimp only
  rw [h.scopes]
  exact ⟨rfl, h.setScopes _⟩

theorem staysIn_setGraph {r : Recorder} (hr : F.recorders r) (f : Graph → α × Graph) :
    StaysIn opens F fun w => ((f (w.graph r)).1, w.setGraph r (f (w.graph r)).2) := by
  refine fun w hw => ⟨?_, fun w' _ h => ?_⟩
  · exact { WorksIn.refl hw.valid with
      graph := fun r' _ hr' => graph_setGraph_of_ne (by rintro rfl; exact hr' hr) w _
      valid := ⟨hw.valid.scopes, hw.valid.references, hw.valid.ended⟩ }
  · dsimp only
    rw [h.graph r hr]
    refine ⟨rfl, { h with graph := fun r' hr' => ?_ }⟩
    by_cases heq : r' = r
    · rw [heq, graph_setGraph_self, graph_setGraph_self]
    · rw [graph_setGraph_of_ne heq, graph_setGraph_of_ne heq, h.graph r' hr']

theorem on_keep_none (ht : w.active? = none) :
    WorkspaceM.keep.on w = (.error .noActiveTrace, w) :=
  WorkspaceM.on_change_error (by rw [keep, ht]; rfl)

theorem on_keep_some (ht : w.active? = some t) :
    WorkspaceM.keep.on w = (.ok (), { w with references := w.references ++ [t.id] }) :=
  WorkspaceM.on_change_ok (by rw [keep, ht]; rfl)

theorem staysIn_keep (hF : F.active) : StaysIn opens F (WorkspaceM.on WorkspaceM.keep) := by
  intro w hw
  cases ht : w.active? with
  | none =>
    rw [on_keep_none ht]
    refine ⟨.refl hw.valid, fun w' _ h => ?_⟩
    rw [on_keep_none (h.active?.trans ht)]
    exact ⟨rfl, h⟩
  | some t =>
    obtain ⟨us, hus⟩ := exists_scopes ht
    have hcount (id : TraceId) (ids : List TraceId) :
        (ids ++ [t.id]).count id = ids.count id + [t.id].count id := List.count_append
    rw [on_keep_some ht]
    refine ⟨{ WorksIn.refl hw.valid with references := ?_, valid := ?_ }, fun w' _ h => ?_⟩
    · intro id _ hid
      have hne : id ≠ t.id := fun heq => hid (heq ▸ hw.active hF t ht)
      rw [hcount, List.count_singleton, beq_eq_false_iff_ne.2 hne.symm]
      rfl
    · refine ⟨hw.valid.scopes, fun id hid => ?_, hw.valid.ended⟩
      rcases List.mem_append.1 hid with hid | hid
      · exact hw.valid.references id hid
      · rw [List.mem_singleton.1 hid]
        exact hw.valid.scopes t (hus ▸ .head _)
    · rw [on_keep_some (h.active?.trans ht)]
      refine ⟨rfl, { h with references := fun id hid => ?_ }⟩
      rw [hcount, hcount, h.references id hid]

end Workspace

/-! ### Names that are asked for -/

/-- Gives out the requested name, or else a fresh one. -/
def Trace.give (requested : Option Name) (t : Trace) : Except Error Name × Trace :=
  match requested with
  | none => (.ok t.makeName.1, t.makeName.2)
  | some name =>
    match t.addName name with
    | .ok t' => (.ok name, t')
    | .error e => (.error e, t)

theorem Trace.id_give (requested : Option Name) (t : Trace) : (t.give requested).2.id = t.id := by
  cases requested with
  | none => rfl
  | some name =>
    rw [give]
    cases h : t.addName name with
    | error e => rfl
    | ok t' =>
      obtain ⟨-, rfl⟩ := addName_eq_ok_iff.1 h
      rfl

namespace WorkspaceM

open Workspace

variable {w w' : Workspace}

/-- What `allocate` does to the open traces. -/
def allocateIn (requested : Option Name) : List Trace → Except Error Symbol × List Trace
  | [] => (.error .noActiveTrace, [])
  | t :: ts => ((⟨·, t.id⟩) <$> (t.give requested).1, (t.give requested).2 :: ts)

theorem on_allocate (requested : Option Name) (w : Workspace) : (allocate requested).on w =
    ((allocateIn requested w.scopes).1,
      { w with scopes := (allocateIn requested w.scopes).2 }) := by
  obtain ⟨next, scopes, references, ended, recorder, graphs⟩ := w
  cases scopes with
  | nil => exact on_change_error (Workspace.allocate_eq_error rfl requested)
  | cons t ts =>
    cases requested with
    | none => exact on_allocate_none rfl
    | some name =>
      have hallocate := Workspace.allocate_some (w := ⟨next, t :: ts, references, ended, recorder,
        graphs⟩) rfl name
      dsimp only [allocateIn, Trace.give]
      cases h : t.addName name with
      | error e => exact on_change_error (by rw [hallocate, h]; rfl)
      | ok t' => exact on_change_ok (by rw [hallocate, h]; rfl)

theorem staysIn_allocate (hF : F.active) (requested : Option Name) :
    Workspace.StaysIn opens F (allocate requested).on := by
  rw [funext (on_allocate requested)]
  refine staysIn_scopes hF fun ts hts => ?_
  cases ts with
  | nil => exact .nil
  | cons t ts =>
    exact .cons ⟨t.id_give requested, fun ht => absurd (hts t rfl) ht⟩ (Scopes.changedIn_refl ts)

/-- A computation that looks at the open traces. -/
theorem staysIn_read {f : Workspace → Except Error α}
    (hf : ∀ w w', w'.scopes = w.scopes → f w' = f w) : Workspace.StaysIn opens F (read f).on :=
  fun w hw => ⟨.refl hw.valid, fun w' _ h => ⟨hf w w' h.scopes, h⟩⟩

end WorkspaceM

/-! ### Sessions -/

namespace Session

variable {s s' s₁ s₂ : Session}

/-- The contexts are the same, and the workspace has changed in the footprint only. -/
structure WorksIn (F : Footprint) (s s' : Session) : Prop where
  contexts : s'.contexts = s.contexts
  workspace : s.workspace.WorksIn F s'.workspace

/-- The contexts are the same, and the workspaces are alike. -/
structure Alike (opens : Bool) (F : Footprint) (s s' : Session) : Prop where
  contexts : s'.contexts = s.contexts
  workspace : s.workspace.Alike opens F s'.workspace

/-- The workspace is ready and the active context uses the footprint only if it may be asked. -/
structure Ready (F : Footprint) (s : Session) : Prop where
  workspace : s.workspace.Ready F
  context : F.asks → ∀ c ∈ s.context?, c.Uses F.recorders

theorem WorksIn.refl (h : s.workspace.Valid) : s.WorksIn F s := ⟨rfl, .refl h⟩

theorem WorksIn.trans (hs : s.workspace.Valid) (h : s.WorksIn F s₁) (h₁ : s₁.WorksIn F s₂) :
    s.WorksIn F s₂ :=
  ⟨h₁.contexts.trans h.contexts, h.workspace.trans hs h₁.workspace (fun _ _ => id) fun _ _ => id⟩

theorem WorksIn.context? (h : s.WorksIn F s') : s'.context? = s.context? :=
  congrArg List.head? h.contexts

theorem Alike.context? (h : s.Alike opens F s') : s'.context? = s.context? :=
  congrArg List.head? h.contexts

theorem WorksIn.ready (h : s.WorksIn F s') (hs : s.Ready F) : s'.Ready F where
  workspace := h.workspace.ready hs.workspace
  context hF c hc := hs.context hF c (h.context? ▸ hc)

end Session

/-- From where it is ready the computation works in the footprint, and it comes to the same in
sessions that are alike. -/
def StaysIn (opens : Bool) (F : Footprint) (x : StateM Session α) : Prop :=
  ∀ s, s.Ready F → s.WorksIn F (x.run s).2 ∧
    ∀ s', s'.Ready F → s.Alike opens F s' →
      (x.run s').1 = (x.run s).1 ∧ (x.run s).2.Alike opens F (x.run s').2

theorem staysIn_pure (a : α) : StaysIn opens F (pure a) :=
  fun _ hs => ⟨.refl hs.workspace.valid, fun _ _ h => ⟨rfl, h⟩⟩

/-- The second part matters on the answers that the first one can give. -/
theorem StaysIn.bind {x : StateM Session α} {f : α → StateM Session β} (hx : StaysIn opens F x)
    (hf : ∀ s, s.Ready F → StaysIn opens F (f (x.run s).1)) : StaysIn opens F (x >>= f) := by
  have hrun (s : Session) : (x >>= f).run s = (f (x.run s).1).run (x.run s).2 := rfl
  intro s hs
  obtain ⟨hworks, halike⟩ := hx s hs
  obtain ⟨hworks', halike'⟩ := hf s hs (x.run s).2 (hworks.ready hs)
  refine ⟨hworks.trans hs.workspace.valid hworks', fun s' hs' h => ?_⟩
  obtain ⟨hanswer, hafter⟩ := halike s' hs' h
  rw [hrun, hrun, hanswer]
  exact halike' _ ((hx s' hs').1.ready hs') hafter

/-- What only looks at the session, and sees the same in sessions that are alike. -/
theorem staysIn_look {f : Session → α}
    (hf : ∀ s s', s.Alike opens F s' → f s' = f s) :
    StaysIn opens F (do return f (← getThe Session)) :=
  fun s hs => ⟨.refl hs.workspace.valid, fun s' _ h => ⟨hf s s' h, h⟩⟩

theorem staysIn_onWorkspace {f : Workspace → α × Workspace}
    (hf : Workspace.StaysIn opens F f) :
    StaysIn opens F (modifyGetThe Session (Session.onWorkspace f)) := by
  intro s hs
  obtain ⟨hworks, halike⟩ := hf s.workspace hs.workspace
  refine ⟨⟨rfl, hworks⟩, fun s' hs' h => ?_⟩
  obtain ⟨hanswer, hafter⟩ := halike s'.workspace hs'.workspace h.workspace
  exact ⟨hanswer, h.contexts, hafter⟩

/-! ### Computations that may fail -/

theorem StaysIn.bind_run {x : SessionM α} {f : α → SessionM β} (hx : StaysIn opens F x.run)
    (hf : ∀ a, StaysIn opens F (f a).run) : StaysIn opens F (x >>= f).run := by
  rw [ExceptT.run_bind]
  refine hx.bind fun s _ => ?_
  cases (x.run.run s).1 with
  | error e => exact staysIn_pure _
  | ok a => exact hf a

theorem SessionM.liftM_bind (x : WorkspaceM α) (f : α → WorkspaceM β) :
    (liftM (x >>= f) : SessionM β) = liftM x >>= fun a => liftM (f a) := by
  apply ExceptT.ext
  funext s
  change SessionM.on _ s = SessionM.on _ s
  rw [on_bind, on_liftM_workspace, on_liftM_workspace, WorkspaceM.on_bind]
  rcases x.on s.workspace with ⟨_ | _, _⟩ <;> rfl

/-- What a computation on the workspace leaves behind is in the footprint that it uses. -/
theorem WorkspaceM.Uses.staysIn {x : WorkspaceM α} (hx : x.Uses F.recorders) (hF : F.active) :
    StaysIn opens F (liftM x : SessionM α).run := by
  have hactive {w w' : Workspace} (h : w'.scopes = w.scopes) : w'.active? = w.active? :=
    congrArg List.head? h
  have hcheck {w w' : Workspace} (h : w'.scopes = w.scopes) : w'.checkOwner = w.checkOwner := by
    funext σ
    rw [Workspace.checkOwner, Workspace.checkOwner, hactive h]
  induction hx with
  | pure a => exact staysIn_pure _
  | except x => exact staysIn_pure x
  | active =>
    refine staysIn_onWorkspace (staysIn_read fun w w' h => ?_)
    rw [hactive h]
  | checkOwner σ =>
    refine staysIn_onWorkspace (staysIn_read fun w w' h => ?_)
    rw [hcheck h]
  | checkOwners vs =>
    refine staysIn_onWorkspace (staysIn_read fun w w' h => ?_)
    rw [Workspace.checkOwners, Workspace.checkOwners, hcheck h]
  | allocate requested => exact staysIn_onWorkspace (staysIn_allocate hF requested)
  | keep => exact staysIn_onWorkspace (Workspace.staysIn_keep hF)
  | record hr op args output =>
    exact staysIn_onWorkspace <|
      Workspace.staysIn_setGraph hr fun g =>
        (Except.ok output, g.push (.ofCall op args output))
  | @bind α β x f _ _ ihx ihf =>
    rw [SessionM.liftM_bind]
    exact ihx.bind_run ihf

theorem SessionM.Uses.staysIn {x : SessionM α} (hx : x.Uses F.recorders) (hactive : F.active)
    (hasks : F.asks) : StaysIn opens F x.run := by
  induction hx with
  | pure a => exact staysIn_pure _
  | except x => exact staysIn_pure x
  | workspace hx => exact hx.staysIn hactive
  | ask _ ih =>
    exact (staysIn_look fun _ _ => Session.Alike.context?).bind fun s hs =>
      ih s.context? (hs.context hasks)
  | bind _ _ ihx ihf => exact ihx.bind_run ihf

end ProxyTrace
