import ProxyTrace.Proofs.Footprint
import ProxyTrace.Proofs.TracedCall

/-!
# Programs of nested scopes

A program opens scopes in any nesting. In their bodies it computes, makes recorders and looks at
graphs, keeps references to traces and uses the traces through them, and activates contexts that are
active further out once more (`Scoped`). What it may touch grows with what it makes: the recorders,
and in the body of a trace scope the trace of that scope.

The main statement is `Scoped.staysIn`, by induction on the program. In the body of a scope the
footprint has the scope's own entry; at its end both stacks are as the body found them, so that
nothing is unwound but this entry, and what was new is forgotten (`Workspace.WorksIn.takeBack`).
-/

namespace ProxyTrace

variable {α β : Type} {F : Footprint} {opens : Bool} {s s' : Session} {source : NameSource}
  {c : LanguageContext}

/-! ### Traces that are kept -/

namespace Workspace

variable {w w' : Workspace} {id : TraceId}

/-- What is done through a reference with what it shows after the scope of its trace has ended. -/
def useEnded (id : TraceId) (f : Trace → α × Trace) (w : Workspace) : Option α × Workspace :=
  match w.ended.lookup id with
  | some t => (some (f t).1, { w with ended := (id, (f t).2) :: w.ended })
  | none => (none, w)

/-- What is done with a trace through a reference, whether the trace is open or not. -/
def useTrace (id : TraceId) (f : Trace → α × Trace) (w : Workspace) : Option α × Workspace :=
  match w.scopes.find? (·.id = id) with
  | some t =>
    (some (f t).1, { w with scopes := w.scopes.map fun u => if u.id = id then (f t).2 else u })
  | none => w.useEnded id f

theorem lookup_cons (id : TraceId) (p : TraceId × Trace) (ended : List (TraceId × Trace)) :
    (p :: ended).lookup id = if id = p.1 then some p.2 else ended.lookup id := by
  by_cases h : id = p.1
  · rw [if_pos h, List.lookup_cons, beq_iff_eq.2 h]
  · rw [if_neg h, List.lookup_cons, beq_eq_false_iff_ne.2 h]

theorem mem_of_lookup {ended : List (TraceId × Trace)} {t : Trace}
    (h : ended.lookup id = some t) : (id, t) ∈ ended := by
  obtain ⟨l, l', rfl, -⟩ := List.lookup_eq_some_iff.1 h
  exact List.mem_append_right _ (.head _)

theorem WorksIn.showEnded (hw : w.Valid) (hid : F.traces id) {t : Trace}
    (ht : w.ended.lookup id = some t) (t' : Trace) :
    w.WorksIn F { w with ended := (id, t') :: w.ended } := by
  refine { WorksIn.refl hw with ended := ?_, valid := ?_ }
  · intro id' _ hid'
    rw [lookup_cons, if_neg]
    rintro rfl
    exact hid' hid
  · refine ⟨hw.scopes, hw.references, fun p hp => ?_⟩
    rcases List.mem_cons.1 hp with rfl | hp
    · exact hw.ended (id, t) (mem_of_lookup ht)
    · exact hw.ended p hp

theorem Alike.showEnded (h : w.Alike opens F w') (p : TraceId × Trace) :
    Alike opens F { w with ended := p :: w.ended } { w' with ended := p :: w'.ended } :=
  { h with ended := fun id hid => by rw [lookup_cons, lookup_cons, h.ended id hid] }

theorem changedIn_useTrace (hid : F.traces id) {t : Trace} (ht : t.id = id) (ts : List Trace) :
    List.Forall₂ (Trace.ChangedIn F) ts (ts.map fun u => if u.id = id then t else u) := by
  refine List.forall₂_map_right_iff.2 (List.forall₂_same.2 fun u _ => ?_)
  split
  · rename_i hu
    exact ⟨ht.trans hu.symm, fun hF => absurd (hu ▸ hid) hF⟩
  · exact .refl u

theorem staysIn_useEnded (hid : F.traces id) (f : Trace → α × Trace) :
    StaysIn opens F (useEnded id f) := by
  intro w hw
  rw [useEnded]
  cases hlookup : w.ended.lookup id with
  | none =>
    refine ⟨.refl hw.valid, fun w' _ h => ?_⟩
    rw [useEnded, h.ended id hid, hlookup]
    exact ⟨rfl, h⟩
  | some t =>
    refine ⟨.showEnded hw.valid hid hlookup _, fun w' _ h => ?_⟩
    rw [useEnded, h.ended id hid, hlookup]
    exact ⟨rfl, h.showEnded _⟩

theorem staysIn_useTrace (hid : F.traces id) {f : Trace → α × Trace}
    (hf : ∀ t, (f t).2.id = t.id) : StaysIn opens F (useTrace id f) := by
  intro w hw
  rw [useTrace]
  cases hfind : w.scopes.find? (·.id = id) with
  | some t =>
    have ht : t.id = id := by simpa using List.find?_some hfind
    refine ⟨.setScopes hw.valid (changedIn_useTrace hid ((hf t).trans ht) _), fun w' _ h => ?_⟩
    rw [useTrace, h.scopes, hfind]
    exact ⟨rfl, h.setScopes _⟩
  | none =>
    obtain ⟨hworks, halike⟩ := staysIn_useEnded hid f w hw
    refine ⟨hworks, fun w' hw' h => ?_⟩
    rw [useTrace, h.scopes, hfind]
    exact halike w' hw' h

theorem staysIn_release (hid : F.traces id) :
    StaysIn opens F fun w => ((), w.release id) := by
  refine fun w hw => ⟨{ WorksIn.refl hw.valid with references := ?_, valid := ?_ }, ?_⟩
  · intro id' _ hid'
    have hne : id' ≠ id := fun heq => hid' (heq ▸ hid)
    exact List.count_erase_of_ne hne
  · exact ⟨hw.valid.scopes, fun id' h => hw.valid.references id' (List.mem_of_mem_erase h),
      hw.valid.ended⟩
  · refine fun w' _ h => ⟨rfl, { h with references := fun id' hid' => ?_ }⟩
    change (w'.references.erase id).count id' = (w.references.erase id).count id'
    rw [List.count_erase, List.count_erase, h.references id' hid']

/-! ### The end of a trace scope -/

theorem closeTo_of_le {n : Nat} (h : w.scopes.length ≤ n) : w.closeTo n = w := by
  rw [closeTo, dif_neg (Nat.not_lt.2 h)]

theorem takeBack_cons {t : Trace} {ts : List Trace} (h : w.scopes = t :: ts) :
    w.takeBack = { w with
      nextTrace := if t.id ∈ w.references then ⟨w.nextTrace.index + 1⟩ else w.nextTrace
      scopes := ts
      ended :=
        if t.id ∈ w.references then (t.id, .empty w.nextTrace) :: w.ended else w.ended } := by
  rw [takeBack, h]
  dsimp only
  split <;> simp [*]

theorem Valid.enter (h : w.Valid) (source : NameSource) : (w.enter source).Valid where
  scopes t ht := by
    rcases List.mem_cons.1 ht with rfl | ht
    · exact Nat.lt_succ_self _
    · exact Nat.lt_succ_of_lt (h.scopes t ht)
  references id hid := Nat.lt_succ_of_lt (h.references id hid)
  ended p hp := Nat.lt_succ_of_lt (h.ended p hp)

theorem nextTrace_le_takeBack (w : Workspace) :
    w.nextTrace.index ≤ w.takeBack.nextTrace.index := by
  unfold takeBack
  split
  · exact Nat.le_refl _
  · split
    · exact Nat.le_succ _
    · exact Nat.le_refl _

theorem Valid.takeBack (h : w.Valid) : w.takeBack.Valid := by
  have hle := w.nextTrace_le_takeBack
  rcases hscopes : w.scopes with _ | ⟨t, ts⟩
  · rwa [Workspace.takeBack, hscopes]
  · rw [takeBack_cons hscopes] at hle ⊢
    refine ⟨fun u hu => ?_, fun id hid => ?_, fun p hp => ?_⟩
    · exact Nat.lt_of_lt_of_le (h.scopes u (hscopes ▸ .tail _ hu)) hle
    · exact Nat.lt_of_lt_of_le (h.references id hid) hle
    · refine Nat.lt_of_lt_of_le ?_ hle
      dsimp only at hp
      split at hp
      · rcases List.mem_cons.1 hp with rfl | hp
        · exact h.scopes t (hscopes ▸ .head _)
        · exact h.ended p hp
      · exact h.ended p hp

/-- What the end of a trace scope leaves behind works in the footprint if the body has worked in it
or in the trace of the scope, which was new. -/
theorem WorksIn.takeBack (hw : w.Valid)
    (h : (w.enter source).WorksIn (F.inTrace w.nextTrace) w') : w.WorksIn F w'.takeBack := by
  obtain ⟨t, ts, ht, hts, hscopes⟩ := List.forall₂_cons_left_iff.1 h.scopes
  have hold {id : TraceId} (hlt : id.index < w.nextTrace.index) :
      (F.inTrace w.nextTrace).traces id → F.traces id := by
    rintro (rfl | hF)
    · exact absurd hlt (Nat.lt_irrefl _)
    · exact hF
  refine ⟨?_, fun r hr hF => ?_, fun id hlt hF => ?_, fun id hlt hF => ?_, ?_, ?_, ?_⟩
  · rw [takeBack_cons hscopes]
    exact Scopes.changedIn_trans (Scopes.changedIn_refl _) hts fun t ht => hold (hw.scopes t ht)
  · rw [graph_of_graphs_eq (graphs_takeBack w')]
    exact h.graph r hr hF
  · rw [takeBack_cons hscopes]
    exact h.references id (Nat.lt_succ_of_lt hlt) fun hid => hF (hold hlt hid)
  · have hne : id ≠ t.id := by
      rintro rfl
      exact Nat.lt_irrefl _ (ht.1 ▸ hlt)
    have hended := h.ended id (Nat.lt_succ_of_lt hlt) fun hid => hF (hold hlt hid)
    rw [takeBack_cons hscopes]
    dsimp only
    split
    · rw [lookup_cons, if_neg hne, hended]
      rfl
    · exact hended
  · exact Nat.le_trans (Nat.le_of_lt h.nextTrace) w'.nextTrace_le_takeBack
  · rw [takeBack_cons hscopes]
    exact h.nextRecorder
  · exact h.valid.takeBack

theorem Alike.enter (hw : w.Valid) (hw' : w'.Valid) (h : w.Alike true F w') :
    (w.enter source).Alike true (F.inTrace w.nextTrace) (w'.enter source) := by
  obtain ⟨hnext, hrecorder⟩ := h.next rfl
  have hcount {w : Workspace} (hw : w.Valid) : w.references.count w.nextTrace = 0 :=
    List.count_eq_zero.2 fun hmem => Nat.lt_irrefl _ (hw.references _ hmem)
  have hlookup {w : Workspace} (hw : w.Valid) : w.ended.lookup w.nextTrace = none := by
    rw [List.lookup_eq_none_iff]
    intro p hp
    rw [bne_iff_ne]
    rintro heq
    exact Nat.lt_irrefl _ (heq ▸ hw.ended p hp)
  -- neither workspace has a reference to the new trace, or an ended trace of its identity
  refine ⟨?_, h.graph, ?_, ?_, fun _ => ⟨?_, hrecorder⟩⟩
  · rw [Workspace.enter, Workspace.enter, hnext, h.scopes]
  · rintro id (rfl | hid)
    · exact (hnext ▸ hcount hw').trans (hcount hw).symm
    · exact h.references id hid
  · rintro id (rfl | hid)
    · exact (hnext ▸ hlookup hw').trans (hlookup hw).symm
    · exact h.ended id hid
  · rw [Workspace.enter, Workspace.enter, hnext]

/-- Whether a reference to the trace is kept, and so whether one more identity is given out, is the
same in both. -/
theorem Alike.takeBack {t : Trace} {ts : List Trace} (ht : w.scopes = t :: ts) (hid : t.id = id)
    (h : w.Alike true (F.inTrace id) w') : w.takeBack.Alike true F w'.takeBack := by
  subst hid
  obtain ⟨hnext, hrecorder⟩ := h.next rfl
  have hmem : t.id ∈ w'.references ↔ t.id ∈ w.references := by
    rw [← List.count_pos_iff, ← List.count_pos_iff, h.references t.id (.inl rfl)]
  rw [takeBack_cons ht, takeBack_cons (h.scopes.trans ht)]
  simp only [hmem, hnext]
  refine ⟨rfl, fun r hr => h.graph r hr, fun id hid => h.references id (.inr hid),
    fun id hid => ?_, fun _ => ⟨rfl, hrecorder⟩⟩
  dsimp only
  split
  · rw [lookup_cons, lookup_cons, h.ended id (.inr hid)]
  · exact h.ended id (.inr hid)

/-! ### New recorders -/

theorem graph_newRecorder (w : Workspace) (r : Recorder) :
    w.newRecorder.2.graph r = if r = w.nextRecorder then .empty else w.graph r := by
  split
  · subst r
    exact graph_setGraph_self ..
  · exact graph_setGraph_of_ne ‹_› _ _

theorem WorksIn.newRecorder (hw : w.Valid) : w.WorksIn F w.newRecorder.2 :=
  { WorksIn.refl hw with
    graph := fun r hr _ => by
      rw [graph_newRecorder, if_neg]
      rintro rfl
      exact Nat.lt_irrefl _ hr
    nextRecorder := Nat.le_succ _
    valid := ⟨hw.scopes, hw.references, hw.ended⟩ }

theorem Alike.newRecorder (h : w.Alike true F w') :
    w.newRecorder.2.Alike true (F.addRecorder w.nextRecorder) w'.newRecorder.2 := by
  obtain ⟨hnext, hrecorder⟩ := h.next rfl
  have hrecorder' : w'.newRecorder.2.nextRecorder = w.newRecorder.2.nextRecorder :=
    congrArg (fun r : Recorder => (⟨r.index + 1⟩ : Recorder)) hrecorder
  refine ⟨h.scopes, fun r hr => ?_, h.references, h.ended, fun _ => ⟨hnext, hrecorder'⟩⟩
  rw [graph_newRecorder, graph_newRecorder, hrecorder]
  split
  · rfl
  · exact h.graph r (hr.resolve_left ‹_›)

end Workspace

/-! ### Scopes in a session -/

theorem Session.unwind_eq {traces contexts : Nat} (htraces : s.workspace.scopes.length ≤ traces)
    (hcontexts : s.contexts.length ≤ contexts) : s.unwind traces contexts = s := by
  rw [unwind, Workspace.closeTo_of_le htraces, Nat.sub_eq_zero_of_le hcontexts, List.drop_zero]

/-- A body that leaves both stacks in place leaves nothing to unwind. -/
theorem Session.leaveTrace_eq (h : (s.enterTrace source).WorksIn F s') :
    s.leaveTrace s' = (s'.workspace.active?.getD (.empty s.workspace.nextTrace),
      { s' with workspace := s'.workspace.takeBack }) := by
  have hunwind : s'.unwind (s.workspace.scopes.length + 1) s.contexts.length = s' :=
    unwind_eq (Nat.le_of_eq h.workspace.scopes.length_eq.symm)
      (Nat.le_of_eq (congrArg List.length h.contexts))
  rw [leaveTrace, hunwind]

theorem Session.leaveContext_eq (h : (s.enterContext c).WorksIn F s') :
    s.leaveContext s' = { s' with contexts := s.contexts } := by
  have hlength : s'.workspace.scopes.length ≤ s.workspace.scopes.length :=
    Nat.le_of_eq h.workspace.scopes.length_eq.symm
  have hcontexts : s'.contexts = c :: s.contexts := h.contexts
  rw [leaveContext, unwind, Workspace.closeTo_of_le hlength, hcontexts, List.length_cons,
    Nat.add_sub_cancel_left]
  rfl

theorem run_withTrace (source : NameSource) (body : StateM Session α) (s : Session) :
    (withTrace source body).run s =
      (((s.leaveTrace (body.run (s.enterTrace source)).2).1, (body.run (s.enterTrace source)).1),
        (s.leaveTrace (body.run (s.enterTrace source)).2).2) := rfl

theorem StaysIn.withTrace {body : StateM Session α}
    (hbody : ∀ id, StaysIn true (F.inTrace id) body) (source : NameSource) :
    StaysIn true F (withTrace source body) := by
  have henter (s : Session) (hs : s.Ready F) :
      (s.enterTrace source).Ready (F.inTrace s.workspace.nextTrace) := by
    refine ⟨⟨hs.workspace.valid.enter source, ?_⟩, hs.context⟩
    rintro - _ ⟨⟩
    exact .inl rfl
  intro s hs
  obtain ⟨hworks, halike⟩ := hbody s.workspace.nextTrace _ (henter s hs)
  rw [run_withTrace, Session.leaveTrace_eq hworks]
  refine ⟨⟨hworks.contexts, hworks.workspace.takeBack hs.workspace.valid⟩, fun s' hs' h => ?_⟩
  -- both runs open a trace of the same identity
  have hnext := (h.workspace.next rfl).1
  have hready := henter s' hs'
  rw [hnext] at hready
  have hworks' := (hbody s.workspace.nextTrace _ hready).1
  obtain ⟨hanswer, hafter⟩ := halike _ hready
    ⟨h.contexts, h.workspace.enter hs.workspace.valid hs'.workspace.valid⟩
  obtain ⟨t, ts, ht, -, hscopes⟩ := List.forall₂_cons_left_iff.1 hworks.workspace.scopes
  have htake := hafter.workspace.takeBack hscopes ht.1
  rw [run_withTrace, Session.leaveTrace_eq hworks', hanswer, Workspace.active?, Workspace.active?,
    hafter.workspace.scopes, hnext]
  exact ⟨rfl, hafter.contexts, htake⟩

theorem StaysIn.withContext (hc : c.Uses F.recorders) {body : StateM Session α}
    (hbody : StaysIn opens F.inContext body) : StaysIn opens F (withContext c body) := by
  have henter (s : Session) (hs : s.Ready F) : (s.enterContext c).Ready F.inContext := by
    refine ⟨⟨hs.workspace.valid, hs.workspace.active⟩, ?_⟩
    rintro - _ ⟨⟩
    exact hc
  intro s hs
  obtain ⟨hworks, halike⟩ := hbody _ (henter s hs)
  rw [run_withContext, Session.leaveContext_eq hworks]
  refine ⟨⟨rfl, { hworks.workspace with }⟩, fun s' hs' h => ?_⟩
  have hworks' := (hbody _ (henter s' hs')).1
  obtain ⟨hanswer, hafter⟩ := halike _ (henter s' hs')
    ⟨congrArg (c :: ·) h.contexts, { h.workspace with }⟩
  rw [run_withContext, Session.leaveContext_eq hworks', hanswer]
  exact ⟨rfl, h.contexts, { hafter.workspace with }⟩

theorem StaysIn.newRecorder {f : Recorder → StateM Session α}
    (hf : ∀ r, StaysIn true (F.addRecorder r) (f r)) : StaysIn true F (do
      f (← modifyGetThe Session (Session.onWorkspace Workspace.newRecorder))) := by
  have hready (s : Session) (hs : s.Ready F) :
      Session.Ready (F.addRecorder s.workspace.nextRecorder)
        { s with workspace := s.workspace.newRecorder.2 } := by
    refine ⟨⟨?_, hs.workspace.active⟩, fun hF c hc => (hs.context hF c hc).mono fun _ => .inr⟩
    exact (Workspace.WorksIn.newRecorder (F := F) hs.workspace.valid).valid
  intro s hs
  obtain ⟨hworks, halike⟩ := hf s.workspace.nextRecorder _ (hready s hs)
  rw [run_bind_newRecorder]
  refine ⟨⟨hworks.contexts, ?_⟩, fun s' hs' h => ?_⟩
  · refine (Workspace.WorksIn.newRecorder hs.workspace.valid).trans hs.workspace.valid
      hworks.workspace (fun r hr hF => ?_) fun _ _ => id
    exact hF.resolve_left fun heq => Nat.lt_irrefl _ (heq ▸ hr)
  · have hnext := (h.workspace.next rfl).2
    have hready' := hready s' hs'
    rw [hnext] at hready'
    obtain ⟨hanswer, hafter⟩ := halike _ hready' ⟨h.contexts, h.workspace.newRecorder⟩
    rw [run_bind_newRecorder, hnext]
    exact ⟨hanswer, hafter.contexts,
      { hafter.workspace with
        graph := fun r hr => hafter.workspace.graph r (.inr hr) }⟩

/-! ### Programs of nested scopes -/

/-- The program is put together from what the library computes, from what it does with recorders
and traces of the footprint, and from scopes, in any nesting. A failure is an answer, from which it
may go on as it likes. Only if `opens` does it open traces or make recorders. -/
inductive Scoped (opens : Bool) : Footprint → {α : Type} → StateM Session α → Prop
  | pure {F : Footprint} {α : Type} (a : α) : Scoped opens F (pure a)
  /-- What comes later is of the footprint for all answers that come up where it is ready. -/
  | bind {F : Footprint} {α β : Type} {x : StateM Session α} {f : α → StateM Session β}
      (hx : Scoped opens F x) (hf : ∀ s, s.Ready F → Scoped opens F (f (x.run s).1)) :
      Scoped opens F (x >>= f)
  /-- A computation of the library, which may touch the innermost trace and ask the context. -/
  | attempt {F : Footprint} (hactive : F.active) (hasks : F.asks) {α : Type} {x : SessionM α}
      (hx : x.Uses F.recorders) : Scoped opens F x.attempt
  /-- A computation of the library that does not ask the context. -/
  | workspace {F : Footprint} (hactive : F.active) {α : Type} {x : WorkspaceM α}
      (hx : x.Uses F.recorders) : Scoped opens F (SessionM.attempt (liftM x))
  | context {F : Footprint} : Scoped opens F (do return (← getThe Session).context?)
  | active {F : Footprint} : Scoped opens F (do return (← getThe Session).workspace.active?)
  /-- The program uses a trace of the footprint, innermost or not. -/
  | useTrace {F : Footprint} {id : TraceId} (hid : F.traces id) {α : Type} {f : Trace → α × Trace}
      (hf : ∀ t, (f t).2.id = t.id) :
      Scoped opens F (modifyGetThe Session (Session.onWorkspace (Workspace.useTrace id f)))
  | release {F : Footprint} {id : TraceId} (hid : F.traces id) :
      Scoped opens F (modifyGetThe Session (Session.onWorkspace fun w => ((), w.release id)))
  | newRecorder {F : Footprint} (hopens : opens = true) {α : Type}
      {f : Recorder → StateM Session α} (hf : ∀ r, Scoped opens (F.addRecorder r) (f r)) :
      Scoped opens F (do f (← modifyGetThe Session (Session.onWorkspace Workspace.newRecorder)))
  | graph {F : Footprint} {r : Recorder} (hr : F.recorders r) :
      Scoped opens F (do return (← getThe Session).workspace.graph r)
  | takeGraph {F : Footprint} {r : Recorder} (hr : F.recorders r) :
      Scoped opens F (modifyGetThe Session (Session.onWorkspace (Workspace.takeGraph r)))
  | withTrace {F : Footprint} (hopens : opens = true) (source : NameSource) {α : Type}
      {body : StateM Session α} (hbody : ∀ id, Scoped opens (F.inTrace id) body) :
      Scoped opens F (withTrace source body)
  | withContext {F : Footprint} {c : LanguageContext} (hc : c.Uses F.recorders) {α : Type}
      {body : StateM Session α} (hbody : Scoped opens F.inContext body) :
      Scoped opens F (withContext c body)

theorem Scoped.staysIn {x : StateM Session α} (hx : Scoped opens F x) : StaysIn opens F x := by
  induction hx with
  | pure a => exact staysIn_pure a
  | bind _ _ ihx ihf => exact ihx.bind ihf
  | attempt hactive hasks hx => exact hx.staysIn hactive hasks
  | workspace hactive hx => exact hx.staysIn hactive
  | context => exact staysIn_look fun _ _ h => h.context?
  | active => exact staysIn_look fun _ _ h => h.workspace.active?
  | useTrace hid hf => exact staysIn_onWorkspace (Workspace.staysIn_useTrace hid hf)
  | release hid => exact staysIn_onWorkspace (Workspace.staysIn_release hid)
  | newRecorder hopens _ ih =>
    subst hopens
    exact .newRecorder ih
  | graph hr => exact staysIn_look fun _ _ h => h.workspace.graph _ hr
  | takeGraph hr =>
    exact staysIn_onWorkspace (Workspace.staysIn_setGraph hr fun g => (g, .empty))
  | withTrace hopens source _ ih =>
    subst hopens
    exact .withTrace ih source
  | withContext hc _ ih => exact ih.withContext hc

end ProxyTrace
