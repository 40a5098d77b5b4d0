import ProxyTrace.Proofs.HandedBack
import ProxyTrace.Proofs.Scopes

/-!
# Nested scopes

Where a program is at any moment, it got from where its steps can lead to (`Run.Reachable`) by
running programs of nested scopes and by entering scopes (`Session.InProgram`). Since whatever it
runs stays in the footprint of everything, every scope leaves both stacks as they were. What stays
in a footprint of its own leaves the rest alone, so that the program around it cannot tell that it
has run: this is the main statement, `Session.InProgram.scopes_isolated`. A program may look at the
identities of traces, so what opens traces afterwards is compared where as many identities have been
given out; scripts, which do not, are compared with the same session up to the identities in
`Session.InProgram.scripts_isolated`.
-/

namespace ProxyTrace

variable {α β : Type} {F : Footprint} {opens : Bool} {s s' : Session}

/-! ### Calls, methods and traced calls -/

theorem Scoped.bind_all {x : StateM Session α} {f : α → StateM Session β} (hx : Scoped opens F x)
    (hf : ∀ a, Scoped opens F (f a)) : Scoped opens F (x >>= f) := hx.bind fun _ _ => hf _

theorem Scoped.call (hactive : F.active) (hasks : F.asks) (c : Call)
    (hr : ∀ r ∈ c.recorder?, F.recorders r) : Scoped opens F c.run.attempt :=
  .attempt hactive hasks (c.uses hr)

/-- A method that is looked up where the context is of the footprint uses its recorders only. -/
theorem TensorProxy.uses_of_attribute (hs : s.Ready F) (hasks : F.asks) {t : TensorProxy}
    {name : String} {m : BoundMethod} (h : ((t.attribute name).on s).1 = .ok m)
    (args : List Value) : (m.call args).Uses F.recorders := by
  rw [TensorProxy.attribute, TensorProxy.context, bind_assoc,
    SessionM.on_bind_ok (SessionM.on_context? s)] at h
  cases hc : s.context? with
  | none => rw [hc] at h; cases h
  | some c =>
    rw [hc] at h
    simp only [bind_assoc, pure_bind, SessionM.on_bind] at h
    split at h
    · cases hmethod : c.method? name with
      | none => rw [hmethod] at h; cases h
      | some f =>
        rw [hmethod] at h
        cases h
        exact .workspace ((hs.context hasks c hc).method? name f hmethod _)
    · cases h

/-- A method may be looked up in one place and called in another, in deeper scopes too. -/
theorem Scoped.attribute (hactive : F.active) (hasks : F.asks) (t : TensorProxy) (name : String)
    {f : Except Error BoundMethod → StateM Session α}
    (hf : ∀ m?, (∀ m, m? = .ok m → ∀ args, (m.call args).Uses F.recorders) →
      Scoped opens F (f m?)) :
    Scoped opens F (do f (← (t.attribute name).attempt)) :=
  (attempt hactive hasks (t.uses_attribute name)).bind fun _ hs =>
    hf _ fun _ hm args => TensorProxy.uses_of_attribute hs hasks hm args

theorem Scoped.callOnProxies (hactive : F.active) (hasks : F.asks) (args : List Value)
    {f : List Value → StateM Session (Except Error Value)}
    (hf : ∀ inputs, Scoped opens F (f inputs)) :
    Scoped opens F (ProxyTrace.callOnProxies args f) := by
  refine (attempt hactive hasks (.mapM (fun v => uses_lift v none) args)).bind_all fun inputs => ?_
  cases inputs with
  | error e => exact .pure _
  | ok inputs => exact (hf inputs).bind_all fun _ => .pure _

/-- A traced call is a program of the footprint if its function is, on any proxies, with the
recorder and in the trace of the call. -/
theorem Scoped.traceCall (args : List Value)
    {f : List Value → StateM Session (Except Error Value)}
    (hf : ∀ r id inputs, Scoped true ((F.addRecorder r).inTrace id).inContext (f inputs)) :
    Scoped true F (ProxyTrace.traceCall args f) := by
  refine .newRecorder rfl fun r => ?_
  have hr : (F.addRecorder r).recorders r := .inl rfl
  have hbody (id : TraceId) : Scoped true ((F.addRecorder r).inTrace id)
      (ProxyTrace.withContext r.context (ProxyTrace.callOnProxies args f)) := by
    refine .withContext ?_ (.callOnProxies trivial trivial args (hf r id))
    exact Recorder.uses_context hr
  refine (withTrace rfl default hbody).bind_all fun (trace, result) => ?_
  cases result with
  | error e => exact .pure _
  | ok result => exact (takeGraph hr).bind_all fun _ => .pure _

/-! ### Programs -/

/-- Where a program can be: wherever its steps can lead to, if the active context is one that works
in the library, and from there on through what it runs and in the scopes that it opens. -/
inductive Session.InProgram : Session → Prop
  | reached {run : Run} (h : run.Reachable)
      (hc : ∀ c ∈ run.session.context?, c.Uses fun _ => True) : InProgram run.session
  | run {s : Session} (hs : s.InProgram) {α : Type} {x : StateM Session α}
      (hx : Scoped true .all x) : InProgram (x.run s).2
  | enterTrace {s : Session} (hs : s.InProgram) (source : NameSource) :
      InProgram (s.enterTrace source)
  | enterContext {s : Session} (hs : s.InProgram) {c : LanguageContext}
      (hc : c.Uses fun _ => True) : InProgram (s.enterContext c)

namespace Session

/-- Everything that there is in the session but for the recorders and traces. -/
def beside (recorders : Recorder → Prop) (traces : TraceId → Prop) (s : Session) : Footprint where
  recorders r := ¬ recorders r ∧ r.index < s.workspace.nextRecorder.index
  traces id := ¬ traces id ∧ id.index < s.workspace.nextTrace.index
  active := True
  asks := True

/-- The session, had as many identities been given out as in the other one. There a program that
may do anything with the identities that it gets does the same as in the other one. -/
def catchUp (s s' : Session) : Session :=
  { s with
    workspace.nextTrace := s'.workspace.nextTrace
    workspace.nextRecorder := s'.workspace.nextRecorder }

theorem InProgram.ready (h : s.InProgram) : s.Ready .all := by
  induction h with
  | reached h hc => exact ⟨⟨h.valid, fun _ _ _ => trivial⟩, fun _ => hc⟩
  | run hs hx ih => exact (hx.staysIn _ ih).1.ready ih
  | enterTrace hs source ih =>
    exact ⟨⟨ih.workspace.valid.enter source, fun _ _ _ => trivial⟩, ih.context⟩
  | enterContext hs hc ih =>
    refine ⟨ih.workspace, ?_⟩
    rintro - _ ⟨⟩
    exact hc

/-- What has worked on recorders and traces of its own has not changed the rest. -/
theorem WorksIn.alike {recorders : Recorder → Prop} {traces : TraceId → Prop}
    (h : s.WorksIn (.own recorders traces) s') (hs : ∀ t ∈ s.workspace.scopes, ¬ traces t.id) :
    s.Alike false (s.beside recorders traces) s' where
  contexts := h.contexts
  workspace :=
    { scopes := Scopes.eq_of_changedIn h.workspace.scopes hs
      graph := fun r hr => h.workspace.graph r hr.2 hr.1
      references := fun id hid => h.workspace.references id hid.2 hid.1
      ended := fun id hid => h.workspace.ended id hid.2 hid.1
      next := fun hopens => absurd hopens Bool.false_ne_true }

theorem Alike.catchUp (h : s.Alike false F s') : (s.catchUp s').Alike true F s' :=
  ⟨h.contexts, { h.workspace with next := fun _ => ⟨rfl, rfl⟩ }⟩

theorem Ready.catchUp {G : Footprint} (hs : s.Ready F) (h : s.WorksIn G s') :
    (s.catchUp s').Ready F := by
  have hlater {id : TraceId} (hid : id.index < s.workspace.nextTrace.index) :
      id.index < s'.workspace.nextTrace.index := Nat.lt_of_lt_of_le hid h.workspace.nextTrace
  obtain ⟨hscopes, hreferences, hended⟩ := hs.workspace.valid
  exact ⟨⟨⟨fun t ht => hlater (hscopes t ht), fun id hid => hlater (hreferences id hid),
    fun p hp => hlater (hended p hp)⟩, hs.workspace.active⟩, hs.context⟩

theorem Ready.of_alike (hs : s.Ready F) (h : s.Alike opens F s') (hvalid : s'.workspace.Valid) :
    s'.Ready F where
  workspace :=
    { valid := hvalid
      active := h.workspace.active? ▸ hs.workspace.active }
  context := h.context? ▸ hs.context

/-- What keeps to recorders and traces of its own asks nothing of the place where it runs. -/
theorem InProgram.worksIn_own (hs : s.InProgram) {recorders : Recorder → Prop}
    {traces : TraceId → Prop} {inner : StateM Session α}
    (hinner : Scoped opens (.own recorders traces) inner) :
    s.WorksIn (.own recorders traces) (inner.run s).2 :=
  (hinner.staysIn s ⟨⟨hs.ready.workspace.valid, False.elim⟩, False.elim⟩).1

/-- Both stacks hold the same entries. -/
structure SameStacks (s s' : Session) : Prop where
  contexts : s'.contexts = s.contexts
  traces : s'.workspace.scopes.map Trace.id = s.workspace.scopes.map Trace.id

theorem WorksIn.sameStacks (h : s.WorksIn F s') : s.SameStacks s' :=
  ⟨h.contexts, Scopes.ids_of_changedIn h.workspace.scopes⟩

/-- **Nested scopes are isolated.** Wherever a program is, whatever it runs, failing or not, leaves
both stacks as they were: this is so of every scope, and of every part of the body of a scope, after
which the scope's own entry is the active one. What stays within recorders and traces of its own, as
a traced call may do (`Scoped.traceCall`) or a trace scope around a context scope, and leaves the
open traces alone, changes neither names nor sources of these, nor the graph of any other recorder,
nor what there is to see of any other trace that has ended. What the program then runs on its other
recorders and traces comes to the same as if that had not been run: the same answers, names and
graphs. Only the identities of traces that it opens are later ones, as those are given out to all. A
program may read them, and is then compared where they are as late; `scripts_isolated` compares
scripts with `s` itself. -/
theorem InProgram.scopes_isolated (hs : s.InProgram) :
    (∀ {α : Type} {x : StateM Session α}, Scoped true .all x →
      s.SameStacks (x.run s).2 ∧
      (∀ source, (x.run (s.enterTrace source)).2.workspace.active?.map Trace.id =
        some s.workspace.nextTrace) ∧
      ∀ c : LanguageContext, (c.Uses fun _ => True) →
        (x.run (s.enterContext c)).2.context? = some c) ∧
    ∀ {α : Type} {inner : StateM Session α} {recorders : Recorder → Prop}
      {traces : TraceId → Prop}, Scoped true (.own recorders traces) inner →
      (∀ t ∈ s.workspace.scopes, ¬ traces t.id) →
      let after := (inner.run s).2
      let others := s.beside recorders traces
      after.contexts = s.contexts ∧ after.workspace.scopes = s.workspace.scopes ∧
      (∀ r, r.index < s.workspace.nextRecorder.index → ¬ recorders r →
        after.workspace.graph r = s.workspace.graph r) ∧
      (∀ id, id.index < s.workspace.nextTrace.index → ¬ traces id →
        after.workspace.ended.lookup id = s.workspace.ended.lookup id) ∧
      ((∀ c ∈ s.context?, c.Uses others.recorders) → ∀ {β : Type} {later : StateM Session β},
        (Scoped false others later →
          (later.run after).1 = (later.run s).1 ∧
          (later.run s).2.Alike false others (later.run after).2) ∧
        (Scoped true others later →
          (later.run after).1 = (later.run (s.catchUp after)).1 ∧
          (later.run (s.catchUp after)).2.Alike true others (later.run after).2)) := by
  have hready := hs.ready
  refine ⟨fun {α x} hx => ?_, ?_⟩
  · have hworks {s' : Session} (hs' : s'.InProgram) : s'.WorksIn .all (x.run s').2 :=
      (hx.staysIn s' hs'.ready).1
    exact ⟨(hworks hs).sameStacks, fun source => (hworks (hs.enterTrace source)).workspace.active,
      fun c hc => (hworks (hs.enterContext hc)).context?⟩
  · intro α inner recorders traces hinner htraces after others
    have hworks : s.WorksIn (.own recorders traces) after := hs.worksIn_own hinner
    refine ⟨hworks.contexts, Scopes.eq_of_changedIn hworks.workspace.scopes htraces,
      hworks.workspace.graph, hworks.workspace.ended, fun hcontext {β later} => ?_⟩
    have hothers : s.Ready others := by
      refine ⟨⟨hready.workspace.valid, fun _ t ht => ?_⟩, fun _ => hcontext⟩
      have hmem : t ∈ s.workspace.scopes := List.mem_of_mem_head? ht
      exact ⟨htraces t hmem, hready.workspace.valid.scopes t hmem⟩
    have halike := hworks.alike htraces
    have hafter := hothers.of_alike halike hworks.workspace.valid
    exact ⟨fun hlater => (hlater.staysIn s hothers).2 after hafter halike, fun hlater =>
      (hlater.staysIn _ (hothers.catchUp hworks)).2 after hafter halike.catchUp⟩

/-- While a trace is open and a recorder active, 7 is traced through an addition; afterwards a
number is made and negated. -/
theorem InProgram.scopes_isolated_addition :
    let r : Recorder := ⟨0⟩
    let s : Session := (Session.enterTrace { workspace := ({} : Workspace).newRecorder.2 }
      default).enterContext r.context
    let f (inputs : List Value) : SessionM Value := (inputs.getD 0 .none).binary .add (.int 1)
    let inner : StateM Session (Except Error TracedCall) :=
      traceCall [.int 7] fun inputs => (f inputs).attempt
    let later : StateM Session (Except Error Value) := SessionM.attempt do
      let p ← NumberProxy.make .int none none
      (Value.proxy (.number p)).unary .neg
    let after := (inner.run s).2
    s.InProgram ∧ Scoped true (.own (fun _ => False) fun _ => False) inner ∧
      (∃ call, (inner.run s).1 = .ok call ∧ call.graph.size = 1) ∧
      s.SameStacks after ∧ after.workspace.scopes = s.workspace.scopes ∧
      (later.run after).1 = (later.run s).1 ∧
      (later.run after).2.workspace.graph r = (later.run s).2.workspace.graph r ∧
      ((later.run after).2.workspace.graph r).size = 1 := by
  intro r s f inner later after
  have hs : s.InProgram := by
    have hrecorder : Scoped true .all (do
        Pure.pure (← modifyGetThe Session (Session.onWorkspace Workspace.newRecorder))) :=
      .newRecorder rfl fun _ => .pure _
    have hstart : Session.InProgram {} := .reached .start nofun
    have h := (hstart.run hrecorder).enterTrace default
    exact h.enterContext (Recorder.uses_context (r := r) trivial)
  have hinner {F : Footprint} : Scoped true F inner :=
    .traceCall _ fun _ _ _ => .attempt trivial trivial (Value.uses_binary ..)
  have hcall : ∃ call, (inner.run s).1 = .ok call ∧ call.graph.size = 1 := by
    have hbody : SessionM.on (do
        let inputs ← [Value.int 7].mapM fun v => lift v
        return (inputs, ← f inputs)) s.enterTracing = (.ok _, _) := rfl
    obtain ⟨trace, h⟩ := traceCall_of_ok hbody
    exact ⟨_, h, rfl⟩
  have hlater {F : Footprint} (hactive : F.active) (hasks : F.asks) : Scoped false F later :=
    .attempt hactive hasks <| .bind (.workspace (NumberProxy.uses_make ..)) fun _ =>
      Value.uses_unary ..
  obtain ⟨hstacks, hisolated⟩ := hs.scopes_isolated
  have hown : Scoped true (.own (fun _ => False) fun _ => False) inner := hinner
  obtain ⟨-, hscopes, -, -, hafter⟩ := hisolated hown fun _ _ => id
  have hcontext : ∀ c ∈ s.context?,
      c.Uses (s.beside (fun _ => False) fun _ => False).recorders := by
    rintro _ ⟨⟩
    exact Recorder.uses_context ⟨id, Nat.zero_lt_one⟩
  obtain ⟨hanswer, halike⟩ := (hafter hcontext).1 (hlater trivial trivial)
  have hgraph := halike.workspace.graph r ⟨id, Nat.zero_lt_one⟩
  refine ⟨hs, hown, hcall, (hstacks hinner).1, hscopes, hanswer, hgraph, ?_⟩
  rw [hgraph]
  rfl

end Session

end ProxyTrace
