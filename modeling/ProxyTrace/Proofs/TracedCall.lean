import ProxyTrace.Proofs.Simulation

/-!
# Traced calls

A traced call runs its function in a session of its own making, and nothing that ends with it
touches the graph (`traceCall_of_ok`, `traceCall_of_error`). On numbers it runs the function on one
fresh proxy each (`Tracing.exists_mapM_lift`), so that what holds of recorded programs holds of
traced calls: tracing a program keeps its meaning (`traceCall_agrees`).
-/

namespace ProxyTrace

variable {α β : Type}

/-- The session in which a traced function runs. -/
def Session.enterTracing (s : Session) : Session :=
  ({ s with workspace := s.workspace.newRecorder.2 }.enterTrace default).enterContext
    s.workspace.nextRecorder.context

theorem Session.graph_enterTracing (s : Session) :
    s.enterTracing.workspace.graph s.workspace.nextRecorder = .empty :=
  Workspace.graph_setGraph_self ..

theorem Session.graphs_unwind (s : Session) (traces contexts : Nat) :
    (s.unwind traces contexts).workspace.graphs = s.workspace.graphs :=
  s.workspace.graphs_closeTo traces

/-- The end of a trace scope leaves the graphs alone. -/
theorem Session.graphs_leaveTrace (before s : Session) :
    (before.leaveTrace s).2.workspace.graphs = s.workspace.graphs := by
  rw [leaveTrace, Workspace.graphs_takeBack, graphs_unwind]

theorem Session.graphs_leaveContext (before s : Session) :
    (before.leaveContext s).workspace.graphs = s.workspace.graphs :=
  s.graphs_unwind _ _

variable {s s' s'' : Session} {args inputs : List Value} {f : List Value → SessionM Value}
  {e : Error} {output : Value}

theorem run_withContext (c : LanguageContext) (body : StateM Session α) (s : Session) :
    (withContext c body).run s =
      ((body.run (s.enterContext c)).1, s.leaveContext (body.run (s.enterContext c)).2) := rfl

theorem run_bind_on (x : SessionM α) (g : Except Error α → StateM Session β) (s : Session) :
    StateT.run (do g (← x.run)) s = (g (x.on s).1).run (x.on s).2 := rfl

/-- Where failures end a computation, a call on proxies is one computation after the other. -/
theorem run_callOnProxies (args : List Value) (f : List Value → SessionM Value) (s : Session) :
    (callOnProxies (m := StateM Session) args fun vs => (f vs).run).run s =
      SessionM.on (do let inputs ← args.mapM fun v => lift v; return (inputs, ← f inputs)) s := by
  rw [callOnProxies, SessionM.on_bind, SessionM.run_bind_attempt]
  rcases (args.mapM fun v => lift v : SessionM (List Value)).on s with ⟨_ | inputs, s'⟩
  · rfl
  · simp only [SessionM.on_bind]
    rw [run_bind_on]
    rcases (f inputs).on s' with ⟨_ | output, s''⟩ <;> rfl

theorem run_bind_newRecorder (g : Recorder → StateM Session α) (s : Session) :
    StateT.run (do g (← modifyGetThe Session (Session.onWorkspace Workspace.newRecorder))) s =
      (g s.workspace.nextRecorder).run { s with workspace := s.workspace.newRecorder.2 } := rfl

theorem run_bind_withTrace (source : NameSource) (x : StateM Session α)
    (g : Trace × α → StateM Session β) (s : Session) :
    StateT.run (do g (← withTrace source x)) s =
      let r := x.run (s.enterTrace source)
      (g ((s.leaveTrace r.2).1, r.1)).run (s.leaveTrace r.2).2 := rfl

/-- The end of the trace of a traced call that began in `s`. -/
def Session.leaveTracing (s s' : Session) : Trace × Session :=
  let before : Session := { s with workspace := s.workspace.newRecorder.2 }
  before.leaveTrace ((before.enterTrace default).leaveContext s')

theorem Session.graphs_leaveTracing (s s' : Session) :
    (s.leaveTracing s').2.workspace.graphs = s'.workspace.graphs := by
  rw [leaveTracing, graphs_leaveTrace, graphs_leaveContext]

/-- What a traced call comes to that began in `s`, and the session afterwards. -/
def Session.endTracing (s : Session) (outcome : Except Error (List Value × Value) × Session) :
    Except Error TracedCall × Session :=
  let left := s.leaveTracing outcome.2
  match outcome.1 with
  | .error e => (.error e, left.2)
  | .ok (inputs, output) =>
    let taken := left.2.onWorkspace (Workspace.takeGraph s.workspace.nextRecorder)
    (.ok { graph := taken.1, inputs, output, trace := left.1 }, taken.2)

/-- What comes before and after the function of a traced call. -/
theorem run_traceCall_function (args : List Value)
    (f : List Value → StateM Session (Except Error Value)) (s : Session) :
    (traceCall args f).run s = s.endTracing ((callOnProxies args f).run s.enterTracing) := by
  rw [traceCall, run_bind_newRecorder, run_bind_withTrace, run_withContext, Session.endTracing,
    Session.leaveTracing, Session.enterTracing]
  rcases (callOnProxies args f).run _ with ⟨_ | _, _⟩
  · rfl
  · rfl

/-- What comes before and after the function of a traced call does not look at values. -/
theorem run_traceCall (args : List Value) (f : List Value → SessionM Value) (s : Session) :
    (traceCall (m := StateM Session) args fun vs => (f vs).run).run s =
      s.endTracing (SessionM.on (do
        let inputs ← args.mapM fun v => lift v
        return (inputs, ← f inputs)) s.enterTracing) := by
  rw [← run_callOnProxies, run_traceCall_function]

theorem traceCall_of_error
    (h : SessionM.on (do let inputs ← args.mapM fun v => lift v; return (inputs, ← f inputs))
      s.enterTracing = (.error e, s')) :
    ((traceCall (m := StateM Session) args fun vs => (f vs).run).run s).1 = .error e := by
  rw [run_traceCall, h]
  rfl

theorem traceCall_of_ok
    (h : SessionM.on (do let inputs ← args.mapM fun v => lift v; return (inputs, ← f inputs))
      s.enterTracing = (.ok (inputs, output), s')) :
    ∃ trace, ((traceCall (m := StateM Session) args fun vs => (f vs).run).run s).1 =
      .ok ⟨s'.workspace.graph s.workspace.nextRecorder, inputs, output, trace⟩ := by
  rw [run_traceCall, h]
  refine ⟨_, congrArg (fun g => Except.ok (TracedCall.mk g inputs output _)) ?_⟩
  exact Workspace.graph_of_graphs_eq (s.graphs_leaveTracing s') _

variable {r : Recorder} {t : Trace} {env : Bindings}

theorem liftNumber_number (x : Number) (name : Option Name) :
    liftNumber (.number x) name = (do
      return (NumberProxy.mk (← WorkspaceM.allocate name) x.kind x : Value)) := by
  have hvalue : (some x).mapM (·.coerce x.kind) = .ok (some x) := by
    change some <$> x.coerce x.kind = _
    rw [x.coerce_kind]
    rfl
  rw [liftNumber, NumberProxy.make_eq, hvalue]
  simp only [bind_assoc, pure_bind]
  rfl

/-- A recorder leaves numbers to the library. -/
theorem on_lift_number (hc : s.context? = some r.context) (x : Number) (name : Option Name) :
    (lift (.number x) name).on s = SessionM.on (liftNumber (.number x) name) s := by
  rw [lift, SessionM.on_bind_ok (SessionM.on_context? s), hc]
  rfl

namespace Tracing

theorem on_lift (h : Tracing r t env s) (x : Number) :
    (lift (.number x)).on s = (.ok (t.nextNumber x.kind x),
      { s with workspace := s.workspace.setActive t.makeName.2 }) := by
  have hnumber : (liftNumber (.number x) none).on s.workspace =
      (.ok (t.nextNumber x.kind x : Value), s.workspace.setActive t.makeName.2) := by
    rw [liftNumber_number]
    exact WorkspaceM.on_bind_ok (WorkspaceM.on_allocate_none h.active)
  rw [on_lift_number h.context, SessionM.on_liftM_workspace, hnumber]

/-- The arguments of a call are lifted to proxies that stand for them. -/
theorem exists_mapM_lift (h : Tracing r t env s) (args : List Number) :
    ∃ inputs t' env' s',
      SessionM.on ((args.map Value.number).mapM fun v => lift v) s = (.ok inputs, s') ∧
      t'.id = t.id ∧ bindNames? env (inputs.map Value.toTerm) args = some env' ∧
      Tracing r t' env' s' ∧ s'.workspace.graph r = s.workspace.graph r ∧
      (∀ v y, Denotes t.id env v y → Denotes t.id env' v y) ∧
      ∀ (i : Nat) (hi : i < args.length), Denotes t.id env' (inputs.getD i .none) args[i] := by
  induction args generalizing t env s with
  | nil => exact ⟨[], t, env, s, rfl, rfl, rfl, h, rfl, fun _ _ => id, nofun⟩
  | cons x xs ih =>
    obtain ⟨inputs, t', env', s', hon, hid, hbind, htracing, hgraph, hkeep, hinputs⟩ :=
      ih (h.fresh x)
    have hx : Denotes t.id env' (t.nextNumber x.kind x) x :=
      hkeep _ _ (denotes_nextNumber t env (Nat.le_refl _))
    refine ⟨t.nextNumber x.kind x :: inputs, t', env', s', ?_, hid, hbind, htracing, hgraph,
      fun v y hv => hkeep v y (h.denotes_fresh hv x), fun i hi => ?_⟩
    · rw [List.map_cons, List.mapM_cons, SessionM.on_bind_ok (h.on_lift x), SessionM.on_bind_ok hon]
      rfl
    · cases i with
      | zero => exact hx
      | succ i => exact hinputs i (Nat.lt_of_succ_lt_succ hi)

end Tracing

/-- **Tracing keeps the meaning of a straight-line program over numbers.** If it has an answer on
the arguments, it can be traced on them; and if it is traced, the replay of its graph on the
arguments comes to what the program comes to on them, an answer or a failure. -/
theorem traceCall_agrees (s s₀ : Session) (args : List Number) (p : StraightLine args.length) :
    let native := ((p.run fun i => .number args[i]).on s₀).1
    let traced := ((traceCall (m := StateM Session) (args.map Value.number) fun inputs =>
      (p.run fun i => inputs.getD i .none).run).run s).1
    ((∃ v, native = .ok v) → ∃ call, traced = .ok call) ∧
    ∀ call, traced = .ok call →
      ∃ result, call.replay args = some result ∧ native = Value.number <$> result := by
  intro native traced
  have hnative : native = Value.number <$> p.eval fun i => args[i] :=
    congrArg Prod.fst (p.on_run_number (fun i => args[i]) s₀)
  have htracing : Tracing s.workspace.nextRecorder (.empty s.workspace.nextTrace) []
      s.enterTracing := ⟨rfl, rfl, fun _ hb => nomatch hb⟩
  obtain ⟨inputs, t, env, s', hlift, hid, hbind, htracing, hgraph, -, hinputs⟩ :=
    htracing.exists_mapM_lift args
  have hagrees := p.agrees (ρ := fun i => inputs.getD i .none) (σ := fun i => args[i]) htracing
    fun i => hid ▸ hinputs i i.isLt
  have hbody : SessionM.on (do
      let inputs ← (args.map Value.number).mapM fun v => lift v
      return (inputs, ← p.run fun i => inputs.getD i .none)) s.enterTracing =
      (Prod.mk inputs <$> ((p.run fun i => inputs.getD i .none).on s').1,
        ((p.run fun i => inputs.getD i .none).on s').2) := by
    rw [SessionM.on_bind_ok hlift, SessionM.on_bind]
    rcases (p.run fun i => inputs.getD i .none).on s' with ⟨_ | _, _⟩ <;> rfl
  rcases hrun : (p.run fun i => inputs.getD i .none).on s' with ⟨e | output, s''⟩ <;>
    rw [hrun] at hagrees hbody
  -- a failure of the recorder is one of the numbers, so there is no answer to speak of
  · have htraced : traced = .error e := traceCall_of_error hbody
    obtain ⟨e', he'⟩ := hagrees
    rw [htraced, hnative, he']
    exact ⟨fun ⟨_, hv⟩ => (nomatch hv), fun _ hcall => nomatch hcall⟩
  · obtain ⟨trace, htraced⟩ : ∃ trace, traced = _ := traceCall_of_ok hbody
    obtain ⟨ns, hns, hreplay⟩ := hagrees
    rw [htraced]
    refine ⟨fun _ => ⟨_, rfl⟩, ?_⟩
    rintro _ ⟨⟩
    refine ⟨_, ?_, hnative⟩
    -- the graph was empty at the start: what was added to it is all of it
    rw [hgraph, s.graph_enterTracing] at hns
    rw [TracedCall.replay, hbind, hns]
    exact hreplay

/-- The sum of the quotient and the remainder of 7 and 2, traced and replayed. -/
theorem traceCall_agrees_divmod :
    let p : StraightLine 2 := .divmod (.register 0) (.register 1)
      (.binary .add rfl (.register 2) (.register 3) (.output (.register 4)))
    let traced := ((traceCall (m := StateM Session) [.int 7, .int 2] fun inputs =>
      (p.run fun i => inputs.getD i .none).run).run {}).1
    ∃ call, traced = .ok call ∧ call.replay [.int 7, .int 2] = some (.ok (.int 4)) := by
  intro p traced
  obtain ⟨htrace, hreplay⟩ := traceCall_agrees {} {} [.int 7, .int 2] p
  have hnative : ((p.run fun i => .number [Number.int 7, .int 2][i]).on {}).1 = .ok (.int 4) := rfl
  obtain ⟨call, hcall⟩ := htrace ⟨_, hnative⟩
  obtain ⟨result, hresult, heq⟩ := hreplay call hcall
  refine ⟨call, hcall, ?_⟩
  rw [hresult]
  cases result with
  | error e => exact nomatch hnative.symm.trans heq
  | ok x =>
    cases hnative.symm.trans heq
    rfl

end ProxyTrace
