import ProxyTrace.Proofs.History
import ProxyTrace.Proofs.Plan
import ProxyTrace.Proofs.Scopes
import ProxyTrace.Proofs.Shape

/-!
# The inputs of traced calls

The function of a traced call runs on its arguments with a fresh proxy in the place of each number
and each native tensor (`Value.input`). The proxies are named in the order of the arguments, without
a gap for those that are passed on (`SessionM.on_mapM_lift`).

What a traced call answers is read off what its function answers (`traceCall_of_function`). The main
statement is `traceCall_inputs`. It holds for every function, in every session; and if the function
does what programs do, its history tells what the trace and the graph of the call have at the end,
whatever scopes, traces and recorders the function makes use of besides.
-/

namespace ProxyTrace

variable {s : Session} {w : Workspace} {t : Trace} {r : Recorder} {k : Nat} {v : Value}
  {shape : List Nat} {args : List Value} {id : TraceId}

/-- The extents other than zero multiply to a word. There are no other native tensors. -/
def Shape.Native (shape : List Nat) : Prop :=
  ((shape.filter (· ≠ 0)).prod : Int) ≤ Int64.maxValue.toInt
  deriving Decidable

namespace Shape.Native

theorem prod_pos (shape : List Nat) : 0 < (shape.filter (· ≠ 0)).prod :=
  Nat.pos_of_ne_zero (List.prod_ne_zero fun h => by simpa using (List.mem_filter.1 h).2)

theorem extents (h : Native shape) : ∀ n ∈ shape, (n : Int) ≤ Int64.maxValue.toInt := by
  intro n hn
  by_cases hzero : n = 0
  · subst hzero
    decide
  · have hdvd : n ∣ (shape.filter (· ≠ 0)).prod :=
      List.dvd_prod (List.mem_filter.2 ⟨hn, by simpa using hzero⟩)
    exact (Int.ofNat_le.2 (Nat.le_of_dvd (prod_pos shape) hdvd)).trans h

theorem prod_takeWhile_le (shape : List Nat) :
    (shape.takeWhile (· ≠ 0)).prod ≤ (shape.filter (· ≠ 0)).prod := by
  induction shape with
  | nil => exact Nat.le_refl _
  | cons n shape ih =>
    by_cases hzero : n = 0
    · simpa [hzero] using Nat.succ_le_of_lt (prod_pos (n :: shape))
    · simpa [hzero] using Nat.mul_le_mul_left n ih

theorem numel?_eq (h : Native shape) : numel? shape = some shape.prod := by
  refine (count?_eq_some_iff (by decide)).2 ⟨(Nat.one_mul _).symm, ?_⟩
  have hle := prod_takeWhile_le shape
  have hword : (0x7fffffffffffffff : Int) = Int64.maxValue.toInt := rfl
  rw [Native, ← hword] at h
  have hsize : UInt64.size = 0x10000000000000000 := rfl
  omega

end Shape.Native

/-! ### Inputs -/

/-- A tensor of doubles on the processor. -/
def TensorProxy.doubles (σ : Symbol) (shape : List Nat) : TensorProxy where
  symbol := σ
  shape
  device := .cpu
  dtype := { scalar := .float64 }
  trueDtype := { scalar := .float64 }
  numel := shape.prod
  ndim := shape.length

namespace Value

/-- A number or a native tensor. -/
def isNative : Value → Bool
  | number _ | tensor _ => true
  | _ => false

/-- The input for an argument: a proxy of the symbol, with the kind and the value of a number, or
with the shape of a native tensor; any other argument itself. -/
def input (σ : Symbol) : Value → Value
  | number n => .proxy (.number { symbol := σ, kind := n.kind, value := n })
  | tensor shape => .proxy (.tensor (.doubles σ shape))
  | v => v

end Value

/-- How many of the arguments before a place are replaced. -/
def replaced (args : List Value) (i : Nat) : Nat := (args.take i).countP Value.isNative

/-- The arguments, with proxies of the symbols, in order, for those that are replaced. -/
def inputs (symbol : Nat → Symbol) (args : List Value) : List Value :=
  args.mapIdx fun i v => v.input (symbol (replaced args i))

theorem inputs_cons (symbol : Nat → Symbol) (v : Value) (args : List Value) :
    inputs symbol (v :: args) = v.input (symbol 0) ::
      inputs (fun i => symbol ((if v.isNative then 1 else 0) + i)) args := by
  have hreplaced (i : Nat) : replaced (v :: args) (i + 1) =
      (if v.isNative then 1 else 0) + replaced args i := by
    rw [replaced, List.take_succ_cons, List.countP_cons, Nat.add_comm, replaced]
  rw [inputs, List.mapIdx_cons, inputs]
  simp only [hreplaced]
  rfl

/-! ### Lifting the arguments -/

theorem Workspace.setActive_self (ht : w.active? = some t) : w.setActive t = w := by
  obtain ⟨ts, hts⟩ := exists_scopes ht
  rw [setActive, hts, List.tail_cons, ← hts]

namespace Recorder

theorem on_tensorProxy (ht : w.active? = some (t.after k)) (h : Shape.Native shape) :
    (tensorProxy none (.tensor shape)).on w =
      (.ok (.doubles (t.symbol k) shape), w.setActive (t.after (k + 1))) := by
  let spec : TensorSpec :=
    { shape := Shape.toExtents shape
      device := some (.ok .cpu)
      dtype := some (.ok { scalar := .float64 }) }
  have hshape : spec.shapeOf = .ok shape := by
    dsimp only [spec, TensorSpec.shapeOf]
    rw [Shape.ofExtents?_toExtents h.extents]
  have hresolve := TensorSpec.resolve_of_ok hshape rfl rfl
  rw [h.numel?_eq] at hresolve
  change spec.build.on w = _
  rw [TensorSpec.build, hresolve]
  refine (WorkspaceM.on_bind_ok (WorkspaceM.on_allocate_none ht)).trans ?_
  rw [Trace.id_after]
  rfl

end Recorder

namespace SessionM

/-- An argument is lifted to its input. -/
theorem on_lift (hc : s.context? = some r.context)
    (ht : s.workspace.active? = some (t.after k)) (hv : ∀ shape, v = .tensor shape → Shape.Native shape) :
    (lift v).on s = (.ok (v.input (t.symbol k)), { s with
      workspace := s.workspace.setActive (t.after (k + if v.isNative then 1 else 0)) }) := by
  have hother (h : (lift v).on s = (.ok v, s)) :
      (lift v).on s = (.ok v, { s with workspace := s.workspace.setActive (t.after (k + 0)) }) := by
    rw [h, Nat.add_zero, Workspace.setActive_self ht]
  cases v with
  | number x =>
    have hnumber : (liftNumber (.number x) none).on s.workspace =
        (.ok (Value.input (t.symbol k) x), s.workspace.setActive (t.after (k + 1))) := by
      rw [liftNumber_number]
      refine (WorkspaceM.on_bind_ok (WorkspaceM.on_allocate_none ht)).trans ?_
      rw [Trace.id_after]
      rfl
    rw [on_lift_number hc, on_liftM_workspace, hnumber]
    rfl
  | tensor shape =>
    have htensor : on (liftM (Recorder.tensorProxy none (.tensor shape))) s =
        (.ok (.doubles (t.symbol k) shape), { s with
          workspace := s.workspace.setActive (t.after (k + 1)) }) := by
      rw [on_liftM_workspace, Recorder.on_tensorProxy ht (hv shape rfl)]
    rw [lift, on_bind_ok (on_context? s), hc]
    exact on_bind_ok htensor
  | _ => refine hother ?_; rw [lift, on_bind_ok (on_context? s), hc]; rfl

/-- The arguments are lifted to the inputs. -/
theorem on_mapM_lift (hc : s.context? = some r.context)
    (ht : s.workspace.active? = some (t.after k))
    (hargs : ∀ shape, .tensor shape ∈ args → Shape.Native shape) :
    (args.mapM fun v => lift v : SessionM (List Value)).on s =
      (.ok (inputs (fun i => t.symbol (k + i)) args), { s with
        workspace := s.workspace.setActive (t.after (k + args.countP Value.isNative)) }) := by
  induction args generalizing s k with
  | nil => rw [List.countP_nil, Nat.add_zero, Workspace.setActive_self ht]; rfl
  | cons v args ih =>
    let k₁ := k + if v.isNative then 1 else 0
    have hv := @on_lift s t r k v hc ht fun shape h => hargs shape (h ▸ .head _)
    have hrest := @ih { s with workspace := s.workspace.setActive (t.after k₁) } k₁ hc
      (Workspace.active?_setActive _ _) fun shape h => hargs shape (.tail _ h)
    have hcount : k₁ + args.countP Value.isNative = k + (v :: args).countP Value.isNative := by
      rw [List.countP_cons]
      omega
    have hsymbol (i : Nat) : t.symbol (k₁ + i) =
        t.symbol (k + ((if v.isNative then 1 else 0) + i)) := by rw [Nat.add_assoc]
    rw [List.mapM_cons, on_bind_ok hv, on_bind_ok hrest, inputs_cons, ← hcount]
    simp only [hsymbol]
    rfl

end SessionM

/-! ### Traced calls -/

/-- A trace that has given out `t0`, `t1` and so on, that many names. -/
def Trace.counted (id : TraceId) (k : Nat) : Trace where
  id
  names := (List.range k).map fun i => "t" ++ Nat.repr i
  source := { (default : NameSource) with position := k }

/-- The symbol that such a trace gives out next. -/
def Symbol.counted (id : TraceId) (k : Nat) : Symbol := ⟨"t" ++ Nat.repr k, id⟩

theorem Trace.makeName_counted (id : TraceId) (k : Nat) :
    (counted id k).makeName = ("t" ++ Nat.repr k, counted id (k + 1)) := by
  have hfree : (counted id k).source.candidate (counted id k).source.position ∉
      (counted id k).names := by
    intro hmem
    obtain ⟨i, hi, hik⟩ := List.mem_map.1 hmem
    have heq : i = k := NameSource.repr_injective ((String.append_right_inj _).1 hik)
    exact absurd (heq ▸ hi) (by simp)
  rw [makeName, NameSource.draw_of_not_mem hfree]
  simp only [counted, List.range_succ, List.map_append, List.map_cons, List.map_nil]
  rfl

theorem Trace.after_empty (id : TraceId) (k : Nat) : (empty id).after k = counted id k := by
  induction k with
  | zero => rfl
  | succ k ih => rw [after, ih, makeName_counted]

theorem Trace.symbol_empty (id : TraceId) (k : Nat) : (empty id).symbol k = .counted id k := by
  rw [symbol, fresh, after_empty, makeName_counted]
  rfl

namespace Session

/-- The session in which the function of a traced call begins. -/
def tracing (s : Session) (args : List Value) : Session :=
  { s.enterTracing with
    workspace := s.enterTracing.workspace.setActive
      (.counted s.workspace.nextTrace (args.countP Value.isNative)) }

/-- What the function of a traced call runs on. -/
def tracedInputs (s : Session) (args : List Value) : List Value :=
  inputs (.counted s.workspace.nextTrace) args

theorem on_mapM_lift_enterTracing (s : Session)
    (hargs : ∀ shape, .tensor shape ∈ args → Shape.Native shape) :
    (args.mapM fun v => lift v : SessionM (List Value)).on s.enterTracing =
      (.ok (s.tracedInputs args), s.tracing args) := by
  have hlift := @SessionM.on_mapM_lift s.enterTracing (.empty s.workspace.nextTrace)
    s.workspace.nextRecorder 0 args rfl rfl hargs
  simp only [Nat.zero_add, Trace.after_empty, Trace.symbol_empty] at hlift
  exact hlift

/-- When the scopes that the function has left open are ended, the trace of the call is innermost
again. -/
theorem leaveTracing_eq {s' : Session} {outer : List Trace}
    (h : (s'.workspace.closeTo (s.workspace.scopes.length + 1)).scopes = t :: outer)
    (houter : outer.length = s.workspace.scopes.length) : (s.leaveTracing s').1 = t := by
  let w := s'.workspace.closeTo (s.workspace.scopes.length + 1)
  have hw : w.scopes.length ≤ s.workspace.scopes.length + 1 := by
    rw [h, List.length_cons, houter]
  have hactive : (w.closeTo (s.workspace.scopes.length + 1)).active? = some t := by
    rw [Workspace.closeTo_of_le hw, Workspace.active?, h]
    rfl
  change ((w.closeTo (s.workspace.scopes.length + 1)).active?).getD _ = t
  rw [hactive]
  rfl

end Session

/-- What a traced call answers is read off what its function answers. -/
theorem traceCall_of_function (s : Session)
    (hargs : ∀ shape, .tensor shape ∈ args → Shape.Native shape)
    (f : List Value → StateM Session (Except Error Value)) :
    let answer := (f (s.tracedInputs args)).run (s.tracing args)
    ((traceCall args f).run s).1 = answer.1.map fun output =>
      { graph := answer.2.workspace.graph s.workspace.nextRecorder
        inputs := s.tracedInputs args
        output
        trace := (s.leaveTracing answer.2).1 } := by
  intro answer
  have hcall : (callOnProxies args f).run s.enterTracing =
      (answer.1.map (s.tracedInputs args, ·), answer.2) := by
    rw [callOnProxies, SessionM.run_bind_attempt, s.on_mapM_lift_enterTracing hargs]
    rfl
  rw [run_traceCall_function, hcall, Session.endTracing]
  cases answer.1 with
  | error e => rfl
  | ok output =>
    refine congrArg (fun g => Except.ok (TracedCall.mk g _ output _)) ?_
    exact Workspace.graph_of_graphs_eq (s.graphs_leaveTracing _) _

namespace Run

variable {run run' : Run} {es : History}

/-- The run of a program that makes a traced call, where the function begins. -/
def tracing (run : Run) (args : List Value) : Run :=
  { run with
    session := run.session.tracing args
    held := run.held ++ (run.session.tracedInputs args).flatMap Value.proxies }

/-- Where a program gets to that lifts its arguments one by one. -/
theorem Reachable.inputs (h : Reachable run) (hc : run.session.context? = some r.context)
    (ht : run.session.workspace.active? = some (t.after k))
    (hargs : ∀ shape, .tensor shape ∈ args → Shape.Native shape)
    (hheld : ∀ v ∈ args, v.proxies ⊆ run.held) :
    Reachable { run with
      session.workspace := run.session.workspace.setActive
        (t.after (k + args.countP Value.isNative))
      held := run.held ++ (inputs (fun i => t.symbol (k + i)) args).flatMap Value.proxies } := by
  induction args generalizing run k with
  | nil =>
    rw [List.countP_nil, Nat.add_zero, Workspace.setActive_self ht]
    simpa [ProxyTrace.inputs] using h
  | cons v args ih =>
    have hv := SessionM.on_lift hc ht fun shape h => hargs shape (h ▸ .head _)
    have hadmits : run.Admits (.lift v none) (some r) := ⟨hheld v (.head _), fun _ => hc⟩
    have hrun := (SessionM.on_bind_ok hv : (Call.lift v none).run.on run.session = _)
    have hrest := ih (h.step (.call hadmits hrun)) hc (Workspace.active?_setActive _ _)
      (fun shape h => hargs shape (.tail _ h))
      fun u hu => List.subset_append_of_subset_left _ (hheld u (.tail _ hu))
    have hlog : ((Call.lift v none).trail (some r)).entries
        (run.session.workspace.active?.map Trace.id) (.value (v.input (t.symbol k))) = [] := by
      cases v <;> rfl
    have hsymbol (i : Nat) : t.symbol (k + ((if v.isNative then 1 else 0) + i)) =
        t.symbol (k + (if v.isNative then 1 else 0) + i) := by rw [Nat.add_assoc]
    rw [inputs_cons, List.countP_cons, Nat.add_comm (args.countP _), ← Nat.add_assoc]
    simp only [hsymbol]
    simpa [after, hlog, Call.Answer.proxies] using hrest

theorem Reachable.tracing (h : Reachable run)
    (hargs : ∀ shape, .tensor shape ∈ args → Shape.Native shape)
    (hheld : ∀ v ∈ args, v.proxies ⊆ run.held) : Reachable (run.tracing args) := by
  have henter := ((h.step (.move .newRecorder)).step (.move (.enter default))).step
    (.move (.enterContext run.session.workspace.nextRecorder.context))
  have hinputs := @Reachable.inputs (.empty run.session.workspace.nextTrace)
    run.session.workspace.nextRecorder 0 args _ henter rfl rfl hargs hheld
  simp only [Nat.zero_add, Trace.after_empty, Trace.symbol_empty] at hinputs
  exact hinputs

/-- What the end of a traced call finds, if its function did what programs do: the trace with the
names of the inputs and those that were registered in it since, and the nodes that were recorded. -/
theorem Path.endTracing (h : Path (run.depth + 1) (run.tracing args) es run')
    (hrun : (run.tracing args).Accounted) (hleaves : es.Leaves run.session.workspace.nextRecorder) :
    let id := run.session.workspace.nextTrace
    let r := run.session.workspace.nextRecorder
    let trace := (run.session.leaveTracing run'.session).1
    trace.id = id ∧
      trace.names = (Trace.counted id (args.countP Value.isNative)).names ++
        es.names (run.depth + 1) id ∧
      (run'.session.workspace.graph r).nodes = es.nodes r := by
  intro id r trace
  have hat : (run.tracing args).At (run.depth + 1) (.counted id (args.countP Value.isNative)) :=
    ⟨[], run.session.workspace.scopes, rfl, rfl⟩
  obtain ⟨t, hstays⟩ := h.stays hrun hat
  obtain ⟨outer, hscopes, houter⟩ := hstays.open_.scopes_closeTo
  obtain rfl : trace = t := Session.leaveTracing_eq hscopes (Nat.succ_inj.1 houter)
  refine ⟨hstays.id, hstays.names, ?_⟩
  have hgraph : (run.tracing args).session.workspace.graph r = .empty :=
    run.session.graph_enterTracing
  rw [(h.graph (Nat.lt_succ_self _) hleaves).2, hgraph]
  rfl

end Run

/-- **Traced calls give their functions proxies, in order.** Whatever a program has done before, a
function is called once, in a trace and with a recorder that are new, on the arguments with the
proxies `t0`, `t1` and so on in the places of the numbers and the native tensors. Its failure is the
failure of the call. Of its answer the call makes a result with these inputs, and if the function
does what programs do, then with exactly the names that were registered in the trace in the
meantime, and the nodes that were recorded with the recorder. -/
theorem traceCall_inputs (run : Run) (args : List Value)
    (hargs : ∀ shape, .tensor shape ∈ args → Shape.Native shape)
    (f : List Value → StateM Session (Except Error Value)) :
    let s := run.session
    let id := s.workspace.nextTrace
    let r := s.workspace.nextRecorder
    let answer := (f (s.tracedInputs args)).run (s.tracing args)
    let traced := ((traceCall args f).run s).1
    (∀ e, answer.1 = .error e → traced = .error e) ∧
    ∀ output, answer.1 = .ok output → ∃ call, traced = .ok call ∧
      call.inputs = s.tracedInputs args ∧ call.output = output ∧
      (Run.Reachable run → (∀ v ∈ args, v.proxies ⊆ run.held) →
        Run.Reachable (run.tracing args) ∧
        ∀ es run', Run.Path (run.depth + 1) (run.tracing args) es run' →
          run'.session = answer.2 → es.Leaves r →
          call.trace.id = id ∧
          call.trace.names = (Trace.counted id (args.countP Value.isNative)).names ++
            es.names (run.depth + 1) id ∧
          call.graph.nodes = es.nodes r) := by
  intro s id r answer traced
  have htraced : traced = answer.1.map _ := traceCall_of_function s hargs f
  refine ⟨fun e he => ?_, fun output houtput => ?_⟩
  · rw [htraced, he]
    rfl
  · rw [htraced, houtput]
    refine ⟨_, rfl, rfl, rfl, fun hrun hheld => ⟨hrun.tracing hargs hheld, ?_⟩⟩
    intro es run' hpath hsession hleaves
    rw [← hsession]
    exact hpath.endTracing (hrun.tracing hargs hheld).accounted hleaves

/-- A program in a trace that has a number "x". -/
def Run.sample : Run where
  session.workspace := { nextTrace := ⟨1⟩, scopes := [⟨⟨0⟩, ["x"], default⟩] }
  held := [.number ⟨⟨"x", ⟨0⟩⟩, .int, none⟩]

theorem Run.reachable_sample : Reachable .sample :=
  have hx := (Reachable.start.step (.move (.enter default))).step
    (.call (⟨List.nil_subset _, False.elim⟩ : Admits _ (.makeNumber .int none (some "x")) none) rfl)
  hx

/-- A number, an argument that is passed on, and a native tensor. -/
def sampleArgs : List Value := [.number (.int 7), .none, .tensor [2, 3]]

/-- Negates the last of three inputs. -/
def negatesLast (vs : List Value) : StateM Session (Except Error Value) :=
  ((vs.getD 2 .none).unary .neg).run

/-- The proxies of the number and the tensor are `t0` and `t1`, and the negation gets the next name. -/
theorem traceCall_inputs_neg :
    (∀ shape, .tensor shape ∈ sampleArgs → Shape.Native shape) ∧
    Run.sample.session.tracedInputs sampleArgs =
      [.proxy (.number ⟨⟨"t0", ⟨1⟩⟩, .int, some (.int 7)⟩), .none,
        .proxy (.tensor (.doubles ⟨"t1", ⟨1⟩⟩ [2, 3]))] ∧
    ∃ call, ((traceCall sampleArgs negatesLast).run Run.sample.session).1 = .ok call ∧
      call.inputs = Run.sample.session.tracedInputs sampleArgs ∧
      call.trace.id = ⟨1⟩ ∧ call.trace.names = ["t0", "t1", "t2"] ∧
      call.graph.nodes = [⟨"neg", [.name "t1"], .name "t2"⟩] := by
  have hargs : ∀ shape, .tensor shape ∈ sampleArgs → Shape.Native shape := by
    intro shape hshape
    obtain rfl : shape = [2, 3] := by simpa [sampleArgs] using hshape
    decide
  obtain ⟨call, hcall, hinputs, -, hpath⟩ :=
    (traceCall_inputs .sample sampleArgs hargs negatesLast).2 _ rfl
  refine ⟨hargs, by rfl, call, hcall, hinputs, ?_⟩
  have hheld : ∀ v ∈ sampleArgs, v.proxies ⊆ Run.sample.held := by
    simp [sampleArgs, Value.proxies]
  let t1 : Value := .proxy (.tensor (.doubles (.counted ⟨1⟩ 1) [2, 3]))
  have hadmits : (Run.sample.tracing sampleArgs).Admits (.request (.unary .neg t1))
      (some Run.sample.session.workspace.nextRecorder) := by
    have hgiven : Value.itemProxies [t1] = [.tensor (.doubles (.counted ⟨1⟩ 1) [2, 3])] := by rfl
    obtain ⟨p, q, hinside⟩ : ∃ p q, (Run.sample.tracing sampleArgs).held =
        [p, q, .tensor (.doubles (.counted ⟨1⟩ 1) [2, 3])] := ⟨_, _, by rfl⟩
    refine ⟨?_, fun _ => rfl⟩
    change Value.itemProxies [t1] ⊆ _
    simp [hgiven, hinside]
  obtain ⟨hid, hnames, hnodes⟩ :=
    (hpath Run.reachable_sample hheld).2 _ _ (.call .start hadmits rfl) rfl (by simp [History.Leaves])
  have ht2 : ((Trace.counted ⟨1⟩ 2).makeName).1 = "t2" := by rw [Trace.makeName_counted]; rfl
  refine ⟨hid, ?_, ?_⟩
  · rw [hnames]
    change _ ++ [((Trace.counted ⟨1⟩ 2).makeName).1] = _
    rw [ht2]
    rfl
  · rw [hnodes]
    change [Node.mk "neg" [.name ("t" ++ Nat.repr 1)] (.name ((Trace.counted ⟨1⟩ 2).makeName).1)] = _
    rw [ht2]
    rfl

end ProxyTrace
