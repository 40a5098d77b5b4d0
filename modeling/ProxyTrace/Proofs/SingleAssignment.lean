import ProxyTrace.Proofs.Recorder.Arithmetic
import ProxyTrace.Proofs.Run

/-!
# The graph as a single-assignment log

A recorder's graph is what has been logged of its calls since it was last emptied
(`Run.Logged.graphs`), and a call that is recorded appends one node and no other call does. The
proxies that a call answers were never held before, so along a run no node has an output that an
earlier node has as output, or that it or an earlier node has among its operands
(`Run.Logged.fresh`).

In the graph, however, proxies are names. Where a proxy of another trace gets past the guard, its
name may be one that the trace itself gives out later: `Run.single_assignment_iff` says that this is
the only way in which an output can be met among operands.
-/

namespace ProxyTrace

mutual

/-- The names in a term, at any depth. -/
def Term.names : Term → List Name
  | .name n => [n]
  | .tuple items => Term.itemNames items
  | _ => []

def Term.itemNames : List Term → List Name
  | [] => []
  | t :: ts => t.names ++ Term.itemNames ts

end

namespace Value

mutual

theorem names_toTerm : ∀ v : Value, v.toTerm.names = v.proxies.map Proxy.name
  | none | number _ | tensor _ | slice _ | proxy _ => rfl
  | tuple items => by rw [toTerm, Term.names, proxies, itemNames_toTerms items]

theorem itemNames_toTerms :
    ∀ vs : List Value, Term.itemNames (toTerms vs) = (itemProxies vs).map Proxy.name
  | [] => rfl
  | v :: vs => by
    rw [toTerms, Term.itemNames, itemProxies, List.map_append, names_toTerm v, itemNames_toTerms vs]

end

end Value

namespace Node

/-- The names that a node has among its operands. -/
def argNames (n : Node) : List Name := Term.itemNames n.args

/-- The names that a node has in its output. -/
def outputNames (n : Node) : List Name := n.output.names

theorem argNames_ofCall (op : String) (args : List Value) (output : Value) :
    (ofCall op args output).argNames = (Value.itemProxies args).map Proxy.name := by
  rw [argNames, ofCall, ← Value.toTerms_eq_map, Value.itemNames_toTerms]

theorem outputNames_ofCall (op : String) (args : List Value) (output : Value) :
    (ofCall op args output).outputNames = output.proxies.map Proxy.name :=
  Value.names_toTerm output

end Node

namespace Entry

/-- What the graph has of a recorded call. -/
def node (e : Entry) : Node := .ofCall e.op e.args e.output

theorem argNames_node (e : Entry) :
    e.node.argNames = (Value.itemProxies e.args).map Proxy.name :=
  Node.argNames_ofCall e.op e.args e.output

theorem outputNames_node (e : Entry) : e.node.outputNames = e.output.proxies.map Proxy.name :=
  Node.outputNames_ofCall e.op e.args e.output

/-- Among the operands is a proxy of that name which another trace owns. -/
def HasForeign (e : Entry) (n : Name) : Prop :=
  ∃ p ∈ Value.itemProxies e.args, p.name = n ∧ some p.owner ≠ e.trace

end Entry

variable {w w' : Workspace} {s' : Session} {r r' : Recorder}

theorem Workspace.GivesOut.graph {t : Trace} {σs : List Symbol} (h : w.GivesOut t σs w')
    (r : Recorder) : w'.graph r = w.graph r := by
  obtain ⟨source, rfl⟩ := h.after
  rfl

namespace Call

/-- The operands that are recorded are what the call was given. -/
theorem given_of_node {c : Call} {r? : Option Recorder} {op : String} {args : List Value}
    (h : c.trail r? = .node r op args) : c.given = Value.itemProxies args := by
  have hrequest {q : Request} {r' : Recorder} {recorded : Bool}
      (h : requestTrail r' q recorded = .node r op args) : args = q.operands := by
    rw [requestTrail] at h
    split at h
    · split at h <;> cases h
      rfl
    · cases h
  cases c with
  | request q =>
    cases r? with
    | none => cases h
    | some r' => rw [hrequest h, given]
  | hook r' q => rw [hrequest h, given]
  | getItem a key =>
    cases r? with
    | none => cases h
    | some r' => cases h; rfl
  | hookGetItem r' a key => cases h; rfl
  | method r' name args => cases h; rfl
  | lift v name =>
    cases v with
    | tensor shape => cases r? <;> cases h
    | _ => cases h
  | _ => cases h

theorem Trail.Left.graph {trail : Trail} {given : List Proxy} {a : Answer}
    (h : trail.Left given w a w') (trace : Option TraceId) (r : Recorder) :
    (w'.graph r).nodes =
      (w.graph r).nodes ++ ((trail.entries trace a).filter (·.recorder = r)).map Entry.node := by
  cases trail with
  | nothing =>
    rw [h.1]
    exact (List.append_nil _).symm
  | symbol requested =>
    obtain ⟨σ, ⟨⟨t, hgives⟩, -⟩, -⟩ := h
    rw [hgives.graph]
    exact (List.append_nil _).symm
  | node r' op args =>
    obtain ⟨v, rfl, -, t, w₁, hgives, rfl⟩ := h
    by_cases hr : r = r'
    · subst hr
      rw [Workspace.graph_record, hgives.graph]
      simp [entries, Graph.push, Entry.node]
    · rw [Workspace.graph_record_of_ne hr, hgives.graph]
      simp [entries, Ne.symm hr]

end Call

namespace Run

variable {run run' : Run}

/-- The log of a run, with the graphs that it left. -/
structure Logged (run : Run) : Prop where
  graphs : ∀ r, (run.session.workspace.graph r).nodes <:+
    (run.log.filter (·.recorder = r)).map Entry.node
  held : ∀ e ∈ run.log, Value.itemProxies e.args ⊆ run.held ∧ e.output.proxies ⊆ run.held
  owned : ∀ e ∈ run.log, ∀ p ∈ e.output.proxies, some p.owner = e.trace
  distinct : ∀ e ∈ run.log, (e.output.proxies.map Proxy.name).Nodup
  fresh : ∀ e ∈ run.log, ∀ p ∈ e.output.proxies, ∀ q ∈ Value.itemProxies e.args,
    p.symbol ≠ q.symbol
  later : run.log.Pairwise fun e e' => ∀ p ∈ e'.output.proxies,
    (∀ q ∈ Value.itemProxies e.args, p.symbol ≠ q.symbol) ∧
      ∀ q ∈ e.output.proxies, p.symbol ≠ q.symbol

theorem logged_start : Logged {} where
  graphs _ := List.nil_suffix
  held _ he := absurd he List.not_mem_nil
  owned _ he := absurd he List.not_mem_nil
  distinct _ he := absurd he List.not_mem_nil
  fresh _ he := absurd he List.not_mem_nil
  later := .nil

theorem Move.log (h : Move run run') : run'.log = run.log := by
  cases h <;> rfl

/-- Between calls a graph may be emptied, but nothing is added to it. -/
theorem Move.graph (h : Move run run') (r : Recorder) :
    run'.session.workspace.graph r = run.session.workspace.graph r ∨
      run'.session.workspace.graph r = .empty := by
  cases h with
  | close => exact .inl (Workspace.graph_of_graphs_eq (Workspace.graphs_close _) r)
  | takeBack ht => exact .inl (Workspace.graph_of_graphs_eq (Workspace.graphs_takeBack _) r)
  | keep h =>
    rw [Workspace.keep] at h
    split at h <;> cases h
    exact .inl rfl
  | newRecorder =>
    by_cases hr : r = run.session.workspace.nextRecorder
    · subst hr
      exact .inr (Workspace.graph_setGraph_self ..)
    · exact .inl (Workspace.graph_setGraph_of_ne hr ..)
  | takeGraph r' =>
    by_cases hr : r = r'
    · subst hr
      exact .inr (Workspace.graph_setGraph_self ..)
    · exact .inl (Workspace.graph_setGraph_of_ne hr ..)
  | _ => exact .inl rfl

namespace Logged

/-- A step that logs nothing adds nothing to the graphs. -/
theorem of_log_eq (h : run.Logged) (hlog : run'.log = run.log) (hheld : run.held ⊆ run'.held)
    (hgraph : ∀ r, run'.session.workspace.graph r = run.session.workspace.graph r ∨
      run'.session.workspace.graph r = .empty) : run'.Logged where
  graphs r := by
    rw [hlog]
    rcases hgraph r with hr | hr <;> rw [hr]
    · exact h.graphs r
    · exact List.nil_suffix
  held := by
    rw [hlog]
    intro e he
    exact ⟨List.Subset.trans (h.held e he).1 hheld, List.Subset.trans (h.held e he).2 hheld⟩
  owned := by
    rw [hlog]
    exact h.owned
  distinct := by
    rw [hlog]
    exact h.distinct
  fresh := by
    rw [hlog]
    exact h.fresh
  later := by
    rw [hlog]
    exact h.later

/-- A call on what is held is logged, and its output was not held. -/
theorem append (h : run.Logged) {e : Entry} (hlog : run'.log = run.log ++ [e])
    (hheld : run'.held = run.held ++ e.output.proxies)
    (hgraph : ∀ r, (run'.session.workspace.graph r).nodes =
      (run.session.workspace.graph r).nodes ++ ([e].filter (·.recorder = r)).map Entry.node)
    (hargs : Value.itemProxies e.args ⊆ run.held)
    (howned : ∀ p ∈ e.output.proxies, some p.owner = e.trace)
    (hdistinct : (e.output.proxies.map Proxy.name).Nodup)
    (hnew : ∀ p ∈ e.output.proxies, ∀ q ∈ run.held, p.symbol ≠ q.symbol) : run'.Logged where
  graphs r := by
    obtain ⟨ns, hns⟩ := h.graphs r
    refine ⟨ns, ?_⟩
    rw [hgraph, hlog, List.filter_append, List.map_append, ← hns, List.append_assoc]
  held e' he' := by
    rw [hlog] at he'
    rw [hheld]
    rcases List.mem_append.1 he' with he' | he'
    · obtain ⟨hin, hout⟩ := h.held e' he'
      exact ⟨List.subset_append_of_subset_left _ hin, List.subset_append_of_subset_left _ hout⟩
    · rw [List.mem_singleton.1 he']
      exact ⟨List.subset_append_of_subset_left _ hargs, List.subset_append_right _ _⟩
  owned e' he' := by
    rw [hlog] at he'
    rcases List.mem_append.1 he' with he' | he'
    · exact h.owned e' he'
    · rwa [List.mem_singleton.1 he']
  distinct e' he' := by
    rw [hlog] at he'
    rcases List.mem_append.1 he' with he' | he'
    · exact h.distinct e' he'
    · rwa [List.mem_singleton.1 he']
  fresh e' he' := by
    rw [hlog] at he'
    rcases List.mem_append.1 he' with he' | he'
    · exact h.fresh e' he'
    · rw [List.mem_singleton.1 he']
      exact fun p hp q hq => hnew p hp q (hargs hq)
  later := by
    rw [hlog]
    refine List.pairwise_append.2 ⟨h.later, List.pairwise_singleton _ _, ?_⟩
    intro e₁ he₁ e₂ he₂ p hp
    rw [List.mem_singleton.1 he₂] at hp
    obtain ⟨hin, hout⟩ := h.held e₁ he₁
    exact ⟨fun q hq => hnew p hp q (hin hq), fun q hq => hnew p hp q (hout hq)⟩

end Logged

theorem Logged.call (h : run.Logged) (haccounted : run.Accounted) {c : Call} {r? : Option Recorder}
    {a : Call.Answer} (hc : run.Admits c r?) (hrun : c.run.on run.session = (.ok a, s')) :
    (run.after c r? a s').Logged := by
  obtain ⟨-, hleft⟩ := (c.ensures_run r? hc.asks).of_ok hrun
  have hgraph := hleft.graph (run.session.workspace.active?.map Trace.id)
  have hheld : run.held ⊆ (run.after c r? a s').held := List.subset_append_left _ _
  cases htrail : c.trail r? with
  | node r op args =>
    rw [htrail] at hleft hgraph
    obtain ⟨v, rfl, -, t, w₁, hgives, hw⟩ := hleft
    have hσ {p : Proxy} (hp : p ∈ v.proxies) := List.mem_map_of_mem (f := Proxy.symbol) hp
    refine h.append (by rw [after, htrail]; rfl) rfl hgraph ?_ ?_ ?_ ?_
    · rw [← Call.given_of_node htrail]
      exact hc.given
    · intro p hp
      rw [hgives.active]
      exact congrArg some (hgives.owner _ (hσ hp))
    · have hdistinct := hgives.distinct
      rw [List.map_map] at hdistinct
      exact hdistinct
    · exact fun p hp q hq => (haccounted.symbol_ne hgives hq (hσ hp)).symm
  | _ =>
    rw [htrail] at hgraph
    refine h.of_log_eq (by rw [after, htrail]; exact List.append_nil _) hheld fun r => .inl ?_
    exact congrArg Graph.mk ((hgraph r).trans (List.append_nil _))

theorem Step.logged (hstep : Step run run') (haccounted : run.Accounted) (h : run.Logged) :
    run'.Logged := by
  cases hstep with
  | call hc hrun => exact h.call haccounted hc hrun
  | move hmove =>
    refine h.of_log_eq hmove.log ?_ hmove.graph
    rw [hmove.held]
    exact List.Subset.refl _

theorem Reachable.logged (h : Reachable run) : run.Logged := by
  induction h with
  | start => exact logged_start
  | step h hstep ih => exact hstep.logged h.accounted ih

/-- An output that is none of the operands of a call under the same trace shares its name with none
that the trace owns. -/
theorem Logged.mem_argNames_iff (h : run.Logged) {e e' : Entry} (he' : e' ∈ run.log)
    (htrace : e.trace = e'.trace)
    (hne : ∀ p ∈ e'.output.proxies, ∀ q ∈ Value.itemProxies e.args, p.symbol ≠ q.symbol)
    {n : Name} (hn : n ∈ e'.node.outputNames) : n ∈ e.node.argNames ↔ e.HasForeign n := by
  rw [Entry.argNames_node, List.mem_map]
  constructor
  · rintro ⟨q, hq, rfl⟩
    refine ⟨q, hq, rfl, fun howner => ?_⟩
    rw [Entry.outputNames_node] at hn
    obtain ⟨p, hp, hname⟩ := List.mem_map.1 hn
    have hsame : some p.owner = some q.owner := by rw [h.owned e' he' p hp, howner, htrace]
    exact hne p hp q hq (Symbol.eq_of_name_of_owner hname (Option.some.inj hsame))
  · rintro ⟨q, hq, hname, -⟩
    exact ⟨q, hq, hname⟩

theorem Logged.not_mem_outputNames (h : run.Logged) {e e' : Entry} (he : e ∈ run.log)
    (he' : e' ∈ run.log) (htrace : e.trace = e'.trace)
    (hne : ∀ p ∈ e'.output.proxies, ∀ q ∈ e.output.proxies, p.symbol ≠ q.symbol)
    {n : Name} (hn : n ∈ e'.node.outputNames) : n ∉ e.node.outputNames := by
  rw [Entry.outputNames_node] at hn ⊢
  obtain ⟨p, hp, rfl⟩ := List.mem_map.1 hn
  rintro hmem
  obtain ⟨q, hq, hname⟩ := List.mem_map.1 hmem
  have hsame : some p.owner = some q.owner := by
    rw [h.owned e' he' p hp, h.owned e he q hq, htrace]
  exact hne p hp q hq (Symbol.eq_of_name_of_owner hname.symm (Option.some.inj hsame))

/-- **When a name is assigned before it is used.** A call that is recorded appends one node, for new
proxies, and every other call leaves the graphs alone; and a graph is what was logged last. Among
the nodes of one trace no name is output twice. And an output is found among the operands of its own
or an earlier node exactly if one of those operands is a proxy that another trace owns and that has
the same name. -/
theorem single_assignment_iff {run : Run} (h : Reachable run) :
    (∀ (c : Call) (r? : Option Recorder) (a : Call.Answer) (s : Session), run.Admits c r? →
      c.run.on run.session = (.ok a, s) →
      match c.trail r? with
      | .node r op args => ∃ output, a = .value output ∧
          run.session.workspace.Records r op args output s.workspace ∧
          (s.workspace.graph r).nodes =
            (run.session.workspace.graph r).nodes ++ [.ofCall op args output] ∧
          ∀ r' ≠ r, s.workspace.graph r' = run.session.workspace.graph r'
      | _ => ∀ r, s.workspace.graph r = run.session.workspace.graph r) ∧
    (∀ r, (run.session.workspace.graph r).nodes <:+
      (run.log.filter (·.recorder = r)).map Entry.node) ∧
    (∀ e ∈ run.log, e.node.outputNames.Nodup ∧
      ∀ n ∈ e.node.outputNames, n ∈ e.node.argNames ↔ e.HasForeign n) ∧
    run.log.Pairwise fun e e' => e.trace = e'.trace → ∀ n ∈ e'.node.outputNames,
      n ∉ e.node.outputNames ∧ (n ∈ e.node.argNames ↔ e.HasForeign n) := by
  have hlogged := h.logged
  refine ⟨?_, hlogged.graphs, ?_, ?_⟩
  · intro c r? a s hc hrun
    obtain ⟨-, hleft⟩ := (c.ensures_run r? hc.asks).of_ok hrun
    have hgraph := hleft.graph none
    cases htrail : c.trail r? with
    | node r op args =>
      rw [htrail] at hleft hgraph
      obtain ⟨v, rfl, hrecords⟩ := hleft
      refine ⟨v, rfl, hrecords, by simpa [Call.Trail.entries, Entry.node] using hgraph r, ?_⟩
      intro r' hr'
      have hnodes : (s.workspace.graph r').nodes = (run.session.workspace.graph r').nodes := by
        simpa [Call.Trail.entries, Ne.symm hr'] using hgraph r'
      exact congrArg Graph.mk hnodes
    | _ =>
      rw [htrail] at hgraph
      exact fun r => congrArg Graph.mk ((hgraph r).trans (List.append_nil _))
  · intro e he
    refine ⟨?_, fun n hn => hlogged.mem_argNames_iff he rfl (hlogged.fresh e he) hn⟩
    rw [Entry.outputNames_node]
    exact hlogged.distinct e he
  · refine hlogged.later.imp_of_mem fun {e e'} he he' hlater htrace n hn => ⟨?_, ?_⟩
    · exact hlogged.not_mem_outputNames he he' htrace (fun p hp => (hlater p hp).2) hn
    · exact hlogged.mem_argNames_iff he' htrace (fun p hp => (hlater p hp).1) hn

/-- A call of `exp`, in the inner of two traces, on a number of the outer one. -/
def foreignCall : Entry where
  recorder := ⟨0⟩
  trace := some ⟨1⟩
  op := "exp"
  args := [Recorder.innerTensor, .proxy (.number ⟨⟨"t0", ⟨0⟩⟩, .int, none⟩)]
  output := .proxy (.tensor { Recorder.innerTensor with symbol.name := "t0" })

theorem name_makeName_default {t : Trace} (hsource : t.source = default) (h : "t0" ∉ t.names) :
    t.makeName.1 = "t0" := by
  have hcandidate : t.source.candidate t.source.position = "t0" := by
    rw [hsource]
    rfl
  rw [Trace.makeName, NameSource.draw_of_not_mem (by rwa [hcandidate])]
  exact hcandidate

/-- Both traces name from the same source, so that the number has the name that the inner trace
gives out first. -/
theorem exists_foreignCall : ∃ run, Reachable run ∧ run.log = [foreignCall] ∧
    (run.session.workspace.graph ⟨0⟩).nodes = [foreignCall.node] := by
  let x : TensorSpec :=
    { name := some "x", shape := some [3], device := some (.ok .cpu)
      dtype := some (.ok { scalar := .float32 }) }
  let n : NumberProxy := (Trace.empty ⟨0⟩).nextNumber .int
  have hnumber := (Reachable.start.step (.move (.enter default))).step
    (.call (⟨List.nil_subset _, False.elim⟩ : Admits _ (.makeNumber .int none none) none) rfl)
  have hinner := hnumber.step (.move (.enter default))
  have hrecorder := hinner.step (.move .newRecorder)
  have hcontext := hrecorder.step (.move (.enterContext (Recorder.context ⟨0⟩)))
  have htensor := hcontext.step
    (.call (⟨List.nil_subset _, False.elim⟩ : Admits _ (.build x) none) rfl)
  have hgiven : [Proxy.tensor Recorder.innerTensor, .number n] ⊆
      [Proxy.number n, .tensor Recorder.innerTensor] := by
    simp
  have hexp := htensor.step (.call (⟨by exact hgiven, False.elim⟩ :
    Admits _ (.method ⟨0⟩ "exp" [Recorder.innerTensor, n]) none) rfl)
  have houter : (Trace.empty ⟨0⟩).makeName.1 = "t0" := name_makeName_default rfl nofun
  have hfirst : (Trace.mk ⟨1⟩ ["x"] default).makeName.1 = "t0" :=
    name_makeName_default rfl (by decide)
  have hentry : Entry.mk ⟨0⟩ (some ⟨1⟩) "exp" [Recorder.innerTensor, n]
      (.proxy (.tensor { Recorder.innerTensor with
        symbol.name := (Trace.mk ⟨1⟩ ["x"] default).makeName.1 })) = foreignCall := by
    simp only [n, Trace.nextNumber, houter, hfirst]
    rfl
  rw [← hentry]
  exact ⟨_, hexp, rfl, rfl⟩

/-- The call of `exp` has its own output among its operands, as the name of a foreign proxy. -/
theorem single_assignment_iff_exp : ∃ run, Reachable run ∧ run.log = [foreignCall] ∧
    foreignCall.node.outputNames = ["t0"] ∧ foreignCall.node.outputNames.Nodup ∧
    ("t0" ∈ foreignCall.node.argNames ↔ foreignCall.HasForeign "t0") ∧
    foreignCall.HasForeign "t0" := by
  obtain ⟨run, hrun, hlog, -⟩ := exists_foreignCall
  obtain ⟨-, -, hown, -⟩ := single_assignment_iff hrun
  obtain ⟨hnodup, hiff⟩ := hown foreignCall (by rw [hlog]; exact .head _)
  refine ⟨run, hrun, hlog, rfl, hnodup, hiff "t0" (.head _), ?_⟩
  exact ⟨_, .tail _ (.head _), rfl, by decide⟩

/-- The output of a node is found among its own operands. -/
theorem output_among_operands : ∃ run node, Reachable run ∧
    (run.session.workspace.graph ⟨0⟩).nodes = [node] ∧
    node = ⟨"exp", [.name "x", .name "t0"], .name "t0"⟩ ∧
    node.outputNames = ["t0"] ∧ "t0" ∈ node.argNames := by
  obtain ⟨run, hrun, -, hnodes⟩ := exists_foreignCall
  exact ⟨run, foreignCall.node, hrun, hnodes, rfl, rfl, .tail _ (.head _)⟩

end Run

end ProxyTrace
