import ProxyTrace.Proofs.Isolation
import ProxyTrace.Proofs.Renumbering

/-!
# Scripts of nested scopes

A nested script works on registers by commands, and opens trace scopes and scopes of new recorders
in any nesting. What comes next may hang on all that it gets to know but for the numbers of traces:
on names and graphs, on answers without their owners, on the kind of a failure. In sessions that are
the same up to the numbers scopes are opened and ended alike (`Corresponds.withTrace`,
`Corresponds.withContext`), and so a nested script goes on alike (`NestedScript.corresponds_run`).

The main statement is `Session.InProgram.scripts_isolated`: after something else has been run that
has kept to its own recorders and traces, a nested script comes to the same as if that had not been
run, up to the numbers of the traces and recorders that it makes.
-/

namespace ProxyTrace

variable {α β : Type} {n made : Nat} {π : Renumbering} {F : Footprint}

/-! ### Scopes -/

namespace Renumbering

theorem trace_succ {id : TraceId} (h : π.traces.first ≤ id.index) :
    π.trace ⟨id.index + 1⟩ = ⟨(π.trace id).index + 1⟩ :=
  congrArg TraceId.mk (π.traces.apply_succ h)

theorem recorder_succ {r : Recorder} (h : π.recorders.first ≤ r.index) :
    π.recorder ⟨r.index + 1⟩ = ⟨(π.recorder r).index + 1⟩ :=
  congrArg Recorder.mk (π.recorders.apply_succ h)

end Renumbering

namespace Workspace.Renumbered

variable {w w' : Workspace}

theorem enter (h : w.Renumbered π F made w') (source : NameSource) :
    (w.enter source).Renumbered π F made (w'.enter source) :=
  { h with
    scopes := by
      rw [Workspace.enter, Workspace.enter, h.scopes, h.nextTrace]
      rfl
    opened := List.forall_mem_cons.2
      ⟨fun hlt => absurd h.firstTrace (Nat.not_le.2 hlt), h.opened⟩
    nextTrace := by
      rw [Workspace.enter, Workspace.enter, h.nextTrace]
      exact (Renumbering.trace_succ h.firstTrace).symm
    firstTrace := Nat.le_succ_of_le h.firstTrace }

theorem close (h : w.Renumbered π F made w') : w.close.Renumbered π F made w'.close := by
  have hscopes := h.scopes
  cases hw : w.scopes with
  | nil =>
    rw [hw] at hscopes
    rwa [Workspace.close, Workspace.close, hw, hscopes]
  | cons t ts =>
    rw [hw] at hscopes
    rw [Workspace.close, Workspace.close, hw, hscopes]
    exact { h with
      scopes := rfl
      opened := fun t ht => h.opened t (hw ▸ .tail _ ht) }

theorem closeTo (h : w.Renumbered π F made w') (k : Nat) :
    (w.closeTo k).Renumbered π F made (w'.closeTo k) := by
  have hlength := h.length_scopes
  fun_induction Workspace.closeTo w k generalizing w' with
  | case1 w hk ih =>
    have hclose : w'.closeTo k = w'.close.closeTo k := by
      rw [Workspace.closeTo, dif_pos (hlength ▸ hk)]
    rw [hclose]
    exact ih h.close h.close.length_scopes
  | case2 w hk =>
    rwa [closeTo_of_le (hlength ▸ Nat.le_of_not_lt hk)]

/-- Whether a reference to the trace is kept is the same in both, so that one more number is given
out in both or in none. -/
theorem takeBack (h : w.Renumbered π F made w') :
    w.takeBack.Renumbered π F made w'.takeBack := by
  have hscopes := h.scopes
  cases hw : w.scopes with
  | nil =>
    rw [hw] at hscopes
    rwa [Workspace.takeBack, Workspace.takeBack, hw, hscopes]
  | cons t ts =>
    rw [hw] at hscopes
    have hopened : ∀ u ∈ ts, (π.extend F).traces u.id := fun u hu => h.opened u (hw ▸ .tail _ hu)
    have hmem := h.references t.id (h.opened t (hw ▸ .head _))
    rw [takeBack_cons hw, takeBack_cons hscopes]
    refine { h with scopes := rfl, opened := hopened, nextTrace := ?_, firstTrace := ?_ }
    · simp only [Trace.renumber, hmem, h.nextTrace]
      split
      · exact (Renumbering.trace_succ h.firstTrace).symm
      · rfl
    · dsimp only
      split
      · exact Nat.le_succ_of_le h.firstTrace
      · exact h.firstTrace

theorem newRecorder (h : w.Renumbered π F made w') :
    w.newRecorder.2.Renumbered π F (w.nextRecorder.index + 1) w'.newRecorder.2 := by
  have hnext : (⟨w'.nextRecorder.index + 1⟩ : Recorder) =
      π.recorder ⟨w.nextRecorder.index + 1⟩ := by
    rw [h.nextRecorder, Renumbering.recorder_succ h.firstRecorder]
  refine { h with
    made := Nat.le_refl _
    graph := fun r hr hmade => ?_
    nextRecorder := hnext
    firstRecorder := Nat.le_succ_of_le h.firstRecorder }
  rw [graph_newRecorder, graph_newRecorder, h.nextRecorder]
  by_cases heq : r = w.nextRecorder
  · rw [heq, if_pos rfl, if_pos rfl]
  · have hne : π.recorder r ≠ π.recorder w.nextRecorder := fun h => heq (π.injective_recorder h)
    have hindex : r.index ≠ w.nextRecorder.index := fun h => heq (congrArg Recorder.mk h)
    rw [if_neg heq, if_neg hne, h.graph r hr (Nat.lt_of_le_of_ne (Nat.le_of_lt_succ hmade) hindex)]

end Workspace.Renumbered

namespace Session.Renumbered

variable {s s' s₁ s₁' : Session} {c c' : LanguageContext}

theorem enterTrace (h : s.Renumbered π F made s') (source : NameSource) :
    (s.enterTrace source).Renumbered π F made (s'.enterTrace source) :=
  ⟨h.workspace.enter source, h.contexts⟩

theorem enterContext (h : s.Renumbered π F made s') (hc : c.Renumbered π F c') :
    (s.enterContext c).Renumbered π F made (s'.enterContext c') :=
  ⟨{ h.workspace with }, .cons hc h.contexts⟩

theorem newRecorder (h : s.Renumbered π F made s') :
    Renumbered π F (s.workspace.nextRecorder.index + 1)
      { s with workspace := s.workspace.newRecorder.2 }
      { s' with workspace := s'.workspace.newRecorder.2 } :=
  ⟨h.workspace.newRecorder, h.contexts⟩

theorem mono {made' : Nat} (h : s.Renumbered π F made s') (hle : made' ≤ made) :
    s.Renumbered π F made' s' :=
  ⟨{ h.workspace with made := Nat.le_trans hle h.workspace.made }, h.contexts⟩

theorem unwind (h : s.Renumbered π F made s') (traces contexts : Nat) :
    (s.unwind traces contexts).Renumbered π F made (s'.unwind traces contexts) := by
  refine ⟨h.workspace.closeTo traces, ?_⟩
  rw [Session.unwind, Session.unwind, h.contexts.length_eq]
  exact List.forall₂_drop _ h.contexts

/-- Both scopes are ended from where the bodies have left off, as deep as they were opened. -/
theorem leaveTrace (h : s.Renumbered π F made s') (h₁ : s₁.Renumbered π F made s₁') :
    (s'.leaveTrace s₁').1 = (s.leaveTrace s₁).1.renumber π ∧
      (s.leaveTrace s₁).2.Renumbered π F made (s'.leaveTrace s₁').2 := by
  have hunwind := h₁.unwind (s.workspace.scopes.length + 1) s.contexts.length
  rw [Session.leaveTrace, Session.leaveTrace, h.workspace.length_scopes, ← h.contexts.length_eq]
  refine ⟨?_, hunwind.workspace.takeBack, hunwind.contexts⟩
  dsimp only
  rw [hunwind.workspace.active?, h.workspace.nextTrace]
  cases (s₁.unwind _ _).workspace.active? <;> rfl

theorem leaveContext (h : s.Renumbered π F made s') (h₁ : s₁.Renumbered π F made s₁') :
    (s.leaveContext s₁).Renumbered π F made (s'.leaveContext s₁') := by
  rw [Session.leaveContext, Session.leaveContext, h.workspace.length_scopes, ← h.contexts.length_eq]
  exact h₁.unwind _ _

end Session.Renumbered

section Corresponds

variable {R : α → β → Prop} {x : StateM Session α} {y : StateM Session β}

theorem Corresponds.withTrace (hxy : Corresponds (Session.Renumbered π F) R x y)
    (source : NameSource) :
    Corresponds (Session.Renumbered π F) (fun p q => q.1 = p.1.renumber π ∧ R p.2 q.2)
      (ProxyTrace.withTrace source x) (ProxyTrace.withTrace source y) := by
  intro made s s' h
  obtain ⟨hanswer, hafter⟩ := hxy made _ _ (h.enterTrace source)
  obtain ⟨htrace, hsession⟩ := h.leaveTrace hafter
  exact ⟨⟨htrace, hanswer⟩, hsession⟩

theorem Corresponds.withContext {c c' : LanguageContext} (hc : c.Renumbered π F c')
    (hxy : Corresponds (Session.Renumbered π F) R x y) :
    Corresponds (Session.Renumbered π F) R (ProxyTrace.withContext c x)
      (ProxyTrace.withContext c' y) := by
  intro made s s' h
  obtain ⟨hanswer, hafter⟩ := hxy made _ _ (h.enterContext hc)
  exact ⟨hanswer, h.leaveContext hafter⟩

end Corresponds

/-! ### Nested scripts -/

/-- The answer as what comes next sees it: all proxies have one owner. -/
def Value.unowned (v : Value) : Value := v.translate ⟨fun n => n, fun _ => ⟨0⟩⟩

theorem Value.unowned_renumber (π : Renumbering) (v : Value) :
    (v.translate π.translation).unowned = v.unowned := v.translate_translate π.translation _

/-- A program of which `n` registers are filled. -/
inductive NestedScript : Nat → Type where
  | answer {n : Nat} (a : Argument Script.Literal n) : NestedScript n
  /-- A command, and what comes after its answer, which fills a register, or its failure. -/
  | step {n : Nat} (c : Script.Command (Argument Script.Literal n))
    (next : Value → NestedScript (n + 1)) (caught : Nat → NestedScript n) : NestedScript n
  /-- A trace scope, and what comes after it, with the names of the trace. -/
  | inTrace {n : Nat} (source : NameSource) (body : NestedScript n)
    (next : List Name → Value → NestedScript (n + 1)) : NestedScript n
  /-- A scope of a new recorder, and what comes after it, with the graph of the recorder. -/
  | recording {n : Nat} (body : NestedScript n) (next : Graph → Value → NestedScript (n + 1)) :
    NestedScript n

namespace NestedScript

def run {n : Nat} (ρ : Registers Value n) : NestedScript n → StateM Session Value
  | answer a => return a.read Subtype.val ρ
  | step c next caught => do
    match ← SessionM.attempt (c.map (·.read Subtype.val ρ)).run with
    | .ok v => (next v.unowned).run (ρ.push v)
    | .error e => (caught e.kind).run ρ
  | inTrace source body next => do
    let (t, v) ← withTrace source (body.run ρ)
    (next t.names v.unowned).run (ρ.push v)
  | recording body next => do
    let r ← modifyGetThe Session (Session.onWorkspace Workspace.newRecorder)
    let v ← withContext r.context (body.run ρ)
    (next ((← getThe Session).workspace.graph r) v.unowned).run (ρ.push v)

theorem run_recording {s : Session} (ρ : Registers Value n) (body : NestedScript n)
    (next : Graph → Value → NestedScript (n + 1)) :
    let r := s.workspace.nextRecorder
    let after := (withContext r.context (body.run ρ)).run
      { s with workspace := s.workspace.newRecorder.2 }
    ((recording body next).run ρ).run s =
      ((next (after.2.workspace.graph r) after.1.unowned).run (ρ.push after.1)).run after.2 := rfl

/-- From sessions that are the same up to the numbers, a script goes on to sessions of this kind,
and answers the same up to the numbers, if the registers hold the same. -/
theorem corresponds_run (p : NestedScript n) (ρ : Registers Value n) :
    Corresponds (Session.Renumbered π F) (fun v v' => v' = v.translate π.translation)
      (p.run ρ) (p.run fun i => (ρ i).translate π.translation) := by
  -- what comes after a scope sees an answer without its owners
  have hpush {n : Nat} (ρ : Registers Value n) {v v' : Value}
      (hv : v' = v.translate π.translation) : v'.unowned = v.unowned ∧
      Registers.push (fun i => (ρ i).translate π.translation) v' =
        fun i => (ρ.push v i).translate π.translation := by
    rw [hv, v.unowned_renumber π, Registers.map_push]
    exact ⟨rfl, rfl⟩
  induction p with
  | answer a =>
    intro made s s' h
    refine ⟨?_, h⟩
    exact a.rel_read (R := fun v w : Value => w = v.translate π.translation)
      (fun l => (l.val.translate_of_proxies_eq_nil _ l.property).symm) fun _ => rfl
  | step c next caught ihnext ihcaught =>
    rw [run, run, c.map_read_translate]
    refine Corresponds.bind (c.map _).renumbers_run fun x x' hx => ?_
    cases hx with
    | ok v =>
      obtain ⟨hunowned, hregisters⟩ := hpush ρ (v := v) rfl
      dsimp only
      rw [hunowned, hregisters]
      exact ihnext _ _
    | error he =>
      dsimp only
      rw [he]
      exact ihcaught _ _
  | inTrace source body next ihbody ihnext =>
    refine ((ihbody ρ).withTrace source).bind fun (t, v) (t', v') ⟨ht, hv⟩ => ?_
    obtain ⟨hunowned, hregisters⟩ := hpush ρ hv
    dsimp only at ht ⊢
    rw [ht, hunowned, hregisters]
    exact ihnext _ _ _
  | recording body next ihbody ihnext =>
    intro made s s' h
    have hr : (π.extend F).recorders s.workspace.nextRecorder :=
      fun hlt => absurd h.workspace.firstRecorder (Nat.not_le.2 hlt)
    have hbody := (ihbody ρ).withContext (Recorder.renumbered_context hr)
    obtain ⟨hv, hafter⟩ := hbody _ _ _ h.newRecorder
    rw [← h.workspace.nextRecorder] at hv hafter
    obtain ⟨hunowned, hregisters⟩ := hpush ρ hv
    have hgraph := hafter.workspace.graph _ hr hafter.workspace.made
    rw [← h.workspace.nextRecorder] at hgraph
    rw [run_recording, run_recording]
    dsimp only
    rw [hgraph, hunowned, hregisters]
    exact ihnext _ _ _ made _ _ (hafter.mono (Nat.le_succ_of_le h.workspace.made))

end NestedScript

/-! ### Isolation -/

namespace Session

variable {s s' : Session} {recorders : Recorder → Prop} {traces : TraceId → Prop}

/-- What is made next has other numbers in the second session, which has given out more. -/
def renumbering (s s' : Session) : Renumbering where
  traces := .between s.workspace.nextTrace.index s'.workspace.nextTrace.index
  recorders := .between s.workspace.nextRecorder.index s'.workspace.nextRecorder.index

theorem WorksIn.renumbered (hs : s.workspace.Valid) (h : s.WorksIn (.own recorders traces) s')
    (hopen : ∀ t ∈ s.workspace.scopes, ¬ traces t.id)
    (hc : ∀ c ∈ s.contexts, c.Renumbered (s.renumbering s') (s.beside recorders traces) c) :
    s.Renumbered (s.renumbering s') (s.beside recorders traces) s.workspace.nextRecorder.index
      s' := by
  have hold {id : TraceId} (hid : id.index < s.workspace.nextTrace.index) :
      (s.renumbering s').trace id = id := congrArg TraceId.mk (Shift.apply_of_lt _ hid)
  refine ⟨⟨Nat.le_refl _, ?_, ?_, ?_, ?_, ?_, ?_, Nat.le_refl _, Nat.le_refl _⟩, ?_⟩
  · have hscopes (t : Trace) (ht : t ∈ s.workspace.scopes) :
        t.renumber (s.renumbering s') = id t :=
      congrArg (Trace.mk · t.names t.source) (hold (hs.scopes t ht))
    rw [Scopes.eq_of_changedIn h.workspace.scopes hopen, List.map_congr_left hscopes, List.map_id]
  · exact fun t ht _ => ⟨hopen t ht, hs.scopes t ht⟩
  · intro r hr hmade
    have hrecorder : (s.renumbering s').recorder r = r :=
      congrArg Recorder.mk (Shift.apply_of_lt _ hmade)
    rw [hrecorder]
    exact h.workspace.graph r hmade (hr hmade).1
  · intro id hid
    by_cases hlt : id.index < s.workspace.nextTrace.index
    · rw [hold hlt, ← List.count_pos_iff, ← List.count_pos_iff,
        h.workspace.references id hlt (hid hlt).1]
    -- no reference is kept to what has not been made
    · have hle := Shift.le_apply_between (n := s'.workspace.nextTrace.index) (Nat.le_of_not_lt hlt)
      exact iff_of_false (fun hmem => Nat.not_lt.2 hle (h.workspace.valid.references _ hmem))
        fun hmem => hlt (hs.references id hmem)
  · exact congrArg TraceId.mk (Shift.apply_between h.workspace.nextTrace).symm
  · exact congrArg Recorder.mk (Shift.apply_between h.workspace.nextRecorder).symm
  · rw [h.contexts]
    exact List.forall₂_same.2 hc

/-- **What has run in isolation is not to be told apart from what has not run.** A program stays
within recorders and traces of its own and leaves the open traces alone. A script that is run
afterwards may open scopes in any nesting: it answers what it would have answered if the program had
not been run, and every graph, name and reference comes to the same, up to the numbers of the traces
and recorders that it makes (`Session.renumbering`). The contexts that are active may be those of
other recorders (`Recorder.renumbered_context`). -/
theorem InProgram.scripts_isolated (hs : s.InProgram) {inner : StateM Session α}
    (hinner : Scoped true (.own recorders traces) inner)
    (hopen : ∀ t ∈ s.workspace.scopes, ¬ traces t.id) :
    let after := (inner.run s).2
    let others := s.beside recorders traces
    let π := s.renumbering after
    (∀ c ∈ s.contexts, c.Renumbered π others c) →
      ∀ {n : Nat} (later : NestedScript n) (ρ : Registers Value n),
        (∀ i, ∀ p ∈ (ρ i).proxies, p.owner.index < s.workspace.nextTrace.index) →
        ((later.run ρ).run after).1 = ((later.run ρ).run s).1.translate π.translation ∧
          ((later.run ρ).run s).2.Renumbered π others s.workspace.nextRecorder.index
            ((later.run ρ).run after).2 := by
  intro after others π hc n later ρ hρ
  have hworks : s.WorksIn (.own recorders traces) after := hs.worksIn_own hinner
  have hregisters : (fun i => (ρ i).translate π.translation) = ρ := by
    refine funext fun i => Value.translate_eq_self fun p hp => Proxy.translate_eq_self ?_
    exact congrArg (Symbol.mk p.name)
      (congrArg TraceId.mk (Shift.apply_of_lt _ (hρ i p hp)))
  have hrun : Corresponds (Session.Renumbered π others) _ (later.run ρ)
      (later.run fun i => (ρ i).translate π.translation) := later.corresponds_run ρ
  rw [hregisters] at hrun
  exact hrun _ _ _ (hworks.renumbered hs.ready.workspace.valid hopen hc)

/-- The trace that is opened after a traced call is the third one and not the second. -/
example :
    let s : Session := Session.enterTrace {} default
    let inner : StateM Session (Except Error TracedCall) :=
      traceCall [.int 7] fun inputs => return .ok (inputs.getD 0 .none)
    let later : NestedScript 0 :=
      .inTrace default
        (.step (.makeNumber .int none) (fun _ => .answer (.register 0))
          fun _ => .answer (.literal ⟨.none, rfl⟩))
        fun _ _ => .answer (.register 0)
    let owners (s : Session) := ((later.run Fin.elim0).run s).1.proxies.map Proxy.owner
    owners s = [⟨1⟩] ∧ owners (inner.run s).2 = [⟨2⟩] := by
  decide +kernel

end Session

end ProxyTrace
