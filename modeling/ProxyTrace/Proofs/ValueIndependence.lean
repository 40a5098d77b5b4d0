import Mathlib.Data.List.Forall2
import ProxyTrace.Proofs.Closure
import ProxyTrace.Proofs.TracedCall

/-!
# Traced calls and the values of their arguments

The proxies of two lists of arguments that agree but for the values of numbers agree but for known
values (`agreeAt_mapM_lift`). So a closure that is traced on them leaves the same nodes and the same
names, and has the same answer in terms or the same failure (`Closure.shown_traceCall_eq`).
-/

namespace ProxyTrace

open SessionM

variable {s : Session} {r : Recorder} {v w : Value} {xs ys : List Value}

/-- The same value, or numbers of the same kind. -/
inductive Value.EqButNumber : Value → Value → Prop
  | refl (v : Value) : EqButNumber v v
  | number {x y : Number} (h : x.kind = y.kind) : EqButNumber (number x) (number y)

/-- But for its value, the proxy of a number is a fresh one of its kind. -/
theorem forget_liftNumber (x : Number) (name : Option Name) :
    Value.forget <$> liftNumber (.number x) name = (do
      return (NumberProxy.mk (← WorkspaceM.allocate name) x.kind none : Value)) := by
  rw [liftNumber_number]
  simp only [map_bind, map_pure]
  rfl

theorem Value.EqButNumber.agreeAt_lift (hc : s.context? = some r.context) (h : EqButNumber v w) :
    AgreeAt Value.forget (lift v) (lift w) s := by
  cases h with
  | refl => exact .of_on_eq rfl
  | @number x y h =>
    refine .of_on_eq_on (on_lift_number hc x _) (on_lift_number hc y _) ?_
    apply agreeAt_liftM_workspace
    rw [forget_liftNumber, forget_liftNumber, h]

theorem context?_lift (hc : s.context? = some r.context) (v : Value) :
    ((lift v).on s).2.context? = some r.context := by
  have hlift := (ensures_bind_pure_iff _).1 (Call.ensures_lift v none (some r) hc)
  exact hlift.context?_on.trans hc

theorem context?_mapM_lift (hc : s.context? = some r.context) (vs : List Value) :
    (on (vs.mapM fun v => lift v) s).2.context? = some r.context := by
  induction vs generalizing s with
  | nil => exact hc
  | cons v vs ih =>
    rw [List.mapM_cons]
    exact context?_on_bind (context?_lift hc v) fun a s' h => context?_on_bind (ih h) fun _ _ h => h

/-- The proxies of arguments that agree but for the values of numbers. -/
theorem agreeAt_mapM_lift (hc : s.context? = some r.context)
    (h : List.Forall₂ Value.EqButNumber xs ys) :
    AgreeAt (List.map Value.forget) (xs.mapM fun v => lift v) (ys.mapM fun v => lift v) s := by
  induction h generalizing s with
  | nil => exact .of_on_eq rfl
  | @cons v w vs ws hvw _ ih =>
    rw [List.mapM_cons, List.mapM_cons]
    refine (hvw.agreeAt_lift hc).bind fun a b s' ha hab => ?_
    have hc' := context?_lift hc v
    rw [ha] at hc'
    refine (ih hc').bind fun as bs _ _ habs => agreeAt_pure ?_
    rw [List.map_cons, List.map_cons, hab, habs]

theorem Value.forget_getD (vs : List Value) (i : Nat) :
    (vs.getD i .none).forget = (vs.map forget).getD i .none := by
  rw [List.getD_eq_getElem?_getD, List.getD_eq_getElem?_getD, List.getElem?_map]
  exact (Option.getD_map ..).symm

namespace Closure

/-- The closure on a list of arguments. -/
def apply {n : Nat} (f : Closure n) (args : List Value) : SessionM Value :=
  f.run fun i => args.getD i .none

/-- Traced on the arguments, the closure applies comparison and logical operators to tensor proxies
only. -/
def ComparesOn {n : Nat} (f : Closure n) (args : List Value) (s : Session) : Prop :=
  ∀ inputs s', on (args.mapM fun v => lift v) s.enterTracing = (.ok inputs, s') →
    f.Compares (fun i => inputs.getD i .none) s'

end Closure

/-- What a traced call shows: the graph, the names, and its inputs and output as terms. -/
def TracedCall.shown (c : TracedCall) : Graph × Trace × List Term × Term :=
  (c.graph, c.trace, c.inputs.map Value.toTerm, c.output.toTerm)

theorem TracedCall.shown_eq {g : Graph} {t : Trace} {vs ws : List Value} {v w : Value}
    (hinputs : vs.map Value.forget = ws.map Value.forget) (houtput : v.forget = w.forget) :
    shown ⟨g, vs, v, t⟩ = shown ⟨g, ws, w, t⟩ := by
  have hterms : vs.map Value.toTerm = ws.map Value.toTerm := by
    have hforget (vs : List Value) :
        vs.map Value.toTerm = (vs.map Value.forget).map Value.toTerm := by
      rw [List.map_map]
      exact List.map_congr_left fun v _ => v.toTerm_relabel.symm
    rw [hforget vs, hforget ws, hinputs]
  rw [shown, shown, hterms, Value.toTerm_eq_of_forget_eq houtput]

namespace Closure

/-- On proxies of arguments that agree but for the values of numbers, a closure that compares
tensors only comes to the same. -/
theorem agreeAt_lift_apply (hc : s.context? = some r.context)
    (h : List.Forall₂ Value.EqButNumber xs ys) (f : Closure xs.length)
    (hf : ∀ inputs s', on (xs.mapM fun v => lift v) s = (.ok inputs, s') →
      f.Compares (fun i => inputs.getD i .none) s') :
    AgreeAt (fun c : List Value × Value => (c.1.map Value.forget, c.2.forget))
      (do let inputs ← xs.mapM fun v => lift v; return (inputs, ← f.apply inputs))
      (do let inputs ← ys.mapM fun v => lift v; return (inputs, ← f.apply inputs)) s := by
  refine (agreeAt_mapM_lift hc h).bind fun as bs s' has hab => ?_
  have hc' := context?_mapM_lift hc xs
  rw [has] at hc'
  have hregisters (i : Fin xs.length) :
      (as.getD i Value.none).forget = (bs.getD i Value.none).forget := by
    rw [Value.forget_getD, Value.forget_getD, hab]
  refine (f.agreeAt hc' hregisters (hf as s' has)).bind fun v w _ _ hvw => ?_
  exact agreeAt_pure (Prod.ext hab hvw)

/-- **What a traced call shows does not hang on the values of the numbers among its arguments**, and
neither does its failure nor the session afterwards, if the function works by operators and indexing
alone and compares tensors only. -/
theorem shown_traceCall_eq (s : Session) (h : List.Forall₂ Value.EqButNumber xs ys)
    (f : Closure xs.length) (hf : f.ComparesOn xs s) :
    let traced (args : List Value) :=
      (traceCall (m := StateM Session) args fun inputs => (f.apply inputs).run).run s
    TracedCall.shown <$> (traced xs).1 = TracedCall.shown <$> (traced ys).1 ∧
      (traced xs).2 = (traced ys).2 := by
  intro traced
  have htraced (args : List Value) : traced args = s.endTracing _ :=
    run_traceCall args f.apply s
  rw [htraced, htraced]
  cases agreeAt_lift_apply rfl h f hf with
  | error hx hy =>
    rw [hx, hy]
    exact ⟨rfl, rfl⟩
  | @ok a b s' hx hy hab =>
    rw [hx, hy]
    obtain ⟨as, v⟩ := a
    obtain ⟨bs, w⟩ := b
    obtain ⟨hinputs, houtput⟩ := Prod.mk.inj hab
    exact ⟨congrArg Except.ok (TracedCall.shown_eq hinputs houtput), rfl⟩

/-- A tensor is divided by 3 and compared with it, and the same with 5. -/
theorem shown_traceCall_eq_divmod :
    let f : Closure 2 := .step (.binary .divmod (.register 0) (.register 1))
      (fun _ => .step (.item 0 (.register 2))
        (fun _ => .step (.binary .lt (.register 0) (.register 1))
          (fun _ => .output (.register 3)) .fail) .fail) .fail
    let traced (n : Int64) := (traceCall (m := StateM Session) [.tensor [2], .int n] fun inputs =>
      (f.apply inputs).run).run {}
    (∃ call, (traced 3).1 = .ok call ∧ call.graph.nodes.map Node.op = ["divmod", "lt"]) ∧
      TracedCall.shown <$> (traced 3).1 = TracedCall.shown <$> (traced 5).1 ∧
      (traced 3).2 = (traced 5).2 := by
  intro f traced
  have hargs : List.Forall₂ Value.EqButNumber [.tensor [2], .int 3] [.tensor [2], .int 5] :=
    .cons (.refl _) (.cons (.number rfl) .nil)
  have hf : f.ComparesOn [.tensor [2], .int 3] {} := by
    rintro inputs s' ⟨⟩
    simp only [f, Compares]
    refine ⟨fun h => absurd h Bool.false_ne_true, ?_⟩
    split
    · refine ⟨trivial, ?_⟩
      split
      · refine ⟨fun _ => .inl rfl, ?_⟩
        split <;> trivial
      · trivial
    · trivial
  obtain ⟨inputs, output, s', hbody, hops⟩ : ∃ inputs output s', SessionM.on (do
      let inputs ← [.tensor [2], .int 3].mapM fun v => lift v
      return (inputs, ← f.apply inputs)) (Session.enterTracing {}) = (.ok (inputs, output), s') ∧
        (s'.workspace.graph ⟨0⟩).nodes.map Node.op = ["divmod", "lt"] := by
    simp only [f, apply, run]
    exact ⟨_, _, _, rfl, rfl⟩
  obtain ⟨_, hcall⟩ := traceCall_of_ok hbody
  exact ⟨⟨_, hcall, hops⟩, shown_traceCall_eq {} hargs f hf⟩

end Closure

end ProxyTrace
