import ProxyTrace.Proofs.Recorder.WellFormed
import ProxyTrace.Proofs.Run

/-!
# Proxies stay well-formed

What a call answers to well-formed proxies is well-formed (`Call.wellFormed_run`): it is made by a
recorder from its operands, built, renamed or lifted on its own, or it was given. So every proxy
that a program is answered along a run is well-formed, however it came about
(`Run.Reachable.wellFormed`). The main statement, `Run.tensors_consistent`, says it of tensors.
-/

namespace ProxyTrace

variable {s : Session} {run run' : Run} {r : Recorder} {t : Trace}

open SessionM

/-- Of a computation in the workspace that fails without a change, all answers satisfy `P`. -/
theorem SessionM.ensures_of_yields {α : Type} {x : WorkspaceM α} {P : α → Prop}
    {post : Workspace → α → Workspace → Prop} (hx : x.Ensures post) (hP : x.Yields P) :
    Ensures (liftM x : SessionM α) s fun _ a _ => P a :=
  ensures_of_workspace ((hx.and_yields hP).mono fun _ _ _ h => h.2)

namespace Call

/-- All proxies that are answered are well-formed. -/
def Answer.WellFormed (a : Answer) : Prop := ∀ p ∈ a.proxies, p.WellFormed

theorem wellFormed_hook (r : Recorder) (q : Request)
    (hgiven : ∀ p ∈ Value.itemProxies q.operands, p.WellFormed) :
    (q.hook r.context).Ensures s fun _ a _ => (q.toAnswer a).WellFormed := by
  have hmem {v : Value} (hv : v ∈ q.operands) : v.WellFormed := by
    intro p hp
    rw [Value.itemProxies_eq_flatMap] at hgiven
    exact hgiven p (List.mem_flatMap.2 ⟨v, hv, hp⟩)
  cases q with
  | unary op a =>
    rw [Request.hook, Recorder.unary_context]
    exact ensures_of_yields (r.ensures_unary op a) (r.yields_unary op (hmem (.head _)))
  | binary op a b =>
    rw [Request.hook, Recorder.binary_context]
    exact ensures_of_yields (r.ensures_binary op a b)
      (r.yields_binary op (hmem (.head _)) (hmem (.tail _ (.head _))))
  | reflected op p other =>
    rw [Request.hook, Recorder.binary_context]
    exact ensures_of_yields (r.ensures_binary op other (.proxy p))
      (r.yields_binary op (hmem (.head _)) (hmem (.tail _ (.head _))))
  | size t =>
    refine (ensures_of_workspace (Recorder.ensures_size t)).mono fun _ v _ h => ?_
    exact Value.wellFormed_of_proxies_eq_nil h.2
  | method t name =>
    rw [Request.hook]
    cases r.context.method? name with
    | none => exact ensures_throw _
    | some f => exact ensures_pure (hmem (.head _))

theorem wellFormed_request (q : Request) (r? : Option Recorder)
    (hs : q.reaches = true → s.context? = r?.map Recorder.context)
    (hgiven : ∀ p ∈ Value.itemProxies q.operands, p.WellFormed) :
    q.run.Ensures s fun _ a _ => (q.toAnswer a).WellFormed := by
  have hnative (h : q.reaches = false ∨ s.context? = none) :
      q.run.Ensures s fun _ a _ => (q.toAnswer a).WellFormed := by
    refine (Request.ensures_run_native h).mono fun _ a _ h => ?_
    rw [Answer.WellFormed, h.2]
    exact fun _ hp => nomatch hp
  cases hq : q.reaches with
  | false => exact hnative (.inl hq)
  | true =>
    cases r? with
    | none => exact hnative (.inr (hs hq))
    | some r => exact (Request.run_of_reaches hq).ensures (hs hq) (wellFormed_hook r q hgiven)

/-- A proxy that is answered alone. -/
theorem Answer.wellFormed_proxy {p : Proxy} (h : p.WellFormed) :
    (Answer.value (.proxy p)).WellFormed := Value.wellFormed_proxy.2 h

theorem wellFormed_lift (v : Value) (name : Option Name) (r? : Option Recorder)
    (hs : s.context? = r?.map Recorder.context) (hgiven : v.WellFormed) :
    (ProxyTrace.lift v name).Ensures s fun _ v' _ => v'.WellFormed := by
  refine ProxyTrace.ensures_lift (fun c hc _ => ?_) fun _ => ?_
  · cases r? with
    | none => exact nomatch hs.symm.trans hc
    | some r =>
      obtain rfl := Option.some.inj (hs.symm.trans hc)
      exact (ensures_of_yields (Recorder.ensures_tensorProxy name v)
        (Recorder.yields_tensorProxy name v)).bind_pure _
        fun _ _ _ h => Value.wellFormed_proxy.2 h
  · refine ensures_of_yields (ensures_liftNumber v name) ?_
    unfold liftNumber
    split
    · exact (NumberProxy.yields_make _ _ name).map _ fun _ => Value.wellFormed_proxy.2
    · exact WorkspaceM.yields_pure hgiven

/-- What a call answers to well-formed proxies is well-formed. -/
theorem wellFormed_run (c : Call) (r? : Option Recorder)
    (hs : c.Asks → s.context? = r?.map Recorder.context) (hgiven : ∀ p ∈ c.given, p.WellFormed) :
    c.run.Ensures s fun _ a _ => a.WellFormed := by
  have hnone {a : Answer} (h : a.proxies = []) : a.WellFormed := by
    rw [Answer.WellFormed, h]
    exact fun _ hp => nomatch hp
  cases c with
  | request q => exact (ensures_bind_pure_iff q.toAnswer).2 (wellFormed_request q r? hs hgiven)
  | getItem a key =>
    refine (ensures_bind_pure_iff Answer.value).2 (Value.ensures_getItem fun c hc => ?_)
    cases r? with
    | none => exact nomatch (hs trivial).symm.trans hc
    | some r =>
      obtain rfl := Option.some.inj ((hs trivial).symm.trans hc)
      refine ensures_of_yields (r.ensures_getItem a key) (r.yields_getItem (fun p hp => ?_) key)
      exact hgiven p (List.mem_append_left _ hp)
  | hook r q => exact (ensures_bind_pure_iff q.toAnswer).2 (wellFormed_hook r q hgiven)
  | hookGetItem r a key =>
    refine (ensures_bind_pure_iff Answer.value).2 ?_
    refine ensures_of_yields (r.ensures_getItem a key) (r.yields_getItem (fun p hp => ?_) key)
    exact hgiven p (List.mem_append_left _ hp)
  | hookTensor r name v =>
    exact (ensures_of_yields (Recorder.ensures_tensorProxy name v)
      (Recorder.yields_tensorProxy name v)).bind_pure _
        fun _ _ _ h => Value.wellFormed_proxy.2 h
  | method r name args =>
    rw [run]
    cases hf : r.method? name with
    | none => exact ensures_throw _
    | some f =>
      refine (ensures_bind_pure_iff Answer.value).2 ?_
      exact ensures_of_yields (r.ensures_method? hf args) (r.yields_method? hgiven hf)
  | makeNumber kind value name =>
    exact (ensures_of_yields (NumberProxy.ensures_make kind value name)
      (NumberProxy.yields_make kind value name)).bind_pure _
        fun _ _ _ h => Value.wellFormed_proxy.2 h
  | makeUntyped name =>
    exact (ensures_of_yields (Proxy.ensures_makeUntyped name)
      (Proxy.yields_makeUntyped name)).bind_pure _ fun _ _ _ h => Value.wellFormed_proxy.2 h
  | build spec =>
    refine (ensures_of_yields spec.ensures_build (TensorSpec.yields_build ?_)).bind_pure _
      fun _ _ _ h => Value.wellFormed_proxy.2 h
    intro t ht
    exact hgiven (.tensor t) (by simp [given, ht])
  | rename p name =>
    exact (ensures_of_yields (p.ensures_rename name)
      (Proxy.yields_rename (hgiven p (.head _)) name)).bind_pure _
        fun _ _ _ h => Value.wellFormed_proxy.2 h
  | lift v name =>
    exact (ensures_bind_pure_iff Answer.value).2 (wellFormed_lift v name r? (hs trivial) hgiven)
  | cast p kinds target =>
    apply Ensures.liftM_bind
    intro p' hp'
    rw [NumberProxy.cast] at hp'
    split at hp' <;> cases hp'
    exact ensures_pure (Answer.wellFormed_proxy (hgiven (.number p) (.head _)))
  | makeName =>
    exact (ensures_of_workspace WorkspaceM.ensures_makeName).bind_pure _ fun _ _ _ _ => hnone rfl
  | addName name =>
    exact (ensures_of_workspace (WorkspaceM.ensures_addName name)).bind_pure _
      fun _ _ _ _ => hnone rfl

end Call

namespace Run

theorem Step.wellFormed (hstep : Step run run') (h : ∀ p ∈ run.held, p.WellFormed) :
    ∀ p ∈ run'.held, p.WellFormed := by
  cases hstep with
  | call hc hrun =>
    have hanswer := (Call.wellFormed_run _ _ hc.asks fun p hp => h p (hc.given hp)).of_ok hrun
    exact List.forall_mem_append.2 ⟨h, hanswer.2⟩
  | move hmove =>
    rw [hmove.held]
    exact h

theorem Reachable.wellFormed (h : Reachable run) : ∀ p ∈ run.held, p.WellFormed := by
  induction h with
  | start => exact fun _ hp => nomatch hp
  | step _ hstep ih => exact hstep.wellFormed ih

/-- A program has got to where the recorder is active and the trace is innermost. -/
structure RecordsInto (run : Run) (r : Recorder) (t : Trace) : Prop where
  reachable : Reachable run
  context : run.session.context? = some r.context
  active : run.session.workspace.active? = some t

/-- The program holds a tensor of the trace. -/
structure Holds (run : Run) (t : Trace) (x : TensorProxy) : Prop where
  held : .tensor x ∈ run.held
  owner : x.symbol.owner = t.id

theorem RecordsInto.wellFormed (h : run.RecordsInto r t) {x : TensorProxy} (hx : run.Holds t x) :
    x.WellFormed := h.reachable.wellFormed _ hx.held

/-- A program that has just activated its first recorder in its first trace. -/
theorem exists_recordsInto : ∃ run r t, RecordsInto run r t := by
  have h := ((Reachable.start.step (.move (.enter default))).step (.move .newRecorder)).step
    (.move (.enterContext (Recorder.context ⟨0⟩)))
  exact ⟨_, _, _, h, rfl, rfl⟩

/-- There, it can build any tensor, and holds it beside the others. -/
theorem RecordsInto.exists_build (h : run.RecordsInto r t) (spec : TensorSpec)
    {f : Symbol → TensorProxy} (hresolve : spec.resolve = .ok f) (hlike : spec.like = none)
    (hname : spec.name = none) : ∃ run' t' σ, RecordsInto run' r t' ∧ run'.Holds t' (f σ) ∧
      ∀ x, run.Holds t x → run'.Holds t' x := by
  let σ : Symbol := ⟨t.makeName.1, t.id⟩
  let w := run.session.workspace.setActive t.makeName.2
  have hbuild : spec.build.on run.session.workspace = (.ok (f σ), w) := by
    rw [TensorSpec.build, hresolve, hname]
    exact WorkspaceM.on_bind_ok (WorkspaceM.on_allocate_none h.active)
  have hrun : (Call.build spec).run.on run.session =
      (.ok (.value (f σ)), { run.session with workspace := w }) := by
    rw [Call.run, on_bind, on_liftM_workspace, hbuild]
    rfl
  have hadmits : Admits run (.build spec) none := by
    refine ⟨?_, False.elim⟩
    rw [Call.given, hlike]
    exact List.nil_subset _
  have howner : (f σ).symbol.owner = t.makeName.2.id := by
    rw [TensorSpec.symbol_of_resolve hresolve, Trace.id_makeName]
  exact ⟨_, t.makeName.2, σ, ⟨h.reachable.step (.call hadmits hrun), h.context, rfl⟩,
    ⟨List.mem_append_right _ (.head _), howner⟩,
    fun x hx => ⟨List.mem_append_left _ hx.held, hx.owner⟩⟩

theorem Holds.owned {x : TensorProxy} (hx : run.Holds t x) :
    ∀ p ∈ (x : Value).proxies, p.owner = t.id := by
  intro p hp
  obtain rfl := List.mem_singleton.1 hp
  exact hx.owner

/-- **Every tensor proxy of a run is consistent**, whether it was built, with any fields given or
taken from another tensor, renamed, lifted, or recorded in a chain of operators, indices and methods
of any length: it counts its elements and its extents exactly, its extents are words, and its
element type is strong and that of the type as it was given. -/
theorem tensors_consistent (h : Reachable run) {t : TensorProxy} (ht : .tensor t ∈ run.held) :
    t.numel = t.shape.prod ∧ t.numel < UInt64.size ∧ t.ndim = t.shape.length ∧
      (∀ n ∈ t.shape, (n : Int) ≤ Int64.maxValue.toInt ∧ (Int64.ofNat n).toInt = n) ∧
      t.dtype.weak = false ∧ t.dtype = t.trueDtype.toStrong := by
  have hwf : t.WellFormed := h.wellFormed _ ht
  refine ⟨hwf.numel, hwf.numel_lt, hwf.ndim, ?_, hwf.weak_eq_false, hwf.dtype⟩
  exact fun n hn => ⟨hwf.extents n hn, hwf.toInt_extent hn⟩

/-- A tensor of weak type and its transposed. -/
theorem tensors_consistent_transposed : ∃ run, Reachable run ∧
    ∃ t : TensorProxy, .tensor t ∈ run.held ∧ t.shape = [3, 2] ∧ t.numel = [3, 2].prod ∧
      t.trueDtype = ⟨.float32, true⟩ ∧ t.dtype.weak = false := by
  let spec : TensorSpec :=
    ⟨some "x", none, some [2, 3], some (.ok .cpu), some (.ok ⟨.float32, true⟩)⟩
  let x : TensorProxy :=
    ⟨⟨"x", ⟨0⟩⟩, [2, 3], .cpu, ⟨.float32, false⟩, ⟨.float32, true⟩, 6, 2⟩
  have hx := (Reachable.start.step (.move (.enter default))).step
    (.call (⟨List.nil_subset _, False.elim⟩ : Admits _ (.build spec) none) rfl)
  have hy := hx.step
    (.call (⟨by exact fun _ h => h, False.elim⟩ : Admits _ (.method ⟨0⟩ "t" [x]) none) rfl)
  obtain ⟨hnumel, -, -, -, hstrong, -⟩ := tensors_consistent hy (.tail _ (.head _))
  exact ⟨_, hy, _, .tail _ (.head _), rfl, hnumel, rfl, hstrong⟩

end Run

end ProxyTrace
