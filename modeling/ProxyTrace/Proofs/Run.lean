import ProxyTrace.Proofs.Calls
import ProxyTrace.Variable

/-!
# Runs of programs

A program holds proxies and traces, and goes from session to session by steps (`Run.Step`): it
makes calls on what it holds, makes traces, enters and leaves them in any nesting, takes one back
and enters it again, names by hand, and activates language contexts and recorders. `Run.Reachable`
says where a program can get to.

What keeps names apart is `Run.Accounted`: no two of the traces that there are have the same
identity, every proxy that was ever answered is registered by its name in the trace that owns it,
and only one proxy has a given name and owner. A step accounts for one trace or for one call
(`Step.live`, `Accounted.call`), so that the invariant holds along every run. The main statement is
`Run.names_identify`: among the proxies of one trace, equality as variables is identity.
-/

namespace ProxyTrace

variable {w w' w₁ : Workspace} {t t' : Trace} {σs : List Symbol} {s' : Session}

theorem Symbol.eq_of_name_of_owner : ∀ {σ τ : Symbol}, σ.name = τ.name → σ.owner = τ.owner → σ = τ
  | ⟨_, _⟩, ⟨_, _⟩, rfl, rfl => rfl

/-- The trace with one more name: the next one of its source, or one that the caller chose. -/
def Trace.Named (t t' : Trace) : Prop := t' = t.makeName.2 ∨ ∃ name, t.addName name = .ok t'

theorem Trace.Named.id (h : t.Named t') : t'.id = t.id := by
  rcases h with rfl | ⟨name, h⟩
  · rfl
  · obtain ⟨-, rfl⟩ := addName_eq_ok_iff.1 h
    rfl

theorem Trace.Named.names (h : t.Named t') : t.names ⊆ t'.names := by
  rcases h with rfl | ⟨name, h⟩
  · exact List.subset_append_left _ _
  · obtain ⟨-, rfl⟩ := addName_eq_ok_iff.1 h
    exact List.subset_append_left _ _

/-- A call that was recorded, in the trace that was innermost. -/
structure Entry where
  recorder : Recorder
  trace : Option TraceId
  op : String
  args : List Value
  output : Value

/-- The record of a call that is recorded. -/
def Call.Trail.entries (trace : Option TraceId) (a : Answer) : Trail → List Entry
  | node recorder op args =>
    match a with
    | .value output => [{ recorder, trace, op, args, output }]
    | _ => []
  | _ => []

/-- What a call answers was given to it, or is of the symbols that the innermost trace gives
out. -/
theorem Call.Trail.Left.cases {trail : Trail} {given : List Proxy} {a : Answer}
    (h : trail.Left given w a w') :
    (w' = w ∧ a.proxies ⊆ given) ∨
      ∃ t σs w₁, w.GivesOut t σs w₁ ∧ (a.proxies.map Proxy.symbol).Sublist σs ∧
        w'.nextTrace = w₁.nextTrace ∧ w'.scopes = w₁.scopes ∧ w'.ended = w₁.ended := by
  cases trail with
  | nothing => exact .inl h
  | symbol requested =>
    obtain ⟨σ, ⟨⟨t, hgives⟩, -⟩, hcarries⟩ := h
    refine .inr ⟨t, [σ], w', hgives, ?_, rfl, rfl, rfl⟩
    cases a with
    | value v =>
      obtain ⟨p, rfl, rfl⟩ := hcarries
      exact .refl _
    | method m => cases hcarries
    | name n => exact List.nil_sublist _
    | done => exact List.nil_sublist _
  | node r op args =>
    obtain ⟨v, rfl, -, t, w₁, hgives, rfl⟩ := h
    exact .inr ⟨t, _, w₁, hgives, .refl _, rfl, rfl, rfl⟩

/-- A program in the course of its run. -/
structure Run where
  session : Session := {}
  /-- The proxies that the program has been answered so far. -/
  held : List Proxy := []
  /-- The traces in the hands of the program. -/
  traces : List Trace := []
  /-- The calls that were recorded so far, oldest first. -/
  log : List Entry := []

namespace Run

/-- The traces that there are: in scopes, in the hands of the program, or shown by references. -/
def live (run : Run) : List Trace :=
  run.session.workspace.scopes ++ (run.traces ++ run.session.workspace.ended.map Prod.snd)

/-- The run with each of its traces changed. -/
def mapTraces (f : Trace → Trace) (run : Run) : Run :=
  { run with
    session.workspace.scopes := run.session.workspace.scopes.map f
    session.workspace.ended := run.session.workspace.ended.map fun (id, t) => (id, f t)
    traces := run.traces.map f }

/-- The run in another workspace. -/
def inWorkspace (run : Run) (w : Workspace) : Run := { run with session.workspace := w }

/-- A step of a program between its calls. A trace that the program has in its hands, or a reference
to, is asked for names, for fresh ones and for ones that the program chooses, and for nothing else:
no other trace is put in its place. -/
inductive Move : Run → Run → Prop
  | newTrace {run : Run} (source : NameSource) :
      Move run { run.inWorkspace (run.session.workspace.newTrace source).2 with
        traces := (run.session.workspace.newTrace source).1 :: run.traces }
  | enter {run : Run} (source : NameSource) :
      Move run (run.inWorkspace (run.session.workspace.enter source))
  | resume {run : Run} {t : Trace} {ts us : List Trace} (h : run.traces = ts ++ t :: us) :
      Move run { run.inWorkspace (run.session.workspace.resume t) with traces := ts ++ us }
  | close {run : Run} : Move run (run.inWorkspace run.session.workspace.close)
  | takeBack {run : Run} {t : Trace} (ht : run.session.workspace.active? = some t) :
      Move run { run.inWorkspace run.session.workspace.takeBack with traces := t :: run.traces }
  | keep {run : Run} {w : Workspace} (h : run.session.workspace.keep = .ok w) :
      Move run (run.inWorkspace w)
  | release {run : Run} (id : TraceId) :
      Move run (run.inWorkspace (run.session.workspace.release id))
  /-- A name is given out by any of the traces. -/
  | name {run : Run} {t t' : Trace} (ht : t ∈ run.live) (h : t.Named t') :
      Move run (run.mapTraces fun u => if u.id = t.id then t' else u)
  | enterContext {run : Run} (l : LanguageContext) :
      Move run { run with session := run.session.enterContext l }
  | closeContext {run : Run} : Move run { run with session := run.session.closeContext }
  | newRecorder {run : Run} : Move run (run.inWorkspace run.session.workspace.newRecorder.2)
  | takeGraph {run : Run} (r : Recorder) :
      Move run (run.inWorkspace (run.session.workspace.takeGraph r).2)

/-- The call is one on what the program holds, and asks a recorder if it asks a context. -/
structure Admits (run : Run) (c : Call) (r? : Option Recorder) : Prop where
  given : c.given ⊆ run.held
  asks : c.Asks → run.session.context? = r?.map Recorder.context

/-- The run after a call with the given answer. -/
def after (run : Run) (c : Call) (r? : Option Recorder) (a : Call.Answer) (s : Session) : Run where
  session := s
  held := run.held ++ a.proxies
  traces := run.traces
  log := run.log ++ (c.trail r?).entries (run.session.workspace.active?.map Trace.id) a

/-- One step of a program. A call that fails changes nothing and is no step. A language context
of the program's own is asked in steps too: those with which its hooks use the library. -/
inductive Step : Run → Run → Prop
  | call {run : Run} {c : Call} {r? : Option Recorder} {a : Call.Answer} {s : Session}
      (hc : run.Admits c r?) (h : c.run.on run.session = (.ok a, s)) :
      Step run (run.after c r? a s)
  | move {run run' : Run} (h : Move run run') : Step run run'

/-- Where a program can get to from the start. -/
inductive Reachable : Run → Prop
  | start : Reachable {}
  | step {run run' : Run} (h : Reachable run) (hstep : Step run run') : Reachable run'

/-- How the traces of `run'` come from those of `run`: as they are, but for some that are lost; with
a new one; or with one more name in one of them. -/
inductive Ages (run : Run) : Run → Prop
  | same {run' : Run} (lost : List Trace) (hlive : (lost ++ run'.live).Perm run.live)
      (hnext : run'.session.workspace.nextTrace = run.session.workspace.nextTrace) : Ages run run'
  | new {run' : Run} (source : NameSource)
      (hlive : run'.live.Perm (.empty run.session.workspace.nextTrace source :: run.live))
      (hnext : run'.session.workspace.nextTrace =
        ⟨run.session.workspace.nextTrace.index + 1⟩) : Ages run run'
  | name {t t' : Trace} (ht : t ∈ run.live) (h : t.Named t') :
      Ages run (run.mapTraces fun u => if u.id = t.id then t' else u)

theorem live_mapTraces (f : Trace → Trace) (run : Run) :
    (run.mapTraces f).live = run.live.map f := by
  simp [live, mapTraces]

variable {run run' : Run}

theorem Ages.of_live (hlive : run'.live = run.live)
    (hnext : run'.session.workspace.nextTrace = run.session.workspace.nextTrace) : Ages run run' :=
  .same [] (by rw [hlive]; exact .refl _) hnext

theorem ages_close (run : Run) : run.Ages (run.inWorkspace run.session.workspace.close) := by
  obtain ⟨⟨⟨next, scopes, references, ended, recorder, graphs⟩, contexts⟩, held, traces, log⟩ := run
  cases scopes with
  | nil => exact .of_live rfl rfl
  | cons t ts =>
    -- the trace is lost unless a reference goes on showing it
    by_cases hkept : t.id ∈ references
    · refine .same [] ?_ rfl
      have hperm : (ts ++ traces ++ t :: ended.map Prod.snd).Perm
          (t :: (ts ++ traces ++ ended.map Prod.snd)) := List.perm_middle
      simpa only [live, inWorkspace, Workspace.close, if_pos hkept, List.nil_append,
        List.map_cons, List.cons_append, List.append_assoc] using hperm
    · refine .same [t] ?_ rfl
      simp only [live, inWorkspace, Workspace.close, if_neg hkept, List.cons_append,
        List.nil_append]
      exact .refl _

theorem ages_takeBack (ht : run.session.workspace.active? = some t) :
    run.Ages { run.inWorkspace run.session.workspace.takeBack with traces := t :: run.traces } := by
  obtain ⟨⟨⟨next, scopes, references, ended, recorder, graphs⟩, contexts⟩, held, traces, log⟩ := run
  obtain ⟨ts, rfl⟩ : ∃ ts, scopes = t :: ts := Workspace.exists_scopes ht
  by_cases hkept : t.id ∈ references
  · refine .new default ?_ (by simp only [inWorkspace, Workspace.takeBack, if_pos hkept])
    have hnew : (ts ++ t :: traces ++ .empty next :: ended.map Prod.snd).Perm
        (.empty next :: (ts ++ t :: traces ++ ended.map Prod.snd)) := List.perm_middle
    have hback : (ts ++ t :: (traces ++ ended.map Prod.snd)).Perm
        (t :: (ts ++ (traces ++ ended.map Prod.snd))) := List.perm_middle
    simp only [List.append_assoc, List.cons_append] at hnew
    simp only [live, inWorkspace, Workspace.takeBack, if_pos hkept, List.map_cons,
      List.cons_append]
    exact hnew.trans (hback.cons _)
  · refine .same [] ?_ (by simp only [inWorkspace, Workspace.takeBack, if_neg hkept])
    simp only [live, inWorkspace, Workspace.takeBack, if_neg hkept, List.nil_append,
      List.cons_append]
    exact List.perm_middle

theorem ages_resume {ts us : List Trace} (h : run.traces = ts ++ t :: us) :
    run.Ages { run.inWorkspace (run.session.workspace.resume t) with traces := ts ++ us } := by
  obtain ⟨⟨w, contexts⟩, held, traces, log⟩ := run
  subst h
  refine .same [] ?_ rfl
  have hended : (w.resume t).ended.map Prod.snd = w.ended.map Prod.snd := by
    rw [Workspace.resume, List.map_map]
    rfl
  have hperm : (w.scopes ++ ts ++ t :: (us ++ w.ended.map Prod.snd)).Perm
      (t :: (w.scopes ++ ts ++ (us ++ w.ended.map Prod.snd))) := List.perm_middle
  simp only [List.append_assoc] at hperm
  simp only [live, inWorkspace, hended, List.nil_append, List.append_assoc, List.cons_append]
  exact hperm.symm

theorem Move.ages (h : Move run run') : run.Ages run' := by
  cases h with
  | newTrace source =>
    exact .new source List.perm_middle rfl
  | enter source =>
    exact .new source (.refl _) rfl
  | resume h => exact ages_resume h
  | close => exact ages_close run
  | takeBack ht => exact ages_takeBack ht
  | keep h =>
    rw [Workspace.keep] at h
    split at h <;> cases h
    exact .of_live rfl rfl
  | name ht h => exact .name ht h
  | _ => exact .of_live rfl rfl

theorem Ages.next_le (h : run.Ages run') :
    run.session.workspace.nextTrace.index ≤ run'.session.workspace.nextTrace.index := by
  cases h with
  | same lost hlive hnext => exact Nat.le_of_eq (congrArg TraceId.index hnext.symm)
  | new source hlive hnext => rw [hnext]; exact Nat.le_succ _
  | name ht h => exact Nat.le_refl _

/-- A trace is an older one with at least its names, or a new one. -/
theorem Ages.exists_live (h : run.Ages run') (ht' : t' ∈ run'.live) :
    (∃ t ∈ run.live, t'.id = t.id ∧ t.names ⊆ t'.names) ∨
      t'.id = run.session.workspace.nextTrace ∧
        run.session.workspace.nextTrace.index < run'.session.workspace.nextTrace.index := by
  cases h with
  | same lost hlive hnext =>
    exact .inl ⟨t', hlive.mem_iff.1 (List.mem_append_right _ ht'), rfl, List.Subset.refl _⟩
  | new source hlive hnext =>
    rcases List.mem_cons.1 (hlive.mem_iff.1 ht') with rfl | ht
    · right
      rw [hnext]
      exact ⟨rfl, Nat.lt_succ_self _⟩
    · exact .inl ⟨t', ht, rfl, List.Subset.refl _⟩
  | name ht hnamed =>
    rw [live_mapTraces] at ht'
    obtain ⟨u, hu, rfl⟩ := List.mem_map.1 ht'
    split
    · exact .inl ⟨_, ht, hnamed.id, hnamed.names⟩
    · exact .inl ⟨u, hu, rfl, List.Subset.refl _⟩

/-- The names of the run keep its proxies apart. -/
structure Accounted (run : Run) : Prop where
  ids : (run.live.map Trace.id).Nodup
  below : ∀ t ∈ run.live, t.id.index < run.session.workspace.nextTrace.index
  owned : ∀ p ∈ run.held, p.owner.index < run.session.workspace.nextTrace.index
  registered : ∀ p ∈ run.held, ∀ t ∈ run.live, t.id = p.owner → p.name ∈ t.names
  unique : ∀ p ∈ run.held, ∀ q ∈ run.held, p.symbol = q.symbol → p = q

theorem accounted_start : Accounted {} where
  ids := List.nodup_nil
  below _ ht := absurd ht List.not_mem_nil
  owned _ hp := absurd hp List.not_mem_nil
  registered _ hp := absurd hp List.not_mem_nil
  unique _ hp := absurd hp List.not_mem_nil

namespace Accounted

theorem ids_of_ages (h : run.Accounted) (hages : run.Ages run') :
    (run'.live.map Trace.id).Nodup := by
  cases hages with
  | same lost hlive hnext =>
    have hids := (hlive.map Trace.id).nodup_iff.2 h.ids
    rw [List.map_append] at hids
    exact (List.nodup_append.1 hids).2.1
  | new source hlive hnext =>
    refine (hlive.map Trace.id).nodup_iff.2 (List.nodup_cons.2 ⟨?_, h.ids⟩)
    intro hmem
    obtain ⟨t, ht, hid⟩ := List.mem_map.1 hmem
    have hlt := h.below t ht
    rw [hid] at hlt
    exact Nat.lt_irrefl _ hlt
  | name ht hnamed =>
    rw [live_mapTraces, List.map_map]
    refine (List.map_congr_left fun u _ => ?_) ▸ h.ids
    rw [Function.comp_apply]
    split
    · rw [hnamed.id, ‹u.id = _›]
    · rfl

/-- A step between calls keeps the account. -/
theorem ages (h : run.Accounted) (hages : run.Ages run') (hheld : run'.held = run.held) :
    run'.Accounted where
  ids := h.ids_of_ages hages
  below t ht := by
    rcases hages.exists_live ht with ⟨u, hu, hid, -⟩ | ⟨hid, hlt⟩
    · rw [hid]
      exact Nat.lt_of_lt_of_le (h.below u hu) hages.next_le
    · rwa [hid]
  owned p hp := by
    rw [hheld] at hp
    exact Nat.lt_of_lt_of_le (h.owned p hp) hages.next_le
  registered p hp t ht hid := by
    rw [hheld] at hp
    rcases hages.exists_live ht with ⟨u, hu, hu', hnames⟩ | ⟨hnew, -⟩
    · exact hnames (h.registered p hp u hu (hu'.symm.trans hid))
    -- the new trace owns nothing yet
    · have hlt := h.owned p hp
      rw [← hid, hnew] at hlt
      exact absurd hlt (Nat.lt_irrefl _)
  unique := by
    rw [hheld]
    exact h.unique

/-- What the innermost trace gives out is not held yet. -/
theorem symbol_ne (h : run.Accounted) (hgives : run.session.workspace.GivesOut t σs w)
    {p : Proxy} (hp : p ∈ run.held) {σ : Symbol} (hσ : σ ∈ σs) : p.symbol ≠ σ := by
  rintro rfl
  obtain ⟨ts, hts⟩ := Workspace.exists_scopes hgives.active
  have ht : t ∈ run.live := by
    rw [live, hts]
    exact .head _
  exact hgives.fresh _ hσ (h.registered p hp t ht (hgives.owner _ hσ).symm)

/-- New proxies of symbols that the innermost trace gives out keep the account. -/
theorem gives (h : run.Accounted) {ps : List Proxy}
    (hgives : run.session.workspace.GivesOut t σs w) (hps : (ps.map Proxy.symbol).Sublist σs)
    (hnext : run'.session.workspace.nextTrace = w.nextTrace)
    (hscopes : run'.session.workspace.scopes = w.scopes)
    (hended : run'.session.workspace.ended = w.ended) (htraces : run'.traces = run.traces)
    (hheld : run'.held = run.held ++ ps) : run'.Accounted := by
  have hold (p) (hp : p ∈ run.held) (q) (hq : q ∈ ps) : p.symbol ≠ q.symbol :=
    h.symbol_ne hgives hp (hps.subset (List.mem_map_of_mem hq))
  obtain ⟨ts, hts⟩ := Workspace.exists_scopes hgives.active
  obtain ⟨source, rfl⟩ := hgives.after
  -- the traces are as before, but for the innermost one
  have hlive : run.live = t :: (ts ++ (run.traces ++
      run.session.workspace.ended.map Prod.snd)) := by rw [live, hts, List.cons_append]
  have hlive' : run'.live = { t with names := t.names ++ σs.map Symbol.name, source } ::
      (ts ++ (run.traces ++ run.session.workspace.ended.map Prod.snd)) := by
    rw [live, hscopes, htraces, hended, Workspace.setActive, hts]
    rfl
  have hids := h.ids
  have hbelow := h.below
  have hregistered := h.registered
  rw [hlive] at hids hbelow hregistered
  have hnew : ∀ p ∈ ps, p.symbol ∈ σs := fun p hp => hps.subset (List.mem_map_of_mem hp)
  refine ⟨?_, ?_, ?_, ?_, ?_⟩
  · rw [hlive']
    exact hids
  · rw [hlive', hnext]
    intro u hu
    rcases List.mem_cons.1 hu with rfl | hu
    · exact hbelow t (.head _)
    · exact hbelow u (.tail _ hu)
  · rw [hheld, hnext]
    intro p hp
    rcases List.mem_append.1 hp with hp | hp
    · exact h.owned p hp
    · rw [Proxy.owner, hgives.owner _ (hnew p hp)]
      exact hbelow t (.head _)
  · rw [hheld, hlive']
    intro p hp u hu hid
    rcases List.mem_append.1 hp with hp | hp <;> rcases List.mem_cons.1 hu with rfl | hu
    · exact List.mem_append_left _ (hregistered p hp t (.head _) hid)
    · exact hregistered p hp u (.tail _ hu) hid
    · exact List.mem_append_right _ (List.mem_map_of_mem (hnew p hp))
    -- another trace does not have the identity of the innermost one
    · rw [Proxy.owner, hgives.owner _ (hnew p hp)] at hid
      rw [List.map_cons, List.nodup_cons] at hids
      exact absurd (List.mem_map.2 ⟨u, hu, hid⟩) hids.1
  · rw [hheld]
    intro p hp q hq heq
    rcases List.mem_append.1 hp with hp | hp <;> rcases List.mem_append.1 hq with hq | hq
    · exact h.unique p hp q hq heq
    · exact absurd heq (hold p hp q hq)
    · exact absurd heq.symm (hold q hq p hp)
    · have hdistinct : σs.Pairwise fun σ τ => σ.name ≠ τ.name :=
        List.pairwise_map.1 hgives.distinct
      have hnames : (ps.map Proxy.symbol).Pairwise fun σ τ => σ.name ≠ τ.name :=
        hdistinct.sublist hps
      rw [List.pairwise_map] at hnames
      refine List.Pairwise.forall_of_forall_of_flip (R := fun p q => p.symbol = q.symbol → p = q)
        (fun _ _ _ => rfl) (hnames.imp ?_) (hnames.imp ?_) hp hq heq
      · exact fun hne heq => absurd (congrArg Symbol.name heq) hne
      · exact fun hne heq => absurd (congrArg Symbol.name heq.symm) hne

theorem call (h : run.Accounted) {c : Call} {r? : Option Recorder} {a : Call.Answer}
    (hc : run.Admits c r?) (hrun : c.run.on run.session = (.ok a, s')) :
    (run.after c r? a s').Accounted := by
  obtain ⟨-, hleft⟩ := (c.ensures_run r? hc.asks).of_ok hrun
  rcases hleft.cases with ⟨hw, hgiven⟩ | ⟨t, σs, w, hgives, hps, hnext, hscopes, hended⟩
  -- without a name, every proxy of the answer was held before
  · have hheld : ∀ p ∈ (run.after c r? a s').held, p ∈ run.held := by
      intro p hp
      rcases List.mem_append.1 hp with hp | hp
      · exact hp
      · exact hc.given (hgiven hp)
    have hlive : (run.after c r? a s').live = run.live := by rw [live, live, after, hw]
    refine ⟨?_, ?_, ?_, ?_, ?_⟩
    · rw [hlive]
      exact h.ids
    · rw [hlive, after, hw]
      exact h.below
    · rw [after, hw]
      exact fun p hp => h.owned p (hheld p hp)
    · rw [hlive]
      exact fun p hp => h.registered p (hheld p hp)
    · exact fun p hp q hq => h.unique p (hheld p hp) q (hheld q hq)
  · exact h.gives hgives hps hnext hscopes hended rfl rfl

end Accounted

theorem Move.held (h : Move run run') : run'.held = run.held := by
  cases h <;> rfl

theorem Step.accounted (hstep : Step run run') (h : run.Accounted) : run'.Accounted := by
  cases hstep with
  | call hc hrun => exact h.call hc hrun
  | move hmove => exact h.ages hmove.ages hmove.held

theorem Reachable.accounted (h : Reachable run) : run.Accounted := by
  induction h with
  | start => exact accounted_start
  | step _ hstep ih => exact hstep.accounted ih

/-- **Names identify proxies.** Along every run, a call that succeeds leaves its trail: either
nothing, and it answers what it was given, or the innermost trace gives out one name that it has not
given out before for each new proxy, which it owns, and no other trace changes. Hence, of the
proxies that one trace owns, no two share a name: where two are equal as variables, they are one and
the same. -/
theorem names_identify {run : Run} (h : Reachable run) :
    (∀ (c : Call) (r? : Option Recorder) (a : Call.Answer) (s : Session), run.Admits c r? →
      c.run.on run.session = (.ok a, s) → s.contexts = run.session.contexts ∧
        (c.trail r?).Left c.given run.session.workspace a s.workspace) ∧
    ∀ p ∈ run.held, ∀ q ∈ run.held, p.owner = q.owner →
      (((⟨p⟩ : Variable) == ⟨q⟩) = true ↔ p = q) := by
  refine ⟨fun c r? a s hc hrun => (c.ensures_run r? hc.asks).of_ok hrun, ?_⟩
  intro p hp q hq howner
  constructor
  · intro heq
    exact h.accounted.unique p hp q hq (Symbol.eq_of_name_of_owner (eq_of_beq heq) howner)
  · rintro rfl
    exact beq_self_eq_true p.name

/-- Two traces, one in the other, each with a number "x", and the inner one with a "y" as well. -/
theorem names_identify_nested : ∃ run, Reachable run ∧
    run.held.map Proxy.symbol = [⟨"x", ⟨0⟩⟩, ⟨"x", ⟨1⟩⟩, ⟨"y", ⟨1⟩⟩] ∧
    (∃ a s σ, Call.makeName.run.on run.session = (.ok a, s) ∧
      run.session.workspace.Allocates none σ s.workspace ∧ σ.owner = ⟨1⟩) ∧
    ∀ p ∈ run.held, ∀ q ∈ run.held, p.owner = q.owner →
      (((⟨p⟩ : Variable) == ⟨q⟩) = true ↔ p = q) := by
  have hx := (Reachable.start.step (.move (.enter default))).step
    (.call (⟨List.nil_subset _, False.elim⟩ : Admits _ (.makeNumber .int none (some "x")) none) rfl)
  have hy := ((hx.step (.move (.enter default))).step
    (.call (⟨List.nil_subset _, False.elim⟩ : Admits _ (.makeNumber .int none (some "x")) none)
      rfl)).step
    (.call (⟨List.nil_subset _, False.elim⟩ : Admits _ (.makeNumber .int none (some "y")) none) rfl)
  obtain ⟨hcall, hvariable⟩ := names_identify hy
  refine ⟨_, hy, rfl, ?_, hvariable⟩
  obtain ⟨-, σ, hallocates, -⟩ :=
    hcall .makeName none _ _ ⟨List.nil_subset _, False.elim⟩ rfl
  refine ⟨_, _, σ, rfl, hallocates, ?_⟩
  obtain ⟨⟨t, hgives⟩, -⟩ := hallocates
  rw [hgives.owner σ (.head _), ← Option.some.inj hgives.active]
  rfl

end Run

end ProxyTrace
