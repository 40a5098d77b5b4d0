import Mathlib.Data.List.Nodup
import ProxyTrace.Proofs.SingleAssignment

/-!
# Histories

What a program does between two points of its run is a list of events (`Run.Path`), each at the
number of scopes that were open: its calls with their answers, the names that it has traces give out
by hand, and its deeds, which are what it does with scopes, references and recorders. Which names a
call registers, which proxies it creates and what it records is read off the call and its answer
(`Call.Trail.names`, `Call.Trail.proxies`).

While a scope stays open, its trace registers the names of those calls that are made at its depth,
those that it gives out by hand, and no others (`Run.Path.stays`); and a graph that is not taken
grows by what is recorded into it (`Run.Path.graph`).
-/

namespace ProxyTrace

variable {s s' : Session} {w w' : Workspace} {t t' : Trace} {id : TraceId} {r : Recorder} {n : Nat}

/-- The trace gives out the name: the next one of its source, or one that the caller chose. -/
def Trace.GivesName (t : Trace) (name : Name) (t' : Trace) : Prop :=
  t.makeName = (name, t') ∨ t.addName name = .ok t'

namespace Trace.GivesName

variable {name : Name}

theorem named (h : t.GivesName name t') : t.Named t' := by
  rcases h with h | h
  · exact .inl (congrArg Prod.snd h).symm
  · exact .inr ⟨name, h⟩

theorem names (h : t.GivesName name t') : t'.names = t.names ++ [name] := by
  rcases h with h | h
  · obtain rfl : _ = t' := congrArg Prod.snd h
    rw [names_makeName, h]
  · obtain ⟨-, rfl⟩ := addName_eq_ok_iff.1 h
    rfl

end Trace.GivesName

/-! ### What a call adds -/

theorem SessionM.exists_of_on_bind_pure {α β : Type} {x : SessionM α} {g : α → β} {b : β}
    (h : SessionM.on (do return g (← x)) s = (.ok b, s')) : ∃ a, b = g a := by
  rcases hx : x.on s with ⟨e | a, s₁⟩
  · rw [on_bind_error hx] at h
    cases h
  · rw [on_bind_ok hx] at h
    cases h
    exact ⟨a, rfl⟩

namespace Call

variable {c : Call} {r? : Option Recorder} {given : List Proxy} {a : Answer}

/-- The names that are registered: those of the new proxies, or the name that is answered or was
requested. -/
def Trail.names (a : Answer) : Trail → List Name
  | nothing => []
  | symbol requested =>
    match a with
    | .name n => [n]
    | .done => requested.toList
    | a => a.proxies.map Proxy.name
  | node .. => a.proxies.map Proxy.name

/-- The proxies that are created. -/
def Trail.proxies (a : Answer) : Trail → List Proxy
  | nothing => []
  | _ => a.proxies

/-- The names are added to those of the innermost trace, which owns the proxies; other traces, the
references and what they show stay as they are. -/
structure Adds (names : List Name) (ps : List Proxy) (w w' : Workspace) : Prop where
  scopes : ∀ t ts, w.scopes = t :: ts →
    ∃ source, w'.scopes = { t with names := t.names ++ names, source } :: ts
  owner : ∀ t ∈ w.active?, ∀ p ∈ ps, p.owner = t.id
  references : w'.references = w.references
  ended : w'.ended = w.ended
  nextTrace : w'.nextTrace = w.nextTrace
  nextRecorder : w'.nextRecorder = w.nextRecorder

theorem adds_of_givesOut {σs : List Symbol} {ps : List Proxy} (h : w.GivesOut t σs w')
    (hps : ∀ p ∈ ps, p.symbol ∈ σs) : Adds (σs.map Symbol.name) ps w w' := by
  obtain ⟨source, rfl⟩ := h.after
  refine ⟨fun u us hu => ⟨source, ?_⟩, fun u hu p hp => ?_, rfl, rfl, rfl, rfl⟩
  · have htop := h.active
    rw [Workspace.active?, hu] at htop
    obtain rfl := Option.some.inj htop
    rw [Workspace.setActive, hu]
    rfl
  · rw [← Option.some.inj (h.active.symm.trans hu)]
    exact h.owner _ (hps p hp)

/-- Only one call has nothing to answer. -/
theorem eq_addName_of_done (h : c.run.on s = (.ok .done, s')) : ∃ name, c = .addName name := by
  cases c with
  | addName name => exact ⟨name, rfl⟩
  | request q | hook r q =>
    obtain ⟨a, ha⟩ := SessionM.exists_of_on_bind_pure h
    cases q <;> cases ha
  | method r name args =>
    rw [run] at h
    split at h
    · obtain ⟨a, ha⟩ := SessionM.exists_of_on_bind_pure h
      cases ha
    · cases h
  | _ =>
    obtain ⟨a, ha⟩ := SessionM.exists_of_on_bind_pure h
    cases ha

/-- A call that succeeds adds its names and proxies. -/
theorem adds_of_ok (hs : c.Asks → s.context? = r?.map Recorder.context)
    (h : c.run.on s = (.ok a, s')) :
    Adds ((c.trail r?).names a) ((c.trail r?).proxies a) s.workspace s'.workspace := by
  obtain ⟨-, hleft⟩ := (c.ensures_run r? hs).of_ok h
  cases htrail : c.trail r? with
  | nothing =>
    rw [htrail] at hleft
    rw [hleft.1]
    refine ⟨fun t ts hts => ⟨t.source, ?_⟩, fun _ _ p hp => ?_, rfl, rfl, rfl, rfl⟩
    · rw [hts, Trail.names, List.append_nil]
    · exact absurd hp List.not_mem_nil
  | symbol requested =>
    rw [htrail] at hleft
    obtain ⟨σ, ⟨⟨t, hgives⟩, hrequested⟩, hcarries⟩ := hleft
    cases a with
    | value v =>
      obtain ⟨p, rfl, rfl⟩ := hcarries
      refine adds_of_givesOut hgives fun q hq => ?_
      obtain rfl := List.mem_singleton.1 hq
      exact .head _
    | method m => cases hcarries
    | name m =>
      obtain rfl : m = σ.name := hcarries
      exact adds_of_givesOut hgives fun p hp => absurd hp List.not_mem_nil
    | done =>
      obtain ⟨name, rfl⟩ := eq_addName_of_done h
      cases htrail
      rw [← hrequested name rfl]
      exact adds_of_givesOut hgives fun p hp => absurd hp List.not_mem_nil
  | node r op args =>
    rw [htrail] at hleft
    obtain ⟨v, rfl, -, t, w₁, hgives, hw⟩ := hleft
    have hsymbols : ∀ p ∈ v.proxies, p.symbol ∈ v.proxies.map Proxy.symbol :=
      fun p hp => List.mem_map_of_mem hp
    have hadds := adds_of_givesOut hgives hsymbols
    rw [List.map_map] at hadds
    rw [hw]
    exact { hadds with }

end Call

/-! ### Deeds -/

/-- What a program does with scopes, references and recorders. -/
inductive Deed where
  | newTrace (source : NameSource)
  | enter (source : NameSource)
  /-- Opens a scope with a trace in the hands of the program. -/
  | resume (i : Nat)
  | close
  | takeBack
  | keep
  | release (id : TraceId)
  | enterContext (l : LanguageContext)
  | closeContext
  | newRecorder
  | takeGraph (r : Recorder)

namespace Workspace

/-- The end of a scope changes no more than the scopes and what references show. -/
theorem close_eq (w : Workspace) :
    w.close = { w with scopes := w.scopes.tail, ended := w.close.ended } := by
  obtain ⟨next, scopes, references, ended, recorder, graphs⟩ := w
  cases scopes <;> rfl

theorem scopes_close (w : Workspace) : w.close.scopes = w.scopes.tail :=
  congrArg scopes w.close_eq

theorem closeTo_eq (w : Workspace) (n : Nat) : w.closeTo n = { w with
    scopes := w.scopes.drop (w.scopes.length - n)
    ended := (w.closeTo n).ended } := by
  fun_induction closeTo w n with
  | case1 w h ih =>
    have hscopes : w.close.scopes.drop (w.close.scopes.length - n) =
        w.scopes.drop (w.scopes.length - n) := by
      rw [scopes_close, List.length_tail, ← List.drop_one, List.drop_drop]
      congr 1
      omega
    rw [ih, hscopes, close_eq]
  | case2 w h => rw [Nat.sub_eq_zero_of_le (Nat.not_lt.1 h), List.drop_zero]

theorem takeBack_eq (w : Workspace) : w.takeBack = { w with
    nextTrace := w.takeBack.nextTrace
    scopes := w.scopes.tail
    ended := w.takeBack.ended } := by
  obtain ⟨next, scopes, references, ended, recorder, graphs⟩ := w
  cases scopes with
  | nil => rfl
  | cons t ts =>
    by_cases h : t.id ∈ references <;> simp only [takeBack, h, if_true, if_false, List.tail_cons]

theorem scopes_takeBack (w : Workspace) : w.takeBack.scopes = w.scopes.tail :=
  congrArg scopes w.takeBack_eq

theorem nextRecorder_close (w : Workspace) : w.close.nextRecorder = w.nextRecorder := by
  rw [close_eq]

theorem nextRecorder_takeBack (w : Workspace) : w.takeBack.nextRecorder = w.nextRecorder := by
  rw [takeBack_eq]

theorem exists_of_keep (h : w.keep.toOption = some w') :
    ∃ t, w.active? = some t ∧ w' = { w with references := w.references ++ [t.id] } := by
  unfold keep at h
  split at h <;> cases h
  exact ⟨_, ‹_›, rfl⟩

end Workspace

namespace Run

variable {run run' : Run}

/-- The run after a deed, if that can be done. -/
def does (run : Run) : Deed → Option Run
  | .newTrace source =>
    let (t, w) := run.session.workspace.newTrace source
    some { run.inWorkspace w with traces := t :: run.traces }
  | .enter source => some (run.inWorkspace (run.session.workspace.enter source))
  | .resume i => do
    let t ← run.traces[i]?
    return { run.inWorkspace (run.session.workspace.resume t) with
      traces := run.traces.take i ++ run.traces.drop (i + 1) }
  | .close => some (run.inWorkspace run.session.workspace.close)
  | .takeBack => do
    let t ← run.session.workspace.active?
    return { run.inWorkspace run.session.workspace.takeBack with traces := t :: run.traces }
  | .keep => run.session.workspace.keep.toOption.map run.inWorkspace
  | .release id => some (run.inWorkspace (run.session.workspace.release id))
  | .enterContext l => some { run with session := run.session.enterContext l }
  | .closeContext => some { run with session := run.session.closeContext }
  | .newRecorder => some (run.inWorkspace run.session.workspace.newRecorder.2)
  | .takeGraph r => some (run.inWorkspace (run.session.workspace.takeGraph r).2)

theorem move_of_does {d : Deed} (h : run.does d = some run') : Move run run' := by
  cases d with
  | newTrace source => cases h; exact .newTrace source
  | enter source => cases h; exact .enter source
  | resume i =>
    obtain ⟨t, ht, h⟩ := Option.bind_eq_some_iff.1 h
    cases h
    obtain ⟨hi, rfl⟩ := List.getElem?_eq_some_iff.1 ht
    refine .resume ?_
    rw [List.getElem_cons_drop, List.take_append_drop]
  | close => cases h; exact .close
  | takeBack =>
    obtain ⟨t, ht, h⟩ := Option.bind_eq_some_iff.1 h
    cases h
    exact .takeBack ht
  | keep =>
    obtain ⟨w, hw, rfl⟩ := Option.map_eq_some_iff.1 h
    cases hkeep : run.session.workspace.keep with
    | error e => rw [hkeep] at hw; cases hw
    | ok w' => rw [hkeep] at hw; cases hw; exact .keep hkeep
  | release id => cases h; exact .release id
  | enterContext l => cases h; exact .enterContext l
  | closeContext => cases h; exact .closeContext
  | newRecorder => cases h; exact .newRecorder
  | takeGraph r => cases h; exact .takeGraph r

end Run

/-! ### Events -/

/-- What a program does at one point of its run. -/
inductive Act where
  /-- A call that succeeds, with the recorder that it may ask and its answer. -/
  | call (c : Call) (r? : Option Recorder) (a : Call.Answer)
  /-- A name is given out by a trace that need not be the innermost one. -/
  | hand (id : TraceId) (name : Name)
  | deed (d : Deed)

structure Event where
  /-- How many scopes are open. -/
  depth : Nat
  act : Act

namespace Event

/-- The names that a trace gives out by hand. -/
def byHand (id : TraceId) (e : Event) : List Name :=
  match e.act with
  | .hand id' name => if id' = id then [name] else []
  | _ => []

/-- The names that are registered in a trace, which is open as the `n`-th one from outside: by calls
while it is the innermost one, or by hand. -/
def names (n : Nat) (id : TraceId) (e : Event) : List Name :=
  match e.act with
  | .call c r? a => if e.depth = n then (c.trail r?).names a else []
  | _ => e.byHand id

/-- The proxies that are created while that trace is the innermost one. -/
def proxies (n : Nat) (e : Event) : List Proxy :=
  match e.act with
  | .call c r? a => if e.depth = n then (c.trail r?).proxies a else []
  | _ => []

/-- The nodes that are recorded into the graph of a recorder. -/
def nodes (r : Recorder) (e : Event) : List Node :=
  match e.act with
  | .call c r? a => (((c.trail r?).entries none a).filter (·.recorder = r)).map Entry.node
  | _ => []

/-- A reference may be given up. -/
def isRelease (e : Event) : Bool := e.act matches .deed (.release _)

end Event

/-- Events, oldest first. -/
abbrev History := List Event

namespace History

def byHand (id : TraceId) (es : History) : List Name := es.flatMap (Event.byHand id)

def names (n : Nat) (id : TraceId) (es : History) : List Name := es.flatMap (Event.names n id)

def proxies (n : Nat) (es : History) : List Proxy := es.flatMap (Event.proxies n)

def nodes (r : Recorder) (es : History) : List Node := es.flatMap (Event.nodes r)

/-- How many references are given up at most. -/
def releases (es : History) : Nat := es.countP Event.isRelease

/-- Nobody takes the graph of the recorder. -/
def Leaves (r : Recorder) (es : History) : Prop := ∀ e ∈ es, e.act ≠ .deed (.takeGraph r)

variable {es : History} {e : Event}

theorem names_singleton (n : Nat) (id : TraceId) (e : Event) :
    History.names n id [e] = e.names n id := List.flatMap_singleton ..

theorem byHand_singleton (id : TraceId) (e : Event) : History.byHand id [e] = e.byHand id :=
  List.flatMap_singleton ..

theorem proxies_singleton (n : Nat) (e : Event) : History.proxies n [e] = e.proxies n :=
  List.flatMap_singleton ..

/-- The events that happen while that many scopes are open. -/
def atDepth (n : Nat) (es : History) : History := es.filter (·.depth = n)

/-- A trace that gives out names by hand only while it is the innermost one registers nothing at any
other time. -/
theorem names_atDepth {n : Nat} {id : TraceId} (h : ∀ e ∈ es, e.byHand id ≠ [] → e.depth = n) :
    (es.atDepth n).names n id = es.names n id := by
  induction es with
  | nil => rfl
  | cons e es ih =>
    have htail := ih fun e' he' => h e' (.tail _ he')
    by_cases hdepth : e.depth = n
    · rw [atDepth, List.filter_cons_of_pos (by simpa using hdepth), names, List.flatMap_cons, names,
        List.flatMap_cons]
      exact congrArg (_ ++ ·) htail
    · have hnone : e.names n id = [] := by
        have hhand : e.byHand id = [] := by_contra fun hne => hdepth (h e (.head _) hne)
        rw [Event.names]
        split
        · exact if_neg hdepth
        · exact hhand
      rw [atDepth, List.filter_cons_of_neg (by simpa using hdepth), names, names, List.flatMap_cons,
        hnone]
      exact htail

theorem names_snoc (n : Nat) (id : TraceId) (es : History) (e : Event) :
    History.names n id (es ++ [e]) = es.names n id ++ e.names n id := by
  rw [names, names, List.flatMap_append, List.flatMap_singleton]

theorem byHand_snoc (id : TraceId) (es : History) (e : Event) :
    History.byHand id (es ++ [e]) = es.byHand id ++ e.byHand id := by
  rw [byHand, byHand, List.flatMap_append, List.flatMap_singleton]

theorem proxies_snoc (n : Nat) (es : History) (e : Event) :
    History.proxies n (es ++ [e]) = es.proxies n ++ e.proxies n := by
  rw [proxies, proxies, List.flatMap_append, List.flatMap_singleton]

theorem nodes_snoc (r : Recorder) (es : History) (e : Event) :
    History.nodes r (es ++ [e]) = es.nodes r ++ e.nodes r := by
  rw [nodes, nodes, List.flatMap_append, List.flatMap_singleton]

end History

namespace Run

variable {run run' run₁ : Run} {es : History} {e : Event}

/-- The number of open scopes. -/
def depth (run : Run) : Nat := run.session.workspace.scopes.length

/-- The events lead from one run to the other, and never are fewer than `n` scopes open. A call that
fails changes nothing and is no event. -/
inductive Path (n : Nat) (run : Run) : History → Run → Prop
  | start : Path n run [] run
  | call {es : History} {run₁ : Run} {c : Call} {r? : Option Recorder} {a : Call.Answer}
      {s : Session} (h : Path n run es run₁) (hc : run₁.Admits c r?)
      (hrun : c.run.on run₁.session = (.ok a, s)) :
      Path n run (es ++ [⟨run₁.depth, .call c r? a⟩]) (run₁.after c r? a s)
  | hand {es : History} {run₁ : Run} {t t' : Trace} {name : Name} (h : Path n run es run₁)
      (ht : t ∈ run₁.live) (hname : t.GivesName name t') :
      Path n run (es ++ [⟨run₁.depth, .hand t.id name⟩])
        (run₁.mapTraces fun u => if u.id = t.id then t' else u)
  | deed {es : History} {run₁ run' : Run} {d : Deed} (h : Path n run es run₁)
      (hd : run₁.does d = some run') (hopen : n ≤ run'.depth) :
      Path n run (es ++ [⟨run₁.depth, .deed d⟩]) run'

/-- What every step keeps is kept. -/
theorem Path.keeps {P : Run → Prop} (hstep : ∀ run run' : Run, Step run run' → P run → P run')
    (h : Path n run es run') (hrun : P run) : P run' := by
  induction h with
  | start => exact hrun
  | call _ hc hcall ih => exact hstep _ _ (.call hc hcall) ih
  | hand _ ht hname ih => exact hstep _ _ (.move (.name ht hname.named)) ih
  | deed _ hd _ ih => exact hstep _ _ (.move (move_of_does hd)) ih

theorem Path.reachable (h : Path n run es run') (hrun : Reachable run) : Reachable run' :=
  h.keeps (fun _ _ hstep hrun => hrun.step hstep) hrun

theorem Path.accounted (h : Path n run es run') (hrun : run.Accounted) : run'.Accounted :=
  h.keeps (fun _ _ => Step.accounted) hrun

theorem Accounted.eq_of_id (h : run.Accounted) (ht : t ∈ run.live) (ht' : t' ∈ run.live)
    (hid : t.id = t'.id) : t = t' :=
  List.inj_on_of_nodup_map h.ids ht ht' hid

/-- The trace is open, as the `n`-th one from outside. -/
def At (n : Nat) (t : Trace) (run : Run) : Prop :=
  ∃ inner outer, run.session.workspace.scopes = inner ++ t :: outer ∧ outer.length + 1 = n

theorem At.of_scopes (h : run.At n t)
    (hscopes : run'.session.workspace.scopes = run.session.workspace.scopes) : run'.At n t := by
  obtain ⟨inner, outer, hrun, hn⟩ := h
  exact ⟨inner, outer, hscopes.trans hrun, hn⟩

theorem At.push (h : run.At n t) {u : Trace}
    (hscopes : run'.session.workspace.scopes = u :: run.session.workspace.scopes) :
    run'.At n t := by
  obtain ⟨inner, outer, hrun, hn⟩ := h
  exact ⟨u :: inner, outer, by rw [hscopes, hrun, List.cons_append], hn⟩

/-- The end of a scope further in. -/
theorem At.pop (h : run.At n t)
    (hscopes : run'.session.workspace.scopes = run.session.workspace.scopes.tail)
    (hopen : n ≤ run'.session.workspace.scopes.length) : run'.At n t := by
  obtain ⟨inner, outer, hrun, hn⟩ := h
  rw [hscopes, hrun] at hopen
  cases inner with
  | nil =>
    simp only [List.nil_append, List.tail_cons] at hopen
    omega
  | cons u inner => exact ⟨inner, outer, by rw [hscopes, hrun]; rfl, hn⟩

theorem At.mem_live (h : run.At n t) : t ∈ run.live := by
  obtain ⟨inner, outer, hscopes, -⟩ := h
  rw [live, hscopes]
  simp

theorem At.does {d : Deed} (h : run.At n t) (hd : run.does d = some run')
    (hopen : n ≤ run'.depth) : run'.At n t := by
  cases d with
  | newTrace source => cases hd; exact h.of_scopes rfl
  | enter source => cases hd; exact h.push rfl
  | resume i =>
    obtain ⟨u, hu, hd⟩ := Option.bind_eq_some_iff.1 hd
    cases hd
    exact h.push rfl
  | close => cases hd; exact h.pop (Workspace.scopes_close _) hopen
  | takeBack =>
    obtain ⟨u, hu, hd⟩ := Option.bind_eq_some_iff.1 hd
    cases hd
    exact h.pop (Workspace.scopes_takeBack _) hopen
  | keep =>
    obtain ⟨w, hw, rfl⟩ := Option.map_eq_some_iff.1 hd
    obtain ⟨u, -, rfl⟩ := Workspace.exists_of_keep hw
    exact h.of_scopes rfl
  | release id => cases hd; exact h.of_scopes rfl
  | enterContext l => cases hd; exact h.of_scopes rfl
  | closeContext => cases hd; exact h.of_scopes rfl
  | newRecorder => cases hd; exact h.of_scopes rfl
  | takeGraph r => cases hd; exact h.of_scopes rfl

/-- After the events, the trace `t` is `t'`, and still open as the `n`-th one from outside. It has
registered what the events tell, and it owns the proxies that were created at its depth. -/
structure Stays (n : Nat) (t : Trace) (es : History) (run' : Run) (t' : Trace) : Prop where
  open_ : run'.At n t'
  id : t'.id = t.id
  names : t'.names = t.names ++ es.names n t.id
  owner : ∀ p ∈ es.proxies n, p.owner = t.id

theorem Stays.snoc {t₁ : Trace} (h : Stays n t es run₁ t₁) (h₁ : Stays n t₁ [e] run' t') :
    Stays n t (es ++ [e]) run' t' where
  open_ := h₁.open_
  id := h₁.id.trans h.id
  names := by
    rw [h₁.names, h.names, h.id, History.names_snoc, List.append_assoc, History.names_singleton]
  owner p hp := by
    rw [History.proxies_snoc] at hp
    rcases List.mem_append.1 hp with hp | hp
    · exact h.owner p hp
    · rw [h₁.owner p (by rwa [History.proxies_singleton]), h.id]

/-- Nothing is registered in the trace. -/
theorem Stays.of_at (h : run'.At n t) (hnames : e.names n t.id = []) (hproxies : e.proxies n = []) :
    Stays n t [e] run' t where
  open_ := h
  id := rfl
  names := by rw [History.names_singleton, hnames, List.append_nil]
  owner p hp := by
    rw [History.proxies_singleton, hproxies] at hp
    cases hp

/-- A call names in the innermost trace, which may be the one in question. -/
theorem At.call {c : Call} {r? : Option Recorder} {a : Call.Answer} (h : run.At n t)
    (hadds : Call.Adds ((c.trail r?).names a) ((c.trail r?).proxies a) run.session.workspace
      s.workspace) :
    ∃ t', Stays n t [⟨run.depth, .call c r? a⟩] (run.after c r? a s) t' := by
  obtain ⟨inner, outer, hscopes, hn⟩ := h
  cases inner with
  | nil =>
    obtain ⟨source, hscopes'⟩ := hadds.scopes t outer hscopes
    have hdepth : run.depth = n := by rw [depth, hscopes]; exact hn
    refine ⟨_, ⟨[], outer, hscopes', hn⟩, rfl, ?_, ?_⟩
    · rw [History.names_singleton]
      exact congrArg (t.names ++ ·) (if_pos hdepth).symm
    · intro p hp
      rw [History.proxies_singleton, Event.proxies] at hp
      dsimp only at hp
      rw [if_pos hdepth] at hp
      exact hadds.owner t (by rw [Workspace.active?, hscopes]; rfl) p hp
  | cons u inner =>
    obtain ⟨source, hscopes'⟩ := hadds.scopes u (inner ++ t :: outer) hscopes
    have hdepth : run.depth ≠ n := by
      rw [depth, hscopes]
      simp only [List.cons_append, List.length_cons, List.length_append]
      omega
    exact ⟨t, .of_at ⟨_ :: inner, outer, hscopes', hn⟩ (if_neg hdepth) (if_neg hdepth)⟩

/-- A name given out by hand may be one of the trace in question. -/
theorem At.hand {u u' : Trace} {name : Name} (h : run.At n t) (hrun : run.Accounted)
    (hu : u ∈ run.live) (hname : u.GivesName name u') :
    ∃ t', Stays n t [⟨run.depth, .hand u.id name⟩]
      (run.mapTraces fun v => if v.id = u.id then u' else v) t' := by
  have hat {t' : Trace} (ht' : (if t.id = u.id then u' else t) = t') :
      (run.mapTraces fun v => if v.id = u.id then u' else v).At n t' := by
    obtain ⟨inner, outer, hscopes, hn⟩ := h
    let f (v : Trace) : Trace := if v.id = u.id then u' else v
    refine ⟨inner.map f, outer.map f, ?_, by rwa [List.length_map]⟩
    rw [mapTraces, hscopes, List.map_append, List.map_cons, ht']
  by_cases hid : t.id = u.id
  · obtain rfl := hrun.eq_of_id h.mem_live hu hid
    refine ⟨u', hat (if_pos rfl), hname.named.id, ?_, fun p hp => ?_⟩
    · rw [hname.names, History.names_singleton]
      exact congrArg (t.names ++ ·) (if_pos rfl).symm
    · cases hp
  · exact ⟨t, .of_at (hat (if_neg hid)) (if_neg (Ne.symm hid)) rfl⟩

/-- While a scope stays open, its trace registers what is named at its depth or by hand, and it owns
the proxies that are created at its depth. -/
theorem Path.stays (h : Path n run es run') (hrun : run.Accounted) (hat : run.At n t) :
    ∃ t', Stays n t es run' t' := by
  induction h with
  | start => exact ⟨t, hat, rfl, (List.append_nil _).symm, fun p hp => absurd hp List.not_mem_nil⟩
  | call _ hc hcall ih =>
    obtain ⟨t₁, h₁⟩ := ih
    obtain ⟨t', h'⟩ := h₁.open_.call (Call.adds_of_ok hc.asks hcall)
    exact ⟨t', h₁.snoc h'⟩
  | hand hpath ht hname ih =>
    obtain ⟨t₁, h₁⟩ := ih
    obtain ⟨t', h'⟩ := h₁.open_.hand (hpath.accounted hrun) ht hname
    exact ⟨t', h₁.snoc h'⟩
  | deed _ hd hopen ih =>
    obtain ⟨t₁, h₁⟩ := ih
    exact ⟨t₁, h₁.snoc (.of_at (h₁.open_.does hd hopen) rfl rfl)⟩

/-- When the scopes further in have ended, the trace is the innermost one. -/
theorem At.scopes_closeTo (h : run.At n t) : ∃ outer,
    (run.session.workspace.closeTo n).scopes = t :: outer ∧ outer.length + 1 = n := by
  obtain ⟨inner, outer, hscopes, hn⟩ := h
  refine ⟨outer, ?_, hn⟩
  have hlength : (inner ++ t :: outer).length - n = inner.length := by
    rw [List.length_append, List.length_cons]
    omega
  rw [Workspace.closeTo_eq, hscopes, hlength, List.drop_left]

/-! ### Graphs -/

/-- A recorder that has been made stays, and so does its graph unless that is taken. -/
theorem graph_does {d : Deed} (hd : run.does d = some run') (htake : d ≠ .takeGraph r)
    (hr : r.index < run.session.workspace.nextRecorder.index) :
    r.index < run'.session.workspace.nextRecorder.index ∧
      run'.session.workspace.graph r = run.session.workspace.graph r := by
  have hkept {w : Workspace} (hgraphs : w.graphs = run.session.workspace.graphs)
      (hnext : w.nextRecorder = run.session.workspace.nextRecorder) :
      r.index < w.nextRecorder.index ∧ w.graph r = run.session.workspace.graph r :=
    ⟨by rwa [hnext], Workspace.graph_of_graphs_eq hgraphs r⟩
  cases d with
  | resume i =>
    obtain ⟨u, hu, hd⟩ := Option.bind_eq_some_iff.1 hd
    cases hd
    exact hkept rfl rfl
  | close => cases hd; exact hkept (Workspace.graphs_close _) (Workspace.nextRecorder_close _)
  | takeBack =>
    obtain ⟨u, hu, hd⟩ := Option.bind_eq_some_iff.1 hd
    cases hd
    exact hkept (Workspace.graphs_takeBack _) (Workspace.nextRecorder_takeBack _)
  | keep =>
    obtain ⟨w, hw, rfl⟩ := Option.map_eq_some_iff.1 hd
    obtain ⟨u, -, rfl⟩ := Workspace.exists_of_keep hw
    exact hkept rfl rfl
  | newRecorder =>
    cases hd
    refine ⟨Nat.lt_succ_of_lt hr, Workspace.graph_setGraph_of_ne ?_ _ _⟩
    rintro rfl
    exact Nat.lt_irrefl _ hr
  | takeGraph r' =>
    cases hd
    exact ⟨hr, Workspace.graph_setGraph_of_ne (fun heq => htake (congrArg _ heq.symm)) _ _⟩
  | _ => cases hd; exact hkept rfl rfl

/-- The graph of a recorder that has been made grows by what is recorded into it. -/
theorem Path.graph (h : Path n run es run')
    (hr : r.index < run.session.workspace.nextRecorder.index) (hleaves : es.Leaves r) :
    r.index < run'.session.workspace.nextRecorder.index ∧
      (run'.session.workspace.graph r).nodes =
        (run.session.workspace.graph r).nodes ++ es.nodes r := by
  have hleft {es : History} {e : Event} (h : History.Leaves r (es ++ [e])) : es.Leaves r :=
    fun e' he' => h e' (List.mem_append_left _ he')
  induction h with
  | start => exact ⟨hr, (List.append_nil _).symm⟩
  | @call es run₁ c r? a s _ hc hcall ih =>
    obtain ⟨hlt, hgraph⟩ := ih (hleft hleaves)
    obtain ⟨-, htrail⟩ := (c.ensures_run r? hc.asks).of_ok hcall
    refine ⟨?_, ?_⟩
    · rw [after, (Call.adds_of_ok hc.asks hcall).nextRecorder]
      exact hlt
    · rw [after, htrail.graph none, hgraph, History.nodes_snoc, List.append_assoc]
      rfl
  | hand _ ht hname ih =>
    obtain ⟨hlt, hgraph⟩ := ih (hleft hleaves)
    rw [History.nodes_snoc, Event.nodes, List.append_nil]
    exact ⟨hlt, hgraph⟩
  | deed _ hd hopen ih =>
    obtain ⟨hlt, hgraph⟩ := ih (hleft hleaves)
    have htake := hleaves _ (List.mem_append_right _ (.head _))
    obtain ⟨hlt', hgraph'⟩ := graph_does hd (fun heq => htake (congrArg Act.deed heq)) hlt
    refine ⟨hlt', ?_⟩
    rw [hgraph', hgraph, History.nodes_snoc, Event.nodes, List.append_nil]

end Run

end ProxyTrace
