import ProxyTrace.Proofs.References

/-!
# Traces that are handed back

At the end of a trace scope, its trace is handed to the caller. If references to the trace are kept,
they are left with an empty one in its place, of an identity that no trace has had before: keys are
identities that have been given out (`Run.Reachable.valid`).

The main statement is `Run.withTrace_handsBack`. For every body, however many scopes it opens and
leaves open and whatever references it keeps, the trace that is handed back is the one that was
opened (`Run.HandedBack`), and the references show the empty one from then on, along every later run
(`Run.Instead`).
-/

namespace ProxyTrace

variable {t : Trace} {id : TraceId} {es : History}

namespace Run

variable {run run' : Run}

/-! ### Keys -/

/-- Each key was one before, or is the identity of a trace. -/
def KeysFrom (run run' : Run) : Prop :=
  (∀ id ∈ run'.session.workspace.references,
    id ∈ run.session.workspace.references ∨ ∃ t ∈ run.live, t.id = id) ∧
  ∀ p ∈ run'.session.workspace.ended,
    (∃ q ∈ run.session.workspace.ended, q.1 = p.1) ∨ ∃ t ∈ run.live, t.id = p.1

theorem keysFrom_of_eq
    (hreferences : run'.session.workspace.references = run.session.workspace.references)
    (hended : run'.session.workspace.ended = run.session.workspace.ended) : run.KeysFrom run' :=
  ⟨fun _ hid => .inl (hreferences ▸ hid), fun p hp => .inl ⟨p, hended ▸ hp, rfl⟩⟩

theorem keysFrom_of_shelves
    (hreferences : run'.session.workspace.references = run.session.workspace.references)
    (hshelves : run.session.workspace.Shelves run'.session.workspace) : run.KeysFrom run' := by
  rcases hshelves with hended | ⟨t, ht, v, hended⟩
  · exact keysFrom_of_eq hreferences hended
  · refine ⟨fun id hid => .inl (hreferences ▸ hid), fun p hp => ?_⟩
    rw [hended] at hp
    rcases List.mem_cons.1 hp with rfl | hp
    · exact .inr ⟨t, List.mem_append_left _ ht, rfl⟩
    · exact .inl ⟨p, hp, rfl⟩

theorem keysFrom_resume (run : Run) (t : Trace) (ts : List Trace) :
    run.KeysFrom { run.inWorkspace (run.session.workspace.resume t) with traces := ts } := by
  have hkey (key : TraceId) : run.session.workspace.rekey t.id key = key ∨
      ∃ u ∈ run.live, u.id = run.session.workspace.rekey t.id key := by
    refine (run.session.workspace.rekey_eq t.id key).imp_right ?_
    rintro ⟨-, v, hv, hid⟩
    have hmem : v ∈ run.session.workspace.ended.map Prod.snd :=
      List.mem_map_of_mem (Workspace.mem_of_lookup hv)
    exact ⟨v, List.mem_append_right _ (List.mem_append_right _ hmem), hid.symm⟩
  refine ⟨fun id hid => ?_, fun p hp => ?_⟩
  · obtain ⟨key, hmem, rfl⟩ : ∃ key ∈ run.session.workspace.references,
        run.session.workspace.rekey t.id key = id := List.mem_map.1 hid
    rcases hkey key with heq | hlive
    · rw [heq]
      exact .inl hmem
    · exact .inr hlive
  · obtain ⟨q, hq, rfl⟩ := List.mem_map.1 hp
    rcases hkey q.1 with heq | hlive
    · exact .inl ⟨q, hq, heq.symm⟩
    · exact .inr hlive

theorem Move.keysFrom (h : Move run run') : run.KeysFrom run' := by
  cases h with
  | resume h => exact run.keysFrom_resume _ _
  | close =>
    exact keysFrom_of_shelves (Workspace.references_close _) (Workspace.shelves_close _)
  | takeBack ht =>
    exact keysFrom_of_shelves (Workspace.references_takeBack _) (Workspace.shelves_takeBack _)
  | keep h =>
    obtain ⟨t, ht, rfl⟩ := Workspace.exists_of_keep (congrArg Except.toOption h)
    obtain ⟨ts, hts⟩ := Workspace.exists_scopes ht
    refine ⟨fun id hid => ?_, fun p hp => .inl ⟨p, hp, rfl⟩⟩
    refine (List.mem_append.1 hid).imp_right fun hid => ⟨t, ?_, (List.mem_singleton.1 hid).symm⟩
    rw [live, hts]
    exact .head _
  | release id =>
    exact ⟨fun id' hid => .inl (List.mem_of_mem_erase hid), fun p hp => .inl ⟨p, hp, rfl⟩⟩
  | name ht h =>
    refine ⟨fun id hid => .inl hid, fun p hp => ?_⟩
    obtain ⟨q, hq, rfl⟩ := List.mem_map.1 hp
    exact .inl ⟨q, hq, rfl⟩
  | _ => exact keysFrom_of_eq rfl rfl

theorem Step.next_le (hstep : Step run run') :
    run.session.workspace.nextTrace.index ≤ run'.session.workspace.nextTrace.index := by
  cases hstep with
  | call hc hcall =>
    exact Nat.le_of_eq (congrArg TraceId.index (Call.adds_of_ok hc.asks hcall).nextTrace.symm)
  | move hmove => exact hmove.ages.next_le

theorem Step.keysFrom (hstep : Step run run') : run.KeysFrom run' := by
  cases hstep with
  | call hc hcall =>
    have hadds := Call.adds_of_ok hc.asks hcall
    exact keysFrom_of_eq hadds.references hadds.ended
  | move hmove => exact hmove.keysFrom

/-- No step makes a key of an identity that has not been given out. -/
theorem Step.valid (hstep : Step run run') (hrun : run.Accounted)
    (h : run.session.workspace.Valid) : run'.session.workspace.Valid := by
  obtain ⟨hreferences, hended⟩ := hstep.keysFrom
  refine ⟨fun t ht => ?_, fun id hid => Nat.lt_of_lt_of_le ?_ hstep.next_le,
    fun p hp => Nat.lt_of_lt_of_le ?_ hstep.next_le⟩
  · exact (hstep.accounted hrun).below t (List.mem_append_left _ ht)
  · rcases hreferences id hid with hid | ⟨t, ht, rfl⟩
    · exact h.references id hid
    · exact hrun.below t ht
  · rcases hended p hp with ⟨q, hq, heq⟩ | ⟨t, ht, heq⟩
    · exact heq ▸ h.ended q hq
    · exact heq ▸ hrun.below t ht

theorem Reachable.valid (h : Reachable run) : run.session.workspace.Valid := by
  induction h with
  | start => exact ⟨nofun, nofun, nofun⟩
  | step h hstep ih => exact hstep.valid h.accounted ih

/-! ### The end of a scope -/

theorem Reachable.closeTo (h : Reachable run) (n : Nat) :
    Reachable (run.inWorkspace (run.session.workspace.closeTo n)) := by
  induction hlength : run.session.workspace.scopes.length generalizing run with
  | zero =>
    rw [Workspace.closeTo_of_le (by omega)]
    exact h
  | succ m ih =>
    have hclose := h.step (.move .close)
    have hm : run.session.workspace.close.scopes.length = m := by
      rw [Workspace.scopes_close, List.length_tail, hlength, Nat.add_sub_cancel]
    rw [Workspace.closeTo]
    split
    · exact ih hclose hm
    · exact h

theorem Reachable.dropContexts (h : Reachable run) (n : Nat) :
    Reachable { run with session.contexts := run.session.contexts.drop n } := by
  induction n with
  | zero => exact h
  | succ n ih =>
    rw [← List.tail_drop]
    exact ih.step (.move .closeContext)

theorem Reachable.unwind (h : Reachable run) (traces contexts : Nat) :
    Reachable { run with session := run.session.unwind traces contexts } :=
  (h.closeTo traces).dropContexts _

/-- References to the trace of an ended scope show an empty trace instead, whose identity `h` no
trace has had before. The program never gets hold of that: nothing is owned by it, and no scope is
of it. But for the names that references make it give out, it stays empty, and those references show
it that are not given up. -/
structure Instead (id h : TraceId) (run' left : Run) : Prop where
  shows : left.session.workspace.shows id = some (.empty h)
  unused : ∀ earlier es, Reachable earlier → Path 0 earlier es run' →
    (∀ t ∈ earlier.live, t.id ≠ h) ∧ ∀ p ∈ earlier.held, p.owner ≠ h
  later : ∀ es later, Path 0 left es later →
    (∀ t, t ∈ later.session.workspace.scopes ∨ t ∈ later.traces → t.id ≠ h) ∧
    (∀ p ∈ later.held, p.owner ≠ h) ∧
    ∃ shown c, later.session.workspace.kept.filter (·.id = h) = List.replicate c shown ∧
      shown.id = h ∧ shown.names = es.byHand h ∧
      c ≤ left.session.workspace.references.count id ∧
      left.session.workspace.references.count id ≤ c + es.releases

/-- The trace `t` is open as the `n`-th one from outside, the events of the body of its scope lead to
`run'`, and the end of the scope hands `trace` back and leads to `left`. -/
structure HandedBack (n : Nat) (t : Trace) (es : History) (run' : Run) (trace : Trace)
    (left : Run) : Prop where
  reachable : Reachable left
  id : trace.id = t.id
  names : trace.names = t.names ++ es.names n t.id
  /-- All of them were registered while the trace was the innermost one, unless it was made to give
  out names at another time. -/
  innermost : (∀ e ∈ es, e.byHand t.id ≠ [] → e.depth = n) →
    trace.names = t.names ++ (es.atDepth n).names n t.id
  owner : ∀ p ∈ es.proxies n, p.owner = trace.id
  references : left.session.workspace.references = run'.session.workspace.references
  alone : t.id ∉ run'.session.workspace.references →
    left.session.workspace.nextTrace = run'.session.workspace.nextTrace
  shared : t.id ∈ run'.session.workspace.references →
    Instead t.id run'.session.workspace.nextTrace run' left

/-- The run after the end of a trace scope that was opened in `before`. -/
def handBack (before : Session) (run : Run) : Run :=
  { run with
    session := (before.leaveTrace run.session).2
    traces := (before.leaveTrace run.session).1 :: run.traces }

/-- An identity that is not given out yet is none of what there is now or was before. -/
theorem Path.unused {n : Nat} (h : Path n run es run') (hrun : Reachable run) :
    (∀ t ∈ run.live, t.id ≠ run'.session.workspace.nextTrace) ∧
      ∀ p ∈ run.held, p.owner ≠ run'.session.workspace.nextTrace := by
  have hnext : run.session.workspace.nextTrace.index ≤ run'.session.workspace.nextTrace.index :=
    h.keeps (fun _ _ hstep hle => Nat.le_trans hle hstep.next_le) (Nat.le_refl _)
  exact ⟨fun t ht => TraceId.ne_of_lt (Nat.lt_of_lt_of_le (hrun.accounted.below t ht) hnext),
    fun p hp => TraceId.ne_of_lt (Nat.lt_of_lt_of_le (hrun.accounted.owned p hp) hnext)⟩

/-- When a trace to which references are kept is taken back, they show an empty one. -/
theorem Reachable.shows_takeBack (h : Reachable run) {ts : List Trace}
    (ht : run.session.workspace.scopes = t :: ts)
    (hkept : t.id ∈ run.session.workspace.references) :
    Shows { run.inWorkspace run.session.workspace.takeBack with traces := t :: run.traces } t.id
      (.empty run.session.workspace.nextTrace) := by
  have hvalid := h.valid
  have hended : run.session.workspace.takeBack.ended =
      (t.id, .empty run.session.workspace.nextTrace) :: run.session.workspace.ended := by
    rw [Workspace.takeBack_cons ht]
    exact if_pos hkept
  refine ⟨?_, .inr ⟨t, .head _, rfl⟩, fun _ => ⟨fun hmem => ?_, fun p hp => ?_⟩,
    ((.start : Path 0 run [] run).unused h).2⟩
  · exact (congrArg (List.lookup t.id) hended).trans List.lookup_cons_self
  · have hold : run.session.workspace.nextTrace ∈ run.session.workspace.references :=
      run.session.workspace.references_takeBack ▸ hmem
    exact TraceId.ne_of_lt (hvalid.references _ hold) rfl
  · have hp : p ∈ run.session.workspace.takeBack.ended := hp
    rw [hended] at hp
    rcases List.mem_cons.1 hp with rfl | hp
    · exact TraceId.ne_of_lt (hvalid.references _ hkept)
    · exact TraceId.ne_of_lt (hvalid.ended p hp)

theorem Shows.instead {left : Run} (h : left.Shows id (.empty run'.session.workspace.nextTrace))
    (hleft : left.Accounted) : Instead id run'.session.workspace.nextTrace run' left where
  shows := h.shows_eq hleft
  unused earlier es hearlier hpath := hpath.unused hearlier
  later es later hpath := by
    obtain ⟨k, shown, hremains⟩ := hpath.remains hleft h
    have hid : shown.id = run'.session.workspace.nextTrace := hremains.id
    have haccounted := hpath.accounted hleft
    rw [← hid]
    refine ⟨fun t ht => ?_, hremains.shows.unowned, shown, _, hremains.shows.kept_filter haccounted,
      rfl, ?_, hremains.le, hremains.ge⟩
    · rcases ht with ht | ht
      · exact hremains.shows.id_ne_of_scope haccounted ht
      · exact haccounted.id_ne_of_ended ht hremains.shows.mem_snd
    · rw [hid]
      exact hremains.names

/-- The end of a scope hands back the trace that was opened, whatever the body has done. -/
theorem Path.handedBack {n : Nat} {before : Session} (h : Path n run es run')
    (hrun : Reachable run) (hat : run.At n t) (hn : before.workspace.scopes.length + 1 = n) :
    HandedBack n t es run' (before.leaveTrace run'.session).1 (run'.handBack before) := by
  obtain ⟨t', hstays⟩ := h.stays hrun.accounted hat
  obtain ⟨outer, hclosed, -⟩ := hstays.open_.scopes_closeTo
  subst hn
  -- what the body has left open ends first
  let s := run'.session.unwind (before.workspace.scopes.length + 1) before.contexts.length
  have hunwound : Reachable { run' with session := s } := (h.reachable hrun).unwind _ _
  have hs : s.workspace = _ := run'.session.workspace.closeTo_eq _
  have hreferences : s.workspace.references = run'.session.workspace.references := by rw [hs]
  have hnext : s.workspace.nextTrace = run'.session.workspace.nextTrace := by rw [hs]
  have hscopes : s.workspace.scopes = t' :: outer := hclosed
  have hactive : s.workspace.active? = some t' := congrArg List.head? hscopes
  have htrace : (before.leaveTrace run'.session).1 = t' := by
    change s.workspace.active?.getD _ = t'
    rw [hactive]
    rfl
  have hhandBack : run'.handBack before =
      { run' with
        session := { s with workspace := s.workspace.takeBack }
        traces := t' :: run'.traces } := by
    rw [handBack, htrace]
    rfl
  have hleft := hunwound.step (.move (.takeBack hactive))
  rw [htrace, hhandBack]
  refine ⟨hleft, hstays.id, hstays.names, fun hhand => ?_, fun p hp => ?_, ?_, fun hkept => ?_,
    fun hkept => ?_⟩
  · rw [History.names_atDepth hhand]
    exact hstays.names
  · rw [hstays.owner p hp, hstays.id]
  · exact (Workspace.references_takeBack _).trans hreferences
  · rw [← hreferences, ← hstays.id] at hkept
    rw [← hnext, Workspace.takeBack_cons hscopes]
    exact if_neg hkept
  · rw [← hreferences, ← hstays.id] at hkept
    have hshows := hunwound.shows_takeBack hscopes hkept
    rw [hstays.id] at hshows
    have hempty : Trace.empty s.workspace.nextTrace = .empty run'.session.workspace.nextTrace :=
      congrArg (Trace.empty ·) hnext
    exact (hempty ▸ hshows).instead hleft.accounted

/-- **A trace scope hands its trace back.** The scope may be opened wherever a program can get to,
of a new trace or of one that was handed back before, and its body does anything that programs do,
with scopes and references of its own. What is handed back is the trace that was opened, with the
names that it had and those that were registered in it. It makes no difference if references to it
are kept: they only show an empty trace from then on. -/
theorem withTrace_handsBack {run : Run} (hrun : Reachable run) {α : Type}
    (body : StateM Session α) (es : History) (run' : Run) :
    (∀ source,
      let opened := run.inWorkspace (run.session.workspace.enter source)
      Path (run.depth + 1) opened es run' → (body.run opened.session).2 = run'.session →
      ∃ trace, (withTrace source body).run run.session =
          ((trace, (body.run opened.session).1), (run'.handBack run.session).session) ∧
        HandedBack (run.depth + 1) (.empty run.session.workspace.nextTrace source) es run' trace
          (run'.handBack run.session)) ∧
    ∀ t ts us, run.traces = ts ++ t :: us →
      let opened : Run :=
        { run.inWorkspace (run.session.workspace.resume t) with traces := ts ++ us }
      Path (run.depth + 1) opened es run' → (body.run opened.session).2 = run'.session →
      ∃ trace, (withTraceOf t body).run run.session =
          ((trace, (body.run opened.session).1), (run'.handBack run.session).session) ∧
        HandedBack (run.depth + 1) t es run' trace (run'.handBack run.session) := by
  constructor
  · intro source opened hpath hbody
    have hat : opened.At (run.depth + 1) (.empty run.session.workspace.nextTrace source) :=
      ⟨[], run.session.workspace.scopes, rfl, rfl⟩
    refine ⟨_, ?_, hpath.handedBack (hrun.step (.move (.enter source))) hat rfl⟩
    rw [handBack, ← hbody]
    exact run_withTrace source body run.session
  · intro t ts us htraces opened hpath hbody
    have hat : opened.At (run.depth + 1) t := ⟨[], run.session.workspace.scopes, rfl, rfl⟩
    refine ⟨_, ?_, hpath.handedBack (hrun.step (.move (.resume htraces))) hat rfl⟩
    rw [handBack, ← hbody]
    rfl

/-- Keeps a reference to the trace, and makes a number in it and one in a trace further in. -/
def keepsAndNests : StateM Session Unit := do
  let make (name : Name) : StateM Session (Except Error Call.Answer) :=
    (Call.makeNumber .int none (some name)).run.attempt
  discard (SessionM.attempt (liftM WorkspaceM.keep) : StateM Session (Except Error Unit))
  discard (make "x")
  discard (withTrace default (make "y"))

/-- What is handed back has the identity 0 and the name "x". The reference shows an empty trace of the
identity 2, also when there is a scope of the other trace again. -/
theorem withTrace_handsBack_kept : ∃ trace left later, Reachable left ∧
    (withTrace default keepsAndNests).run {} = ((trace, ()), left.session) ∧
    trace.id = ⟨0⟩ ∧ trace.names = ["x"] ∧ left.session.workspace.shows ⟨0⟩ = some (.empty ⟨2⟩) ∧
    left.does (.resume 0) = some later ∧ ∃ shown,
      later.session.workspace.kept.filter (·.id = ⟨2⟩) = [shown] ∧ shown.names = [] := by
  have make (run : Run) (name : Name) : run.Admits (.makeNumber .int none (some name)) none :=
    ⟨List.nil_subset _, False.elim⟩
  have hkeep : Path 1 (Run.inWorkspace {} (Workspace.enter {})) [_] _ :=
    Path.start.deed (d := .keep) rfl (Nat.le_refl _)
  have hinner := (hkeep.call (make _ "x") rfl).deed (d := .enter default) rfl (Nat.le_succ _)
  have hbody := (hinner.call (make _ "y") rfl).deed (d := .takeBack) rfl (Nat.le_refl _)
  -- the scope further in ends where it began, so that nothing is left to unwind
  have hrun : (keepsAndNests.run (Session.enterTrace {} default)).2 =
      { workspace := { nextTrace := ⟨2⟩, scopes := [⟨⟨0⟩, ["x"], default⟩], references := [⟨0⟩] } } := by
    let x : Trace := ⟨⟨0⟩, ["x"], default⟩
    let y : Trace := ⟨⟨1⟩, ["y"], default⟩
    let before : Session := { workspace := { nextTrace := ⟨1⟩, scopes := [x], references := [⟨0⟩] } }
    let s : Session := { workspace := { nextTrace := ⟨2⟩, scopes := [y, x], references := [⟨0⟩] } }
    have hunwind : s.unwind (before.workspace.scopes.length + 1) before.contexts.length = s :=
      Session.unwind_eq (Nat.le_refl _) (Nat.le_refl _)
    change (before.leaveTrace s).2 = _
    rw [Session.leaveTrace, hunwind]
    rfl
  obtain ⟨trace, hrun, hback⟩ := (withTrace_handsBack .start keepsAndNests _ _).1 _ hbody hrun
  have hinstead := hback.shared (.head _)
  obtain ⟨-, -, shown, c, hkept, -, hnames, hle, hge⟩ :=
    hinstead.later _ _ (.deed (d := .resume 0) .start rfl (Nat.zero_le _))
  rw [hback.references] at hle hge
  obtain rfl : c = 1 := Nat.le_antisymm hle hge
  exact ⟨trace, _, _, hback.reachable, hrun, hback.id, hback.names, hinstead.shows, rfl, shown,
    hkept, hnames⟩

end Run

end ProxyTrace
