import Mathlib.Data.List.Nodup
import ProxyTrace.Proofs.History
import ProxyTrace.Proofs.Scopes

/-!
# What references show

A reference to a trace has the identity of the trace for its key. When the scope of the trace ends,
something is put on the shelf for that key, and references show it; and when the trace is in a scope
again, the key becomes another one (`Workspace.rekey`).

What is on the shelf is out of the hands of the program (`Run.Shows`): no step can open it, own
anything by it, or take it away. So references to it go on showing it (`Run.Path.remains`), and of
what all references show it is just as much as there are references with its key
(`Run.Shows.kept_filter`).
-/

namespace ProxyTrace

theorem TraceId.ne_of_lt {id id' : TraceId} (h : id.index < id'.index) : id ≠ id' :=
  fun heq => Nat.ne_of_lt h (congrArg TraceId.index heq)

variable {w : Workspace} {t shown : Trace} {id k : TraceId} {es : History} {e : Event}

/-! ### What references show -/

namespace Workspace

/-- What a reference to a trace shows. -/
def shows (w : Workspace) (id : TraceId) : Option Trace :=
  w.scopes.find? (·.id = id) <|> w.ended.lookup id

theorem kept_eq (w : Workspace) : w.kept = w.references.filterMap w.shows := rfl

/-- What a key becomes when the trace of the identity is in a scope again: references that have shown
something else since its earlier scope ended go on showing that. -/
def rekey (w : Workspace) (id : TraceId) (key : TraceId) : TraceId :=
  match w.ended.lookup id with
  | some shown => if key = id then shown.id else key
  | none => key

theorem rekey_of_ne (h : k ≠ id) : w.rekey id k = k := by
  rw [rekey]
  split
  · rw [if_neg h]
  · rfl

theorem rekey_self (h : w.ended.lookup id = some shown) : w.rekey id id = shown.id := by
  rw [rekey, h]
  exact if_pos rfl

/-- A key is another key now, or that of what is shown. -/
theorem rekey_eq (w : Workspace) (id key : TraceId) : w.rekey id key = key ∨
    key = id ∧ ∃ shown, w.ended.lookup id = some shown ∧ w.rekey id key = shown.id := by
  by_cases hkey : key = id
  · subst hkey
    cases h : w.ended.lookup key with
    | none => left; rw [rekey, h]
    | some shown => exact .inr ⟨rfl, shown, rfl, rekey_self h⟩
  · exact .inl (rekey_of_ne hkey)

/-- Only the key itself becomes what it becomes. -/
theorem lookup_map_key {key : TraceId → TraceId} {ended : List (TraceId × Trace)}
    (h : ∀ p ∈ ended, key p.1 = key k → p.1 = k) :
    (ended.map fun p => (key p.1, p.2)).lookup (key k) = ended.lookup k := by
  induction ended with
  | nil => rfl
  | cons p ended ih =>
    rw [List.map_cons, lookup_cons, lookup_cons, ih fun q hq => h q (.tail _ hq)]
    by_cases hp : k = p.1
    · rw [if_pos hp, if_pos (congrArg key hp)]
    · rw [if_neg hp, if_neg fun heq => hp (h p (.head _) heq.symm).symm]

theorem lookup_map_snd (f : Trace → Trace) (ended : List (TraceId × Trace)) (key : TraceId) :
    (ended.map fun (id, t) => (id, f t)).lookup key = (ended.lookup key).map f := by
  induction ended with
  | nil => rfl
  | cons p ended ih =>
    obtain ⟨id, t⟩ := p
    rw [List.map_cons, lookup_cons, lookup_cons, ih]
    dsimp only
    split
    · rfl
    · rfl

theorem count_map_key {key : TraceId → TraceId} {ids : List TraceId}
    (h : ∀ id ∈ ids, key id = key k → id = k) : (ids.map key).count (key k) = ids.count k := by
  rw [List.count, List.countP_map, List.count]
  refine List.countP_congr fun id hid => ?_
  simp only [Function.comp_apply, beq_iff_eq]
  exact ⟨h id hid, fun heq => heq ▸ rfl⟩

theorem references_close (w : Workspace) : w.close.references = w.references := by
  rw [close_eq]

theorem references_takeBack (w : Workspace) : w.takeBack.references = w.references := by
  rw [takeBack_eq]

/-- What is shown in the place of a trace of a scope is all that is new. -/
def Shelves (w w' : Workspace) : Prop :=
  w'.ended = w.ended ∨ ∃ t ∈ w.scopes, ∃ shown, w'.ended = (t.id, shown) :: w.ended

theorem shelves_close (w : Workspace) : w.Shelves w.close := by
  rcases hscopes : w.scopes with _ | ⟨t, ts⟩
  · rw [close, hscopes]
    exact .inl rfl
  · have ht : t ∈ w.scopes := by rw [hscopes]; exact .head _
    rw [close, hscopes]
    dsimp only
    split
    · exact .inr ⟨t, ht, t, rfl⟩
    · exact .inl rfl

theorem shelves_takeBack (w : Workspace) : w.Shelves w.takeBack := by
  rcases hscopes : w.scopes with _ | ⟨t, ts⟩
  · rw [takeBack, hscopes]
    exact .inl rfl
  · have ht : t ∈ w.scopes := by rw [hscopes]; exact .head _
    rw [takeBack_cons hscopes]
    by_cases hkept : t.id ∈ w.references
    · exact .inr ⟨t, ht, _, if_pos hkept⟩
    · exact .inl (if_neg hkept)

end Workspace

namespace Run

variable {run run' run₁ : Run}

/-! ### Identities -/

namespace Accounted

variable {u : Trace}

theorem ids_append (h : run.Accounted) :
    (run.session.workspace.scopes.map Trace.id ++ (run.traces.map Trace.id ++
      run.session.workspace.ended.map fun p => p.2.id)).Nodup := by
  have hids := h.ids
  rw [live, List.map_append, List.map_append, List.map_map] at hids
  exact hids

/-- No reference shows a trace of a scope after its end. -/
theorem id_ne_of_scope (h : run.Accounted) (ht : t ∈ run.session.workspace.scopes)
    (hu : u ∈ run.traces ∨ u ∈ run.session.workspace.ended.map Prod.snd) : t.id ≠ u.id := by
  have hdisjoint := (List.nodup_append.1 h.ids_append).2.2
  refine hdisjoint _ (List.mem_map_of_mem ht) _ (List.mem_append.2 ?_)
  rcases hu with hu | hu
  · exact .inl (List.mem_map_of_mem hu)
  · obtain ⟨p, hp, rfl⟩ := List.mem_map.1 hu
    exact .inr (List.mem_map.2 ⟨p, hp, rfl⟩)

theorem id_ne_of_ended (h : run.Accounted) (ht : t ∈ run.traces)
    (hu : u ∈ run.session.workspace.ended.map Prod.snd) : t.id ≠ u.id := by
  have hdisjoint := (List.nodup_append.1 (List.nodup_append.1 h.ids_append).2.1).2.2
  obtain ⟨p, hp, rfl⟩ := List.mem_map.1 hu
  exact hdisjoint _ (List.mem_map_of_mem ht) _ (List.mem_map.2 ⟨p, hp, rfl⟩)

theorem eq_of_ended (h : run.Accounted) {p q : TraceId × Trace}
    (hp : p ∈ run.session.workspace.ended) (hq : q ∈ run.session.workspace.ended)
    (hid : p.2.id = q.2.id) : p = q :=
  List.inj_on_of_nodup_map (List.nodup_append.1 (List.nodup_append.1 h.ids_append).2.1).2.1 hp hq hid

end Accounted

/-- The references of the key show the trace, and the program has no other way to it: it cannot open
a scope of that identity, and holds nothing that the trace owns. -/
structure Shows (run : Run) (k : TraceId) (shown : Trace) : Prop where
  lookup : run.session.workspace.ended.lookup k = some shown
  closed : k = shown.id ∨ ∃ t ∈ run.traces, t.id = k
  apart : k ≠ shown.id → shown.id ∉ run.session.workspace.references ∧
    ∀ p ∈ run.session.workspace.ended, p.1 ≠ shown.id
  unowned : ∀ p ∈ run.held, p.owner ≠ shown.id

namespace Shows

variable {u : Trace}

theorem mem_ended (h : run.Shows k shown) : (k, shown) ∈ run.session.workspace.ended :=
  Workspace.mem_of_lookup h.lookup

theorem mem_snd (h : run.Shows k shown) : shown ∈ run.session.workspace.ended.map Prod.snd :=
  List.mem_map_of_mem h.mem_ended

theorem mem_live (h : run.Shows k shown) : shown ∈ run.live :=
  List.mem_append_right _ (List.mem_append_right _ h.mem_snd)

theorem id_ne_of_scope (h : run.Shows k shown) (hrun : run.Accounted)
    (ht : t ∈ run.session.workspace.scopes) : t.id ≠ shown.id :=
  hrun.id_ne_of_scope ht (.inr h.mem_snd)

theorem key_ne_of_scope (h : run.Shows k shown) (hrun : run.Accounted)
    (ht : t ∈ run.session.workspace.scopes) : t.id ≠ k := by
  rcases h.closed with rfl | ⟨u, hu, rfl⟩
  · exact h.id_ne_of_scope hrun ht
  · exact hrun.id_ne_of_scope ht (.inl hu)

/-- No other key shows the trace. -/
theorem key_eq (h : run.Shows k shown) (hrun : run.Accounted) {key : TraceId}
    (hlookup : run.session.workspace.ended.lookup key = some u) (hid : u.id = shown.id) :
    key = k ∧ u = shown :=
  Prod.mk.inj (hrun.eq_of_ended (Workspace.mem_of_lookup hlookup) h.mem_ended hid)

theorem shows_eq (h : run.Shows k shown) (hrun : run.Accounted) :
    run.session.workspace.shows k = some shown := by
  have hfind : run.session.workspace.scopes.find? (·.id = k) = none :=
    List.find?_eq_none.2 fun t ht => by simpa using h.key_ne_of_scope hrun ht
  rw [Workspace.shows, hfind, h.lookup]
  rfl

/-- Of what the references show, it is the trace as often as they have the key. -/
theorem kept_filter (h : run.Shows k shown) (hrun : run.Accounted) :
    run.session.workspace.kept.filter (·.id = shown.id) =
      List.replicate (run.session.workspace.references.count k) shown := by
  have hother {key : TraceId} {u : Trace} (hkey : key ≠ k)
      (hu : run.session.workspace.shows key = some u) : u.id ≠ shown.id := by
    rw [Workspace.shows] at hu
    cases hfind : run.session.workspace.scopes.find? (·.id = key) with
    | some v =>
      rw [hfind] at hu
      cases hu
      exact h.id_ne_of_scope hrun (List.mem_of_find?_eq_some hfind)
    | none =>
      rw [hfind] at hu
      exact fun hid => hkey (h.key_eq hrun hu hid).1
  rw [Workspace.kept_eq]
  induction run.session.workspace.references with
  | nil => rfl
  | cons key ids ih =>
    by_cases hkey : key = k
    · subst hkey
      rw [List.filterMap_cons_some (h.shows_eq hrun), List.filter_cons_of_pos (by simp), ih,
        List.count_cons_self, List.replicate_succ]
    · rw [List.count_cons_of_ne hkey, ← ih]
      cases hkept : run.session.workspace.shows key with
      | none => rw [List.filterMap_cons_none hkept]
      | some u =>
        rw [List.filterMap_cons_some hkept,
          List.filter_cons_of_neg (by simpa using hother hkey hkept)]

/-- It takes a step that opens its key to have references show anything else. -/
theorem of_shelves (h : run.Shows k shown) (hrun : run.Accounted)
    (hreferences : ∀ id ∈ run'.session.workspace.references,
      id ∈ run.session.workspace.references ∨ ∃ t ∈ run.session.workspace.scopes, t.id = id)
    (hshelves : run.session.workspace.Shelves run'.session.workspace)
    (htraces : run.traces ⊆ run'.traces) (hheld : run'.held = run.held) : run'.Shows k shown := by
  have hclosed : k = shown.id ∨ ∃ t ∈ run'.traces, t.id = k :=
    h.closed.imp id fun ⟨t, ht, hid⟩ => ⟨t, htraces ht, hid⟩
  have hnew (hk : k ≠ shown.id) : shown.id ∉ run'.session.workspace.references := by
    intro hmem
    rcases hreferences _ hmem with hmem | ⟨t, ht, hid⟩
    · exact (h.apart hk).1 hmem
    · exact h.id_ne_of_scope hrun ht hid
  have hunowned : ∀ p ∈ run'.held, p.owner ≠ shown.id := hheld ▸ h.unowned
  rcases hshelves with hended | ⟨t, ht, v, hended⟩
  · exact ⟨hended ▸ h.lookup, hclosed, fun hk => ⟨hnew hk, hended ▸ (h.apart hk).2⟩, hunowned⟩
  · refine ⟨?_, hclosed, fun hk => ⟨hnew hk, fun p hp => ?_⟩, hunowned⟩
    · rw [hended, Workspace.lookup_cons, if_neg (h.key_ne_of_scope hrun ht).symm]
      exact h.lookup
    · rw [hended] at hp
      rcases List.mem_cons.1 hp with rfl | hp
      · exact h.id_ne_of_scope hrun ht
      · exact (h.apart hk).2 p hp

end Shows

/-! ### Later steps -/

/-- After the events, references go on showing the trace `shown`, which is `shown'` by then: it has
registered what it gave out by hand. Of `c` references those are left that were not given up. -/
structure Remains (c : Nat) (shown : Trace) (es : History) (run' : Run) (k' : TraceId)
    (shown' : Trace) : Prop where
  shows : run'.Shows k' shown'
  id : shown'.id = shown.id
  names : shown'.names = shown.names ++ es.byHand shown.id
  le : run'.session.workspace.references.count k' ≤ c
  ge : c ≤ run'.session.workspace.references.count k' + es.releases

theorem Remains.snoc {c : Nat} {k₁ k' : TraceId} {shown₁ shown' : Trace}
    (h : Remains c shown es run₁ k₁ shown₁)
    (h₁ : Remains (run₁.session.workspace.references.count k₁) shown₁ [e] run' k' shown') :
    Remains c shown (es ++ [e]) run' k' shown' where
  shows := h₁.shows
  id := h₁.id.trans h.id
  names := by
    rw [h₁.names, h.names, h.id, History.byHand_snoc, List.append_assoc, History.byHand_singleton]
  le := Nat.le_trans h₁.le h.le
  ge := by
    have hreleases : History.releases (es ++ [e]) = es.releases + History.releases [e] :=
      List.countP_append
    have := h.ge
    have := h₁.ge
    omega

namespace Shows

/-- Nothing is given up, nor given out by hand. -/
theorem remains {k' : TraceId} {c : Nat} (h : run'.Shows k' shown)
    (hcount : run'.session.workspace.references.count k' = c) (hhand : e.byHand shown.id = []) :
    Remains c shown [e] run' k' shown where
  shows := h
  id := rfl
  names := by rw [History.byHand_singleton, hhand, List.append_nil]
  le := Nat.le_of_eq hcount
  ge := by rw [hcount]; exact Nat.le_add_right _ _

theorem call (h : run.Shows k shown) (hrun : run.Accounted) {c : Call} {r? : Option Recorder}
    {a : Call.Answer} {s : Session} (hc : run.Admits c r?)
    (hcall : c.run.on run.session = (.ok a, s)) :
    Remains (run.session.workspace.references.count k) shown [⟨run.depth, .call c r? a⟩]
      (run.after c r? a s) k shown := by
  have hadds := Call.adds_of_ok hc.asks hcall
  obtain ⟨-, hleft⟩ := (c.ensures_run r? hc.asks).of_ok hcall
  -- what is answered was held before, or is owned by a trace of a scope
  have hanswer : ∀ p ∈ a.proxies, p.owner ≠ shown.id := by
    intro p hp
    rcases hleft.cases with ⟨-, hgiven⟩ | ⟨t, σs, w, hgives, hps, -⟩
    · exact h.unowned p (hc.given (hgiven hp))
    · obtain ⟨ts, hts⟩ := Workspace.exists_scopes hgives.active
      rw [Proxy.owner, hgives.owner _ (hps.subset (List.mem_map_of_mem hp))]
      exact h.id_ne_of_scope hrun (hts ▸ .head _)
  have hshows : (run.after c r? a s).Shows k shown := by
    refine ⟨hadds.ended ▸ h.lookup, h.closed, fun hk => ?_, fun p hp => ?_⟩
    · rw [after, hadds.references, hadds.ended]
      exact h.apart hk
    · exact (List.mem_append.1 hp).elim (h.unowned p) (hanswer p)
  exact hshows.remains (congrArg (List.count k) hadds.references) rfl

theorem hand {u u' : Trace} {name : Name} (h : run.Shows k shown) (hrun : run.Accounted)
    (hu : u ∈ run.live) (hname : u.GivesName name u') :
    ∃ shown', Remains (run.session.workspace.references.count k) shown
      [⟨run.depth, .hand u.id name⟩] (run.mapTraces fun v => if v.id = u.id then u' else v) k
      shown' := by
  let f (v : Trace) : Trace := if v.id = u.id then u' else v
  have hf (v : Trace) : (f v).id = v.id := by
    dsimp only [f]
    split
    · rw [hname.named.id, ‹v.id = u.id›]
    · rfl
  have hlookup : (run.mapTraces f).session.workspace.ended.lookup k = some (f shown) := by
    rw [mapTraces, Workspace.lookup_map_snd, h.lookup]
    rfl
  have hshows : (run.mapTraces f).Shows k (f shown) := by
    refine ⟨hlookup, ?_, ?_, ?_⟩
    · rw [hf]
      rcases h.closed with hid | ⟨t, ht, hid⟩
      · exact .inl hid
      · exact .inr ⟨f t, List.mem_map_of_mem ht, (hf t).trans hid⟩
    · rw [hf]
      refine fun hk => ⟨(h.apart hk).1, fun p hp => ?_⟩
      obtain ⟨q, hq, rfl⟩ := List.mem_map.1 hp
      exact (h.apart hk).2 q hq
    · rw [hf]
      exact h.unowned
  refine ⟨f shown, hshows, hf shown, ?_, Nat.le_refl _, Nat.le_add_right _ _⟩
  rw [History.byHand_singleton]
  by_cases hid : shown.id = u.id
  · obtain rfl := hrun.eq_of_id h.mem_live hu hid
    have hshown : f shown = u' := if_pos rfl
    rw [hshown, hname.names]
    exact congrArg (shown.names ++ ·) (if_pos rfl).symm
  · have hshown : f shown = shown := if_neg hid
    have hhand : Event.byHand shown.id ⟨run.depth, .hand u.id name⟩ = [] := if_neg (Ne.symm hid)
    rw [hshown, hhand, List.append_nil]

theorem resume {i : Nat} (h : run.Shows k shown) (hrun : run.Accounted)
    (ht : run.traces[i]? = some t) :
    Remains (run.session.workspace.references.count k) shown [⟨run.depth, .deed (.resume i)⟩]
      { run.inWorkspace (run.session.workspace.resume t) with
        traces := run.traces.take i ++ run.traces.drop (i + 1) }
      (run.session.workspace.rekey t.id k) shown := by
  have htraces : t ∈ run.traces := List.mem_of_getElem? ht
  have hsplit : run.traces = run.traces.take i ++ t :: run.traces.drop (i + 1) := by
    obtain ⟨hi, rfl⟩ := List.getElem?_eq_some_iff.1 ht
    rw [List.getElem_cons_drop, List.take_append_drop]
  have hne : t.id ≠ shown.id := hrun.id_ne_of_ended htraces h.mem_snd
  -- no other key becomes that of the trace
  have hkey {key : TraceId} (hmem : key ∈ run.session.workspace.references ∨
      ∃ p ∈ run.session.workspace.ended, p.1 = key)
      (heq : run.session.workspace.rekey t.id key = run.session.workspace.rekey t.id k) :
      key = k := by
    by_cases hk : k = t.id
    · subst hk
      rw [Workspace.rekey_self h.lookup] at heq
      refine by_contra fun hkey => ?_
      obtain ⟨hreferences, hended⟩ := h.apart hne
      rw [Workspace.rekey_of_ne hkey] at heq
      rcases hmem with hmem | ⟨p, hp, rfl⟩
      · exact hreferences (heq ▸ hmem)
      · exact hended p hp heq
    · rw [Workspace.rekey_of_ne hk] at heq
      rcases run.session.workspace.rekey_eq t.id key with hkey | ⟨rfl, v, hv, hkey⟩
      · exact hkey.symm.trans heq
      · have hid : v.id = k := hkey.symm.trans heq
        rcases h.closed with hclosed | ⟨u, hu, hclosed⟩
        · exact (h.key_eq hrun hv (hid.trans hclosed)).1
        · have hshown : v ∈ run.session.workspace.ended.map Prod.snd :=
            List.mem_map_of_mem (Workspace.mem_of_lookup hv)
          exact absurd (hclosed.trans hid.symm) (hrun.id_ne_of_ended hu hshown)
  have hshows : Shows { run.inWorkspace (run.session.workspace.resume t) with
      traces := run.traces.take i ++ run.traces.drop (i + 1) }
      (run.session.workspace.rekey t.id k) shown := by
    refine ⟨?_, ?_, ?_, h.unowned⟩
    · exact (Workspace.lookup_map_key fun p hp => hkey (.inr ⟨p, hp, rfl⟩)).trans h.lookup
    · by_cases hk : k = t.id
      · subst hk
        exact .inl (Workspace.rekey_self h.lookup)
      · rw [Workspace.rekey_of_ne hk]
        refine h.closed.imp id fun ⟨u, hu, hid⟩ => ⟨u, ?_, hid⟩
        rw [hsplit] at hu
        rcases List.mem_append.1 hu with hu | hu
        · exact List.mem_append_left _ hu
        · rcases List.mem_cons.1 hu with rfl | hu
          · exact absurd hid.symm hk
          · exact List.mem_append_right _ hu
    · intro hk'
      have hk : k ≠ t.id := by
        rintro rfl
        exact hk' (Workspace.rekey_self h.lookup)
      rw [Workspace.rekey_of_ne hk] at hk'
      have hold {key : TraceId} (heq : run.session.workspace.rekey t.id key = shown.id) :
          key = shown.id := by
        rcases run.session.workspace.rekey_eq t.id key with hkey | ⟨rfl, v, hv, hkey⟩
        · exact hkey.symm.trans heq
        · exact absurd (h.key_eq hrun hv (hkey.symm.trans heq)).1.symm hk
      refine ⟨fun hmem => ?_, fun p hp heq => ?_⟩
      · obtain ⟨key, hkey, heq⟩ := List.mem_map.1 hmem
        exact (h.apart hk').1 (hold heq ▸ hkey)
      · obtain ⟨q, hq, rfl⟩ := List.mem_map.1 hp
        exact (h.apart hk').2 q hq (hold heq)
  exact hshows.remains (Workspace.count_map_key fun key hmem => hkey (.inl hmem)) rfl

theorem does {d : Deed} (h : run.Shows k shown) (hrun : run.Accounted)
    (hd : run.does d = some run') : ∃ k', Remains (run.session.workspace.references.count k) shown
      [⟨run.depth, .deed d⟩] run' k' shown := by
  have hquiet {run' : Run}
      (hreferences : run'.session.workspace.references = run.session.workspace.references)
      (hshelves : run.session.workspace.Shelves run'.session.workspace)
      (htraces : run.traces ⊆ run'.traces) (hheld : run'.held = run.held) :
      ∃ k', Remains (run.session.workspace.references.count k) shown [⟨run.depth, .deed d⟩] run' k'
        shown :=
    ⟨k, remains (h.of_shelves hrun (fun id hid => .inl (hreferences ▸ hid)) hshelves htraces hheld)
      (congrArg (List.count k) hreferences) rfl⟩
  cases d with
  | newTrace source => cases hd; exact hquiet rfl (.inl rfl) (List.subset_cons_self _ _) rfl
  | resume i =>
    obtain ⟨t, ht, hd⟩ := Option.bind_eq_some_iff.1 hd
    cases hd
    exact ⟨_, h.resume hrun ht⟩
  | close =>
    cases hd
    exact hquiet (Workspace.references_close _) (Workspace.shelves_close _) (List.Subset.refl _) rfl
  | takeBack =>
    obtain ⟨t, ht, hd⟩ := Option.bind_eq_some_iff.1 hd
    cases hd
    exact hquiet (Workspace.references_takeBack _) (Workspace.shelves_takeBack _)
      (List.subset_cons_self _ _) rfl
  | keep =>
    obtain ⟨w, hw, rfl⟩ := Option.map_eq_some_iff.1 hd
    obtain ⟨u, hu, rfl⟩ := Workspace.exists_of_keep hw
    have hscope : u ∈ run.session.workspace.scopes := by
      obtain ⟨us, hus⟩ := Workspace.exists_scopes hu
      rw [hus]
      exact .head _
    refine ⟨k, remains (h.of_shelves hrun (fun id hid => ?_) (.inl rfl) (List.Subset.refl _) rfl)
      ?_ rfl⟩
    · refine (List.mem_append.1 hid).imp_right fun hid => ⟨u, hscope, ?_⟩
      exact (List.mem_singleton.1 hid).symm
    · refine List.count_append.trans ?_
      rw [List.count_singleton, if_neg (by simpa using h.key_ne_of_scope hrun hscope), Nat.add_zero]
  | release id =>
    cases hd
    have hshows : (run.inWorkspace (run.session.workspace.release id)).Shows k shown :=
      h.of_shelves hrun (fun id' hid => .inl (List.mem_of_mem_erase hid)) (.inl rfl)
        (List.Subset.refl _) rfl
    have hcount : (run.session.workspace.references.erase id).count k =
        run.session.workspace.references.count k - if id == k then 1 else 0 := List.count_erase ..
    refine ⟨k, hshows, rfl, (List.append_nil _).symm, ?_, ?_⟩
    · exact hcount ▸ Nat.sub_le _ _
    · change _ ≤ (run.session.workspace.references.erase id).count k + 1
      rw [hcount]
      split <;> omega
  | _ => cases hd; exact hquiet rfl (.inl rfl) (List.Subset.refl _) rfl

end Shows

/-- References that show a trace go on showing it, whatever the program does. -/
theorem Path.remains {n : Nat} (h : Path n run es run') (hrun : run.Accounted)
    (hshows : run.Shows k shown) : ∃ k' shown',
      Remains (run.session.workspace.references.count k) shown es run' k' shown' := by
  induction h with
  | start =>
    exact ⟨k, shown, hshows, rfl, (List.append_nil _).symm, Nat.le_refl _, Nat.le_add_right _ _⟩
  | call hpath hc hcall ih =>
    obtain ⟨k₁, shown₁, h₁⟩ := ih
    exact ⟨k₁, shown₁, h₁.snoc (h₁.shows.call (hpath.accounted hrun) hc hcall)⟩
  | hand hpath ht hname ih =>
    obtain ⟨k₁, shown₁, h₁⟩ := ih
    obtain ⟨shown', h'⟩ := h₁.shows.hand (hpath.accounted hrun) ht hname
    exact ⟨k₁, shown', h₁.snoc h'⟩
  | deed hpath hd _ ih =>
    obtain ⟨k₁, shown₁, h₁⟩ := ih
    obtain ⟨k', h'⟩ := h₁.shows.does (hpath.accounted hrun) hd
    exact ⟨k', shown₁, h₁.snoc h'⟩

end Run

end ProxyTrace
