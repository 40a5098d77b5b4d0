import Mathlib.Data.List.Forall2
import Mathlib.Data.Set.Function
import ProxyTrace.Proofs.Script
import ProxyTrace.Proofs.SingleAssignment

/-!
# Opacity of names

A script that requests no names is run twice, each time while a recorder is active. The two runs
may have other names registered beforehand, other sources of names and other recorders. They come
to the same but for the names: at each step both succeed or both fail in the same way, and what is
answered and recorded in one run is the translation of what is answered and recorded in the other
(`Script.names_opaque`). The translation takes the fresh names of one trace, in the order in which
they are given out, to those of the other.

The induction is on the script. Every command carries out a plan in one run and the translated plan
in the other (`Twins.step`), which draw equally many names and record equally many nodes.
-/

namespace ProxyTrace

variable {n k k' : Nat} {s s' s₁ s₂ s₁' s₂' : Session} {r r₁ r₂ : Recorder} {t t₁ t₂ : Trace}
  {g g₁ g₂ nodes : List Node} {τ : Translation}

open Script SessionM

/-! ### One run -/

namespace Trace

theorem mem_freshNames {m : Name} : m ∈ t.freshNames k ↔ ∃ j < k, t.fresh j = m := by
  simp [freshNames]

theorem freshNames_subset (hk : k ≤ k') : t.freshNames k ⊆ t.freshNames k' := by
  intro m hm
  obtain ⟨j, hj, hname⟩ := mem_freshNames.1 hm
  exact mem_freshNames.2 ⟨j, Nat.lt_of_lt_of_le hj hk, hname⟩

/-- The proxy has one of the first fresh names of the trace. -/
def Gave (t : Trace) (k : Nat) (p : Proxy) : Prop := p.name ∈ t.freshNames k ∧ p.owner = t.id

theorem Gave.mono {p : Proxy} (h : t.Gave k p) (hk : k ≤ k') : t.Gave k' p :=
  ⟨freshNames_subset hk h.1, h.2⟩

theorem gave_of_symbol {p : Proxy} {j : Nat} (h : p.symbol = t.symbol j) (hj : j < k) :
    t.Gave k p :=
  ⟨mem_freshNames.2 ⟨j, hj, congrArg Symbol.name h.symm⟩, congrArg Symbol.owner h⟩

end Trace

namespace Plan

variable {P : Proxy → Prop} {symbol : Nat → Symbol} {plan : Plan}

theorem forall_result (hgiven : ∀ p ∈ plan.given, P p)
    (hnew : ∀ j < plan.draws, ∀ p : Proxy, p.symbol = symbol j → P p) :
    ∀ p ∈ (plan.result symbol).proxies, P p := by
  intro p hp
  have hdrawn {j : Nat} {k : Sketch} (hj : j < plan.draws)
      (hp : p ∈ (Value.proxy (k.named (symbol j))).proxies) : P p := by
    obtain rfl := List.mem_singleton.1 hp
    exact hnew j hj _ (k.symbol_named _)
  cases plan with
  | answer v => exact hgiven p hp
  | draw k | record op args k => exact hdrawn Nat.one_pos hp
  | recordTwice op args k =>
    rcases List.mem_append.1 hp with hp | hp
    · exact hdrawn Nat.two_pos hp
    · exact hdrawn Nat.one_lt_two (by simpa [Value.itemProxies] using hp)

/-- What is answered was given, or has one of the names that are drawn. -/
theorem gave_result (hgiven : ∀ p ∈ plan.given, t.Gave k p) :
    ∀ p ∈ (plan.result fun j => t.symbol (k + j)).proxies, t.Gave (k + plan.draws) p := by
  apply forall_result
  · exact fun p hp => (hgiven p hp).mono (Nat.le_add_right ..)
  · exact fun j hj p hp => Trace.gave_of_symbol hp (Nat.add_lt_add_left hj k)

theorem names_of_mem_nodes {output : Value} {node : Node} (h : node ∈ plan.nodes output) :
    node.argNames ++ node.outputNames = (plan.given ++ output.proxies).map Proxy.name := by
  cases plan with
  | answer v => cases h
  | draw k => cases h
  | record op args k | recordTwice op args k =>
    obtain rfl := List.mem_singleton.1 h
    rw [List.map_append, Node.argNames_ofCall, Node.outputNames_ofCall, given]

end Plan

/-- The recorder is active, the innermost trace is `t` after so many more fresh names, and these
are the nodes of the recorder. -/
structure Session.Records (s : Session) (r : Recorder) (t : Trace) (k : Nat) (g : List Node) :
    Prop where
  context : s.context? = some r.context
  active : s.workspace.active? = some (t.after k)
  graph : (s.workspace.graph r).nodes = g

namespace Script.Command

variable {c : Command Value}

theorem on_run_of_plan_error (h : s.Records r t k g)
    (howned : ∀ v ∈ c.operands, ∀ p ∈ v.proxies, p.owner = t.id) {e : Error}
    (hplan : c.plan = .error e) : c.run.on s = (.error e, s) := by
  rw [on_run_eq h.context h.active (by simpa using howned), hplan, Plan.on_carryOut_error]

theorem on_run_of_plan (h : s.Records r t k g)
    (howned : ∀ v ∈ c.operands, ∀ p ∈ v.proxies, p.owner = t.id) {plan : Plan}
    (hplan : c.plan = .ok plan) :
    let v := plan.result fun j => t.symbol (k + j)
    ∃ s', c.run.on s = (.ok v, s') ∧ s'.Records r t (k + plan.draws) (g ++ plan.nodes v) := by
  intro v
  obtain ⟨w', hw', hactive, hgraph⟩ := plan.on_carryOut_ok r h.active
  rw [h.graph] at hgraph
  refine ⟨{ s with workspace := w' }, ?_, h.context, hactive, hgraph⟩
  rw [on_run_eq h.context h.active (by simpa using howned), hplan, hw']

end Script.Command

/-! ### Two runs -/

/-- The fresh names of the first trace are taken to those of the second one, in order. -/
noncomputable def Translation.between (t₁ t₂ : Trace) : Translation :=
  ⟨Function.extend t₁.fresh t₂.fresh id, fun _ => t₂.id⟩

theorem Translation.translate_symbol_between (t₁ t₂ : Trace) (k : Nat) :
    (t₁.symbol k).translate (between t₁ t₂) = t₂.symbol k :=
  congrArg (Symbol.mk · t₂.id) (t₁.fresh_injective.extend_apply t₂.fresh id k)

/-- Both runs have drawn equally many names, and what the second one has recorded since is the
translation of what the first one has. -/
structure Twins (r₁ r₂ : Recorder) (t₁ t₂ : Trace) (g₁ g₂ : List Node) (k : Nat)
    (nodes : List Node) (s₁ s₂ : Session) : Prop where
  first : s₁.Records r₁ t₁ k (g₁ ++ nodes)
  second : s₂.Records r₂ t₂ k (g₂ ++ nodes.map (Node.translate (.between t₁ t₂)))
  names : ∀ node ∈ nodes, node.argNames ++ node.outputNames ⊆ t₁.freshNames k

/-- After a plan has been carried out in the first run, and the translated plan in the second. -/
theorem Twins.carryOut (h : Twins r₁ r₂ t₁ t₂ g₁ g₂ k nodes s₁ s₂) {plan : Plan} {v : Value}
    (hgiven : ∀ p ∈ plan.given, t₁.Gave k p) (hv : ∀ p ∈ v.proxies, t₁.Gave (k + plan.draws) p)
    (h₁ : s₁'.Records r₁ t₁ (k + plan.draws) (g₁ ++ nodes ++ plan.nodes v))
    (h₂ : s₂'.Records r₂ t₂ (k + plan.draws) (g₂ ++ nodes.map (Node.translate (.between t₁ t₂)) ++
      (plan.nodes v).map (Node.translate (.between t₁ t₂)))) :
    Twins r₁ r₂ t₁ t₂ g₁ g₂ (k + plan.draws) (nodes ++ plan.nodes v) s₁' s₂' where
  first := by rwa [← List.append_assoc]
  second := by rwa [List.map_append, ← List.append_assoc]
  names := by
    intro node hnode m hm
    rcases List.mem_append.1 hnode with hnode | hnode
    · exact Trace.freshNames_subset (Nat.le_add_right ..) (h.names node hnode hm)
    · rw [Plan.names_of_mem_nodes hnode] at hm
      obtain ⟨p, hp, rfl⟩ := List.mem_map.1 hm
      rcases List.mem_append.1 hp with hp | hp
      · exact ((hgiven p hp).mono (Nat.le_add_right ..)).1
      · exact (hv p hp).1

/-- A command in both runs: they fail in the same way, and nothing changes, or answer the same but
for names. -/
theorem Twins.step (h : Twins r₁ r₂ t₁ t₂ g₁ g₂ k nodes s₁ s₂) {c : Command Value}
    (hc : ∀ v ∈ c.operands, ∀ p ∈ v.proxies, t₁.Gave k p) :
    let τ := Translation.between t₁ t₂
    let c' := c.map (Value.translate τ)
    (∃ e₁ e₂, c.run.on s₁ = (.error e₁, s₁) ∧ c'.run.on s₂ = (.error e₂, s₂) ∧
      e₁.kind = e₂.kind) ∨
    ∃ v s₁' s₂' k' nodes', c.run.on s₁ = (.ok v, s₁') ∧
      c'.run.on s₂ = (.ok (v.translate τ), s₂') ∧ k ≤ k' ∧
      (∀ p ∈ v.proxies, t₁.Gave k' p) ∧ Twins r₁ r₂ t₁ t₂ g₁ g₂ k' nodes' s₁' s₂' := by
  intro τ c'
  have howned₁ : ∀ v ∈ c.operands, ∀ p ∈ v.proxies, p.owner = t₁.id := fun v hv p hp =>
    (hc v hv p hp).2
  have howned₂ : ∀ v ∈ c'.operands, ∀ p ∈ v.proxies, p.owner = t₂.id := by
    intro v hv p hp
    rw [Command.operands_map] at hv
    obtain ⟨v, -, rfl⟩ := List.mem_map.1 hv
    rw [Value.proxies_translate] at hp
    obtain ⟨p, -, rfl⟩ := List.mem_map.1 hp
    exact congrArg Symbol.owner (p.symbol_translate τ)
  have hmatches : Matches (Plan.translate τ) c.plan c'.plan := c.matches_plan τ
  generalize hplan₁ : c.plan = x₁, hplan₂ : c'.plan = x₂ at hmatches
  cases hmatches with
  | error he =>
    exact .inl ⟨_, _, Command.on_run_of_plan_error h.first howned₁ hplan₁,
      Command.on_run_of_plan_error h.second howned₂ hplan₂, he⟩
  | ok plan =>
    have hgiven : ∀ p ∈ plan.given, t₁.Gave k p := Command.given_plan hc hplan₁
    have hv := Plan.gave_result hgiven
    obtain ⟨s₁', hrun₁, hrecords₁⟩ := Command.on_run_of_plan h.first howned₁ hplan₁
    obtain ⟨s₂', hrun₂, hrecords₂⟩ := Command.on_run_of_plan h.second howned₂ hplan₂
    -- the second run draws the names to which those of the first are taken
    rw [plan.result_translate τ fun j => (Translation.translate_symbol_between ..).symm]
      at hrun₂ hrecords₂
    rw [plan.nodes_translate, plan.draws_translate] at hrecords₂
    exact .inr ⟨_, s₁', s₂', k + plan.draws, _, hrun₁, hrun₂, Nat.le_add_right .., hv,
      h.carryOut hgiven hv hrecords₁ hrecords₂⟩

/-- Two runs of a script that start alike go on alike. -/
theorem Twins.run {n : Nat} {ρ : Registers Value n} (p : Script n)
    (h : Twins r₁ r₂ t₁ t₂ g₁ g₂ k nodes s₁ s₂) (hρ : ∀ i, ∀ p ∈ (ρ i).proxies, t₁.Gave k p) :
    let τ := Translation.between t₁ t₂
    let run₁ := (p.run ρ).run s₁
    let run₂ := (p.run fun i => (ρ i).translate τ).run s₂
    ∃ k' nodes', k ≤ k' ∧ Twins r₁ r₂ t₁ t₂ g₁ g₂ k' nodes' run₁.2 run₂.2 ∧
      List.Forall₂ (Matches (Value.translate τ)) run₁.1 run₂.1 ∧
      ∀ v, .ok v ∈ run₁.1 → ∀ p ∈ v.proxies, t₁.Gave k' p := by
  intro τ
  induction p generalizing k nodes s₁ s₂ with
  | done => exact ⟨k, nodes, Nat.le_refl k, h, .nil, nofun⟩
  | step c next caught ihnext ihcaught =>
    have hc : ∀ v ∈ (c.map (·.read Subtype.val ρ)).operands, ∀ p ∈ v.proxies, t₁.Gave k p := by
      intro v hv
      rw [Command.operands_map] at hv
      obtain ⟨a, -, rfl⟩ := List.mem_map.1 hv
      refine a.forall_read (P := fun v : Value => ∀ p ∈ v.proxies, t₁.Gave k p) ?_ hρ
      intro l p hp
      rw [l.property] at hp
      cases hp
    rw [Script.run, Script.run, run_bind_attempt, run_bind_attempt, c.map_read_translate]
    rcases h.step hc with ⟨e₁, e₂, h₁, h₂, he⟩ | ⟨v, s₁', s₂', k', nodes', h₁, h₂, hk, hv, h'⟩
    · obtain ⟨k', nodes', hk, h', houtcomes, hproxies⟩ := ihcaught e₁.kind h hρ
      rw [h₁, h₂]
      dsimp only
      rw [← he]
      refine ⟨k', nodes', hk, h', .cons (.error he) houtcomes, ?_⟩
      exact fun v hv => hproxies v ((List.mem_cons.1 hv).resolve_left nofun)
    · have hρ' : ∀ i, ∀ p ∈ (ρ.push v i).proxies, t₁.Gave k' p := by
        intro i
        rw [Registers.push]
        split
        · exact fun p hp => (hρ _ p hp).mono hk
        · exact hv
      obtain ⟨k'', nodes'', hk', h'', houtcomes, hproxies⟩ := ihnext v.anonymous h' hρ'
      rw [h₁, h₂]
      dsimp only
      rw [v.anonymous_translate]
      rw [Registers.map_push] at houtcomes h''
      refine ⟨k'', nodes'', Nat.le_trans hk hk', h'', .cons (.ok v) houtcomes, ?_⟩
      intro w hw p hp
      rcases List.mem_cons.1 hw with hw | hw
      · cases hw
        exact (hv p hp).mono hk'
      · exact hproxies w hw p hp

/-! ### The opacity of names -/

/-- While the recorder is active, the innermost trace, which was `t`, has given out the names, all
of them new, and the recorder has appended the nodes. -/
structure Session.Grows (r : Recorder) (t : Trace) (s : Session) (names : List Name)
    (nodes : List Node) (s' : Session) : Prop where
  context : s'.context? = some r.context
  active : ∃ source, s'.workspace.active? = some { t with names := t.names ++ names, source }
  distinct : names.Nodup
  new : ∀ n ∈ names, n ∉ t.names
  graph : (s'.workspace.graph r).nodes = (s.workspace.graph r).nodes ++ nodes

theorem Session.Records.grows (h : s'.Records r t k ((s.workspace.graph r).nodes ++ nodes)) :
    s.Grows r t (t.freshNames k) nodes s' where
  context := h.context
  active := by
    refine ⟨(t.after k).source, h.active.trans (congrArg some ?_)⟩
    rw [← t.names_after k, ← t.id_after k]
  distinct := t.nodup_freshNames k
  new n hn hmem := by
    obtain ⟨j, -, rfl⟩ := Trace.mem_freshNames.1 hn
    exact t.fresh_not_mem j (List.mem_append_left _ hmem)
  graph := h.graph

theorem Translation.bijOn_between (t₁ t₂ : Trace) (k : Nat) :
    Set.BijOn (between t₁ t₂).name {n | n ∈ t₁.freshNames k} {n | n ∈ t₂.freshNames k} := by
  have hname (j : Nat) : (between t₁ t₂).name (t₁.fresh j) = t₂.fresh j :=
    congrArg Symbol.name (translate_symbol_between t₁ t₂ j)
  refine ⟨?_, ?_, ?_⟩
  · intro n hn
    obtain ⟨j, hj, rfl⟩ := Trace.mem_freshNames.1 hn
    exact Trace.mem_freshNames.2 ⟨j, hj, (hname j).symm⟩
  · intro m hm n hn h
    obtain ⟨i, -, rfl⟩ := Trace.mem_freshNames.1 hm
    obtain ⟨j, -, rfl⟩ := Trace.mem_freshNames.1 hn
    rw [hname, hname] at h
    rw [t₂.fresh_injective h]
  · intro n hn
    obtain ⟨j, hj, rfl⟩ := Trace.mem_freshNames.1 hn
    exact ⟨t₁.fresh j, Trace.mem_freshNames.2 ⟨j, hj, rfl⟩, hname j⟩

/-- **Names are opaque to recording.** A script that requests no names is run in two sessions, each
with a recorder and a trace active. Under one bijection between the names given out in the two runs,
the graphs grow by the same nodes and the outcomes of all steps are the same, but for the texts of
failures. The nodes and the answers of the first run show names given out in it only. A translated
proxy has the same shape, element type, device, kind and value. -/
theorem Script.names_opaque (p : Script 0) (hc₁ : s₁.context? = some r₁.context)
    (ht₁ : s₁.workspace.active? = some t₁) (hc₂ : s₂.context? = some r₂.context)
    (ht₂ : s₂.workspace.active? = some t₂) :
    let run₁ := (p.run Fin.elim0).run s₁
    let run₂ := (p.run Fin.elim0).run s₂
    ∃ (τ : Translation) (names₁ names₂ : List Name) (nodes : List Node),
      (∀ id, τ.owner id = t₂.id) ∧ Set.BijOn τ.name {n | n ∈ names₁} {n | n ∈ names₂} ∧
      s₁.Grows r₁ t₁ names₁ nodes run₁.2 ∧
      s₂.Grows r₂ t₂ names₂ (nodes.map (Node.translate τ)) run₂.2 ∧
      (∀ node ∈ nodes, node.argNames ++ node.outputNames ⊆ names₁) ∧
      List.Forall₂ (Matches (Value.translate τ)) run₁.1 run₂.1 ∧
      ∀ v, .ok v ∈ run₁.1 → ∀ p ∈ v.proxies, p.name ∈ names₁ ∧ p.owner = t₁.id := by
  intro run₁ run₂
  have hstart : Twins r₁ r₂ t₁ t₂ (s₁.workspace.graph r₁).nodes (s₂.workspace.graph r₂).nodes
      0 [] s₁ s₂ :=
    ⟨⟨hc₁, ht₁, (List.append_nil _).symm⟩, ⟨hc₂, ht₂, (List.append_nil _).symm⟩, nofun⟩
  obtain ⟨k, nodes, -, hend, houtcomes, hproxies⟩ := hstart.run p fun i => i.elim0
  rw [Subsingleton.elim (fun i => Value.translate _ (Fin.elim0 i)) Fin.elim0] at hend houtcomes
  refine ⟨.between t₁ t₂, t₁.freshNames k, t₂.freshNames k, nodes, fun _ => rfl,
    Translation.bijOn_between t₁ t₂ k, hend.first.grows, hend.second.grows, hend.names, houtcomes,
    hproxies⟩

/-- The quotient and the remainder of an unknown number by 3, first with the names t0, t1 and so on,
and then in a trace that has given out x0 before. -/
theorem Script.names_opaque_divmod :
    let t₂ : Trace := ⟨⟨7⟩, ["x0"], .counter "x"⟩
    let s₁ : Session := ⟨Workspace.enter {}, [Recorder.context ⟨0⟩]⟩
    let s₂ : Session := ⟨{ scopes := [t₂] }, [Recorder.context ⟨1⟩]⟩
    let p : Script 0 :=
      step (.makeNumber .int none) (fun _ => step
        (.operate (.binary .divmod (.register 0) (.literal ⟨.int 3, rfl⟩))) (fun _ => done)
          (fun _ => done))
        (fun _ => done)
    let run₁ := (p.run Fin.elim0).run s₁
    let run₂ := (p.run Fin.elim0).run s₂
    ∃ (τ : Translation) (names₁ names₂ : List Name) (node : Node),
      Set.BijOn τ.name {n | n ∈ names₁} {n | n ∈ names₂} ∧ "x0" ∉ names₂ ∧
      (run₁.2.workspace.graph ⟨0⟩).nodes = [node] ∧
      (run₂.2.workspace.graph ⟨1⟩).nodes = [node.translate τ] ∧
      List.Forall₂ (Matches (Value.translate τ)) run₁.1 run₂.1 := by
  intro t₂ s₁ s₂ p run₁ run₂
  have ht₁ : s₁.workspace.active? = some (.empty ⟨0⟩) := rfl
  have ht₂ : s₂.workspace.active? = some t₂ := rfl
  obtain ⟨τ, names₁, names₂, nodes, -, hτ, h₁, h₂, -, houtcomes, -⟩ :=
    p.names_opaque rfl ht₁ rfl ht₂
  have hgraph₁ : (run₁.2.workspace.graph ⟨0⟩).nodes = nodes := h₁.graph
  have hlength : (run₁.2.workspace.graph ⟨0⟩).nodes.length = 1 := by decide +kernel
  rw [hgraph₁] at hlength
  obtain ⟨node, rfl⟩ := List.length_eq_one_iff.1 hlength
  refine ⟨τ, names₁, names₂, node, hτ, ?_, hgraph₁, h₂.graph, houtcomes⟩
  exact fun hmem => h₂.new "x0" hmem (.head _)

end ProxyTrace
