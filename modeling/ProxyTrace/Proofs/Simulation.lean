import ProxyTrace.Proofs.Dispatch
import ProxyTrace.Proofs.Recorder.Arithmetic
import ProxyTrace.Proofs.Replay
import ProxyTrace.Proofs.StraightLine

/-!
# Programs that are recorded

A straight-line program runs on values that stand for numbers (`Denotes`) in a session that records
(`Tracing`). Whenever it fails, so does the program on the numbers; otherwise a replay of the nodes
that it has left behind comes to what the program on the numbers does, whether that is a number or
a failure (`StraightLine.agrees`).

The induction is on the program. Its invariant is that each register of the one run stands for that
of the other, and that all names bound so far are names of the trace, so that a fresh name hides
none of them. After an operator that is recorded but fails on the numbers, the replay is over; the
run goes on, with a complex number in the place of the one that is missing.
-/

namespace ProxyTrace

variable {α : Type} {id : TraceId} {env env' : Bindings} {v a b : Value} {x y : Number}

/-- With the names of `env` bound, the value is the number, or it is a proxy for it in the hands of
the given trace. The kind of a proxy is at most the kind of the number. -/
inductive Denotes (id : TraceId) (env : Bindings) : Value → Number → Prop where
  | number (x : Number) : Denotes id env (.number x) x
  | proxy {p : NumberProxy} {x : Number} (owner : p.symbol.owner = id)
    (bound : env.lookup p.name = some x) (kind : p.kind ≤ x.kind) : Denotes id env p x

namespace Denotes

theorem number?_toTerm (h : Denotes id env v x) : v.toTerm.number? env = some x := by
  cases h with
  | number => rfl
  | proxy _ hbound _ => exact hbound

theorem exists_kind (h : Denotes id env v x) (op : String) :
    ∃ k, v.kind op = .ok k ∧ k ≤ x.kind := by
  cases h with
  | number => exact ⟨x.kind, rfl, Nat.le_refl _⟩
  | proxy _ _ hkind => exact ⟨_, rfl, hkind⟩

theorem owner_eq (h : Denotes id env v x) {p : Proxy} (hp : v.proxy? = some p) : p.owner = id := by
  cases h with
  | number => cases hp
  | proxy howner _ _ => cases hp; exact howner

theorem mono (h : Denotes id env v x)
    (hext : ∀ n y, env.lookup n = some y → env'.lookup n = some y) : Denotes id env' v x := by
  cases h with
  | number => exact .number x
  | proxy howner hbound hkind => exact .proxy howner (hext _ _ hbound) hkind

theorem eq_number (h : Denotes id env v x) (hv : v.numberProxy?.isSome = false) :
    v = .number x := by
  cases h with
  | number => rfl
  | proxy => cases hv

end Denotes

theorem Operand.denotes {n : Nat} {ρ : Registers Value n} {σ : Registers Number n}
    (h : ∀ i, Denotes id env (ρ i) (σ i)) (a : Operand n) :
    Denotes id env (a.value ρ) (a.number σ) := a.rel_read .number h

/-- The recorder is active in the session, the trace is the innermost one, and it has given out the
names that are bound. -/
structure Tracing (r : Recorder) (t : Trace) (env : Bindings) (s : Session) : Prop where
  context : s.context? = some r.context
  active : s.workspace.active? = some t
  named : ∀ b ∈ env, b.1 ∈ t.names

variable {r : Recorder} {t : Trace} {s : Session}

namespace Tracing

/-- A fresh name hides no name that is bound. -/
theorem lookup_fresh (h : Tracing r t env s) (y : Number) {n : Name}
    (hn : env.lookup n = some x) : List.lookup n ((t.makeName.1, y) :: env) = some x := by
  have hne : n ≠ t.makeName.1 := by
    rintro rfl
    obtain ⟨before, after, rfl, -⟩ := List.lookup_eq_some_iff.1 hn
    exact t.makeName_not_mem (h.named _ (List.mem_append_right _ (.head _)))
  rw [List.lookup_cons, beq_eq_false_iff_ne.2 hne]
  exact hn

theorem fresh (h : Tracing r t env s) (y : Number) :
    Tracing r t.makeName.2 ((t.makeName.1, y) :: env)
      { s with workspace := s.workspace.setActive t.makeName.2 } := by
  refine ⟨h.context, rfl, ?_⟩
  intro b hb
  rw [Trace.names_makeName, List.mem_append, List.mem_singleton]
  rcases List.mem_cons.1 hb with rfl | hb
  · exact .inr rfl
  · exact .inl (h.named b hb)

theorem record (h : Tracing r t env s) (n : Node) :
    Tracing r t env { s with workspace := s.workspace.record r n } :=
  ⟨h.context, h.active, h.named⟩

theorem denotes_fresh (h : Tracing r t env s) (hv : Denotes t.id env v x) (y : Number) :
    Denotes t.id ((t.makeName.1, y) :: env) v x :=
  hv.mono fun _ _ => h.lookup_fresh y

theorem denotes_nextNumber (t : Trace) (env : Bindings) {k : NumberKind} {value : Option Number}
    (hk : k ≤ y.kind) : Denotes t.id ((t.makeName.1, y) :: env) (t.nextNumber k value) y :=
  .proxy rfl (List.lookup_cons_self ..) hk

theorem on_unary (h : Tracing r t env s) (op : UnaryOp) {p : NumberProxy}
    (hp : p.symbol.owner = t.id) :
    (Value.unary op p).on s = SessionM.on (r.unary op p) s := by
  rw [← r.unary_context]
  refine Request.on_run_of_reaches (q := .unary op p) rfl h.context h.active ?_
  intro q hq
  obtain rfl := List.mem_singleton.1 hq
  exact hp

/-- An operator of arithmetic on numbers is handed to the recorder if one is a proxy. -/
theorem on_binary (h : Tracing r t env s) {op : BinaryOp} (hop : op.isScalar = true ∨ op = .divmod)
    (ha : Denotes t.id env a x) (hb : Denotes t.id env b y)
    (hproxy : (a.numberProxy?.isSome || b.numberProxy?.isSome) = true) :
    (a.binary op b).on s = SessionM.on (r.binary op a b) s := by
  have hreaches (p : NumberProxy) (other : Value) : op.reaches (.number p) other = true := by
    rcases hop with hop | rfl
    · cases op <;> first | rfl | cases hop
    · rfl
  rw [← r.binary_context]
  refine Request.on_run_of_reaches (q := .binary op a b) ?_ h.context h.active fun p hp => ?_
  · cases ha with
    | @proxy p _ _ _ _ => exact hreaches p b
    | number x =>
      cases hb with
      | @proxy p _ _ _ _ => exact hreaches p (.number x)
      | number y => cases hproxy
  · obtain ⟨v, hv, hvp⟩ := List.mem_filterMap.1 hp
    rcases List.mem_cons.1 hv with rfl | hv
    · exact ha.owner_eq hvp
    · obtain rfl := List.mem_singleton.1 hv
      exact hb.owner_eq hvp

/-- An operator of arithmetic on numbers is one on native numbers, or it fails on the numbers and
in the session, or the rules of the recorder give its result a kind. -/
theorem binary_cases (h : Tracing r t env s) {op : BinaryOp}
    (hop : op.isScalar = true ∨ op = .divmod) (ha : Denotes t.id env a x)
    (hb : Denotes t.id env b y) :
    (a = .number x ∧ b = .number y) ∨
    (∃ e e', (a.binary op b).on s = (.error e, s) ∧ x.binary op y = .error e') ∨
    ∃ j k l, a.kind op.name = .ok j ∧ b.kind op.name = .ok k ∧ j ≤ x.kind ∧ k ≤ y.kind ∧
      (a.numberProxy?.isSome || b.numberProxy?.isSome) = true ∧
      (j.promote k).binary? op = some l := by
  cases hproxy : a.numberProxy?.isSome || b.numberProxy?.isSome with
  | false =>
    obtain ⟨hav, hbv⟩ := Bool.or_eq_false_iff.1 hproxy
    exact .inl ⟨ha.eq_number hav, hb.eq_number hbv⟩
  | true =>
    obtain ⟨j, hj, hjx⟩ := ha.exists_kind op.name
    obtain ⟨k, hk, hky⟩ := hb.exists_kind op.name
    cases hl : (j.promote k).binary? op with
    | some l => exact .inr (.inr ⟨j, k, l, hj, hk, hjx, hky, rfl, hl⟩)
    | none =>
      have he := Recorder.on_binary_error (r := r) (w := s.workspace) hj hk hproxy hl
      have hon := h.on_binary hop ha hb hproxy
      rw [SessionM.on_liftM_workspace, he] at hon
      -- the rules reject no operator that has an answer on the numbers
      cases hans : x.binary op y with
      | error e => exact .inr (.inl ⟨_, e, hon, rfl⟩)
      | ok ans =>
        rcases hop with hop | rfl
        · obtain ⟨_, _, -, hl', -⟩ := Number.exists_binary? hop hjx hky hans
          rw [hl] at hl'
          cases hl'
        · obtain ⟨_, _, _, -, hl', -⟩ := Number.exists_binary?_divmod hjx hky hans
          rw [hl] at hl'
          cases hl'

end Tracing

/-- What has happened since `s`, where the names of `env` were bound: a failure that the numbers
have too, or an answer to which the nodes added since then lead a replay, unless it fails as the
numbers do. -/
def Agrees (r : Recorder) (env : Bindings) (s : Session)
    (outcome : Except Error Value × Session) (native : Except Error Number) : Prop :=
  match outcome with
  | (.error _, _) => ∃ e, native = .error e
  | (.ok v, s') => ∃ ns, (s'.workspace.graph r).nodes = (s.workspace.graph r).nodes ++ ns ∧
      replayTo env ns v.toTerm = some native

namespace Agrees

variable {s₁ : Session} {outcome : Except Error Value × Session} {native : Except Error Number}
  {node : Node}

/-- An operator that the numbers survive binds what it answers. -/
theorem of_node {ans : Number.Answer}
    (hgraph : s₁.workspace.graph r = (s.workspace.graph r).push node)
    (heval : node.evaluate? env = some (.ok ans)) (hbind : node.output.bind? env ans = some env')
    (h : Agrees r env' s₁ outcome native) : Agrees r env s outcome native := by
  obtain ⟨_ | v, s'⟩ := outcome
  · exact h
  · obtain ⟨ns, hns, hreplay⟩ := h
    refine ⟨node :: ns, ?_, ?_⟩
    · rw [hns, hgraph, Graph.push, List.append_assoc, List.singleton_append]
    · rw [replayTo_cons_ok heval hbind, hreplay]

/-- A node that fails on the numbers ends the replay, whatever comes after it. -/
theorem of_node_error {e : Error} (hgraph : s₁.workspace.graph r = (s.workspace.graph r).push node)
    (heval : node.evaluate? env = some (.error e)) (h : Agrees r env' s₁ outcome native) :
    Agrees r env s outcome (.error e) := by
  obtain ⟨_ | v, s'⟩ := outcome
  · exact ⟨e, rfl⟩
  · obtain ⟨ns, hns, -⟩ := h
    refine ⟨node :: ns, ?_, replayTo_cons_error heval⟩
    rw [hns, hgraph, Graph.push, List.append_assoc, List.singleton_append]

/-- An operator with one result is recorded, and what comes after it. -/
theorem of_fresh {op : String} {args : List Term} {m : Name} {k : NumberKind}
    {answer : Except Error Number.Answer} {g : Number → Except Error Number}
    (hgraph : s₁.workspace.graph r = (s.workspace.graph r).push ⟨op, args, .name m⟩)
    (heval : Node.evaluate? env ⟨op, args, .name m⟩ = some answer)
    (hkind : ∀ ans, answer = .ok ans → ∃ y, ans = .single y ∧ k ≤ y.kind)
    (hrest : ∀ y : Number, k ≤ y.kind → Agrees r ((m, y) :: env) s₁ outcome (g y)) :
    Agrees r env s outcome (do g (← answer).first) := by
  cases answer with
  | error e => exact of_node_error hgraph heval (hrest (.complex .zero) k.le_complex)
  | ok ans =>
    obtain ⟨y, rfl, hy⟩ := hkind ans rfl
    exact of_node hgraph heval rfl (hrest y hy)

/-- An operator with two results is recorded, and what comes after it. -/
theorem of_fresh_pair {op : String} {args : List Term} {m m' : Name} {k : NumberKind}
    {answer : Except Error Number.Answer} {g : Number.Answer → Except Error Number}
    (hgraph : s₁.workspace.graph r =
      (s.workspace.graph r).push ⟨op, args, .tuple [.name m, .name m']⟩)
    (heval : Node.evaluate? env ⟨op, args, .tuple [.name m, .name m']⟩ = some answer)
    (hkind : ∀ ans, answer = .ok ans → ∃ y z, ans = .pair y z ∧ k ≤ y.kind ∧ k ≤ z.kind)
    (hrest : ∀ y z : Number, k ≤ y.kind → k ≤ z.kind →
      Agrees r ((m', z) :: (m, y) :: env) s₁ outcome (g (.pair y z))) :
    Agrees r env s outcome (answer >>= g) := by
  cases answer with
  | error e =>
    exact of_node_error hgraph heval
      (hrest (.complex .zero) (.complex .zero) k.le_complex k.le_complex)
  | ok ans =>
    obtain ⟨y, z, rfl, hy, hz⟩ := hkind ans rfl
    exact of_node hgraph heval rfl (hrest y z hy hz)

end Agrees

namespace StraightLine

variable {n : Nat} {ρ : Registers Value n} {σ : Registers Number n}

theorem agrees_unary (h : Tracing r t env s) (hρ : ∀ i, Denotes t.id env (ρ i) (σ i))
    (op : UnaryOp) (a : Operand n) {rest : StraightLine (n + 1)}
    (ih : ∀ {t env s ρ σ}, Tracing r t env s → (∀ i, Denotes t.id env (ρ i) (σ i)) →
      Agrees r env s ((rest.run ρ).on s) (rest.eval σ)) :
    Agrees r env s (((unary op a rest).run ρ).on s) ((unary op a rest).eval σ) := by
  have ha := Operand.denotes hρ a
  rw [run, eval]
  generalize a.value ρ = v at ha ⊢
  generalize a.number σ = x at ha ⊢
  cases ha with
  | number x =>
    rw [SessionM.on_bind, Value.on_unary_number]
    cases x.unary op with
    | error e => exact ⟨e, rfl⟩
    | ok y => exact ih h (Registers.forall_push hρ (.number y))
  | @proxy p x howner hbound hkind =>
    have hon := h.on_unary op howner
    rw [SessionM.on_liftM_workspace] at hon
    cases hk : p.kind.unary? op with
    | none =>
      rw [Recorder.on_unary_error hk] at hon
      rw [SessionM.on_bind_error hon]
      cases hx : x.unary op with
      | error e => exact ⟨e, rfl⟩
      | ok y =>
        obtain ⟨k, hk', -⟩ := Number.exists_unary? hkind hx
        rw [hk] at hk'
        cases hk'
    | some k =>
      rw [Recorder.on_unary h.active hk] at hon
      rw [SessionM.on_bind_ok hon]
      have heval : Node.evaluate? env ⟨op.name, [.name p.name], .name t.makeName.1⟩ =
          some (.single <$> x.unary op) := Node.evaluate?_unary hbound
      have hfirst : (do rest.eval (σ.push (← x.unary op))) =
          (do rest.eval (σ.push (← .single <$> x.unary op : Number.Answer).first)) := by
        cases x.unary op <;> rfl
      rw [hfirst]
      refine Agrees.of_fresh (k := k) (Workspace.graph_record ..) heval (fun ans hans => ?_)
        fun y hy => ih ((h.fresh y).record _) ?_
      · obtain ⟨y, hy, rfl⟩ := Number.exists_of_single hans
        obtain ⟨k', hk', hle⟩ := Number.exists_unary? hkind hy
        obtain rfl := Option.some.inj (hk.symm.trans hk')
        exact ⟨y, rfl, hle⟩
      · refine Registers.forall_push (fun i => ?_) ?_
        · exact h.denotes_fresh (hρ i) y
        · exact Tracing.denotes_nextNumber t env hy

theorem agrees_binary (h : Tracing r t env s) (hρ : ∀ i, Denotes t.id env (ρ i) (σ i))
    {op : BinaryOp} (hop : op.isScalar = true) (a b : Operand n) {rest : StraightLine (n + 1)}
    (ih : ∀ {t env s ρ σ}, Tracing r t env s → (∀ i, Denotes t.id env (ρ i) (σ i)) →
      Agrees r env s ((rest.run ρ).on s) (rest.eval σ)) :
    Agrees r env s (((binary op hop a b rest).run ρ).on s) ((binary op hop a b rest).eval σ) := by
  have ha := Operand.denotes hρ a
  have hb := Operand.denotes hρ b
  rw [run, eval]
  generalize a.value ρ = v, a.number σ = x, b.value ρ = w, b.number σ = y at ha hb ⊢
  rcases h.binary_cases (.inl hop) ha hb with
    ⟨rfl, rfl⟩ | ⟨e, e', hon, hans⟩ | ⟨j, k, l, hj, hk, hjx, hky, hproxy, hl⟩
  · rw [SessionM.on_bind, Value.on_binary_number]
    cases hans : x.binary op y with
    | error e => exact ⟨e, rfl⟩
    | ok ans =>
      obtain ⟨z, -, rfl, -⟩ := Number.binary?_kind hop hans
      exact ih h (Registers.forall_push hρ (.number z))
  · rw [SessionM.on_bind_error hon, hans]
    exact ⟨e', rfl⟩
  · have hne : op ≠ .divmod := by
      rintro rfl
      cases hop
    have hon := h.on_binary (.inl hop) ha hb hproxy
    rw [SessionM.on_liftM_workspace, Recorder.on_binary h.active hj hk hproxy hne hl] at hon
    rw [SessionM.on_bind_ok hon]
    have heval : Node.evaluate? env ⟨op.name, [v.toTerm, w.toTerm], .name t.makeName.1⟩ =
        some (x.binary op y) := Node.evaluate?_binary ha.number?_toTerm hb.number?_toTerm
    refine Agrees.of_fresh (k := l) (Workspace.graph_record ..) heval (fun ans hans => ?_)
      fun z hz => ih ((h.fresh z).record _) ?_
    · obtain ⟨z, l', rfl, hl', hle⟩ := Number.exists_binary? hop hjx hky hans
      obtain rfl := Option.some.inj (hl.symm.trans hl')
      exact ⟨z, rfl, hle⟩
    · refine Registers.forall_push (fun i => ?_) ?_
      · exact h.denotes_fresh (hρ i) z
      · exact Tracing.denotes_nextNumber t env hz

theorem agrees_divmod (h : Tracing r t env s) (hρ : ∀ i, Denotes t.id env (ρ i) (σ i))
    (a b : Operand n) {rest : StraightLine (n + 2)}
    (ih : ∀ {t env s ρ σ}, Tracing r t env s → (∀ i, Denotes t.id env (ρ i) (σ i)) →
      Agrees r env s ((rest.run ρ).on s) (rest.eval σ)) :
    Agrees r env s (((divmod a b rest).run ρ).on s) ((divmod a b rest).eval σ) := by
  have ha := Operand.denotes hρ a
  have hb := Operand.denotes hρ b
  rw [run, eval]
  generalize a.value ρ = v, a.number σ = x, b.value ρ = w, b.number σ = y at ha hb ⊢
  rcases h.binary_cases (.inr rfl) ha hb with
    ⟨rfl, rfl⟩ | ⟨e, e', hon, hans⟩ | ⟨j, k, l, hj, hk, hjx, hky, hproxy, hl⟩
  · rw [SessionM.on_bind, Value.on_binary_number]
    cases hans : x.binary .divmod y with
    | error e => exact ⟨e, rfl⟩
    | ok ans =>
      obtain ⟨q, m, -, rfl, -⟩ := Number.binary?_kind_divmod hans
      exact ih h (Registers.forall_push (Registers.forall_push hρ (.number q)) (.number m))
  · rw [SessionM.on_bind_error hon, hans]
    exact ⟨e', rfl⟩
  · have hon := h.on_binary (.inr rfl) ha hb hproxy
    rw [SessionM.on_liftM_workspace, Recorder.on_divmod h.active hj hk hproxy hl] at hon
    rw [SessionM.on_bind_ok hon]
    have heval : Node.evaluate? env ⟨BinaryOp.divmod.name, [v.toTerm, w.toTerm],
        .tuple [.name t.makeName.1, .name t.makeName.2.makeName.1]⟩ = some (x.binary .divmod y) :=
      Node.evaluate?_binary ha.number?_toTerm hb.number?_toTerm
    refine Agrees.of_fresh_pair (k := l) (Workspace.graph_record ..) heval (fun ans hans => ?_)
      fun q m hq hm => ih (((h.fresh q).fresh m).record _) ?_
    · obtain ⟨q, m, l', rfl, hl', hq, hm⟩ := Number.exists_binary?_divmod hjx hky hans
      obtain rfl := Option.some.inj (hl.symm.trans hl')
      exact ⟨q, m, rfl, hq, hm⟩
    -- the quotient is bound before the remainder, whose name is fresh beside it
    · refine Registers.forall_push (Registers.forall_push (fun i => ?_) ?_) ?_
      · exact (h.fresh q).denotes_fresh (h.denotes_fresh (hρ i) q) m
      · exact (h.fresh q).denotes_fresh (Tracing.denotes_nextNumber t env hq) m
      · exact Tracing.denotes_nextNumber t.makeName.2 _ hm

/-- Recorded, a program fails only if it fails on the numbers, and otherwise a replay of what it
has recorded comes to what it does on the numbers. -/
theorem agrees (p : StraightLine n) (h : Tracing r t env s)
    (hρ : ∀ i, Denotes t.id env (ρ i) (σ i)) :
    Agrees r env s ((p.run ρ).on s) (p.eval σ) := by
  -- every instruction draws fresh names, so the trace and the bindings move with the registers
  induction p generalizing t env s with
  | output a =>
    refine ⟨[], (List.append_nil _).symm, ?_⟩
    rw [replayTo_nil, (Operand.denotes hρ a).number?_toTerm]
    rfl
  | unary op a rest ih => exact agrees_unary h hρ op a ih
  | binary op hop a b rest ih => exact agrees_binary h hρ hop a b ih
  | divmod a b rest ih => exact agrees_divmod h hρ a b ih

end StraightLine

end ProxyTrace
