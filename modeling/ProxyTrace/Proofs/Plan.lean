import ProxyTrace.Proofs.Allocation
import ProxyTrace.Proofs.Ownership

/-!
# Plans

A call of a recorder has two parts. The first looks at the operands alone and comes to a plan
(`Plan`): an answer, or what is known of the new proxies besides their symbols (`Sketch`), with the
node to append. The second carries the plan out (`Plan.perform`): it draws fresh names of the
innermost trace, in order, and records. It never fails, and what it leaves behind is read off the
plan and the sequence of names that the trace goes on to give out (`Plan.on_perform`).
-/

namespace ProxyTrace

variable {w : Workspace} {t : Trace} {k : Nat}

/-! ### The names that a trace goes on to give out -/

namespace Trace

/-- The trace after it has given out that many more fresh names. -/
def after (t : Trace) : Nat → Trace
  | 0 => t
  | k + 1 => (t.after k).makeName.2

/-- The fresh name that the trace gives out after that many others. -/
def fresh (t : Trace) (k : Nat) : Name := (t.after k).makeName.1

/-- The symbol of that name. -/
def symbol (t : Trace) (k : Nat) : Symbol := ⟨t.fresh k, t.id⟩

/-- The first fresh names. -/
def freshNames (t : Trace) (k : Nat) : List Name := (List.range k).map t.fresh

theorem freshNames_succ (t : Trace) (k : Nat) :
    t.freshNames (k + 1) = t.freshNames k ++ [t.fresh k] := by
  rw [freshNames, List.range_succ, List.map_append]
  rfl

@[simp] theorem id_after (t : Trace) (k : Nat) : (t.after k).id = t.id := by
  induction k with
  | zero => rfl
  | succ k ih => rw [after, id_makeName, ih]

theorem names_after (t : Trace) (k : Nat) : (t.after k).names = t.names ++ t.freshNames k := by
  induction k with
  | zero => exact (List.append_nil _).symm
  | succ k ih =>
    rw [after, names_makeName, ih, freshNames_succ, List.append_assoc]
    rfl

/-- A fresh name is none that was there before, and none of the fresh names before it. -/
theorem fresh_not_mem (t : Trace) (k : Nat) : t.fresh k ∉ t.names ++ t.freshNames k := by
  rw [← names_after]
  exact makeName_not_mem _

theorem fresh_injective (t : Trace) : Function.Injective t.fresh := by
  have hlt {j k : Nat} (hjk : j < k) : t.fresh j ≠ t.fresh k := by
    intro h
    refine t.fresh_not_mem k (List.mem_append_right _ ?_)
    rw [← h]
    exact List.mem_map_of_mem (List.mem_range.2 hjk)
  intro j k h
  rcases Nat.lt_trichotomy j k with hjk | rfl | hjk
  · exact absurd h (hlt hjk)
  · rfl
  · exact absurd h.symm (hlt hjk)

theorem nodup_freshNames (t : Trace) (k : Nat) : (t.freshNames k).Nodup :=
  List.Pairwise.map _ (fun _ _ h => mt (@t.fresh_injective _ _) h) List.nodup_range

end Trace

/-! ### Sketches -/

/-- What is known of a proxy besides its symbol. -/
inductive Sketch where
  | untyped
  | number (kind : NumberKind) (value : Option Number)
  | tensor (shape : List Nat) (device : Device) (dtype trueDtype : DType) (numel ndim : Nat)
  deriving DecidableEq

/-- The proxy of that symbol. -/
def Sketch.named (σ : Symbol) : Sketch → Proxy
  | untyped => .untyped σ
  | number kind value => .number { symbol := σ, kind, value }
  | tensor shape device dtype trueDtype numel ndim =>
    .tensor { symbol := σ, shape, device, dtype, trueDtype, numel, ndim }

def Proxy.sketch : Proxy → Sketch
  | untyped _ => .untyped
  | number p => .number p.kind p.value
  | tensor t => .tensor t.shape t.device t.dtype t.trueDtype t.numel t.ndim

@[simp] theorem Proxy.named_sketch (p : Proxy) : p.sketch.named p.symbol = p := by
  cases p <;> rfl

namespace Sketch

@[simp] theorem symbol_named (σ : Symbol) (k : Sketch) : (k.named σ).symbol = σ := by
  cases k <;> rfl

/-- A new proxy of a fresh name. -/
def draw (k : Sketch) : WorkspaceM Value := do return .proxy (k.named (← WorkspaceM.allocate none))

theorem on_draw (ht : w.active? = some (t.after k)) (sketch : Sketch) :
    sketch.draw.on w =
      (.ok (.proxy (sketch.named (t.symbol k))), w.setActive (t.after (k + 1))) := by
  refine (WorkspaceM.on_bind_ok (WorkspaceM.on_allocate_none ht)).trans ?_
  rw [Trace.id_after]
  rfl

end Sketch

/-! ### Plans -/

/-- What a call comes to before any name is drawn. -/
inductive Plan where
  | answer (v : Value)
  /-- A new proxy, of which nothing is recorded. -/
  | draw (k : Sketch)
  /-- A new proxy, which is the output of the call. -/
  | record (op : String) (args : List Value) (k : Sketch)
  /-- Two new proxies, which are the output of the call. -/
  | recordTwice (op : String) (args : List Value) (k : Sketch)

namespace Plan

def perform (r : Recorder) : Plan → WorkspaceM Value
  | answer v => return v
  | draw k => k.draw
  | record op args k => do WorkspaceM.record r op args (← k.draw)
  | recordTwice op args k => do WorkspaceM.record r op args (.tuple [← k.draw, ← k.draw])

/-- The number of new proxies. -/
def draws : Plan → Nat
  | answer _ => 0
  | draw _ | record .. => 1
  | recordTwice .. => 2

/-- What is answered if the symbols of the new proxies are the given ones, in order. -/
def result (symbol : Nat → Symbol) : Plan → Value
  | answer v => v
  | draw k | record _ _ k => .proxy (k.named (symbol 0))
  | recordTwice _ _ k => .tuple [.proxy (k.named (symbol 0)), .proxy (k.named (symbol 1))]

/-- What is recorded, the output being the given one. -/
def nodes (output : Value) : Plan → List Node
  | answer _ | draw _ => []
  | record op args _ | recordTwice op args _ => [.ofCall op args output]

/-- What is known of all operands. -/
def given : Plan → List Proxy
  | answer v => v.proxies
  | draw _ => []
  | record _ args _ | recordTwice _ args _ => Value.itemProxies args

/-- A plan is carried out with the next fresh names of the innermost trace. -/
theorem on_perform (plan : Plan) (r : Recorder) (ht : w.active? = some (t.after k)) :
    let v := plan.result fun j => t.symbol (k + j)
    ∃ w', (plan.perform r).on w = (.ok v, w') ∧ w'.active? = some (t.after (k + plan.draws)) ∧
      (w'.graph r).nodes = (w.graph r).nodes ++ plan.nodes v := by
  have hrecord (w : Workspace) (n : Node) :
      ((w.record r n).graph r).nodes = (w.graph r).nodes ++ [n] := by
    rw [Workspace.graph_record]
    rfl
  cases plan with
  | answer v => exact ⟨w, rfl, ht, (List.append_nil _).symm⟩
  | draw sketch => exact ⟨_, sketch.on_draw ht, rfl, (List.append_nil _).symm⟩
  | record op args sketch =>
    exact ⟨_, WorkspaceM.on_bind_ok (sketch.on_draw ht), rfl, hrecord _ _⟩
  | recordTwice op args sketch =>
    have hfirst := sketch.on_draw ht
    have hsecond := sketch.on_draw (w.active?_setActive (t.after (k + 1)))
    refine ⟨_, (WorkspaceM.on_bind_ok hfirst).trans (WorkspaceM.on_bind_ok hsecond), rfl, ?_⟩
    exact hrecord _ _

end Plan

end ProxyTrace
