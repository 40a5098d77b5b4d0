import ProxyTrace.TracedCall

/-!
# Replay of graphs

A graph over numbers is a program in names: `replay` evaluates its nodes in order from numbers
bound to the inputs, each with the operator on numbers that its node names, and binds what comes
out to the names of the output. It answers `none` where a node means nothing to it: an unbound
name, an argument that is no number, an output that does not fit.
-/

namespace ProxyTrace

/-- The numbers that names stand for, the latest first. -/
abbrev Bindings := List (Name × Number)

/-- The number that a term stands for. -/
def Term.number? (env : Bindings) : Term → Option Number
  | .number x => some x
  | .name n => env.lookup n
  | _ => Option.none

/-- The bindings with an answer bound to an output. -/
def Term.bind? (env : Bindings) : Term → Number.Answer → Option Bindings
  | .name n, .single x => some ((n, x) :: env)
  | .tuple [.name n, .name m], .pair x y => some ((m, y) :: (n, x) :: env)
  | _, _ => Option.none

/-- What the operator of a node answers on the numbers that its arguments stand for. -/
def Node.evaluate? (env : Bindings) (n : Node) : Option (Except Error Number.Answer) :=
  match n.args with
  | [a] => do
    let op ← UnaryOp.ofName? n.op
    let x ← a.number? env
    return .single <$> x.unary op
  | [a, b] => do
    let op ← BinaryOp.ofName? n.op
    let x ← a.number? env
    let y ← b.number? env
    return x.binary op y
  | _ => none

/-- The bindings after nodes in their order, or the first failure. -/
def replay (env : Bindings) : List Node → Option (Except Error Bindings)
  | [] => some (.ok env)
  | n :: ns => do
    match ← n.evaluate? env with
    | .error e => some (.error e)
    | .ok ans => replay (← n.output.bind? env ans) ns

/-- The number that a term stands for after nodes, or the first failure. -/
def replayTo (env : Bindings) (ns : List Node) (output : Term) : Option (Except Error Number) := do
  match ← replay env ns with
  | .error e => some (.error e)
  | .ok env => .ok <$> output.number? env

/-- Names bound to numbers, one by one. -/
def bindNames? (env : Bindings) : List Term → List Number → Option Bindings
  | [], [] => some env
  | .name n :: ts, x :: xs => bindNames? ((n, x) :: env) ts xs
  | _, _ => none

/-- The output of a recorded call on other arguments. -/
def TracedCall.replay (c : TracedCall) (args : List Number) : Option (Except Error Number) := do
  let env ← bindNames? [] (c.inputs.map Value.toTerm) args
  replayTo env c.graph.nodes c.output.toTerm

variable {env env' : Bindings} {n : Node} {ns : List Node} {out : Term}

theorem replayTo_nil : replayTo env [] out = .ok <$> out.number? env := rfl

theorem replayTo_cons_ok {ans : Number.Answer} (h : n.evaluate? env = some (.ok ans))
    (hbind : n.output.bind? env ans = some env') :
    replayTo env (n :: ns) out = replayTo env' ns out := by
  rw [replayTo, replay, h]
  simp only [Option.bind_eq_bind, Option.bind_some, hbind]
  rfl

theorem replayTo_cons_error {e : Error} (h : n.evaluate? env = some (.error e)) :
    replayTo env (n :: ns) out = some (.error e) := by
  rw [replayTo, replay, h]
  rfl

theorem Node.evaluate?_unary {op : UnaryOp} {a output : Term} {x : Number}
    (ha : a.number? env = some x) :
    evaluate? env ⟨op.name, [a], output⟩ = some (.single <$> x.unary op) := by
  simp only [evaluate?, UnaryOp.ofName?_name, ha, Option.bind_eq_bind, Option.bind_some,
    Option.pure_def]

theorem Node.evaluate?_binary {op : BinaryOp} {a b output : Term} {x y : Number}
    (ha : a.number? env = some x) (hb : b.number? env = some y) :
    evaluate? env ⟨op.name, [a, b], output⟩ = some (x.binary op y) := by
  simp only [evaluate?, BinaryOp.ofName?_name, ha, hb, Option.bind_eq_bind, Option.bind_some,
    Option.pure_def]

end ProxyTrace
