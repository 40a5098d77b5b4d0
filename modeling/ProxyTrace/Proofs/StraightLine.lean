import ProxyTrace.Proofs.Computation
import ProxyTrace.Proofs.Instruction
import ProxyTrace.Proofs.Number.Kinds

/-!
# Straight-line programs over numbers

A program is a list of instructions, each of which applies an operator of arithmetic to literals
and to registers that are filled before it, and fills the next register, or the next two. It runs
on values, in a session, by way of the operators on values; on numbers it is evaluated without a
session. The two agree where the registers hold native numbers (`StraightLine.on_run_number`).
-/

namespace ProxyTrace

variable {n : Nat}

/-- What an operator is applied to. -/
abbrev Operand (n : Nat) := Argument Number n

namespace Operand

def value (ρ : Registers Value n) (a : Operand n) : Value := a.read .number ρ

def number (σ : Registers Number n) (a : Operand n) : Number := a.read id σ

theorem value_number (σ : Registers Number n) (a : Operand n) :
    a.value (fun i => .number (σ i)) = .number (a.number σ) :=
  (a.map_read Value.number id σ).symm

end Operand

/-- A program of which `n` registers are filled: an instruction and what comes after it, or the
operand that is the output. -/
inductive StraightLine : Nat → Type where
  | output {n : Nat} (a : Operand n) : StraightLine n
  | unary {n : Nat} (op : UnaryOp) (a : Operand n) (rest : StraightLine (n + 1)) : StraightLine n
  | binary {n : Nat} (op : BinaryOp) (scalar : op.isScalar = true) (a b : Operand n)
    (rest : StraightLine (n + 1)) : StraightLine n
  /-- The quotient and the remainder each fill a register. -/
  | divmod {n : Nat} (a b : Operand n) (rest : StraightLine (n + 2)) : StraightLine n

namespace Number.Answer

def first : Answer → Number
  | single x => x
  | pair x _ => x

def second : Answer → Number
  | single x => x
  | pair _ y => y

end Number.Answer

namespace StraightLine

/-- The program on values. -/
def run {n : Nat} (ρ : Registers Value n) : StraightLine n → SessionM Value
  | output a => return a.value ρ
  | unary op a rest => do rest.run (ρ.push (← (a.value ρ).unary op))
  | binary op _ a b rest => do rest.run (ρ.push (← (a.value ρ).binary op (b.value ρ)))
  | divmod a b rest => do
    let both ← (a.value ρ).binary .divmod (b.value ρ)
    rest.run ((ρ.push (← both.item 0)).push (← both.item 1))

/-- The program on numbers. -/
def eval {n : Nat} (σ : Registers Number n) : StraightLine n → Except Error Number
  | output a => .ok (a.number σ)
  | unary op a rest => do rest.eval (σ.push (← (a.number σ).unary op))
  | binary op _ a b rest => do
    rest.eval (σ.push (← (a.number σ).binary op (b.number σ)).first)
  | divmod a b rest => do
    let both ← (a.number σ).binary .divmod (b.number σ)
    rest.eval ((σ.push both.first).push both.second)

end StraightLine

theorem Value.on_unary_number (op : UnaryOp) (x : Number) (s : Session) :
    ((number x).unary op).on s = (number <$> x.unary op, s) :=
  SessionM.on_liftM_bind_pure ..

theorem Value.on_binary_number (op : BinaryOp) (x y : Number) (s : Session) :
    ((number x).binary op (number y)).on s = (ofAnswer <$> x.binary op y, s) :=
  SessionM.on_liftM_bind_pure ..

/-- On native numbers, a program is computed without a look at the session. -/
theorem StraightLine.on_run_number (p : StraightLine n) (σ : Registers Number n) (s : Session) :
    (p.run fun i => .number (σ i)).on s = (Value.number <$> p.eval σ, s) := by
  induction p with
  | output a => rw [run, a.value_number]; rfl
  | unary op a rest ih =>
    rw [run, eval, a.value_number, SessionM.on_bind, Value.on_unary_number]
    cases (a.number σ).unary op with
    | error e => rfl
    | ok x =>
      have hrest := ih (σ.push x)
      rw [Registers.map_push] at hrest
      exact hrest
  | binary op hop a b rest ih =>
    rw [run, eval, a.value_number, b.value_number, SessionM.on_bind, Value.on_binary_number]
    cases h : (a.number σ).binary op (b.number σ) with
    | error e => rfl
    | ok ans =>
      obtain ⟨x, -, rfl, -⟩ := Number.binary?_kind hop h
      have hrest := ih (σ.push x)
      rw [Registers.map_push] at hrest
      exact hrest
  | divmod a b rest ih =>
    rw [run, eval, a.value_number, b.value_number, SessionM.on_bind, Value.on_binary_number]
    cases h : (a.number σ).binary .divmod (b.number σ) with
    | error e => rfl
    | ok ans =>
      obtain ⟨q, r, -, rfl, -⟩ := Number.binary?_kind_divmod h
      have hrest := ih ((σ.push q).push r)
      rw [Registers.map_push, Registers.map_push] at hrest
      exact hrest

end ProxyTrace
