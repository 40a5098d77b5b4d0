import ProxyTrace.Dispatch

/-!
# Instructions

What programs over registers are made of. The arguments of an instruction are literals and
registers that are filled before, and programs differ in their literals: what these stand for is a
parameter of `Argument.read`. Two programs whose literals and registers are related have related
arguments (`Argument.rel_read`).

An instruction is defined on operands of any type. What it does is said once, of values
(`Instruction.run`), and a program runs an instruction by reading its arguments
(`Instruction.map`).
-/

namespace ProxyTrace

variable {α β γ L : Type} {n : Nat}

/-- What the registers of a program hold, in the order in which they are filled. -/
abbrev Registers (α : Type) (n : Nat) := Fin n → α

namespace Registers

/-- One more register. -/
def push (ρ : Registers α n) (a : α) : Registers α (n + 1) :=
  fun i => if h : i < n then ρ ⟨i, h⟩ else a

theorem map_push (f : α → β) (ρ : Registers α n) (a : α) :
    (fun i => f (ρ.push a i)) = push (fun i => f (ρ i)) (f a) := by
  funext i
  unfold push
  split <;> rfl

theorem forall_push {R : α → β → Prop} {ρ : Registers α n} {σ : Registers β n} {a : α} {b : β}
    (h : ∀ i, R (ρ i) (σ i)) (hab : R a b) : ∀ i, R (ρ.push a i) (σ.push b i) := by
  intro i
  unfold push
  split
  · exact h _
  · exact hab

end Registers

/-- What an instruction is applied to: a literal, or what a register holds. -/
inductive Argument (L : Type) (n : Nat) where
  | literal (c : L)
  | register (i : Fin n)

namespace Argument

/-- What the argument stands for, where literals stand for what they are taken to. -/
def read (literal : L → α) (ρ : Registers α n) : Argument L n → α
  | .literal c => literal c
  | .register i => ρ i

variable {f : L → α} {g : L → β} {ρ : Registers α n} {σ : Registers β n}

/-- What relates literals and registers relates arguments. -/
theorem rel_read {R : α → β → Prop} (hliteral : ∀ c, R (f c) (g c)) (h : ∀ i, R (ρ i) (σ i))
    (a : Argument L n) : R (a.read f ρ) (a.read g σ) := by
  cases a with
  | literal c => exact hliteral c
  | register i => exact h i

/-- What holds of literals and registers holds of arguments. -/
theorem forall_read {P : α → Prop} (hliteral : ∀ c, P (f c)) (h : ∀ i, P (ρ i))
    (a : Argument L n) : P (a.read f ρ) :=
  rel_read (R := fun v (_ : α) => P v) (g := f) (σ := ρ) hliteral h a

theorem map_read (k : α → β) (f : L → α) (ρ : Registers α n) (a : Argument L n) :
    k (a.read f ρ) = a.read (fun c => k (f c)) fun i => k (ρ i) :=
  rel_read (R := fun v w => k v = w) (fun _ => rfl) (fun _ => rfl) a

end Argument

/-- An item of a tuple. -/
def Value.item (i : Nat) : Value → Except Error Value
  | tuple items =>
    match items[i]? with
    | some v => .ok v
    | Option.none => (tuple items).invalid "item"
  | v => v.invalid "item"

/-- An instruction on operands of a type: an operator, an index, or one that puts a tuple together
or takes an item out of it. -/
inductive Instruction (α : Type) where
  | unary (op : UnaryOp) (a : α)
  | binary (op : BinaryOp) (a b : α)
  | getItem (a key : α)
  | tuple (items : List α)
  | item (i : Nat) (a : α)

namespace Instruction

def map (f : α → β) : Instruction α → Instruction β
  | unary op a => unary op (f a)
  | binary op a b => binary op (f a) (f b)
  | getItem a key => getItem (f a) (f key)
  | tuple items => tuple (items.map f)
  | item i a => item i (f a)

def operands : Instruction α → List α
  | unary _ a | item _ a => [a]
  | binary _ a b | getItem a b => [a, b]
  | tuple items => items

@[simp] theorem operands_map (f : α → β) (i : Instruction α) :
    (i.map f).operands = i.operands.map f := by
  cases i <;> rfl

theorem map_map (g : β → γ) (f : α → β) (i : Instruction α) :
    (i.map f).map g = i.map fun a => g (f a) := by
  cases i with
  | tuple items => exact congrArg tuple (List.map_map ..)
  | _ => rfl

theorem map_eq_self {f : α → α} {i : Instruction α} (h : ∀ a ∈ i.operands, f a = a) :
    i.map f = i := by
  cases i with
  | unary op a | item i a => rw [map, h a (.head _)]
  | binary op a b | getItem a b => rw [map, h a (.head _), h b (.tail _ (.head _))]
  | tuple items => exact congrArg tuple ((List.map_congr_left h).trans (List.map_id items))

/-- What an instruction does on values. -/
def run : Instruction Value → SessionM Value
  | unary op a => a.unary op
  | binary op a b => a.binary op b
  | getItem a key => a.getItem key
  | tuple items => return .tuple items
  | item i a => a.item i

end Instruction

end ProxyTrace
