import ProxyTrace.Word

/-!
# Raw operations of the machine

Besides the operations that say whether they are exact, a machine has raw ones (`Machine.RawOp`). A
debug build stops where a sum is no word, a release build goes on with what is left of it, and both
stop at a division by zero. A routine (`Machine.Routine`) is a computation that shows each raw
operation that it reaches. If all of them are exact, every build carries the routine out to the same
end (`Routine.Gives.run`).
-/

namespace ProxyTrace.Machine

variable {α β : Type}

/-- A program is built with tests of its raw operations, or without most of them. -/
inductive Build where
  | debug
  | release

/-- An operation of the machine on given operands. -/
inductive RawOp : Type → Type where
  /-- A size in memory, read as a word. -/
  | signed (n : Nat) : RawOp Int64
  | neg (a : Int64) : RawOp Int64
  | add (a b : Int64) : RawOp Int64
  | sub (a b : Int64) : RawOp Int64
  | rem (a b : Int64) : RawOp Int64
  | shiftLeft (a n : Int64) : RawOp Int64
  | shiftRight (a n : Int64) : RawOp Int64
  /-- The word between two bounds that is next to `a`. -/
  | clamp (low high a : Int64) : RawOp Int64
  | addUnsigned (a b : UInt64) : RawOp UInt64
  | divUnsigned (a b : UInt64) : RawOp UInt64

namespace RawOp

/-- The exact result, or the bits that are left of it. Shifts take their counts modulo 64. -/
def result : RawOp α → α
  | signed n => Int64.ofNat n
  | neg a => -a
  | add a b => a + b
  | sub a b => a - b
  | rem a b => a % b
  | shiftLeft a n => a <<< n
  | shiftRight a n => a >>> n
  | clamp low high a => if a < low then low else if high < a then high else a
  | addUnsigned a b => a + b
  | divUnsigned a b => a / b

/-- The operands are such as the operation is meant for: what it stands for has a value, and that
fits. A shift stands for a shift of bits, by less than there are. -/
def Exact : RawOp α → Prop
  | signed n => (n : Int) ≤ Int64.maxValue.toInt
  | neg a => Word.InRange (-a.toInt)
  | add a b => Word.InRange (a.toInt + b.toInt)
  | sub a b => Word.InRange (a.toInt - b.toInt)
  | rem a b => Word.Divides a b
  | shiftLeft _ n => 0 ≤ n ∧ n < 64
  | shiftRight _ n => 0 ≤ n ∧ n < 64
  | clamp low high _ => low ≤ high
  | addUnsigned a b => a.toNat + b.toNat < UInt64.size
  | divUnsigned _ b => b ≠ 0

instance : (op : RawOp α) → Decidable op.Exact
  | signed _ => inferInstanceAs (Decidable (_ ≤ _))
  | neg _ => inferInstanceAs (Decidable (Word.InRange _))
  | add .. => inferInstanceAs (Decidable (Word.InRange _))
  | sub .. => inferInstanceAs (Decidable (Word.InRange _))
  | rem a b => inferInstanceAs (Decidable (Word.Divides a b))
  | shiftLeft .. => inferInstanceAs (Decidable (_ ∧ _))
  | shiftRight .. => inferInstanceAs (Decidable (_ ∧ _))
  | clamp .. => inferInstanceAs (Decidable (_ ≤ _))
  | addUnsigned .. => inferInstanceAs (Decidable (_ < _))
  | divUnsigned .. => inferInstanceAs (Decidable (_ ≠ _))

/-- The build does not look at the operands. -/
def isUntested : Build → RawOp α → Bool
  | _, signed _ => true
  | .release, neg _ => true
  | .release, add .. => true
  | .release, sub .. => true
  | .release, shiftLeft .. => true
  | .release, shiftRight .. => true
  | .release, addUnsigned .. => true
  | _, _ => false

/-- The operation in a build; `none` is a panic. -/
def perform (build : Build) (op : RawOp α) : Option α :=
  if op.Exact ∨ op.isUntested build then some op.result else none

theorem perform_of_exact {op : RawOp α} (h : op.Exact) (build : Build) :
    op.perform build = some op.result := if_pos (.inl h)

end RawOp

/-- A computation that shows the raw operations that it reaches. -/
inductive Routine (α : Type) : Type 1 where
  | done (a : α)
  | step {γ : Type} (op : RawOp γ) (next : γ → Routine α)

namespace Routine

/-- A single raw operation. -/
def raw (op : RawOp α) : Routine α := step op done

def bind : Routine α → (α → Routine β) → Routine β
  | done a, f => f a
  | step op next, f => step op fun c => (next c).bind f

instance : Monad Routine where
  pure := done
  bind := bind

/-- The routine in a build, until it is done or an operation panics. -/
def run (build : Build) : Routine α → Option α
  | done a => some a
  | step op next => (op.perform build).bind fun c => (next c).run build

/-- The routine ends with `a`, and each raw operation that it reaches is exact. -/
inductive Gives : Routine α → α → Prop
  | done (a : α) : Gives (done a) a
  | step {γ : Type} {op : RawOp γ} {next : γ → Routine α} {a : α} (h : op.Exact)
    (hnext : Gives (next op.result) a) : Gives (step op next) a

variable {p : Routine α} {f : α → Routine β} {a : α} {b : β}

theorem gives_pure (a : α) : (pure a : Routine α).Gives a := .done a

theorem gives_raw {op : RawOp α} (h : op.Exact) : (raw op).Gives op.result := .step h (.done _)

theorem Gives.bind (hp : p.Gives a) (hf : (f a).Gives b) : (p >>= f).Gives b := by
  induction hp with
  | done a => exact hf
  | step h _ ih => exact .step h (ih hf)

theorem Gives.raw_bind {op : RawOp α} (h : op.Exact) (hf : (f op.result).Gives b) :
    (raw op >>= f).Gives b := (gives_raw h).bind hf

theorem Gives.map (hp : p.Gives a) (g : α → β) : (do return g (← p) : Routine β).Gives (g a) :=
  hp.bind (gives_pure _)

/-- Where every raw operation is exact, all builds come to the same end. -/
theorem Gives.run (h : p.Gives a) (build : Build) : p.run build = some a := by
  induction h with
  | done a => rfl
  | step hop _ ih => rw [Routine.run, RawOp.perform_of_exact hop, Option.bind_some, ih]

theorem Gives.unique {a' : α} (h : p.Gives a) (h' : p.Gives a') : a = a' :=
  Option.some.inj ((h.run .debug).symm.trans (h'.run .debug))

/-- The routine is exact throughout, and no build of it panics or has another end. -/
def Agrees (p : Routine α) (a : α) : Prop := p.Gives a ∧ ∀ build, p.run build = some a

theorem Gives.agrees (h : p.Gives a) : p.Agrees a := ⟨h, h.run⟩

end Routine

end ProxyTrace.Machine
