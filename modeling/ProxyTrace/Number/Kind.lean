/-!
The kinds of numbers, ordered by promotion: bool, int, float, complex.
-/

namespace ProxyTrace

/-- A kind of number. -/
inductive NumberKind where
  | bool
  | int
  | float
  | complex
  deriving DecidableEq, Repr

namespace NumberKind

/-- All kinds, in the order of promotion. -/
def all : List NumberKind := [bool, int, float, complex]

def rank : NumberKind → Nat
  | bool => 0
  | int => 1
  | float => 2
  | complex => 3

instance : LE NumberKind := ⟨fun a b => a.rank ≤ b.rank⟩

instance : LT NumberKind := ⟨fun a b => a.rank < b.rank⟩

instance (a b : NumberKind) : Decidable (a ≤ b) := inferInstanceAs (Decidable (a.rank ≤ b.rank))

instance (a b : NumberKind) : Decidable (a < b) := inferInstanceAs (Decidable (a.rank < b.rank))

/-- The greater of two kinds. -/
def promote (a b : NumberKind) : NumberKind := if a ≤ b then b else a

theorem promote_comm (a b : NumberKind) : a.promote b = b.promote a := by
  cases a <;> cases b <;> rfl

theorem promote_assoc (a b c : NumberKind) :
    (a.promote b).promote c = a.promote (b.promote c) := by
  cases a <;> cases b <;> cases c <;> rfl

def name : NumberKind → String
  | bool => "bool"
  | int => "int"
  | float => "float"
  | complex => "complex"

instance : ToString NumberKind := ⟨name⟩

end NumberKind

end ProxyTrace
