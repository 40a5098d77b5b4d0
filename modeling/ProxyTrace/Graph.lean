import ProxyTrace.Value

/-!
Graphs: the log of the calls that a recorder has answered, oldest first.
-/

namespace ProxyTrace

/-- One recorded call: its operator, what it was applied to and what it produced. -/
structure Node where
  op : String
  args : List Term
  output : Term

namespace Node

/-- The node of a call on values. -/
def ofCall (op : String) (args : List Value) (output : Value) : Node :=
  ⟨op, args.map Value.toTerm, output.toTerm⟩

def text (n : Node) : String :=
  n.op ++ " (" ++ ", ".intercalate (n.args.map Term.text) ++ ") -> " ++ n.output.text

end Node

/-- A log of calls. -/
structure Graph where
  nodes : List Node := []

namespace Graph

instance : Inhabited Graph := ⟨{}⟩

def empty : Graph := {}

def isEmpty (g : Graph) : Bool := g.nodes.isEmpty

def size (g : Graph) : Nat := g.nodes.length

def push (g : Graph) (n : Node) : Graph := ⟨g.nodes ++ [n]⟩

/-- One line for each node, numbered from 0. -/
def text (g : Graph) : String :=
  String.join (g.nodes.zipIdx.map fun (n, i) => s!"{i}: {n.text}\n")

end Graph

end ProxyTrace
