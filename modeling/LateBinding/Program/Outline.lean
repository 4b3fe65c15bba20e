import LateBinding.Program.Tree

/-!
# Outlines

An outline shows a tree with one line for each node, indented by two spaces for each step down, with
the storage slots that are already chosen.
-/

namespace LateBinding

/-- The description of a node, with its slot if it has one. -/
def Node.outline (n : Node) : String :=
  n.construct.label ++
    match n.slot with
    | some slot => " @" ++ toString slot
    | none => ""

/-- One line of an outline. -/
def outlineLine (depth : Nat) (n : Node) : String :=
  String.ofList (List.replicate (2 * depth) ' ') ++ n.outline ++ "\n"

namespace Tree

mutual

/-- The outline of a tree whose topmost node stands at `depth`. -/
def outlineAt (depth : Nat) : Tree → String
  | mk _ node children => outlineLine depth node ++ outlineAll (depth + 1) children

/-- The outlines of several trees at one depth, one after the other. -/
def outlineAll (depth : Nat) : List Tree → String
  | [] => ""
  | t :: rest => t.outlineAt depth ++ outlineAll depth rest

end

/-- The outline of a tree. -/
def outline (t : Tree) : String :=
  t.outlineAt 0

end Tree

namespace Forest

/-- The outline of the tree of a node; an unknown node has none. -/
def outlineOf (f : Forest) (id : NodeId) : String :=
  ((f.tree? id).map Tree.outline).getD ""

/-- The outline of the program; without a root it is empty. -/
def outline (f : Forest) : String :=
  (f.root.map f.outlineOf).getD ""

end Forest

end LateBinding
