import LateBinding.Program.Forest

/-!
# Trees

A node together with everything below it, as one value.  A tree is read out of a forest; what is
computed over a whole subtree is computed by recursion on the tree.
-/

namespace LateBinding

/-- A node with its number and the trees of its children. -/
inductive Tree where
  | mk (id : NodeId) (node : Node) (children : List Tree)

namespace Tree

/-- The number of the topmost node. -/
def id : Tree → NodeId
  | mk id _ _ => id

/-- The topmost node. -/
def node : Tree → Node
  | mk _ node _ => node

/-- The trees below the topmost node. -/
def children : Tree → List Tree
  | mk _ _ children => children

/-- The construct of the topmost node. -/
def construct (t : Tree) : Construct :=
  t.node.construct

mutual

/-- The nodes of a tree without its topmost one, parents before children. -/
def descendants : Tree → List NodeId
  | mk _ _ children => preorderAll children

/-- The nodes of several trees, each tree's topmost node before the others. -/
def preorderAll : List Tree → List NodeId
  | [] => []
  | t :: rest => t.id :: (t.descendants ++ preorderAll rest)

end

end Tree

namespace Forest

/-- The tree of a node, read to a depth of at most `depth` nodes. -/
def treeTo (f : Forest) : Nat → NodeId → Option Tree
  | 0, _ => none
  | depth + 1, id =>
      (f.node? id).map fun n => .mk id n (n.children.filterMap (f.treeTo depth))

/-- The tree of a node.  No path of a forest is longer than its number of nodes. -/
def tree? (f : Forest) (id : NodeId) : Option Tree :=
  f.treeTo f.size id

/-- The tree of the root. -/
def rootTree? (f : Forest) : Option Tree :=
  f.root.bind f.tree?

end Forest

end LateBinding
