/-!
# Node numbers

The nodes of a program are numbered from 0 in the order in which they were made.
-/

namespace LateBinding

/-- The number of a node. -/
structure NodeId where
  index : Nat
deriving DecidableEq, Repr

namespace NodeId

/-- A node number as it is written in messages. -/
def text (id : NodeId) : String :=
  "n" ++ toString id.index

end NodeId

end LateBinding
