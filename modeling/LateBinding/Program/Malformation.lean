import LateBinding.Program.Construct
import LateBinding.Program.NodeId

/-!
# Malformed programs

What can be wrong with the structure of a program: links that would not leave a forest, and children
that do not fit the construct of their node.
-/

namespace LateBinding

/-- A defect in the structure of a program. -/
inductive Malformation where
  | unknownNode (id : NodeId)
  | alreadyAttached (child owner : NodeId)
  | cycle (parent child : NodeId)
  | attachedRoot (id : NodeId)
  | rootWithParent (id : NodeId)
  | notFunction (construct : Construct)
  | notBinary (op : Operator)
  | notUnary (op : Operator)
  | noBody (construct : Construct)
  | functionWithoutBlock
  | noRoot
  | rootNotModule (construct : Construct)
  | notAtModuleLevel (construct : Construct)
  | functionExpected
  | iterationWithoutIterable
  | iterationWithoutBody
  | closureWithoutFunction
  | notStatement (construct : Construct)
  | notExpression (construct : Construct)
deriving DecidableEq

namespace Malformation

/-- The description of a defect. -/
def message : Malformation → String
  | unknownNode id => "unknown IR node " ++ id.text
  | alreadyAttached child owner => child.text ++ " is already attached to " ++ owner.text
  | cycle parent child =>
      "attaching " ++ child.text ++ " under " ++ parent.text ++ " would create a cycle"
  | attachedRoot id => "the root " ++ id.text ++ " cannot be attached"
  | rootWithParent id => id.text ++ " is attached and cannot be the root"
  | notFunction construct => "'" ++ construct.label ++ "' is not a function"
  | notBinary op => "'" ++ op.symbol ++ "' is not a binary operator"
  | notUnary op => "'" ++ op.symbol ++ "' is not a unary operator"
  | noBody construct => "'" ++ construct.label ++ "' has no body"
  | functionWithoutBlock => "function without a body block"
  | noRoot => "IR tree has no root"
  | rootNotModule construct => "IR root is '" ++ construct.label ++ "', expected a module"
  | notAtModuleLevel construct => "unexpected '" ++ construct.label ++ "' at module level"
  | functionExpected => "expected a function node"
  | iterationWithoutIterable => "foreach without an iterable"
  | iterationWithoutBody => "foreach without a body"
  | closureWithoutFunction => "closure without a function"
  | notStatement construct => "'" ++ construct.label ++ "' is not a statement"
  | notExpression construct => "'" ++ construct.label ++ "' is not an expression"

end Malformation

end LateBinding
