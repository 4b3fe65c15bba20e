import LateBinding.Program.Operator
import LateBinding.Program.NodeId
import LateBinding.Program.Span

/-!
# Dynamic calls

A dynamic call is an operation of a program whose implementation is chosen when the program runs and
the operands are known: the use of an operator, or the call of a method.
-/

namespace LateBinding

/-- What the implementation of a dynamic call is looked up by. -/
inductive Selector where
  | operator (op : Operator)
  | method (name : String)
deriving DecidableEq, Repr

/-- The spelling of the operator or the name of the method. -/
def Selector.text : Selector → String
  | operator op => op.symbol
  | method name => name

/-- One dynamic call of a program: its place in the list of all of them, its node, what it looks up,
and how many operands it passes, the receiver of a method among them. -/
structure DynamicCall where
  id : Nat
  node : NodeId
  selector : Selector
  arity : Nat
  span : Span
deriving DecidableEq, Repr

/-- The spelling of the operator or the name of the method. -/
def DynamicCall.name (c : DynamicCall) : String :=
  c.selector.text

end LateBinding
