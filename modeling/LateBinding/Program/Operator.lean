/-!
# Operators

The operators of a program.  What an operator does depends on the values it meets when the program
runs; here it has only a name, a spelling and a number of operands.
-/

namespace LateBinding

/-- An operator whose meaning is chosen when its operands are known. -/
inductive Operator where
  | plus
  | minus
  | times
  | divide
  | modulo
  | equals
  | notEquals
  | less
  | lessOrEquals
  | more
  | moreOrEquals
  | is
  | isnt
  | orIfNull
  | not
  | negate
deriving DecidableEq, Repr

namespace Operator

/-- Every operator. -/
def all : List Operator :=
  [plus, minus, times, divide, modulo, equals, notEquals, less, lessOrEquals, more, moreOrEquals,
    is, isnt, orIfNull, not, negate]

/-- The number of operands. -/
def arity : Operator → Nat
  | not | negate => 1
  | _ => 2

/-- Whether the operator computes a number from two numbers. -/
def isArithmetic : Operator → Bool
  | plus | minus | times | divide | modulo => true
  | _ => false

/-- Whether the operator asks which of its operands comes first. -/
def isOrdering : Operator → Bool
  | less | lessOrEquals | more | moreOrEquals => true
  | _ => false

/-- Whether the operator joins texts. -/
def isAdditive : Operator → Bool
  | plus => true
  | _ => false

/-- The spelling in source text; negation and subtraction share one. -/
def symbol : Operator → String
  | plus => "+"
  | minus | negate => "-"
  | times => "*"
  | divide => "/"
  | modulo => "%"
  | equals => "=="
  | notEquals => "!="
  | less => "<"
  | lessOrEquals => "<="
  | more => ">"
  | moreOrEquals => ">="
  | is => "is"
  | isnt => "isnt"
  | orIfNull => "orIfNull"
  | not => "not"

/-- The name, which tells all operators apart. -/
def name : Operator → String
  | plus => "Plus"
  | minus => "Minus"
  | times => "Times"
  | divide => "Divide"
  | modulo => "Modulo"
  | equals => "Equals"
  | notEquals => "NotEquals"
  | less => "Less"
  | lessOrEquals => "LessOrEquals"
  | more => "More"
  | moreOrEquals => "MoreOrEquals"
  | is => "Is"
  | isnt => "Isnt"
  | orIfNull => "OrIfNull"
  | not => "Not"
  | negate => "Negate"

/-- The operator of a name. -/
def ofName? (s : String) : Option Operator :=
  all.find? fun op => op.name == s

theorem mem_all (op : Operator) : op ∈ all := by
  cases op <;> decide

theorem ofName?_name (op : Operator) : ofName? op.name = some op := by
  cases op <;> decide

end Operator

end LateBinding
