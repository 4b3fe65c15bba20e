import LateBinding.Program.Operator
import LateBinding.Program.Literal

/-!
# Constructs of a program

A program is a tree.  A module owns functions, a function owns one block, a block owns statements,
and statements own expressions.  The construct of a node says which of these it is and holds what
belongs to the node itself; everything below it is a child.
-/

namespace LateBinding

/-- Whether a binding is set once (`let`) or may be set again (`var`). -/
inductive Mutability where
  | constant
  | mutable
deriving DecidableEq, Repr

namespace Mutability

/-- The word that declares such a binding. -/
def keyword : Mutability → String
  | constant => "let"
  | mutable => "var"

end Mutability

/-- What a node of a program is. -/
inductive Construct where
  | module (name : String)
  | function (name : String) (params : List String) (isClosure : Bool)
  | block
  | declaration (name : String) (mutability : Mutability)
  | destructuring (names : List String) (mutability : Mutability)
  | assignment (name : String)
  | returning
  | branch
  | loop
  | iteration (name : String)
  | evaluation
  | constant (literal : Literal)
  | reference (name : String)
  | binary (op : Operator)
  | unary (op : Operator)
  | methodCall (name : String)
  | functionCall (name : String)
  | closure
deriving DecidableEq

namespace Construct

/-- Whether the node is a function, with a name or without. -/
def isFunction : Construct → Bool
  | function .. => true
  | _ => false

/-- Whether the node is a block. -/
def isBlock : Construct → Bool
  | block => true
  | _ => false

/-- A short description of the node. -/
def label : Construct → String
  | module name => "module " ++ name
  | function name params isClosure =>
      (if isClosure then "closure " else "function ") ++ name ++ "(" ++
        String.intercalate ", " params ++ ")"
  | block => "block"
  | declaration name mutability => mutability.keyword ++ " " ++ name
  | destructuring names mutability =>
      mutability.keyword ++ " [" ++ String.intercalate ", " names ++ "]"
  | assignment name => "assign " ++ name
  | returning => "return"
  | branch => "if"
  | loop => "while"
  | iteration name => "foreach " ++ name
  | evaluation => "expr"
  | constant literal => "const " ++ literal.spelling
  | reference name => "ref " ++ name
  | binary op => "binary " ++ op.symbol
  | unary op => "unary " ++ op.symbol
  | methodCall name => "invoke ." ++ name
  | functionCall name => "call " ++ name
  | closure => "closure"

/-- The name that a function has where it is written. -/
def functionName? : Construct → Option String
  | function name _ _ => some name
  | _ => none

/-- The construct under another name, if it is a function; any other construct stays as it is. -/
def renamed (name : String) : Construct → Construct
  | function _ params isClosure => function name params isClosure
  | other => other

end Construct

end LateBinding
