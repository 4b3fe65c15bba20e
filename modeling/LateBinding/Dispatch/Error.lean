import LateBinding.Program.Operator
import LateBinding.Value.Tag

/-!
# Why a dynamic call fails

A call may find no implementation for its operands, or more than one that fits equally well, and the
implementation that it finds may fail.
-/

namespace LateBinding.Dispatch

/-- Why a dynamic call, or an operation on classes, fails. -/
inductive DispatchError where
  | undefinedBinary (op : Operator) (left right : String)
  | undefinedUnary (op : Operator) (operand : String)
  | noSuchMethod (name receiver : String) (arity : Nat)
  | ambiguous (name receiver : String) (candidates : List String)
  | divisionByZero (op : Operator)
  | wrongArity (name : String) (expected actual : Nat)
  | methodFailed (name reason : String)
  | repeatTooLarge (size : Nat) (count : Int32) (limit : Nat)
  | unknownClass (id : ClassId)
deriving DecidableEq

namespace DispatchError

/-- The description of a failure. -/
def message : DispatchError → String
  | undefinedBinary op left right =>
      "Operator '" ++ op.symbol ++ "' is not defined for " ++ left ++ " and " ++ right
  | undefinedUnary op operand => "Operator '" ++ op.symbol ++ "' is not defined for " ++ operand
  | noSuchMethod name receiver arity =>
      "No method '" ++ name ++ "' taking " ++ toString arity ++ " argument(s) on " ++ receiver
  | ambiguous name receiver candidates =>
      "Call to '" ++ name ++ "' on " ++ receiver ++ " is ambiguous between " ++
        String.intercalate ", " candidates
  | divisionByZero op => "Division by zero in '" ++ op.symbol ++ "'"
  | wrongArity name expected actual =>
      "'" ++ name ++ "' expects " ++ toString expected ++ " operand(s), got " ++ toString actual
  | methodFailed name reason => "Method '" ++ name ++ "' failed: " ++ reason
  | repeatTooLarge size count limit =>
      "Repeating a " ++ toString size ++ "-byte text " ++ toString count.toInt ++
        " times exceeds " ++ toString limit ++ " bytes"
  | unknownClass id => "Unknown class " ++ id.text

end DispatchError

end LateBinding.Dispatch
