import LateBinding.Program.Malformation
import LateBinding.Program.Span
import LateBinding.Scope.Binding

/-!
# Why a program does not resolve

A name may have no binding, an assignment may go to a binding that cannot be set, or the program may
not have the structure of a module.
-/

namespace LateBinding.Resolution

/-- The first thing found wrong with a program. -/
inductive ResolutionError where
  | unresolved (name : String) (span : Span)
  | constantAssigned (name : String) (span : Span)
  | capturedAssigned (name : String) (span : Span)
  | scope (cause : Scope.ScopeError)
  | malformed (cause : Malformation)
deriving DecidableEq

namespace ResolutionError

/-- The description of an error. -/
def message : ResolutionError → String
  | unresolved name span => "Unresolved reference '" ++ name ++ "' at " ++ span.text
  | constantAssigned name span => "Cannot assign to constant '" ++ name ++ "' at " ++ span.text
  | capturedAssigned name span =>
      "Cannot assign to captured variable '" ++ name ++ "' at " ++ span.text
  | scope cause => "Scope error: " ++ cause.message
  | malformed cause => "Internal compiler error: " ++ cause.message

/-- Where in the source text the error is, if it is about a place there. -/
def span? : ResolutionError → Option Span
  | unresolved _ span | constantAssigned _ span | capturedAssigned _ span => some span
  | scope _ | malformed _ => none

end ResolutionError

end LateBinding.Resolution
