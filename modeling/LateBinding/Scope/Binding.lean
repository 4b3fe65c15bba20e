import LateBinding.Program.Construct
import LateBinding.FreshName

/-!
# Bindings

A binding is a name with what is known about it: whether it may be set again, the storage slot it
was given, and whether a closure reads it from outside.
-/

namespace LateBinding.Scope

/-- The number of a scope. -/
structure ScopeId where
  index : Nat
deriving DecidableEq, Repr

/-- A scope number as it is written in messages. -/
def ScopeId.text (id : ScopeId) : String :=
  "t" ++ toString id.index

/-- A name and what it stands for. -/
structure Binding where
  name : String
  mutability : Mutability
  slot : Option Nat
  captured : Bool
deriving DecidableEq, Repr

namespace Binding

/-- A binding without a slot that no closure reads. -/
def ofName (name : String) (mutability : Mutability) : Binding where
  name := name
  mutability := mutability
  slot := none
  captured := false

/-- Whether the binding is set once. -/
def isConstant (b : Binding) : Bool :=
  b.mutability = .constant

/-- Whether the name was made up and not read from a program. -/
def isGenerated (b : Binding) : Bool :=
  FreshName.isReserved b.name

end Binding

/-- Why an operation on scopes is refused. -/
inductive ScopeError where
  | namelessBinding
  | unknownScope (id : ScopeId)
deriving DecidableEq, Repr

/-- The description of a refusal. -/
def ScopeError.message : ScopeError → String
  | namelessBinding => "Invalid reference: a binding needs a non-empty name"
  | unknownScope id => "Unknown reference table " ++ id.text

end LateBinding.Scope
