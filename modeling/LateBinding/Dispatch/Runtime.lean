import LateBinding.Class.Overload
import LateBinding.Program.DynamicCall
import LateBinding.Value.Primitive

/-!
# Looking up implementations

What a dynamic call runs depends only on what it looks up and on the types of its operands.  The
lookup is the same each time, so its answers may be kept: here in a table that all calls of a program
share, with one entry for each thing looked up and each list of types.
-/

namespace LateBinding.Dispatch

open LateBinding.Class (Registry Method)

/-- How many lists of types a call keeps an answer of its own for. -/
structure Policy where
  polymorphicLimit : Nat
deriving DecidableEq, Repr

namespace Policy

/-- The policy with a given limit; a call keeps at least one answer. -/
def ofLimit (limit : Nat) : Policy := ⟨max limit 1⟩

/-- The policy where nothing else is asked for. -/
def standard : Policy := ofLimit 5

end Policy

/-- The implementation that a dynamic call runs. -/
inductive Target where
  | primitive (p : Primitive)
  | method (m : Method)

/-- Runs an implementation. -/
def Target.invoke : Target → List Value → Except DispatchError Value
  | primitive p, operands => p.apply operands
  | method m, operands => m.invoke operands

/-- What an implementation is looked up by. -/
structure Key where
  selector : Selector
  signature : List Tag
deriving DecidableEq, Repr

/-- The answers kept for all calls together, at most one for each key. -/
structure SharedTable where
  entries : List (Key × Target)

namespace SharedTable

/-- The table without answers. -/
def empty : SharedTable := ⟨[]⟩

/-- The number of answers. -/
def size (t : SharedTable) : Nat :=
  t.entries.length

/-- The answer kept for a key. -/
def find? (t : SharedTable) (key : Key) : Option Target :=
  (t.entries.find? (·.1 = key)).map Prod.snd

/-- A list of answers with one more, in place of the one of that key or at the end. -/
def overlay (key : Key) (target : Target) : List (Key × Target) → List (Key × Target)
  | [] => [(key, target)]
  | (k, t) :: rest =>
      if k = key then (key, target) :: rest else (k, t) :: overlay key target rest

/-- Keeps an answer for a key. -/
def insert (t : SharedTable) (key : Key) (target : Target) : SharedTable :=
  ⟨overlay key target t.entries⟩

end SharedTable

/-- What all calls of a program share. -/
structure Runtime where
  registry : Registry
  policy : Policy
  shared : SharedTable

namespace Runtime

/-- The runtime of a registry, before the first call. -/
def ofRegistry (registry : Registry) (policy : Policy) : Runtime where
  registry := registry
  policy := policy
  shared := SharedTable.empty

/-- The implementation of a dynamic call on given operands. -/
def resolve (rt : Runtime) (selector : Selector) (operands : List Value) :
    Except DispatchError Target :=
  match selector with
  | .operator op =>
      match op.primitive? (Value.tags operands) with
      | some p => .ok (.primitive p)
      | none => .error (op.undefinedOn operands)
  | .method name => (rt.registry.chooseMethod name (Value.tags operands)).map .method

/-- The outcome of a dynamic call for which nothing is kept: its operands are counted, its
implementation is looked up and run. -/
def dispatch (rt : Runtime) (call : DynamicCall) (operands : List Value) :
    Except DispatchError Value :=
  if operands.length = call.arity then do
    let target ← rt.resolve call.selector operands
    target.invoke operands
  else .error (.wrongArity call.name call.arity operands.length)

end Runtime

end LateBinding.Dispatch
