import LateBinding.Proofs.Lexical.Shape

/-!
# What is declared at a point of a program

The rules of lexical scope, without tables, slots or errors.  At each point of a program stands a
list of declarations, in the order in which they were made; a name means the last one of its name.
A declaration is known by the node that makes it and its place among those of that node, so that
declaring a name again, even in the same block, is a declaration of its own.

* `Declaration`, `Context` - a declaration, and what is declared at a point.
* `Context.lookup?` - what a name means.
* `Context.visible` - one declaration for each name, where the name was declared first.
* `Construct.bindings` - what a construct declares; `Context.extend` declares it.
-/

namespace LateBinding

namespace Lexical

/-- A declaration: the node that makes it and the place among those of the node; the name, unless
the language makes the binding for itself; and where it belongs - how many functions are around it,
and how many declarations the innermost of them made before. -/
structure Declaration where
  node : NodeId
  place : Nat
  name : Option String
  mutability : Mutability
  depth : Nat
  rank : Nat
deriving DecidableEq

/-- What is declared at a point of a program, in the order in which it was declared; the names that
were visible where the function around the point was entered; the number of functions around the
point; and the number of declarations that the innermost of them made by now. -/
structure Context where
  declared : List Declaration
  inherited : List (Option String)
  depth : Nat
  made : Nat

/-- A list of declarations with one more: in the place of the one of that name, or else at the end.
A declaration without a name always goes to the end. -/
def overlay : List Declaration → Declaration → List Declaration
  | [], d => [d]
  | e :: rest, d =>
      if d.name.isSome ∧ e.name = d.name then d :: rest else e :: overlay rest d

namespace Context

/-- Outside all functions nothing is declared. -/
def outermost : Context where
  declared := []
  inherited := []
  depth := 0
  made := 0

/-- What a name means: its last declaration. -/
def lookup? (c : Context) (name : String) : Option Declaration :=
  c.declared.findRev? (·.name = some name)

/-- One declaration for each name, the last one, in the place of the first one. -/
def visible (c : Context) : List Declaration :=
  c.declared.foldl overlay []

/-- The place of a name among the visible ones. -/
def position (c : Context) (name : String) : Nat :=
  (c.visible.map Declaration.name).idxOf (some name)

/-- Declares one thing. -/
def declare (c : Context) (node : NodeId) (place : Nat) (name : Option String)
    (mutability : Mutability) : Context :=
  { c with
    declared := c.declared ++ [⟨node, place, name, mutability, c.depth, c.made⟩]
    made := c.made + 1 }

/-- Declares what a node binds, from a place on. -/
def declareAll (c : Context) (node : NodeId) : Nat → List (Option String × Mutability) → Context
  | _, [] => c
  | place, (name, mutability) :: rest =>
      (c.declare node place name mutability).declareAll node (place + 1) rest

/-- Enters a function.  What was visible around it stays visible in it. -/
def enter (c : Context) : Context where
  declared := c.declared
  inherited := c.visible.map Declaration.name
  depth := c.depth + 1
  made := 0

end Context

end Lexical

/-- What a construct binds, in order.  Taking a value apart binds the whole value first, and a loop
over items binds what is left of the items first; these bindings have no name in the program. -/
def Construct.bindings : Construct → List (Option String × Mutability)
  | function _ params _ => params.map fun name => (some name, .constant)
  | declaration name mutability => [(some name, mutability)]
  | destructuring names mutability =>
      (none, .constant) :: names.map fun name => (some name, mutability)
  | iteration name => [(none, .constant), (some name, .mutable)]
  | _ => []

/-- Only functions, loops over items and the statements that bind in their block bind anything. -/
theorem Construct.bindings_eq_nil {construct : Construct} (hFunction : construct.isFunction = false)
    (hBinds : construct.bindsInBlock = false) (hLoop : ∀ name, construct ≠ .iteration name) :
    construct.bindings = [] := by
  cases construct with
  | iteration name => exact absurd rfl (hLoop name)
  | function name params isClosure => cases hFunction
  | declaration name mutability => cases hBinds
  | destructuring names mutability => cases hBinds
  | _ => rfl

/-- An expression binds nothing. -/
theorem Construct.bindings_eq_nil_of_isExpression {construct : Construct}
    (hExpression : construct.isExpression = true) : construct.bindings = [] := by
  cases construct <;> first | rfl | cases hExpression

namespace Tree

mutual

/-- The number of declarations that a tree makes for the function around it.  A function inside the
tree makes its own. -/
def declarationCount : Tree → Nat
  | mk _ node children =>
      match node.construct with
      | .function .. => 0
      | construct => construct.bindings.length + declarationCountAll children

/-- The number of declarations that several trees make for the function around them. -/
def declarationCountAll : List Tree → Nat
  | [] => 0
  | t :: rest => t.declarationCount + declarationCountAll rest

end

end Tree

namespace Lexical.Context

/-- The context with what a node binds. -/
def extend (c : Context) (id : NodeId) (construct : Construct) : Context :=
  c.declareAll id 0 construct.bindings

/-- The context after a tree, for what stands beside it. -/
def after (c : Context) (t : Tree) : Context :=
  { (if t.construct.bindsInBlock then c.extend t.id t.construct else c) with
    made := c.made + t.declarationCount }

end Lexical.Context

end LateBinding
