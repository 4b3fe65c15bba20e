import LateBinding.Proofs.Lexical.Position

/-!
# What a position means in its function

Every function has slots of its own: first one for each thing that was visible where the function
was entered, then one for each declaration that the function makes, in the order in which it makes
them.  The slot of a position is that of the declaration it is about, and a function needs from
outside what is used inside it and declared outside it.

* `Position.binding?` - the declaration that a position uses or makes.
* `Context.slot` - the slot of a declaration, and `Context.denote` - what it is for the function: a
  declaration of the function itself, or a name that the function has from outside.
* `Position.captures`, `Position.layout` - what a function has from outside, and its whole storage.
-/

namespace LateBinding.Lexical

open Resolution (Capture Layout)

/-- What a declaration is for a function: one of its own, or a name that it has from outside. -/
inductive Meaning where
  | own (node : NodeId) (place : Nat)
  | inherited (name : Option String)
deriving DecidableEq

namespace Context

/-- The slot of a declaration in the function around a point. -/
def slot (c : Context) (d : Declaration) : Nat :=
  if d.depth = c.depth then c.inherited.length + d.rank else c.inherited.idxOf d.name

/-- What a declaration is for the function around a point. -/
def denote (c : Context) (d : Declaration) : Meaning :=
  if d.depth = c.depth then .own d.node d.place else .inherited d.name

/-- What using a name makes the function around a point have from outside. -/
def capture? (c : Context) (name : String) : Option Capture :=
  (c.lookup? name).bind fun d =>
    if d.depth < c.depth then some ⟨name, c.inherited.idxOf (some name)⟩ else none

end Context

namespace Position

/-- The declaration that a position is about: the one that a use or an assignment finds, and of
those that a statement makes the one that holds its value. -/
def binding? (q : Position) : Option Declaration :=
  match q.construct with
  | .reference name | .functionCall name | .assignment name => q.context.lookup? name
  | .declaration name mutability =>
      some ⟨q.id, 0, some name, mutability, q.context.depth, q.context.made⟩
  | .destructuring _ _ => some ⟨q.id, 0, none, .constant, q.context.depth, q.context.made⟩
  | .iteration name =>
      some ⟨q.id, 1, some name, .mutable, q.context.depth, q.context.made + 1⟩
  | _ => none

/-- A use of a name is about what is found under the name. -/
theorem binding?_of_use? {q : Position} {name : String} (hUse : q.use? = some name) :
    q.binding? = q.context.lookup? name := by
  rw [use?] at hUse
  rw [binding?]
  split at hUse <;> simp_all

/-- The slot of a position, if it is about a declaration. -/
def slot? (q : Position) : Option Nat :=
  q.binding?.map q.context.slot

/-- What a position stands for in its function, if it is about a declaration. -/
def denotes? (q : Position) : Option Meaning :=
  q.binding?.map q.context.denote

/-- The node of a position with its slot. -/
def record? (q : Position) : Option (NodeId × Nat) :=
  q.slot?.map fun slot => (q.id, slot)

/-- What a position inside a function makes the function have from outside, given the number of
functions around what is in the function, and the names that it has from outside. -/
def capture? (depth : Nat) (inherited : List (Option String)) (q : Position) : Option Capture :=
  q.use?.bind fun name =>
    (q.context.lookup? name).bind fun d =>
      if d.depth < depth then some ⟨name, inherited.idxOf (some name)⟩ else none

/-- The positions inside a function. -/
def inside (q : Position) : List Position :=
  Tree.positionsAll (q.context.enter.extend q.id q.construct) q.tree.children

/-- What a function has from outside, in the order of first use. -/
def captures (q : Position) : List Capture :=
  (q.inside.filterMap (capture? q.context.enter.depth q.context.enter.inherited)).eraseDups

/-- The storage of a function under a name. -/
def layout (name : String) (q : Position) : Layout where
  function := q.id
  name := name
  isClosure := q.construct.isClosureFunction
  params := List.range' q.context.visible.length q.construct.bindings.length
  slotCount :=
    q.context.visible.length + q.construct.bindings.length +
      Tree.declarationCountAll q.tree.children
  captured := q.captures

/-- A storage without the name of its function. -/
def nameless (l : Layout) : Layout :=
  { l with name := "" }

/-- The storage of a position that is a function; its name is left open. -/
def layout? (q : Position) : Option Layout :=
  if q.construct.isFunction then some (q.layout "") else none

end Position

end LateBinding.Lexical
