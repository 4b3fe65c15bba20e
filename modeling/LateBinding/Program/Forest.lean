import LateBinding.Program.Span
import LateBinding.Program.Malformation

/-!
# Forests of nodes

A program under construction is a forest: all its nodes in one array, each with its parent and its
children.  A parent lists its children in order, and a child names its parent; the two directions
are kept in step by `attach` and `detach`, which alone change links.  An edit that would leave
anything but a forest is refused and changes nothing.
-/

namespace LateBinding

/-- One node: its construct, where it was read, the storage slot chosen for it, and its links. -/
structure Node where
  construct : Construct
  span : Span
  slot : Option Nat
  parent : Option NodeId
  children : List NodeId
deriving DecidableEq

/-- A node without links and without a slot. -/
def Node.detached (construct : Construct) (span : Span) : Node where
  construct := construct
  span := span
  slot := none
  parent := none
  children := []

/-- Nodes with their links, and the one that is the root of the program. -/
structure Forest where
  nodes : Array Node
  root : Option NodeId

namespace Forest

/-- The forest without nodes. -/
def empty : Forest where
  nodes := #[]
  root := none

/-- The number of nodes, attached or not. -/
def size (f : Forest) : Nat :=
  f.nodes.size

/-- The node of a number. -/
def node? (f : Forest) (id : NodeId) : Option Node :=
  f.nodes[id.index]?

/-- The parent of a node, if the node is known and attached. -/
def parent? (f : Forest) (id : NodeId) : Option NodeId :=
  (f.node? id).bind Node.parent

/-- The children of a node in order; an unknown node has none. -/
def children (f : Forest) (id : NodeId) : List NodeId :=
  ((f.node? id).map Node.children).getD []

/-- The forest with one node changed. -/
def modify (f : Forest) (id : NodeId) (change : Node → Node) : Forest :=
  { f with nodes := f.nodes.modify id.index change }

/-- A new node without links, and its number. -/
def add (f : Forest) (construct : Construct) (span : Span) : NodeId × Forest :=
  (⟨f.size⟩, { f with nodes := f.nodes.push (Node.detached construct span) })

/-- The forest of a single node, its root. -/
def ofRoot (construct : Construct) (span : Span) : NodeId × Forest :=
  let (id, f) := empty.add construct span
  (id, { f with root := some id })

/-- Whether `candidate` is met on the way up from `link`.  The way is followed for `steps` links; one
that is longer belongs to no forest of that many nodes, and anything counts as met on it. -/
def meetsAbove (f : Forest) (candidate : NodeId) : Nat → Option NodeId → Bool
  | _, none => false
  | 0, some _ => true
  | steps + 1, some id => id = candidate || f.meetsAbove candidate steps (f.parent? id)

/-- Whether `candidate` lies above `id`. -/
def isAbove (f : Forest) (candidate id : NodeId) : Bool :=
  f.meetsAbove candidate (f.size + 1) (f.parent? id)

/-- The forest in which `child` is the last child of `parent`, both links set. -/
def link (f : Forest) (parent child : NodeId) : Forest :=
  (f.modify child fun n => { n with parent := some parent }).modify parent fun n =>
    { n with children := n.children ++ [child] }

/-- The forest in which `child` is no longer a child of `parent`, both links cleared. -/
def unlink (f : Forest) (parent child : NodeId) : Forest :=
  (f.modify parent fun n => { n with children := n.children.filter (· ≠ child) }).modify child
    fun n => { n with parent := none }

/-- Makes a node the last child of another.  Both must be known, the child must have no parent and
not be the root, and the parent must not lie in the tree of the child. -/
def attach (f : Forest) (parent child : NodeId) : Except Malformation Forest :=
  match f.node? parent, f.node? child with
  | none, _ => .error (.unknownNode parent)
  | some _, none => .error (.unknownNode child)
  | some _, some c =>
      match c.parent with
      | some owner => .error (.alreadyAttached child owner)
      | none =>
          if parent = child || f.isAbove child parent then .error (.cycle parent child)
          else if f.root = some child then .error (.attachedRoot child)
          else .ok (f.link parent child)

/-- Takes a node away from its parent; a node without a parent stays as it is. -/
def detach (f : Forest) (child : NodeId) : Except Malformation Forest :=
  match f.node? child with
  | none => .error (.unknownNode child)
  | some c =>
      match c.parent with
      | none => .ok f
      | some parent => .ok (f.unlink parent child)

/-- Makes a node without a parent the root. -/
def setRoot (f : Forest) (id : NodeId) : Except Malformation Forest :=
  match f.node? id with
  | none => .error (.unknownNode id)
  | some n =>
      if n.parent.isSome then .error (.rootWithParent id) else .ok { f with root := some id }

/-- Records the storage slot of a node. -/
def setSlot (f : Forest) (id : NodeId) (slot : Nat) : Except Malformation Forest :=
  match f.node? id with
  | none => .error (.unknownNode id)
  | some _ => .ok (f.modify id fun n => { n with slot := some slot })

/-- Gives a function another name. -/
def setFunctionName (f : Forest) (id : NodeId) (name : String) : Except Malformation Forest :=
  match f.node? id with
  | none => .error (.unknownNode id)
  | some n =>
      if n.construct.isFunction then
        .ok (f.modify id fun n => { n with construct := n.construct.renamed name })
      else .error (.notFunction n.construct)

@[simp] theorem size_modify (f : Forest) (id : NodeId) (change : Node → Node) :
    (f.modify id change).size = f.size := by
  simp [modify, size]

@[simp] theorem root_modify (f : Forest) (id : NodeId) (change : Node → Node) :
    (f.modify id change).root = f.root := rfl

theorem node?_modify (f : Forest) (id other : NodeId) (change : Node → Node) :
    (f.modify id change).node? other =
      if other = id then (f.node? other).map change else f.node? other := by
  have key : (other = id) ↔ id.index = other.index := by
    cases id; cases other; simp [eq_comm]
  simp only [node?, modify, Array.getElem?_modify, key]

theorem node?_add (f : Forest) (construct : Construct) (span : Span) (id : NodeId) :
    (f.add construct span).2.node? id =
      if id.index = f.size then some (Node.detached construct span) else f.node? id :=
  Array.getElem?_push

theorem node?_eq_none_iff (f : Forest) (id : NodeId) : f.node? id = none ↔ f.size ≤ id.index := by
  simp [node?, size]

end Forest

end LateBinding
