import LateBinding.Program.Forest

/-!
# Walking a forest

Questions about where a node stands: what lies above it, beside it and below it.  The walk through a
subtree is a value, a list of the nodes still to be visited, so that it can be stopped, copied and
continued.
-/

namespace LateBinding

namespace Forest

/-- The parent of a link, its parent, and so on, for at most `steps` nodes. -/
def climb (f : Forest) : Nat → Option NodeId → List NodeId
  | _, none => []
  | 0, some _ => []
  | steps + 1, some id => id :: f.climb steps (f.parent? id)

/-- The nodes above a node, the nearest first. -/
def ancestors (f : Forest) (id : NodeId) : List NodeId :=
  f.climb f.size (f.parent? id)

/-- The nearest node above a node that satisfies `p`. -/
def ancestor? (f : Forest) (p : NodeId → Bool) (id : NodeId) : Option NodeId :=
  (f.ancestors id).find? p

/-- The child at a position. -/
def child? (f : Forest) (id : NodeId) (i : Nat) : Option NodeId :=
  (f.children id)[i]?

/-- The position of a node among the children of its parent. -/
def position? (f : Forest) (id : NodeId) : Option Nat :=
  (f.parent? id).bind fun parent => (f.children parent).idxOf? id

/-- The sibling just before a node. -/
def previous? (f : Forest) (id : NodeId) : Option NodeId :=
  match f.parent? id, f.position? id with
  | some parent, some (i + 1) => f.child? parent i
  | _, _ => none

/-- The sibling just after a node. -/
def next? (f : Forest) (id : NodeId) : Option NodeId :=
  match f.parent? id, f.position? id with
  | some parent, some i => f.child? parent (i + 1)
  | _, _ => none

end Forest

/-- A walk through a subtree, parents before children: the nodes whose subtrees are still to be
visited, the next one first. -/
structure Walk where
  pending : List NodeId

namespace Walk

/-- The walk through everything below a node. -/
def below (f : Forest) (id : NodeId) : Walk :=
  ⟨f.children id⟩

/-- Visits one node; its children come next. -/
def next? (f : Forest) : Walk → Option (NodeId × Walk)
  | ⟨[]⟩ => none
  | ⟨id :: rest⟩ => some (id, ⟨f.children id ++ rest⟩)

/-- Visits at most `n` nodes, and the walk from there. -/
def advance (f : Forest) : Nat → Walk → List NodeId × Walk
  | 0, w => ([], w)
  | n + 1, w =>
      match w.next? f with
      | none => ([], w)
      | some (id, rest) =>
          let (visited, final) := advance f n rest
          (id :: visited, final)

/-- The nodes that the walk still visits.  Each node of a forest is visited once at most, so the
number of nodes bounds the visits. -/
def toList (f : Forest) (w : Walk) : List NodeId :=
  (w.advance f f.size).1

end Walk

/-- The nodes below a node, parents before children and siblings in order. -/
def Forest.descendants (f : Forest) (id : NodeId) : List NodeId :=
  (Walk.below f id).toList f

end LateBinding
