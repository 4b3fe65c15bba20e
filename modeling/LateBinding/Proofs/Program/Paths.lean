import Mathlib.Data.List.Nodup
import LateBinding.Program.Outline
import LateBinding.Proofs.Place
import LateBinding.Proofs.Program.Links

/-!
# Ways through a forest

In a linked forest every way up and every walk down ends by itself.  The functions that follow links
are given a number of steps; here it is shown that the number is never what stops them.

* `Linked.not_isAncestor_self`, `Linked.length_climb_lt` - no node lies above itself, so a way up
  meets fewer nodes than there are.
* `Linked.ancestors_eq`, `Linked.iterate_parent?` - the way up is followed to its end, step by step.
* `Linked.descent` - going from a node to its children ends.
* `Linked.walk_ends` - a walk has nothing left after as many visits as there are nodes: the nodes it
  has visited and those it still has to visit are different ones.
* `Linked.exists_tree?` - the tree of a node holds the trees of all its children.
* `Forest.IsForest`, `isForest_after` - all of this, after every sequence of edits.
-/

namespace LateBinding

namespace Forest

variable {f : Forest}

/-- Different known nodes are no more than there are nodes. -/
theorem length_le_size {ids : List NodeId} (hNodup : ids.Nodup)
    (hKnown : ∀ id ∈ ids, id.index < f.size) : ids.length ≤ f.size := by
  have hIndices : (ids.map NodeId.index).Nodup := by
    refine hNodup.map ?_
    rintro ⟨i⟩ ⟨j⟩ rfl
    rfl
  have hSubset : ids.map NodeId.index ⊆ List.range f.size := by
    intro i hMem
    obtain ⟨id, hId, rfl⟩ := List.mem_map.mp hMem
    exact List.mem_range.mpr (hKnown id hId)
  simpa using hIndices.length_le_of_subset hSubset

/-! ### The way up -/

/-- No node lies above itself. -/
theorem Linked.not_isAncestor_self (hLinked : f.Linked) (id : NodeId) : ¬f.IsAncestor id id :=
  hLinked.ascent.transGen.irrefl.irrefl id

/-- A parent is known. -/
theorem Linked.lt_size_of_isParent (hLinked : f.Linked) {parent id : NodeId}
    (hParent : f.IsParent parent id) : parent.index < f.size :=
  lt_size_of_mem_children ((hLinked.mem_children_iff parent id).mpr hParent)

/-- What lies above something is known. -/
theorem Linked.lt_size_of_isAncestor (hLinked : f.Linked) {above id : NodeId}
    (hAbove : f.IsAncestor above id) : above.index < f.size := by
  obtain ⟨next, hParent, -⟩ := Relation.TransGen.head'_iff.mp hAbove
  exact hLinked.lt_size_of_isParent hParent

@[simp] theorem climb_zero (f : Forest) (link : Option NodeId) : f.climb 0 link = [] := by
  cases link <;> rfl

@[simp] theorem climb_none (f : Forest) (steps : Nat) : f.climb steps none = [] := by
  cases steps <;> rfl

/-- On the way up from a node lie nodes above it, and no node twice. -/
theorem Linked.climb_spec (hLinked : f.Linked) (steps : Nat) (id : NodeId) :
    (∀ above ∈ f.climb steps (f.parent? id), f.IsAncestor above id) ∧
      (f.climb steps (f.parent? id)).Nodup := by
  induction steps generalizing id with
  | zero => simp
  | succ steps ih =>
      cases hParent : f.parent? id with
      | none => simp
      | some parent =>
          obtain ⟨hAbove, hNodup⟩ := ih parent
          have hStep : f.IsAncestor parent id := .single hParent
          constructor
          · intro above hMem
            rcases List.mem_cons.mp hMem with rfl | hMem
            · exact hStep
            · exact (hAbove above hMem).trans hStep
          · refine List.nodup_cons.mpr ⟨?_, hNodup⟩
            intro hMem
            exact hLinked.not_isAncestor_self parent (hAbove parent hMem)

/-- A node and the nodes on the way up from it are different. -/
theorem Linked.nodup_cons_climb (hLinked : f.Linked) (steps : Nat) (id : NodeId) :
    (id :: f.climb steps (f.parent? id)).Nodup := by
  obtain ⟨hAbove, hNodup⟩ := hLinked.climb_spec steps id
  refine List.nodup_cons.mpr ⟨fun hMem => ?_, hNodup⟩
  exact hLinked.not_isAncestor_self id (hAbove id hMem)

/-- The way up from a known node meets fewer nodes than there are. -/
theorem Linked.length_climb_lt (hLinked : f.Linked) (steps : Nat) {id : NodeId}
    (hKnown : id.index < f.size) : (f.climb steps (f.parent? id)).length < f.size := by
  have hAbove := (hLinked.climb_spec steps id).1
  have hBound : (id :: f.climb steps (f.parent? id)).length ≤ f.size := by
    refine length_le_size (hLinked.nodup_cons_climb steps id)
      (List.forall_mem_cons.mpr ⟨hKnown, ?_⟩)
    exact fun above hMem => hLinked.lt_size_of_isAncestor (hAbove above hMem)
  rw [List.length_cons] at hBound
  omega

/-- More steps than there are nodes on the way make no difference. -/
theorem climb_eq_of_length_lt {steps : Nat} {link : Option NodeId}
    (hEnds : (f.climb steps link).length < steps) :
    f.climb (steps + 1) link = f.climb steps link := by
  induction steps generalizing link with
  | zero => omega
  | succ steps ih =>
      cases link with
      | none => rfl
      | some id =>
          have hRest : (f.climb steps (f.parent? id)).length < steps := by
            simpa [climb] using hEnds
          rw [climb, ih hRest, climb]

/-- The nodes above a node are its parent and the nodes above that. -/
theorem Linked.ancestors_eq (hLinked : f.Linked) (id : NodeId) :
    f.ancestors id =
      match f.parent? id with
      | none => []
      | some parent => parent :: f.ancestors parent := by
  unfold ancestors
  cases hParent : f.parent? id with
  | none => rw [climb_none]
  | some parent =>
      have hKnown := lt_size_of_parent? hParent
      obtain ⟨last, hSize⟩ : ∃ last, f.size = last + 1 := ⟨f.size - 1, by omega⟩
      -- the parent and the nodes above it leave room for one node, from which the way began
      have hShort : (f.climb last (f.parent? parent)).length < last := by
        have hBound := hLinked.length_climb_lt (last + 1) hKnown
        rw [hParent, climb, List.length_cons] at hBound
        omega
      rw [hSize, climb]
      congr 1
      exact (climb_eq_of_length_lt hShort).symm

/-- The nodes met on the way up are those above a node. -/
theorem Linked.mem_ancestors_iff (hLinked : f.Linked) (above id : NodeId) :
    above ∈ f.ancestors id ↔ f.IsAncestor above id := by
  constructor
  · exact (hLinked.climb_spec f.size id).1 above
  · intro hAbove
    induction hAbove with
    | single hParent =>
        rw [hLinked.ancestors_eq, show f.parent? _ = some above from hParent]
        exact List.mem_cons_self
    | tail _ hParent ih =>
        rw [hLinked.ancestors_eq, show f.parent? _ = some _ from hParent]
        exact List.mem_cons_of_mem _ ih

/-- The parent of a node on the way up is the next node on the way. -/
theorem Linked.parent?_of_getElem?_ancestors (hLinked : f.Linked) {id above : NodeId} {i : Nat}
    (hAt : (id :: f.ancestors id)[i]? = some above) :
    f.parent? above = (id :: f.ancestors id)[i + 1]? := by
  induction i generalizing id with
  | zero =>
      obtain rfl : id = above := by simpa using hAt
      rw [List.getElem?_cons_succ, hLinked.ancestors_eq]
      cases f.parent? id <;> rfl
  | succ i ih =>
      rw [List.getElem?_cons_succ, hLinked.ancestors_eq] at hAt ⊢
      cases hParent : f.parent? id with
      | none => simp [hParent] at hAt
      | some parent =>
          rw [hParent] at hAt
          exact ih hAt

/-- Steps up from a node lead to the nodes above it, one after the other. -/
theorem Linked.iterate_parent? (hLinked : f.Linked) (id : NodeId) (steps : Nat) :
    (fun link : Option NodeId => link.bind f.parent?)^[steps] (some id) =
      (id :: f.ancestors id)[steps]? :=
  Place.iterate_bind_getElem? (fun _ _ hAt => hLinked.parent?_of_getElem?_ancestors hAt) steps

/-- The way up from a known node ends within as many steps as there are nodes. -/
theorem Linked.iterate_parent?_eq_none (hLinked : f.Linked) {id : NodeId}
    (hKnown : id.index < f.size) :
    (fun link : Option NodeId => link.bind f.parent?)^[f.size] (some id) = none := by
  have hBound : (f.ancestors id).length < f.size := hLinked.length_climb_lt f.size hKnown
  rw [hLinked.iterate_parent?]
  exact List.getElem?_eq_none (by rw [List.length_cons]; omega)

/-! ### The way down -/

/-- Children are known. -/
theorem Linked.lt_size_of_mem (hLinked : f.Linked) {id child : NodeId}
    (hMem : child ∈ f.children id) : child.index < f.size :=
  lt_size_of_parent? ((hLinked.mem_children_iff id child).mp hMem)

/-- A child has one node more above it than its parent. -/
theorem Linked.length_ancestors_child (hLinked : f.Linked) {id child : NodeId}
    (hMem : child ∈ f.children id) :
    (f.ancestors child).length = (f.ancestors id).length + 1 := by
  rw [hLinked.ancestors_eq child, (hLinked.mem_children_iff id child).mp hMem]
  rfl

/-- Going from nodes to their children ends: it comes to nodes with more and more nodes above
them. -/
theorem Linked.descent (hLinked : f.Linked) :
    WellFounded fun child id => child ∈ f.children id := by
  refine Subrelation.wf ?_ (measure fun id => f.size - (f.ancestors id).length).wf
  intro child id hMem
  have hMore := hLinked.length_ancestors_child hMem
  have hBound : (f.ancestors child).length < f.size :=
    hLinked.length_climb_lt f.size (hLinked.lt_size_of_mem hMem)
  show f.size - (f.ancestors child).length < f.size - (f.ancestors id).length
  omega

/-- A walk from `start` that has visited some nodes: all nodes visited and pending are different and
lie below `start`, and their parents are visited or `start` itself. -/
structure Underway (f : Forest) (start : NodeId) (visited pending : List NodeId) : Prop where
  nodup : (visited ++ pending).Nodup
  below : ∀ id ∈ visited ++ pending, f.IsAncestor start id
  entered : ∀ id ∈ visited ++ pending, ∃ parent ∈ start :: visited, f.parent? id = some parent

theorem Linked.underway_below (hLinked : f.Linked) (start : NodeId) :
    f.Underway start [] (Walk.below f start).pending where
  nodup := hLinked.nodup_children start
  below := fun id hMem => .single ((hLinked.mem_children_iff start id).mp hMem)
  entered := fun id hMem =>
    ⟨start, List.mem_cons_self, (hLinked.mem_children_iff start id).mp hMem⟩

/-- A visit replaces a pending node by its children.  These are new: their parent is the node just
visited, and the parents of all others were visited before. -/
theorem Linked.underway_visit (hLinked : f.Linked) {start id : NodeId} {visited rest : List NodeId}
    (hUnderway : f.Underway start visited (id :: rest)) :
    f.Underway start (visited ++ [id]) (f.children id ++ rest) := by
  have hParent : ∀ child ∈ f.children id, f.parent? child = some id :=
    fun child hMem => (hLinked.mem_children_iff id child).mp hMem
  have hBelow := hUnderway.below id (by simp)
  have hNew : ∀ child ∈ f.children id, child ∉ visited ++ id :: rest := by
    intro child hChild hMem
    obtain ⟨parent, hEntered, hSome⟩ := hUnderway.entered child hMem
    rw [hParent child hChild] at hSome
    obtain rfl := Option.some.inj hSome
    rcases List.mem_cons.mp hEntered with hStart | hVisited
    · subst hStart
      exact hLinked.not_isAncestor_self id hBelow
    · exact (List.nodup_append.mp hUnderway.nodup).2.2 id hVisited id List.mem_cons_self rfl
  have hPerm : ((visited ++ [id]) ++ (f.children id ++ rest)).Perm
      (f.children id ++ (visited ++ id :: rest)) := by
    have hMoved := List.perm_append_comm_assoc (visited ++ [id]) (f.children id) rest
    rwa [List.append_assoc visited [id] rest, List.singleton_append] at hMoved
  have hMem : ∀ other, other ∈ (visited ++ [id]) ++ (f.children id ++ rest) →
      other ∈ f.children id ∨ other ∈ visited ++ id :: rest := by
    intro other hOther
    simpa using hPerm.mem_iff.mp hOther
  constructor
  · refine hPerm.nodup_iff.mpr (List.Nodup.append (hLinked.nodup_children id) hUnderway.nodup ?_)
    exact fun child hChild hOld => hNew child hChild hOld
  · intro other hOther
    rcases hMem other hOther with hChild | hOld
    · exact hBelow.tail (hParent other hChild)
    · exact hUnderway.below other hOld
  · intro other hOther
    rcases hMem other hOther with hChild | hOld
    · exact ⟨id, by simp, hParent other hChild⟩
    · obtain ⟨parent, hEntered, hSome⟩ := hUnderway.entered other hOld
      refine ⟨parent, ?_, hSome⟩
      rw [← List.cons_append]
      exact List.mem_append_left _ hEntered

/-- A walk underway comes to its end within the visits that are left. -/
theorem Linked.advance_ends (hLinked : f.Linked) {start : NodeId} {visits : Nat}
    {visited pending : List NodeId} (hUnderway : f.Underway start visited pending)
    (hEnough : f.size ≤ visited.length + visits) :
    (Walk.advance f visits ⟨pending⟩).2 = ⟨[]⟩ := by
  induction visits generalizing visited pending with
  | zero =>
      have hKnown : ∀ id ∈ visited ++ pending, id.index < f.size := by
        intro id hMem
        obtain ⟨parent, -, hSome⟩ := hUnderway.entered id hMem
        exact lt_size_of_parent? hSome
      have hBound := length_le_size hUnderway.nodup hKnown
      rw [List.length_append] at hBound
      have hNil : pending = [] := List.eq_nil_of_length_eq_zero (by omega)
      rw [hNil]
      rfl
  | succ visits ih =>
      cases pending with
      | nil => rfl
      | cons id rest =>
          have hNext := hLinked.underway_visit hUnderway
          exact ih hNext (by rw [List.length_append, List.length_singleton]; omega)

/-- A walk through everything below a node has nothing left after as many visits as there are
nodes. -/
theorem Linked.walk_ends (hLinked : f.Linked) (id : NodeId) :
    (Walk.advance f f.size (Walk.below f id)).2 = ⟨[]⟩ :=
  hLinked.advance_ends (hLinked.underway_below id) (by simp)

/-! ### Trees -/

/-- A depth is enough for the tree of a node if it makes up for the nodes above it. -/
theorem Linked.treeTo_congr (hLinked : f.Linked) {depth other : Nat} {id : NodeId}
    (hKnown : id.index < f.size) (hDepth : f.size ≤ depth + (f.ancestors id).length)
    (hOther : f.size ≤ other + (f.ancestors id).length) :
    f.treeTo depth id = f.treeTo other id := by
  have hBound : (f.ancestors id).length < f.size := hLinked.length_climb_lt f.size hKnown
  induction depth generalizing other id with
  | zero => omega
  | succ depth ih =>
      cases other with
      | zero => omega
      | succ other =>
          obtain ⟨n, hNode⟩ := exists_node? hKnown
          simp only [treeTo, hNode, Option.map_some, Option.some.injEq, Tree.mk.injEq, true_and]
          apply List.filterMap_congr
          intro child hMem
          rw [← children_eq_of_node? hNode] at hMem
          have hMore := hLinked.length_ancestors_child hMem
          have hChild := hLinked.lt_size_of_mem hMem
          exact ih hChild (by omega) (by omega) (hLinked.length_climb_lt f.size hChild)

/-- A tree is read for every known node, to a depth that is enough. -/
theorem exists_treeTo {depth : Nat} {id : NodeId} (hKnown : id.index < f.size) :
    ∃ t, f.treeTo (depth + 1) id = some t := by
  obtain ⟨n, hNode⟩ := exists_node? hKnown
  exact ⟨_, by rw [treeTo, hNode]; rfl⟩

/-- The tree of a node holds the trees of all its children, in order. -/
theorem Linked.exists_tree? (hLinked : f.Linked) {id : NodeId} {n : Node}
    (hNode : f.node? id = some n) :
    ∃ trees, n.children.map f.tree? = trees.map some ∧ f.tree? id = some (.mk id n trees) := by
  have hKnown := lt_size_of_node? hNode
  obtain ⟨last, hSize⟩ : ∃ last, f.size = last + 1 := ⟨f.size - 1, by omega⟩
  have hChildren : ∀ child ∈ n.children,
      f.treeTo last child = f.tree? child ∧ ∃ t, f.tree? child = some t := by
    intro child hMem
    rw [← children_eq_of_node? hNode] at hMem
    have hMore := hLinked.length_ancestors_child hMem
    have hChild := hLinked.lt_size_of_mem hMem
    refine ⟨hLinked.treeTo_congr hChild (by omega) (by omega), ?_⟩
    rw [tree?, hSize]
    exact exists_treeTo hChild
  refine ⟨n.children.filterMap f.tree?, ?_, ?_⟩
  · have hAll : ∀ children : List NodeId, (∀ child ∈ children, ∃ t, f.tree? child = some t) →
        children.map f.tree? = (children.filterMap f.tree?).map some := by
      intro children hSome
      induction children with
      | nil => rfl
      | cons child rest ih =>
          obtain ⟨⟨t, hTree⟩, hRest⟩ := List.forall_mem_cons.mp hSome
          rw [List.map_cons, List.filterMap_cons, hTree, List.map_cons, ih hRest]
    exact hAll n.children fun child hMem => (hChildren child hMem).2
  · have hSame : n.children.filterMap (f.treeTo last) = n.children.filterMap f.tree? :=
      List.filterMap_congr fun child hMem => (hChildren child hMem).1
    rw [tree?, hSize, treeTo, hNode, ← hSame]
    rfl

/-! ### Forests -/

/-- What makes nodes and links a forest, in which everything that follows links comes to an end. -/
structure IsForest (f : Forest) : Prop where
  /-- Every parent that a node names is known. -/
  parent_known : ∀ id parent, f.parent? id = some parent → parent.index < f.size
  /-- Every child that a node lists is known. -/
  child_known : ∀ id, ∀ child ∈ f.children id, child.index < f.size
  /-- A node lists a child exactly if the child names it as its parent. -/
  links_agree : ∀ parent child, child ∈ f.children parent ↔ f.parent? child = some parent
  /-- No child is listed twice. -/
  children_once : ∀ id, (f.children id).Nodup
  /-- No node lies above itself. -/
  acyclic : ∀ id, ¬f.IsAncestor id id
  /-- The way up from a node ends within as many steps as there are nodes. -/
  ascent_ends : ∀ id, id.index < f.size →
    (fun link : Option NodeId => link.bind f.parent?)^[f.size] (some id) = none
  /-- The nodes above a node are found one by one up to the last. -/
  ancestors_complete : ∀ id,
    f.ancestors id =
      match f.parent? id with
      | none => []
      | some parent => parent :: f.ancestors parent
  /-- Going from a node to its children ends. -/
  descent_ends : WellFounded fun child id => child ∈ f.children id
  /-- The walk through everything below a node has visited it all after as many visits as there are
  nodes. -/
  walk_ends : ∀ id, (Walk.advance f f.size (Walk.below f id)).2 = ⟨[]⟩
  /-- The tree of a node, which its outline shows, holds the trees of all its children. -/
  tree_complete : ∀ id n, f.node? id = some n →
    ∃ trees, n.children.map f.tree? = trees.map some ∧ f.tree? id = some (.mk id n trees)
  /-- The root is known and has no parent. -/
  root_free : ∀ root, f.root = some root → root.index < f.size ∧ f.parent? root = none

/-- **Whatever is done to a forest, it is a forest.**  After every sequence of operations on nodes
and links and of steps of construction, with any node numbers and failed ones included, starting
from nothing or from an empty module, the nodes and links form a forest. -/
theorem isForest_after (origin : Option String) (edits : List Edit) :
    ((initial origin).after edits).IsForest := by
  have hLinked := linked_after origin edits
  exact
    { parent_known := fun _ _ hParent => hLinked.lt_size_of_isParent hParent
      child_known := fun _ _ hMem => hLinked.lt_size_of_mem hMem
      links_agree := hLinked.mem_children_iff
      children_once := hLinked.nodup_children
      acyclic := hLinked.not_isAncestor_self
      ascent_ends := fun _ hKnown => hLinked.iterate_parent?_eq_none hKnown
      ancestors_complete := hLinked.ancestors_eq
      descent_ends := hLinked.descent
      walk_ends := hLinked.walk_ends
      tree_complete := fun _ _ hNode => hLinked.exists_tree? hNode
      root_free := hLinked.root_free }

end Forest

end LateBinding
