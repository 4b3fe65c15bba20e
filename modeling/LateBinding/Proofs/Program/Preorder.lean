import LateBinding.Proofs.Lexical.Shape
import LateBinding.Proofs.Program.Paths

/-!
# The walk through a subtree is the order of the tree

The nodes below a node can be listed in two ways: by the walk, which keeps the nodes still to be
visited and puts the children of a visited node before them, and by recursion on the tree of the
node.  Both give the same list, and no node stands in it twice.

* `Tree.map_id_subtrees` - a tree and the trees below it, as nodes.
* `Forest.Linked.children_of_tree?`, `Forest.Linked.tree?_of_mem_subtrees` - the trees in the tree of
  a node are the trees of its nodes.
* `Forest.Linked.advance_eq_preorderAll`, `Forest.Linked.descendants_eq` - the walk, by the tree.
* `Forest.Linked.nodup_descendants`, `Forest.Linked.mem_descendants_iff` - no node is met twice, and
  those that are met are the nodes that the start lies above.
* `Forest.Linked.descendants_congr` - what the walk depends on.
-/

namespace LateBinding

/-! ### Trees as lists of nodes -/

namespace Tree

theorem descendants_eq (t : Tree) : t.descendants = preorderAll t.children := by
  cases t
  rw [descendants, children]

theorem preorderAll_eq_flatMap (ts : List Tree) :
    preorderAll ts = ts.flatMap fun t => t.id :: t.descendants := by
  induction ts with
  | nil => rfl
  | cons t rest ih => rw [preorderAll, List.flatMap_cons, ih, List.cons_append]

theorem preorderAll_append (ts us : List Tree) :
    preorderAll (ts ++ us) = preorderAll ts ++ preorderAll us := by
  simp only [preorderAll_eq_flatMap, List.flatMap_append]

/-- A tree and all trees below it have the nodes of the tree, in the same order. -/
theorem map_id_subtrees (t : Tree) : t.subtrees.map Tree.id = t.id :: t.descendants := by
  induction t using induction_children with
  | mk id node children ih =>
      rw [subtrees, List.map_cons, subtreesAll_eq_flatMap, List.map_flatMap, descendants,
        preorderAll_eq_flatMap]
      exact congrArg (id :: ·) (List.flatMap_congr ih)

end Tree

/-- Walks depend on the children of nodes and on nothing else of a forest. -/
theorem Walk.advance_congr {f other : Forest} (hChildren : other.children = f.children)
    (visits : Nat) (w : Walk) : w.advance other visits = w.advance f visits := by
  have hNext : ∀ w : Walk, w.next? other = w.next? f := by
    rintro ⟨_ | ⟨id, rest⟩⟩
    · rfl
    · rw [Walk.next?, Walk.next?, hChildren]
  induction visits generalizing w with
  | zero => rfl
  | succ visits ih => simp only [Walk.advance, hNext, ih]

namespace Forest

variable {f : Forest}

/-! ### Trees of nodes -/

/-- The tree of a node has the node on top, and below it the trees of the node's children. -/
theorem Linked.children_of_tree? (hLinked : f.Linked) {id : NodeId} {t : Tree}
    (hTree : f.tree? id = some t) :
    t.id = id ∧ f.node? id = some t.node ∧ (f.children id).map f.tree? = t.children.map some := by
  obtain ⟨n, hNode⟩ : ∃ n, f.node? id = some n := by
    cases hNode : f.node? id with
    | some n => exact ⟨n, rfl⟩
    | none =>
        cases hSize : f.size <;> simp [tree?, hSize, treeTo, hNode] at hTree
  obtain ⟨trees, hTrees, hRead⟩ := hLinked.exists_tree? hNode
  rw [hTree, Option.some.injEq] at hRead
  subst hRead
  rw [children_eq_of_node? hNode]
  exact ⟨rfl, hNode, hTrees⟩

/-- The children of a node are the topmost nodes of the trees below it. -/
theorem Linked.children_eq_map_id (hLinked : f.Linked) {id : NodeId} {t : Tree}
    (hTree : f.tree? id = some t) : f.children id = t.children.map Tree.id := by
  obtain ⟨-, -, hChildren⟩ := hLinked.children_of_tree? hTree
  apply List.ext_getElem?
  intro i
  have hAt := congrArg (·[i]?) hChildren
  simp only [List.getElem?_map] at hAt ⊢
  cases hChild : (f.children id)[i]? with
  | none => simpa [hChild] using hAt.symm
  | some child =>
      rw [hChild, Option.map_some, eq_comm, Option.map_eq_some_iff] at hAt
      obtain ⟨s, hS, hRead⟩ := hAt
      rw [hS, Option.map_some, (hLinked.children_of_tree? hRead.symm).1]

/-- A tree inside the tree of a node is the tree of its own node. -/
theorem Linked.tree?_of_mem_subtrees (hLinked : f.Linked) {id : NodeId} {t : Tree}
    (hTree : f.tree? id = some t) {s : Tree} (hMem : s ∈ t.subtrees) :
    f.tree? s.id = some s := by
  induction t using Tree.induction_children generalizing id with
  | mk top node children ih =>
      obtain ⟨hTop, -, hChildren⟩ := hLinked.children_of_tree? hTree
      rw [Tree.subtrees, Tree.subtreesAll_eq_flatMap] at hMem
      rcases List.mem_cons.mp hMem with rfl | hBelow
      · rw [hTop]
        exact hTree
      · obtain ⟨child, hChild, hS⟩ := List.mem_flatMap.mp hBelow
        -- the child is the tree of one of the children of the node
        have hSome : some child ∈ (f.children id).map f.tree? := by
          rw [hChildren]
          exact List.mem_map_of_mem hChild
        obtain ⟨childId, -, hRead⟩ := List.mem_map.mp hSome
        exact ih child hChild hRead hS

/-! ### The walk -/

/-- A walk that comes to its end has visited the pending nodes and everything below them, each node
before what is below it. -/
theorem Linked.advance_eq_preorderAll (hLinked : f.Linked) {visits : Nat} {pending : List NodeId}
    {trees : List Tree} (hTrees : pending.map f.tree? = trees.map some)
    (hEnds : (Walk.advance f visits ⟨pending⟩).2 = ⟨[]⟩) :
    (Walk.advance f visits ⟨pending⟩).1 = Tree.preorderAll trees := by
  induction visits generalizing pending trees with
  | zero =>
      obtain rfl : pending = [] := congrArg Walk.pending hEnds
      obtain rfl : trees = [] := by simpa using hTrees.symm
      rfl
  | succ visits ih =>
      cases pending with
      | nil =>
          obtain rfl : trees = [] := by simpa using hTrees.symm
          rfl
      | cons id rest =>
          cases trees with
          | nil => cases hTrees
          | cons t others =>
              rw [List.map_cons, List.map_cons, List.cons.injEq] at hTrees
              obtain ⟨hTree, hRest⟩ := hTrees
              obtain ⟨hTop, -, hChildren⟩ := hLinked.children_of_tree? hTree
              have hNext : (f.children id ++ rest).map f.tree? = (t.children ++ others).map some := by
                rw [List.map_append, List.map_append, hChildren, hRest]
              have hVisited := ih hNext hEnds
              rw [Tree.preorderAll_append, ← Tree.descendants_eq] at hVisited
              rw [Tree.preorderAll, hTop, ← hVisited]
              rfl

/-- The walk through everything below a node meets the nodes in the order of the tree. -/
theorem Linked.descendants_eq (hLinked : f.Linked) {id : NodeId} {t : Tree}
    (hTree : f.tree? id = some t) : f.descendants id = t.descendants := by
  obtain ⟨-, -, hChildren⟩ := hLinked.children_of_tree? hTree
  rw [t.descendants_eq]
  exact hLinked.advance_eq_preorderAll hChildren (hLinked.walk_ends id)

/-- A walk stays underway. -/
theorem Linked.underway_advance (hLinked : f.Linked) {start : NodeId} (visits : Nat)
    {visited pending : List NodeId} (hUnderway : f.Underway start visited pending) :
    f.Underway start (visited ++ (Walk.advance f visits ⟨pending⟩).1)
      (Walk.advance f visits ⟨pending⟩).2.pending := by
  induction visits generalizing visited pending with
  | zero => simpa [Walk.advance] using hUnderway
  | succ visits ih =>
      cases pending with
      | nil => simpa [Walk.advance, Walk.next?] using hUnderway
      | cons id rest =>
          have hNext := ih (hLinked.underway_visit hUnderway)
          rw [List.append_assoc, List.singleton_append] at hNext
          exact hNext

/-- No node is met twice below a node. -/
theorem Linked.nodup_descendants (hLinked : f.Linked) (id : NodeId) : (f.descendants id).Nodup := by
  have hUnderway := hLinked.underway_advance f.size (hLinked.underway_below id)
  rw [List.nil_append] at hUnderway
  exact hUnderway.nodup.of_append_left

/-- A walk that comes to its end has visited the pending nodes, and with every node its children. -/
theorem visits_all_of_ends {visits : Nat} {pending : List NodeId}
    (hEnds : (Walk.advance f visits ⟨pending⟩).2 = ⟨[]⟩) :
    pending ⊆ (Walk.advance f visits ⟨pending⟩).1 ∧
      ∀ id ∈ (Walk.advance f visits ⟨pending⟩).1,
        f.children id ⊆ (Walk.advance f visits ⟨pending⟩).1 := by
  induction visits generalizing pending with
  | zero =>
      obtain rfl : pending = [] := congrArg Walk.pending hEnds
      simp [Walk.advance]
  | succ visits ih =>
      cases pending with
      | nil => simp [Walk.advance, Walk.next?]
      | cons id rest =>
          have hRestEnds : (Walk.advance f visits ⟨f.children id ++ rest⟩).2 = ⟨[]⟩ := hEnds
          obtain ⟨hPending, hChildren⟩ := ih hRestEnds
          obtain ⟨hFirst, hRest⟩ := List.append_subset.mp hPending
          have hVisited : (Walk.advance f (visits + 1) ⟨id :: rest⟩).1 =
              id :: (Walk.advance f visits ⟨f.children id ++ rest⟩).1 := rfl
          rw [hVisited]
          refine ⟨List.cons_subset_cons id hRest, List.forall_mem_cons.mpr ⟨?_, ?_⟩⟩
          · exact fun child hMem => List.mem_cons_of_mem id (hFirst hMem)
          · exact fun other hMem child hChild =>
              List.mem_cons_of_mem id (hChildren other hMem hChild)

/-- The nodes below a node are those that it lies above. -/
theorem Linked.mem_descendants_iff (hLinked : f.Linked) (start id : NodeId) :
    id ∈ f.descendants start ↔ f.IsAncestor start id := by
  constructor
  · intro hMem
    have hUnderway := hLinked.underway_advance f.size (hLinked.underway_below start)
    rw [List.nil_append] at hUnderway
    exact hUnderway.below id (List.mem_append_left _ hMem)
  · obtain ⟨hPending, hChildren⟩ := visits_all_of_ends (hLinked.walk_ends start)
    intro hAbove
    induction hAbove with
    | single hParent => exact hPending ((hLinked.mem_children_iff _ _).mpr hParent)
    | tail _ hParent ih => exact hChildren _ ih ((hLinked.mem_children_iff _ _).mpr hParent)

/-- The walk through everything below a node depends on the children of the node and of those below
it, and on nothing else of the forest. -/
theorem Linked.descendants_congr (hLinked : f.Linked) {other : Forest} {start : NodeId}
    (hSize : other.size = f.size)
    (hChildren : ∀ id, Relation.ReflTransGen f.IsParent start id →
      other.children id = f.children id) :
    other.descendants start = f.descendants start := by
  have hWalk : ∀ visits visited pending, f.Underway start visited pending →
      Walk.advance other visits ⟨pending⟩ = Walk.advance f visits ⟨pending⟩ := by
    intro visits
    induction visits with
    | zero => exact fun _ _ _ => rfl
    | succ visits ih =>
        intro visited pending hUnderway
        cases pending with
        | nil => rfl
        | cons id rest =>
            have hBelow : f.IsAncestor start id := hUnderway.below id (by simp)
            simp only [Walk.advance, Walk.next?, hChildren id hBelow.to_reflTransGen,
              ih _ _ (hLinked.underway_visit hUnderway)]
  rw [descendants, Walk.toList, hSize, Walk.below, hChildren start .refl]
  exact congrArg Prod.fst (hWalk f.size [] _ (hLinked.underway_below start))

end Forest

end LateBinding
