import LateBinding.Proofs.Program.Preorder

/-!
# The nodes below a node

The walk through everything below a node keeps the nodes still to be visited and knows nothing of
trees.  Visit by visit it gives the list that the recursion over children defines, and this is the list
of the nodes from which the way up leads to the start.

* `Walk.advance_of_ends` - what a walk has visited at any point before its end, and visits next.
* `Linked.descendants_eq_flatMap`, `Linked.eq_descendants` - the recursion over children, and that it
  has no other solution.
* `Linked.ancestor?_eq` - searching upwards for one node.
* `Linked.exists_parent_before` - a node is visited after its parent.
* `descendants_preorder` - all of this, after every sequence of edits.
-/

namespace LateBinding

/-- A walk that has nothing left after some visits has, after any number of visits, visited as many of
these nodes from the first on, and visits next the one that follows. -/
theorem Walk.advance_of_ends {f : Forest} {total : Nat} {w : Walk}
    (hEnds : (w.advance f total).2 = ⟨[]⟩) (visits : Nat) :
    (w.advance f visits).1 = (w.advance f total).1.take visits ∧
      ((w.advance f visits).2.next? f).map Prod.fst = (w.advance f total).1[visits]? := by
  induction total generalizing w visits with
  | zero =>
      obtain rfl : w = ⟨[]⟩ := hEnds
      cases visits <;> simp [Walk.advance, Walk.next?]
  | succ total ih =>
      obtain ⟨_ | ⟨id, rest⟩⟩ := w
      · cases visits <;> simp [Walk.advance, Walk.next?]
      · cases visits with
        | zero => simp [Walk.advance, Walk.next?]
        | succ visits =>
            have hRest : (Walk.advance f total ⟨f.children id ++ rest⟩).2 = ⟨[]⟩ := hEnds
            obtain ⟨hVisited, hNext⟩ := ih hRest visits
            exact ⟨congrArg (id :: ·) hVisited, hNext⟩

namespace Forest

variable {f : Forest}

/-! ### The recursion over children -/

/-- Below a node without children there is nothing. -/
theorem descendants_eq_nil {id : NodeId} (hLeaf : f.children id = []) : f.descendants id = [] := by
  rw [descendants, Walk.below, hLeaf]
  cases hSize : f.size <;> simp [Walk.toList, hSize, Walk.advance, Walk.next?]

/-- Below a node there are its children in order, each followed by what is below it. -/
theorem Linked.descendants_eq_flatMap (hLinked : f.Linked) (id : NodeId) :
    f.descendants id = (f.children id).flatMap fun child => child :: f.descendants child := by
  cases hNode : f.node? id with
  | none =>
      have hLeaf : f.children id = [] := by simp [children, hNode]
      rw [descendants_eq_nil hLeaf, hLeaf, List.flatMap_nil]
  | some n =>
      obtain ⟨trees, -, hTree⟩ := hLinked.exists_tree? hNode
      rw [hLinked.descendants_eq hTree, hLinked.children_eq_map_id hTree, List.flatMap_map,
        Tree.descendants_eq, Tree.preorderAll_eq_flatMap]
      refine List.flatMap_congr fun t hT => ?_
      have hMem : t ∈ (Tree.mk id n trees).subtrees :=
        Tree.mem_subtrees_of_mem_children hT t.mem_subtrees_self
      rw [hLinked.descendants_eq (hLinked.tree?_of_mem_subtrees hTree hMem)]

/-- The recursion over children has no other solution: going from nodes to their children ends. -/
theorem Linked.eq_descendants (hLinked : f.Linked) {order : NodeId → List NodeId}
    (hOrder : ∀ id, order id = (f.children id).flatMap fun child => child :: order child) :
    order = f.descendants := by
  funext id
  induction id using hLinked.descent.induction with
  | h id ih =>
      rw [hOrder id, hLinked.descendants_eq_flatMap id]
      exact List.flatMap_congr fun child hMem => congrArg (child :: ·) (ih child hMem)

/-! ### The way back up -/

/-- A search upwards for one node finds it exactly from the nodes below it. -/
theorem Linked.ancestor?_eq (hLinked : f.Linked) {start : NodeId} {p : NodeId → Bool}
    (hOnly : ∀ id, p id = true ↔ id = start) (id : NodeId) :
    f.ancestor? p id = if id ∈ f.descendants start then some start else none := by
  have hMem : id ∈ f.descendants start ↔ start ∈ f.ancestors id := by
    rw [hLinked.mem_descendants_iff, hLinked.mem_ancestors_iff]
  unfold ancestor?
  cases hFound : (f.ancestors id).find? p with
  | none =>
      rw [if_neg]
      intro hBelow
      exact List.find?_eq_none.mp hFound start (hMem.mp hBelow) ((hOnly start).mpr rfl)
  | some found =>
      obtain rfl : found = start := (hOnly found).mp (List.find?_some hFound)
      rw [if_pos (hMem.mpr (List.mem_of_find?_eq_some hFound))]

/-- A node is visited after its parent, unless this is where the walk starts. -/
theorem Linked.exists_parent_before (hLinked : f.Linked) {start id : NodeId}
    {before after : List NodeId} (hSplit : f.descendants start = before ++ id :: after) :
    ∃ parent ∈ start :: before, f.parent? id = some parent := by
  obtain ⟨hVisited, hNext⟩ := Walk.advance_of_ends (hLinked.walk_ends start) before.length
  have hVisits : ((Walk.below f start).advance f f.size).1 = before ++ id :: after := hSplit
  rw [hVisits, List.take_left] at hVisited
  rw [hVisits, List.getElem?_append_right (Nat.le_refl _), Nat.sub_self,
    List.getElem?_cons_zero] at hNext
  -- the walk has visited the nodes before and visits this one next
  have hUnderway := hLinked.underway_advance before.length (hLinked.underway_below start)
  rw [List.nil_append] at hUnderway
  generalize Walk.advance f before.length _ = state at hUnderway hVisited hNext
  obtain ⟨visited, ⟨_ | ⟨next, rest⟩⟩⟩ := state
  · cases hNext
  · obtain rfl : visited = before := hVisited
    obtain rfl : next = id := by simpa [Walk.next?] using hNext
    exact hUnderway.entered next (by simp)

/-- **The walk through everything below a node gives the pre-order of its tree.**  In every forest that
edits lead to, and for every node to start from: after any number of visits the walk has visited as
many nodes of one list, visits next the one that follows, and ends behind the last.  This list is the
only solution of the recursion by which the nodes below a node are its children in order, each followed
by the nodes below it.  No node stands in it twice, and a node stands in it exactly if the start lies
above it, so that a search upwards for the start finds it from these nodes and from no others.  Every
node comes after its parent. -/
theorem descendants_preorder (origin : Option String) (edits : List Edit) (start : NodeId) :
    let f := (initial origin).after edits
    (∀ visits, ((Walk.below f start).advance f visits).1 = (f.descendants start).take visits ∧
      (((Walk.below f start).advance f visits).2.next? f).map Prod.fst =
        (f.descendants start)[visits]?) ∧
    (∀ order : NodeId → List NodeId,
      (∀ id, order id = (f.children id).flatMap fun child => child :: order child) ↔
        order = f.descendants) ∧
    (f.descendants start).Nodup ∧
    (∀ id, id ∈ f.descendants start ↔ f.IsAncestor start id) ∧
    (∀ p : NodeId → Bool, (∀ id, p id = true ↔ id = start) → ∀ id,
      f.ancestor? p id = if id ∈ f.descendants start then some start else none) ∧
    ∀ before id after, f.descendants start = before ++ id :: after →
      ∃ parent ∈ start :: before, f.parent? id = some parent := by
  intro f
  have hLinked : f.Linked := linked_after origin edits
  refine ⟨Walk.advance_of_ends (hLinked.walk_ends start), ?_, hLinked.nodup_descendants start,
    hLinked.mem_descendants_iff start, fun _ hOnly => hLinked.ancestor?_eq hOnly,
    fun _ _ _ hSplit => hLinked.exists_parent_before hSplit⟩
  intro order
  refine ⟨hLinked.eq_descendants, ?_⟩
  rintro rfl
  exact hLinked.descendants_eq_flatMap

end Forest

end LateBinding
