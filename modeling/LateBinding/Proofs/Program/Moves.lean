import LateBinding.Proofs.Program.Preorder

/-!
# Moving nodes in a forest

A node is attached after a search upwards from its new parent, which must not meet the node.  The
search is given a number of steps, and takes anything for met when they are used up.  In a linked
forest they never are, so the search decides exactly whether the parent lies in the tree of the node,
and attaching and detaching undo each other.

* `Linked.isAbove_iff` - what the search upwards decides.
* `Forest.CanAttach`, `Forest.Refuses` - when a node can be attached, and why it cannot.
* `attach_succeeds_iff` - attaching succeeds exactly if it can, and changes two links or nothing.
* `detach_attach_inverse` - attaching undone by detaching, and detaching undone by attaching, which
  puts the node at the end.
-/

namespace LateBinding

namespace Forest

variable {f : Forest}

/-! ### The search upwards -/

/-- A search that does not use up its steps meets the nodes on the way up. -/
theorem meetsAbove_iff_mem_climb {candidate : NodeId} {steps : Nat} {link : Option NodeId}
    (hEnds : (f.climb steps link).length < steps) :
    f.meetsAbove candidate steps link = true ↔ candidate ∈ f.climb steps link := by
  induction steps generalizing link with
  | zero => omega
  | succ steps ih =>
      cases link with
      | none => simp [meetsAbove]
      | some id =>
          have hRest : (f.climb steps (f.parent? id)).length < steps := by
            simpa [climb] using hEnds
          rw [meetsAbove, climb, Bool.or_eq_true, decide_eq_true_eq, List.mem_cons, ih hRest, eq_comm]

/-- The search upwards decides whether one node lies above another. -/
theorem Linked.isAbove_iff (hLinked : f.Linked) (candidate id : NodeId) :
    f.isAbove candidate id = true ↔ f.IsAncestor candidate id := by
  rw [← hLinked.mem_ancestors_iff, isAbove, ancestors]
  by_cases hKnown : id.index < f.size
  · have hShort := hLinked.length_climb_lt f.size hKnown
    have hShortMore := hLinked.length_climb_lt (f.size + 1) hKnown
    rw [meetsAbove_iff_mem_climb (by omega), climb_eq_of_length_lt hShort]
  · rw [parent?_eq_none_of_size_le (Nat.le_of_not_lt hKnown)]
    simp [meetsAbove]

/-- The search upwards from a node meets the nodes in whose trees it stands. -/
theorem Linked.isAbove_iff_mem_descendants (hLinked : f.Linked) (candidate id : NodeId) :
    f.isAbove candidate id = true ↔ id ∈ f.descendants candidate := by
  rw [hLinked.isAbove_iff, hLinked.mem_descendants_iff]

/-! ### Attaching -/

/-- A node can be attached to a parent if both are known, and the node has no parent, is not the
root, and is not met on a walk through the tree of the node. -/
structure CanAttach (f : Forest) (parent child : NodeId) : Prop where
  parent_known : parent.index < f.size
  child_known : child.index < f.size
  free : f.parent? child = none
  not_root : f.root ≠ some child
  not_inside : parent ≠ child ∧ parent ∉ f.descendants child

/-- Why a node cannot be attached to a parent.  Of several reasons the first one counts. -/
inductive Refuses (f : Forest) (parent child : NodeId) : Malformation → Prop where
  | unknownParent (hParent : f.size ≤ parent.index) : Refuses f parent child (.unknownNode parent)
  | unknownChild (hParent : parent.index < f.size) (hChild : f.size ≤ child.index) :
      Refuses f parent child (.unknownNode child)
  | alreadyAttached {owner : NodeId} (hParent : parent.index < f.size)
      (hOwner : f.parent? child = some owner) :
      Refuses f parent child (.alreadyAttached child owner)
  | cycle (hParent : parent.index < f.size) (hChild : child.index < f.size)
      (hFree : f.parent? child = none) (hInside : parent = child ∨ parent ∈ f.descendants child) :
      Refuses f parent child (.cycle parent child)
  | attachedRoot (hParent : parent.index < f.size) (hFree : f.parent? child = none)
      (hInside : parent ≠ child ∧ parent ∉ f.descendants child) (hRoot : f.root = some child) :
      Refuses f parent child (.attachedRoot child)

/-- What can be attached is not refused. -/
theorem CanAttach.not_refuses {parent child : NodeId} (hCan : f.CanAttach parent child)
    (e : Malformation) : ¬f.Refuses parent child e := by
  obtain ⟨hParent, hChild, hFree, hRoot, hOutside⟩ := hCan
  rintro (hUnknown | ⟨-, hUnknown⟩ | ⟨-, hOwner⟩ | ⟨-, -, -, rfl | hInside⟩ | ⟨-, -, -, hSame⟩)
  · omega
  · omega
  · rw [hFree] at hOwner
    cases hOwner
  · exact hOutside.1 rfl
  · exact hOutside.2 hInside
  · exact hRoot hSame

/-- For known nodes, of which the child has no parent, the tree of the child and the root decide. -/
theorem Linked.attach_of_free (hLinked : f.Linked) {parent child : NodeId}
    (hParent : parent.index < f.size) (hChild : child.index < f.size)
    (hFree : f.parent? child = none) :
    f.attach parent child =
      if parent = child ∨ parent ∈ f.descendants child then .error (.cycle parent child)
      else if f.root = some child then .error (.attachedRoot child)
      else .ok (f.link parent child) := by
  obtain ⟨p, hParentNode⟩ := exists_node? hParent
  obtain ⟨c, hChildNode⟩ := exists_node? hChild
  rw [parent?_eq_of_node? hChildNode] at hFree
  simp only [Forest.attach, hParentNode, hChildNode, hFree, Bool.or_eq_true, decide_eq_true_eq,
    hLinked.isAbove_iff_mem_descendants]

/-- An attachment links two nodes if it can, and is refused with a reason if it cannot. -/
theorem Linked.attach_outcome (hLinked : f.Linked) (parent child : NodeId) :
    (f.CanAttach parent child ∧ f.attach parent child = .ok (f.link parent child)) ∨
      ∃ e, f.Refuses parent child e ∧ f.attach parent child = .error e := by
  cases hParentNode : f.node? parent with
  | none =>
      refine Or.inr ⟨_, .unknownParent ((node?_eq_none_iff f parent).mp hParentNode), ?_⟩
      rw [Forest.attach, hParentNode]
  | some p =>
      have hParent := lt_size_of_node? hParentNode
      cases hChildNode : f.node? child with
      | none =>
          refine Or.inr ⟨_, .unknownChild hParent ((node?_eq_none_iff f child).mp hChildNode), ?_⟩
          rw [Forest.attach, hParentNode, hChildNode]
      | some c =>
          have hChild := lt_size_of_node? hChildNode
          cases hOwner : f.parent? child with
          | some owner =>
              refine Or.inr ⟨_, .alreadyAttached hParent hOwner, ?_⟩
              rw [parent?_eq_of_node? hChildNode] at hOwner
              simp only [Forest.attach, hParentNode, hChildNode, hOwner]
          | none =>
              rw [hLinked.attach_of_free hParent hChild hOwner]
              by_cases hInside : parent = child ∨ parent ∈ f.descendants child
              · exact Or.inr ⟨_, .cycle hParent hChild hOwner hInside, if_pos hInside⟩
              · rw [if_neg hInside]
                rw [not_or] at hInside
                by_cases hRoot : f.root = some child
                · exact Or.inr ⟨_, .attachedRoot hParent hOwner hInside hRoot, if_pos hRoot⟩
                · exact Or.inl ⟨⟨hParent, hChild, hOwner, hRoot, hInside⟩, if_neg hRoot⟩

/-- Carrying out an attachment comes to what attaching comes to. -/
theorem exec_attach (f : Forest) (parent child : NodeId) :
    (Edit.attach parent child).perform.exec f =
      match f.attach parent child with
      | .error e => (.error e, f)
      | .ok next => (.ok (), next) :=
  rfl

/-- **Exactly the moves that keep a forest are accepted.**  In every forest that edits lead to,
carrying out an attachment succeeds if and only if both nodes are known, the child has no parent and is
not the root, and the parent is neither the child nor met on the walk through everything below the
child.  If it succeeds, the child has the parent and is the last of the parent's children, and nothing
else has changed; if it fails, nothing has changed at all, and the defect that it reports is there. -/
theorem attach_succeeds_iff (origin : Option String) (edits : List Edit) (parent child : NodeId) :
    let f := (initial origin).after edits
    let outcome := (Edit.attach parent child).perform.exec f
    (outcome.1 = .ok () ↔ f.CanAttach parent child) ∧
    (outcome.1 = .ok () → outcome.2.root = f.root ∧
      ∀ id, outcome.2.node? id = (f.node? id).map fun n =>
        { n with
          parent := if id = child then some parent else n.parent
          children := if id = parent then n.children ++ [child] else n.children }) ∧
    ∀ e, outcome.1 = .error e → f.Refuses parent child e ∧ outcome.2 = f := by
  intro f outcome
  have hLinked : f.Linked := linked_after origin edits
  have hOutcome := f.exec_attach parent child
  rcases hLinked.attach_outcome parent child with ⟨hCan, hAttach⟩ | ⟨e, hRefuses, hAttach⟩
  · rw [hAttach] at hOutcome
    rw [show outcome = _ from hOutcome]
    exact ⟨iff_of_true rfl hCan, fun _ => ⟨rfl, f.node?_link parent child⟩, nofun⟩
  · rw [hAttach] at hOutcome
    rw [show outcome = _ from hOutcome]
    refine ⟨iff_of_false nofun fun hCan => hCan.not_refuses e hRefuses, nofun, ?_⟩
    rintro _ ⟨rfl⟩
    exact ⟨hRefuses, rfl⟩

/-! ### Detaching and attaching again -/

/-- Filtering out an entry that stands in a list once leaves the others in order. -/
theorem filter_ne_of_split {child : NodeId} {before after : List NodeId}
    (hOnce : child ∉ before ++ after) :
    (before ++ child :: after).filter (· ≠ child) = before ++ after := by
  rw [List.filter_append, List.filter_cons_of_neg (by simp), ← List.filter_append,
    List.filter_eq_self]
  intro other hMem
  rw [decide_eq_true_eq]
  exact ne_of_mem_of_not_mem hMem hOnce

/-- Taking a child away from its parent takes its one entry out of the parent's children. -/
theorem node?_unlink_of_split {parent child : NodeId} {before after : List NodeId}
    (hSplit : f.children parent = before ++ child :: after) (hOnce : child ∉ before ++ after)
    (id : NodeId) :
    (f.unlink parent child).node? id = (f.node? id).map fun n =>
      { n with
        parent := if id = child then none else n.parent
        children := if id = parent then before ++ after else n.children } := by
  rw [node?_unlink]
  refine Option.map_congr fun n hNode => ?_
  have hChildren : (if id = parent then n.children.filter (· ≠ child) else n.children) =
      if id = parent then before ++ after else n.children := by
    split
    · rename_i hSame
      rw [← children_eq_of_node? hNode, hSame, hSplit, filter_ne_of_split hOnce]
    · rfl
  rw [hChildren]

/-- A node with a parent is detached from it. -/
theorem detach_eq_unlink {parent child : NodeId} (hParent : f.parent? child = some parent) :
    f.detach child = .ok (f.unlink parent child) := by
  obtain ⟨c, hChild⟩ := exists_node? (lt_size_of_parent? hParent)
  rw [parent?_eq_of_node? hChild] at hParent
  simp only [detach, hChild, hParent]

/-- A known node without a parent stays as it is when it is detached. -/
theorem detach_eq_self {child : NodeId} (hKnown : child.index < f.size)
    (hFree : f.parent? child = none) : f.detach child = .ok f := by
  obtain ⟨c, hChild⟩ := exists_node? hKnown
  rw [parent?_eq_of_node? hChild] at hFree
  simp only [detach, hChild, hFree]

/-- Detaching a node right after it was attached restores the forest: it was among no node's children
before, so the only entry that is taken out is the new one. -/
theorem Linked.detach_of_attach (hLinked : f.Linked) {next : Forest} {parent child : NodeId}
    (hAttach : f.attach parent child = .ok next) : next.detach child = .ok f := by
  obtain ⟨hParent, hChild, hFree, -, -, rfl⟩ := attach_cases hAttach
  have hLink : (f.link parent child).parent? child = some parent := by
    rw [parent?_link f parent hChild, if_pos rfl]
  rw [detach_eq_unlink hLink]
  refine congrArg Except.ok (ext_node? rfl fun id => ?_)
  rw [node?_unlink, node?_link, Option.map_map]
  cases hNode : f.node? id with
  | none => rfl
  | some n =>
      have hParentBack :
          (if id = child then none else if id = child then some parent else n.parent) =
            n.parent := by
        split
        · rename_i hSame
          rw [← parent?_eq_of_node? hNode, hSame, hFree]
        · rfl
      have hNotListed : child ∉ n.children := by
        rw [← children_eq_of_node? hNode, hLinked.mem_children_iff, hFree]
        exact nofun
      have hChildrenBack :
          (if id = parent then
              (if id = parent then n.children ++ [child] else n.children).filter (· ≠ child)
            else if id = parent then n.children ++ [child] else n.children) = n.children := by
        split
        · have hSplit : child ∉ n.children ++ [] := by rwa [List.append_nil]
          rw [filter_ne_of_split hSplit, List.append_nil]
        · rfl
      rw [Option.map_some, Function.comp_apply, hParentBack, hChildrenBack]

section Parent

variable {parent child : NodeId} (hLinked : f.Linked) (hParent : f.parent? child = some parent)

include hLinked hParent

/-- A child stands once among the children of its parent. -/
theorem Linked.exists_children_split :
    ∃ before after, f.children parent = before ++ child :: after ∧ child ∉ before ++ after := by
  have hMem := (hLinked.mem_children_iff parent child).mpr hParent
  obtain ⟨before, after, hSplit⟩ := List.append_of_mem hMem
  have hOnce := hLinked.nodup_children parent
  rw [hSplit, List.nodup_middle] at hOnce
  exact ⟨before, after, hSplit, hOnce.notMem⟩

/-- A parent is not met on a walk through the tree of its child. -/
theorem Linked.parent_not_inside : parent ≠ child ∧ parent ∉ f.descendants child := by
  constructor
  · rintro rfl
    exact hLinked.not_isAncestor_self parent (.single hParent)
  · rw [hLinked.mem_descendants_iff]
    intro hAbove
    exact hLinked.not_isAncestor_self child (hAbove.tail hParent)

/-- Taking a child away from its parent does not change what is below the child. -/
theorem Linked.descendants_unlink :
    (f.unlink parent child).descendants child = f.descendants child := by
  obtain ⟨hNe, hNotBelow⟩ := hLinked.parent_not_inside hParent
  refine hLinked.descendants_congr (size_unlink f parent child) fun id hBelow => ?_
  rw [children_unlink, if_neg]
  rintro rfl
  rcases Relation.reflTransGen_iff_eq_or_transGen.mp hBelow with hSame | hAbove
  · exact hNe hSame
  · exact hNotBelow ((hLinked.mem_descendants_iff child id).mpr hAbove)

/-- Taking a child away from its parent leaves the nodes below the child as they are. -/
theorem Linked.node?_unlink_of_mem_descendants {id : NodeId} (hBelow : id ∈ f.descendants child) :
    (f.unlink parent child).node? id = f.node? id := by
  have hNotChild : id ≠ child := by
    rintro rfl
    exact hLinked.not_isAncestor_self id ((hLinked.mem_descendants_iff id id).mp hBelow)
  have hNotParent : id ≠ parent := by
    rintro rfl
    exact (hLinked.parent_not_inside hParent).2 hBelow
  rw [node?_unlink]
  simp only [if_neg hNotChild, if_neg hNotParent, Option.map_id']

/-- A child that was taken away from its parent can be attached to it again. -/
theorem Linked.canAttach_unlink : (f.unlink parent child).CanAttach parent child where
  parent_known := by
    rw [size_unlink]
    exact hLinked.lt_size_of_isParent hParent
  child_known := by
    rw [size_unlink]
    exact lt_size_of_parent? hParent
  free := by rw [parent?_unlink, if_pos rfl]
  not_root := by
    intro hRoot
    have hFree := (hLinked.root_free child hRoot).2
    rw [hParent] at hFree
    cases hFree
  not_inside := by
    rw [hLinked.descendants_unlink hParent]
    exact hLinked.parent_not_inside hParent

/-- After the child was taken away from its parent and attached to it again, it is the last of the
children, and nothing else has changed. -/
theorem Linked.exists_attach_unlink {before after : List NodeId}
    (hSplit : f.children parent = before ++ child :: after) (hOnce : child ∉ before ++ after) :
    ∃ moved, (f.unlink parent child).attach parent child = .ok moved ∧ moved.root = f.root ∧
      ∀ id, moved.node? id = (f.node? id).map fun n =>
        { n with children := if id = parent then before ++ after ++ [child] else n.children } := by
  have hRemoved := hLinked.detach (detach_eq_unlink hParent)
  have hCan := hLinked.canAttach_unlink hParent
  rcases hRemoved.attach_outcome parent child with ⟨-, hAttach⟩ | ⟨e, hRefuses, -⟩
  swap
  · exact absurd hRefuses (hCan.not_refuses e)
  refine ⟨_, hAttach, rfl, fun id => ?_⟩
  rw [node?_link, node?_unlink_of_split hSplit hOnce, Option.map_map]
  refine Option.map_congr fun n hNode => ?_
  have hParentBack :
      (if id = child then some parent else if id = child then none else n.parent) = n.parent := by
    split
    · rename_i hSame
      rw [← parent?_eq_of_node? hNode, hSame, hParent]
    · rfl
  have hChildren :
      (if id = parent then (if id = parent then before ++ after else n.children) ++ [child]
        else if id = parent then before ++ after else n.children) =
        if id = parent then before ++ after ++ [child] else n.children := by
    split <;> rfl
  rw [Function.comp_apply, hParentBack, hChildren]

end Parent

/-- **Attaching and detaching undo each other, up to a position.**  In every forest that edits lead to,
detaching a node that was just attached succeeds and restores the forest.  Detaching a node with a
parent takes its one entry out of the parent's children, the others staying in order, and clears the
node's own link; it leaves everything else as it was, and so everything below the node.  Attaching the
node to the same parent again succeeds, and gives the forest with the node moved to the end of the
parent's children, hence the same forest if it was there before.  Detaching a node without a parent
changes nothing. -/
theorem detach_attach_inverse (origin : Option String) (edits : List Edit) :
    let f := (initial origin).after edits
    (∀ parent child next, f.attach parent child = .ok next → next.detach child = .ok f) ∧
    (∀ parent child, f.parent? child = some parent →
      ∃ before after removed moved,
        f.children parent = before ++ child :: after ∧ child ∉ before ++ after ∧
        f.detach child = .ok removed ∧ removed.root = f.root ∧
        (∀ id, removed.node? id = (f.node? id).map fun n =>
          { n with
            parent := if id = child then none else n.parent
            children := if id = parent then before ++ after else n.children }) ∧
        removed.descendants child = f.descendants child ∧
        (∀ id ∈ f.descendants child, removed.node? id = f.node? id) ∧
        removed.attach parent child = .ok moved ∧ moved.root = f.root ∧
        (∀ id, moved.node? id = (f.node? id).map fun n =>
          { n with children := if id = parent then before ++ after ++ [child] else n.children }) ∧
        (after = [] → moved = f)) ∧
    ∀ child, child.index < f.size → f.parent? child = none → f.detach child = .ok f := by
  intro f
  have hLinked : f.Linked := linked_after origin edits
  refine ⟨fun _ _ _ hAttach => hLinked.detach_of_attach hAttach, ?_,
    fun _ hKnown hFree => detach_eq_self hKnown hFree⟩
  intro parent child hParent
  obtain ⟨before, after, hSplit, hOnce⟩ := hLinked.exists_children_split hParent
  obtain ⟨moved, hMoved, hRoot, hNodes⟩ := hLinked.exists_attach_unlink hParent hSplit hOnce
  refine ⟨before, after, f.unlink parent child, moved, hSplit, hOnce, detach_eq_unlink hParent, rfl,
    node?_unlink_of_split hSplit hOnce, hLinked.descendants_unlink hParent,
    fun id hBelow => hLinked.node?_unlink_of_mem_descendants hParent hBelow, hMoved, hRoot, hNodes, ?_⟩
  rintro rfl
  refine ext_node? hRoot fun id => ?_
  rw [hNodes, List.append_nil]
  cases hNode : f.node? id with
  | none => rfl
  | some n =>
      have hChildren : (if id = parent then before ++ [child] else n.children) = n.children := by
        split
        · rename_i hSame
          rw [← children_eq_of_node? hNode, hSame, hSplit]
        · rfl
      rw [Option.map_some, hChildren]

end Forest

end LateBinding
