import Mathlib.Data.List.Nodup
import Mathlib.Order.WellFounded
import LateBinding.Proofs.Program.Editing

/-!
# The links of a forest

A parent lists its children and a child names its parent, and the way up from a node ends.  Nothing
that can be done to a forest breaks this: single edits are said by what they do to the two kinds of
links, and the edits that change no link are dealt with at once (`Linked.congr`).

* `parent?_link`, `children_link`, `parent?_unlink`, `children_unlink` - what edits do to links.
* `attach_cases`, `detach_cases` - what an attachment or a detachment that is not refused does.
* `Forest.Linked` - the two kinds of links agree, the way up ends, and the root has no parent.
* `linked_after` - it holds after every sequence of edits.
-/

namespace LateBinding

namespace Forest

/-! ### Links after an edit -/

theorem lt_size_of_node? {f : Forest} {id : NodeId} {n : Node} (hNode : f.node? id = some n) :
    id.index < f.size := by
  by_contra hNot
  rw [(node?_eq_none_iff f id).mpr (by omega)] at hNode
  cases hNode

theorem exists_node? {f : Forest} {id : NodeId} (hKnown : id.index < f.size) :
    ∃ n, f.node? id = some n := by
  cases hNode : f.node? id with
  | none =>
      have hUnknown := (node?_eq_none_iff f id).mp hNode
      omega
  | some n => exact ⟨n, rfl⟩

theorem parent?_eq_of_node? {f : Forest} {id : NodeId} {n : Node} (hNode : f.node? id = some n) :
    f.parent? id = n.parent := by
  simp [parent?, hNode]

theorem children_eq_of_node? {f : Forest} {id : NodeId} {n : Node} (hNode : f.node? id = some n) :
    f.children id = n.children := by
  simp [children, hNode]

/-- A node with a parent is known. -/
theorem lt_size_of_parent? {f : Forest} {id parent : NodeId}
    (hParent : f.parent? id = some parent) :
    id.index < f.size := by
  obtain ⟨n, hNode, -⟩ := Option.bind_eq_some_iff.mp hParent
  exact lt_size_of_node? hNode

/-- A node with children is known. -/
theorem lt_size_of_mem_children {f : Forest} {id child : NodeId} (hMem : child ∈ f.children id) :
    id.index < f.size := by
  by_contra hNot
  have hNone := (node?_eq_none_iff f id).mpr (by omega)
  simp [children, hNone] at hMem

@[simp] theorem size_add (f : Forest) (construct : Construct) (span : Span) :
    (f.add construct span).2.size = f.size + 1 := by
  simp [add, size]

/-- A new node has no links, and is in no link. -/
@[simp] theorem parent?_add (f : Forest) (construct : Construct) (span : Span) (id : NodeId) :
    (f.add construct span).2.parent? id = f.parent? id := by
  unfold parent?
  rw [node?_add]
  split
  · rename_i hNew
    rw [(node?_eq_none_iff f id).mpr (by omega)]
    rfl
  · rfl

@[simp] theorem children_add (f : Forest) (construct : Construct) (span : Span) (id : NodeId) :
    (f.add construct span).2.children id = f.children id := by
  unfold children
  rw [node?_add]
  split
  · rename_i hNew
    rw [(node?_eq_none_iff f id).mpr (by omega)]
    rfl
  · rfl

/-- A change of one node that keeps its parent keeps all parents. -/
theorem parent?_modify_of_keeps (f : Forest) (id other : NodeId) {change : Node → Node}
    (hKeeps : ∀ n, (change n).parent = n.parent) :
    (f.modify id change).parent? other = f.parent? other := by
  unfold parent?
  rw [node?_modify]
  split
  · cases f.node? other with
    | none => rfl
    | some n => exact hKeeps n
  · rfl

/-- A change of one node that keeps its children keeps all children. -/
theorem children_modify_of_keeps (f : Forest) (id other : NodeId) {change : Node → Node}
    (hKeeps : ∀ n, (change n).children = n.children) :
    (f.modify id change).children other = f.children other := by
  unfold children
  rw [node?_modify]
  split
  · cases f.node? other with
    | none => rfl
    | some n => exact hKeeps n
  · rfl

@[simp] theorem size_link (f : Forest) (parent child : NodeId) :
    (f.link parent child).size = f.size := by
  simp [link]

@[simp] theorem root_link (f : Forest) (parent child : NodeId) :
    (f.link parent child).root = f.root := rfl

@[simp] theorem size_unlink (f : Forest) (parent child : NodeId) :
    (f.unlink parent child).size = f.size := by
  simp [unlink]

@[simp] theorem root_unlink (f : Forest) (parent child : NodeId) :
    (f.unlink parent child).root = f.root := rfl

/-- After linking, the child has the parent. -/
theorem parent?_link (f : Forest) (parent : NodeId) {child : NodeId}
    (hKnown : child.index < f.size) (id : NodeId) :
    (f.link parent child).parent? id = if id = child then some parent else f.parent? id := by
  unfold link
  rw [parent?_modify_of_keeps _ _ _ (by intro n; rfl), parent?, node?_modify]
  split
  · rename_i hSame
    subst hSame
    obtain ⟨n, hNode⟩ := exists_node? hKnown
    simp [hNode]
  · rfl

/-- After linking, the child is the last one of the parent. -/
theorem children_link (f : Forest) {parent : NodeId} (child : NodeId)
    (hKnown : parent.index < f.size) (id : NodeId) :
    (f.link parent child).children id =
      if id = parent then f.children id ++ [child] else f.children id := by
  have hFirst : ∀ other, (f.modify child fun n => { n with parent := some parent }).children other =
      f.children other :=
    fun other => children_modify_of_keeps f child other (by intro n; rfl)
  unfold link
  rw [children, node?_modify]
  split
  · rename_i hSame
    subst hSame
    obtain ⟨n, hNode⟩ := exists_node? (f := f.modify child fun n => { n with parent := some id })
      (by simpa using hKnown)
    rw [← hFirst id, children_eq_of_node? hNode, hNode]
    rfl
  · exact hFirst id

/-- After unlinking, the child has no parent. -/
theorem parent?_unlink (f : Forest) (parent child id : NodeId) :
    (f.unlink parent child).parent? id = if id = child then none else f.parent? id := by
  unfold unlink
  rw [parent?, node?_modify]
  split
  · simp
  · exact parent?_modify_of_keeps f parent id (by intro n; rfl)

/-- After unlinking, the parent has the other children. -/
theorem children_unlink (f : Forest) (parent child id : NodeId) :
    (f.unlink parent child).children id =
      if id = parent then (f.children id).filter (· ≠ child) else f.children id := by
  unfold unlink
  rw [children_modify_of_keeps _ _ _ (by intro n; rfl), children, node?_modify]
  split
  · unfold children
    cases f.node? id <;> rfl
  · rfl

/-- After linking, the links of two nodes are other ones, and nothing else is. -/
theorem node?_link (f : Forest) (parent child id : NodeId) :
    (f.link parent child).node? id = (f.node? id).map fun n =>
      { n with
        parent := if id = child then some parent else n.parent
        children := if id = parent then n.children ++ [child] else n.children } := by
  unfold link
  rw [node?_modify, node?_modify]
  cases f.node? id with
  | none => simp
  | some n =>
      simp only [Option.map_some]
      split_ifs <;> rfl

/-- After unlinking, the links of two nodes are other ones, and nothing else is. -/
theorem node?_unlink (f : Forest) (parent child id : NodeId) :
    (f.unlink parent child).node? id = (f.node? id).map fun n =>
      { n with
        parent := if id = child then none else n.parent
        children := if id = parent then n.children.filter (· ≠ child) else n.children } := by
  unfold unlink
  rw [node?_modify, node?_modify]
  cases f.node? id with
  | none => simp
  | some n =>
      simp only [Option.map_some]
      split_ifs <;> rfl

/-- A forest is known by its root and its nodes. -/
theorem ext_node? {f g : Forest} (hRoot : f.root = g.root)
    (hNodes : ∀ id, f.node? id = g.node? id) : f = g := by
  obtain ⟨nodes, root⟩ := f
  obtain ⟨others, otherRoot⟩ := g
  obtain rfl : nodes = others := Array.ext_getElem? fun i => hNodes ⟨i⟩
  obtain rfl : root = otherRoot := hRoot
  rfl

/-! ### The way up -/

/-- One node lies directly above another. -/
def IsParent (f : Forest) (parent id : NodeId) : Prop :=
  f.parent? id = some parent

/-- One node lies above another: it is met on the way up. -/
def IsAncestor (f : Forest) : NodeId → NodeId → Prop :=
  Relation.TransGen f.IsParent

/-- What the search does not meet on the way up is neither its first node nor above it. -/
theorem ne_of_meetsAbove_eq_false {f : Forest} {candidate : NodeId} {steps : Nat} {id : NodeId}
    (hNot : f.meetsAbove candidate steps (some id) = false) {above : NodeId}
    (hAbove : Relation.ReflTransGen f.IsParent above id) : above ≠ candidate := by
  induction steps generalizing id with
  | zero => simp [meetsAbove] at hNot
  | succ steps ih =>
      simp only [meetsAbove, Bool.or_eq_false_iff, decide_eq_false_iff_not] at hNot
      obtain ⟨hNe, hRest⟩ := hNot
      rcases Relation.ReflTransGen.cases_tail hAbove with rfl | ⟨parent, hAbove, hParent⟩
      · exact hNe
      · rw [show f.parent? id = some parent from hParent] at hRest
        exact ih hRest hAbove

/-- An attachment that is not refused links two known nodes, of which the child has no parent, is
not the root, and is neither the parent nor above it. -/
theorem attach_cases {f next : Forest} {parent child : NodeId}
    (hAttach : f.attach parent child = .ok next) :
    parent.index < f.size ∧ child.index < f.size ∧ f.parent? child = none ∧ f.root ≠ some child ∧
      (∀ above, Relation.ReflTransGen f.IsParent above parent → above ≠ child) ∧
      next = f.link parent child := by
  unfold attach at hAttach
  split at hAttach
  · cases hAttach
  · cases hAttach
  · rename_i n c hParent hChild
    split at hAttach
    · cases hAttach
    · rename_i hFree
      split at hAttach
      · cases hAttach
      · rename_i hCycle
        simp only [Bool.or_eq_true, decide_eq_true_eq, not_or, Bool.not_eq_true] at hCycle
        obtain ⟨hNe, hAbove⟩ := hCycle
        split at hAttach
        · cases hAttach
        · rename_i hRoot
          refine ⟨lt_size_of_node? hParent, lt_size_of_node? hChild, ?_, hRoot, ?_,
            (Except.ok.inj hAttach).symm⟩
          · rw [parent?_eq_of_node? hChild, hFree]
          · intro above hPath
            rcases Relation.ReflTransGen.cases_tail hPath with rfl | ⟨next, hPath, hNext⟩
            · exact hNe
            · rw [isAbove, show f.parent? parent = some next from hNext] at hAbove
              exact ne_of_meetsAbove_eq_false hAbove hPath

/-- A detachment that is not refused unlinks a node with a parent, and leaves one without a parent
as it is. -/
theorem detach_cases {f next : Forest} {child : NodeId} (hDetach : f.detach child = .ok next) :
    (f.parent? child = none ∧ next = f) ∨
      ∃ parent, f.parent? child = some parent ∧ next = f.unlink parent child := by
  unfold detach at hDetach
  split at hDetach
  · cases hDetach
  · rename_i c hChild
    rw [parent?_eq_of_node? hChild]
    split at hDetach
    · rename_i hFree
      exact Or.inl ⟨hFree, (Except.ok.inj hDetach).symm⟩
    · rename_i parent hParent
      exact Or.inr ⟨parent, hParent, (Except.ok.inj hDetach).symm⟩

/-! ### Linked forests -/

/-- The two kinds of links agree, no child is listed twice, the way up from every node ends, and the
root is known and has no parent. -/
structure Linked (f : Forest) : Prop where
  mem_children_iff : ∀ parent child, child ∈ f.children parent ↔ f.parent? child = some parent
  nodup_children : ∀ id, (f.children id).Nodup
  ascent : WellFounded f.IsParent
  root_free : ∀ root, f.root = some root → root.index < f.size ∧ f.parent? root = none

/-- A forest with the links of a linked one and no other root is linked. -/
theorem Linked.congr {f next : Forest} (hLinked : f.Linked)
    (hParents : ∀ id, next.parent? id = f.parent? id)
    (hChildren : ∀ id, next.children id = f.children id)
    (hRoot : ∀ root, next.root = some root → root.index < next.size ∧ f.parent? root = none) :
    next.Linked where
  mem_children_iff := by
    intro parent child
    rw [hParents, hChildren]
    exact hLinked.mem_children_iff parent child
  nodup_children := by
    intro id
    rw [hChildren]
    exact hLinked.nodup_children id
  ascent := by
    have hSame : next.IsParent = f.IsParent := by
      funext parent id
      simp only [IsParent, hParents]
    rw [hSame]
    exact hLinked.ascent
  root_free := by
    intro root hSome
    rw [hParents]
    exact hRoot root hSome

theorem linked_empty : empty.Linked where
  mem_children_iff := by simp [children, parent?, node?, empty]
  nodup_children := by simp [children, node?, empty]
  ascent := by
    refine ⟨fun id => ⟨id, fun parent hParent => ?_⟩⟩
    simp [IsParent, parent?, node?, empty] at hParent
  root_free := by
    intro root hRoot
    cases hRoot

/-- A new node may become the root: it has no parent. -/
theorem Linked.add {f : Forest} (hLinked : f.Linked) (construct : Construct) (span : Span) :
    (f.add construct span).2.Linked := by
  refine hLinked.congr (parent?_add f construct span) (children_add f construct span) ?_
  intro root hRoot
  obtain ⟨hKnown, hFree⟩ := hLinked.root_free root hRoot
  exact ⟨by rw [size_add]; omega, hFree⟩

/-- An unknown number has no parent. -/
theorem parent?_eq_none_of_size_le {f : Forest} {id : NodeId} (hUnknown : f.size ≤ id.index) :
    f.parent? id = none := by
  rw [parent?, (node?_eq_none_iff f id).mpr hUnknown]
  rfl

theorem linked_ofModule (name : String) : (ofModule name).Linked := by
  have hAdded : (empty.add (.module name) Span.synthetic).2.Linked := linked_empty.add _ _
  refine hAdded.congr (fun _ => rfl) (fun _ => rfl) ?_
  intro root hRoot
  obtain rfl : (⟨empty.size⟩ : NodeId) = root := Option.some.inj hRoot
  refine ⟨?_, ?_⟩
  · show empty.size < (empty.add (.module name) Span.synthetic).2.size
    rw [size_add]
    exact Nat.lt_succ_self _
  · rw [parent?_add]
    exact parent?_eq_none_of_size_le (Nat.le_refl _)

/-- A new link makes no way up endless: the ways from nodes that do not lie below the child are as
before, so the way from the parent ends, and with it the way from the child. -/
theorem wellFounded_isParent_link {f : Forest} {parent child : NodeId}
    (hAscent : WellFounded f.IsParent) (hKnown : child.index < f.size)
    (hNotAbove : ∀ above, Relation.ReflTransGen f.IsParent above parent → above ≠ child) :
    WellFounded (f.link parent child).IsParent := by
  have hStep : ∀ above id, (f.link parent child).IsParent above id →
      if id = child then above = parent else f.IsParent above id := by
    intro above id hAbove
    unfold IsParent at hAbove ⊢
    rw [parent?_link f parent hKnown] at hAbove
    split
    · rename_i hSame
      rw [if_pos hSame] at hAbove
      exact (Option.some.inj hAbove).symm
    · rename_i hNe
      rwa [if_neg hNe] at hAbove
  have hOutside : ∀ id, (∀ above, Relation.ReflTransGen f.IsParent above id → above ≠ child) →
      Acc (f.link parent child).IsParent id := by
    intro id
    induction id using hAscent.induction with
    | h id ih =>
        intro hNot
        refine ⟨id, fun above hAbove => ?_⟩
        have hOld := hStep above id hAbove
        rw [if_neg (hNot id .refl)] at hOld
        exact ih above hOld fun other hOther => hNot other (hOther.tail hOld)
  have hParent := hOutside parent hNotAbove
  refine ⟨fun id => ?_⟩
  induction id using hAscent.induction with
  | h id ih =>
      refine ⟨id, fun above hAbove => ?_⟩
      have hOld := hStep above id hAbove
      split at hOld
      · rw [hOld]
        exact hParent
      · exact ih above hOld

/-- An attachment keeps a forest linked. -/
theorem Linked.attach {f next : Forest} (hLinked : f.Linked) {parent child : NodeId}
    (hAttach : f.attach parent child = .ok next) : next.Linked := by
  obtain ⟨hParent, hChild, hFree, hRoot, hNotAbove, rfl⟩ := attach_cases hAttach
  have hNotListed : ∀ id, child ∉ f.children id := by
    intro id hMem
    rw [(hLinked.mem_children_iff id child).mp hMem] at hFree
    cases hFree
  constructor
  · intro id other
    rw [parent?_link f parent hChild, children_link f child hParent]
    by_cases hOther : other = child
    · subst hOther
      by_cases hId : id = parent
      · simp [hId]
      · simp [hId, Ne.symm hId, hNotListed id]
    · rw [if_neg hOther, ← hLinked.mem_children_iff]
      split
      · simp [hOther]
      · rfl
  · intro id
    rw [children_link f child hParent]
    split
    · refine List.Nodup.append (hLinked.nodup_children id) (List.nodup_singleton _) ?_
      simpa using hNotListed id
    · exact hLinked.nodup_children id
  · exact wellFounded_isParent_link hLinked.ascent hChild hNotAbove
  · intro root hSome
    obtain ⟨hKnown, hRootFree⟩ := hLinked.root_free root hSome
    have hNe : root ≠ child := by
      rintro rfl
      exact hRoot hSome
    rw [parent?_link f parent hChild, if_neg hNe, size_link]
    exact ⟨hKnown, hRootFree⟩

/-- A detachment keeps a forest linked. -/
theorem Linked.detach {f next : Forest} (hLinked : f.Linked) {child : NodeId}
    (hDetach : f.detach child = .ok next) : next.Linked := by
  rcases detach_cases hDetach with ⟨-, rfl⟩ | ⟨parent, hParent, rfl⟩
  · exact hLinked
  have hOld : ∀ above id, (f.unlink parent child).IsParent above id → f.IsParent above id := by
    intro above id hAbove
    unfold IsParent at hAbove ⊢
    rw [parent?_unlink] at hAbove
    split at hAbove
    · cases hAbove
    · exact hAbove
  constructor
  · intro id other
    rw [parent?_unlink, children_unlink]
    by_cases hOther : other = child
    · subst hOther
      rw [if_pos rfl]
      split
      · simp
      · rename_i hId
        rw [hLinked.mem_children_iff, hParent]
        simpa using Ne.symm hId
    · rw [if_neg hOther, ← hLinked.mem_children_iff]
      split
      · simp [hOther]
      · rfl
  · intro id
    rw [children_unlink]
    split
    · exact (hLinked.nodup_children id).filter _
    · exact hLinked.nodup_children id
  · exact Subrelation.wf (fun {above id} hAbove => hOld above id hAbove) hLinked.ascent
  · intro root hSome
    obtain ⟨hKnown, hFree⟩ := hLinked.root_free root hSome
    rw [parent?_unlink, size_unlink]
    refine ⟨hKnown, ?_⟩
    split
    · rfl
    · exact hFree

/-- The new root has no parent. -/
theorem Linked.setRoot {f next : Forest} (hLinked : f.Linked) {id : NodeId}
    (hRoot : f.setRoot id = .ok next) : next.Linked := by
  unfold Forest.setRoot at hRoot
  split at hRoot
  · cases hRoot
  · rename_i n hNode
    split at hRoot
    · cases hRoot
    · rename_i hFree
      cases hRoot
      refine hLinked.congr (fun _ => rfl) (fun _ => rfl) ?_
      rintro root ⟨rfl⟩
      refine ⟨lt_size_of_node? hNode, ?_⟩
      rw [parent?_eq_of_node? hNode]
      simpa using hFree

/-- A change of a node that keeps its links keeps a forest linked. -/
theorem Linked.modify {f : Forest} (hLinked : f.Linked) (id : NodeId) {change : Node → Node}
    (hParent : ∀ n, (change n).parent = n.parent)
    (hChildren : ∀ n, (change n).children = n.children) : (f.modify id change).Linked := by
  refine hLinked.congr (fun other => parent?_modify_of_keeps f id other hParent)
    (fun other => children_modify_of_keeps f id other hChildren) ?_
  intro root hSome
  rw [size_modify]
  exact hLinked.root_free root hSome

theorem Linked.setSlot {f next : Forest} (hLinked : f.Linked) {id : NodeId} {slot : Nat}
    (hSlot : f.setSlot id slot = .ok next) : next.Linked := by
  unfold Forest.setSlot at hSlot
  split at hSlot
  · cases hSlot
  · cases hSlot
    exact hLinked.modify id (by intro n; rfl) (by intro n; rfl)

theorem Linked.setFunctionName {f next : Forest} (hLinked : f.Linked) {id : NodeId} {name : String}
    (hName : f.setFunctionName id name = .ok next) : next.Linked := by
  unfold Forest.setFunctionName at hName
  split at hName
  · cases hName
  · split at hName
    · cases hName
      exact hLinked.modify id (by intro n; rfl) (by intro n; rfl)
    · cases hName

theorem linked_initial (origin : Option String) : (initial origin).Linked := by
  cases origin with
  | none => exact linked_empty
  | some name => exact linked_ofModule name

/-- Every sequence of edits, failed ones included, leaves a linked forest. -/
theorem linked_after (origin : Option String) (edits : List Edit) :
    ((initial origin).after edits).Linked :=
  after_induction (linked_initial origin)
    (fun _ construct span hLinked => hLinked.add construct span)
    (fun _ _ _ _ hLinked hAttach => hLinked.attach hAttach)
    (fun _ _ _ hLinked hDetach => hLinked.detach hDetach)
    (fun _ _ _ hLinked hRoot => hLinked.setRoot hRoot)
    (fun _ _ _ _ hLinked hSlot => hLinked.setSlot hSlot)
    (fun _ _ _ _ hLinked hName => hLinked.setFunctionName hName)
    edits

end Forest

end LateBinding
