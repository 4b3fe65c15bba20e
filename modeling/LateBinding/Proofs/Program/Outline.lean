import LateBinding.Proofs.Program.Descendants

/-!
# Outlines are walks with depths

An outline is printed by recursion on a tree, and the depth is handed down.  The walk through
everything below a node knows no depths, but how deep a node stands can be found from the node itself,
by the steps up to where the outline begins.  Line by line the outline is the walk.

* `Forest.Prints` - the recursion of printing, without a bound on its depth; `Linked.prints_outlineAt`
  shows that it ends with the outline.
* `Forest.stepsUp`, `Linked.iterate_parent?_eq_some_iff` - the steps from a node up to another.
* `Linked.eq_join_of_prints` - what is printed, as the lines of the nodes of the walk.
* `outline_lists_descendants` - outlines, after every sequence of edits.
-/

namespace LateBinding

/-- Two blanks for every step. -/
theorem ofList_replicate_two_mul (depth : Nat) :
    String.ofList (List.replicate (2 * depth) ' ') = String.join (List.replicate depth "  ") := by
  induction depth with
  | zero => rfl
  | succ depth ih =>
      rw [Nat.mul_succ, Nat.add_comm, ← List.replicate_append_replicate, String.ofList_append, ih,
        List.replicate_succ (n := depth), String.join_cons]
      rfl

namespace Forest

/-- What nodes at a depth are printed as, one after the other: for each node its line, what its
children are printed as one step deeper, and then the other nodes. -/
inductive Prints (f : Forest) : Nat → List NodeId → String → Prop where
  | nothing (depth : Nat) : Prints f depth [] ""
  | node {depth : Nat} {id : NodeId} {n : Node} {rest : List NodeId} {below others : String}
      (hNode : f.node? id = some n) (hBelow : Prints f (depth + 1) n.children below)
      (hOthers : Prints f depth rest others) :
      Prints f depth (id :: rest) (outlineLine depth n ++ below ++ others)

/-- The number of steps from a node up to one above it. -/
def stepsUp (f : Forest) (id above : NodeId) : Nat :=
  (id :: f.ancestors id).idxOf above

/-- The line of a node in the outline of one above it: two blanks for every step up to that one, what
the node is, and its slot, if it has one. -/
def lineBelow (f : Forest) (top id : NodeId) : String :=
  match f.node? id with
  | none => ""
  | some n =>
      String.join (List.replicate (f.stepsUp id top) "  ") ++ n.construct.label ++
        (match n.slot with
        | none => ""
        | some slot => " @" ++ toString slot) ++ "\n"

variable {f : Forest}

/-! ### Steps up -/

/-- From a node, one number of steps leads up to a node above it. -/
theorem Linked.iterate_parent?_eq_some_iff (hLinked : f.Linked) {id above : NodeId}
    (hMem : above ∈ id :: f.ancestors id) (steps : Nat) :
    (fun link : Option NodeId => link.bind f.parent?)^[steps] (some id) = some above ↔
      steps = f.stepsUp id above := by
  rw [hLinked.iterate_parent?, stepsUp]
  constructor
  · intro hAt
    obtain ⟨hLt, rfl⟩ := List.getElem?_eq_some_iff.mp hAt
    exact ((hLinked.nodup_cons_climb f.size id).idxOf_getElem steps hLt).symm
  · rintro rfl
    exact List.getElem?_idxOf hMem

@[simp] theorem stepsUp_self (f : Forest) (id : NodeId) : f.stepsUp id id = 0 := by
  simp [stepsUp]

/-- From a child it is one step more than from its parent. -/
theorem Linked.stepsUp_child (hLinked : f.Linked) {id child above : NodeId}
    (hParent : f.parent? child = some id) (hNe : child ≠ above) :
    f.stepsUp child above = f.stepsUp id above + 1 := by
  rw [stepsUp, hLinked.ancestors_eq child, hParent, List.idxOf_cons_ne _ hNe]
  rfl

/-! ### Lines -/

/-- The lines of an outline show the steps up to its first line as depth. -/
theorem lineBelow_eq {top id : NodeId} {n : Node} (hNode : f.node? id = some n) :
    f.lineBelow top id = outlineLine (f.stepsUp id top) n := by
  simp only [lineBelow, hNode, outlineLine, Node.outline, ofList_replicate_two_mul,
    String.append_assoc]
  cases n.slot <;> rfl

theorem Prints.append {depth : Nat} {first second : List NodeId} {text more : String}
    (hFirst : f.Prints depth first text) (hSecond : f.Prints depth second more) :
    f.Prints depth (first ++ second) (text ++ more) := by
  induction hFirst with
  | nothing depth => simpa using hSecond
  | node hNode hBelow _ _ ih =>
      rw [String.append_assoc]
      exact .node hNode hBelow (ih hSecond)

/-- Trees that are printed one by one are printed one after the other. -/
theorem prints_outlineAll {depth : Nat} {trees : List Tree}
    (hTrees : ∀ t ∈ trees, f.Prints depth [t.id] (t.outlineAt depth)) :
    f.Prints depth (trees.map Tree.id) (Tree.outlineAll depth trees) := by
  induction trees with
  | nil => exact .nothing depth
  | cons t rest ih =>
      obtain ⟨hFirst, hRest⟩ := List.forall_mem_cons.mp hTrees
      exact hFirst.append (ih hRest)

/-- Printing a node ends, and comes to the outline of its tree. -/
theorem Linked.prints_outlineAt (hLinked : f.Linked) {id : NodeId} {t : Tree}
    (hTree : f.tree? id = some t) (depth : Nat) : f.Prints depth [id] (t.outlineAt depth) := by
  induction t using Tree.induction_children generalizing id depth with
  | mk top n trees ih =>
      have hNode : f.node? id = some n := (hLinked.children_of_tree? hTree).2.1
      have hBelow : f.Prints (depth + 1) n.children (Tree.outlineAll (depth + 1) trees) := by
        rw [← children_eq_of_node? hNode, hLinked.children_eq_map_id hTree]
        refine prints_outlineAll fun t hT => ih t hT ?_ (depth + 1)
        exact hLinked.tree?_of_mem_subtrees hTree
          (Tree.mem_subtrees_of_mem_children hT t.mem_subtrees_self)
      have hPrints := Prints.node hNode hBelow (.nothing depth)
      rwa [String.append_empty] at hPrints

/-- What is printed are the lines of the nodes and of those below them, in the order of the walk, since
the depth that is handed down is the number of steps up to `top`. -/
theorem Linked.eq_join_of_prints (hLinked : f.Linked) {top : NodeId} {depth : Nat}
    {pending : List NodeId} {text : String} (hPrints : f.Prints depth pending text)
    (hDepth : ∀ id ∈ pending, Relation.ReflTransGen f.IsParent top id ∧ f.stepsUp id top = depth) :
    text = String.join ((pending.flatMap fun id => id :: f.descendants id).map (f.lineBelow top)) := by
  induction hPrints with
  | nothing => rfl
  | @node depth id n rest below others hNode _ _ ihBelow ihOthers =>
      obtain ⟨⟨hAbove, rfl⟩, hRest⟩ := List.forall_mem_cons.mp hDepth
      -- the children are one step deeper; none of them is `top`, which does not lie above itself
      have hChildren : ∀ child ∈ n.children, Relation.ReflTransGen f.IsParent top child ∧
          f.stepsUp child top = f.stepsUp id top + 1 := by
        intro child hMem
        rw [← children_eq_of_node? hNode, hLinked.mem_children_iff] at hMem
        refine ⟨hAbove.tail hMem, hLinked.stepsUp_child hMem ?_⟩
        rintro rfl
        exact hLinked.not_isAncestor_self child (.tail' hAbove hMem)
      have hBelow := ihBelow hChildren
      rw [← children_eq_of_node? hNode, ← hLinked.descendants_eq_flatMap] at hBelow
      rw [List.flatMap_cons, List.map_append, String.join_append, List.map_cons, String.join_cons,
        lineBelow_eq hNode, ← hBelow, ← ihOthers hRest]

/-- **An outline is the walk through a tree, with depths.**  In every forest that edits lead to,
printing a known node ends, and with one text only, which is the outline of the node.  It consists of
the lines of the node and of those that the walk through everything below it visits, in this order.  A
line has two blanks for every step from its node up to the first one, of which there is one number, then
the description of the node, and its slot, if it has one.  The outline of a forest is that of its root,
and empty if there is none. -/
theorem outline_lists_descendants (origin : Option String) (edits : List Edit) :
    let f := (initial origin).after edits
    (∀ top, top.index < f.size →
      (∀ text, f.Prints 0 [top] text ↔ text = f.outlineOf top) ∧
      f.outlineOf top = String.join ((top :: f.descendants top).map (f.lineBelow top)) ∧
      ∀ id ∈ top :: f.descendants top, ∀ steps,
        (fun link : Option NodeId => link.bind f.parent?)^[steps] (some id) = some top ↔
          steps = f.stepsUp id top) ∧
    f.outline =
      match f.root with
      | none => ""
      | some root => f.outlineOf root := by
  intro f
  have hLinked : f.Linked := linked_after origin edits
  refine ⟨fun top hKnown => ?_, ?_⟩
  · obtain ⟨n, hNode⟩ := exists_node? hKnown
    obtain ⟨trees, -, hTree⟩ := hLinked.exists_tree? hNode
    have hOutline : f.Prints 0 [top] (f.outlineOf top) := by
      rw [outlineOf, hTree]
      exact hLinked.prints_outlineAt hTree 0
    have hLines : ∀ text, f.Prints 0 [top] text →
        text = String.join ((top :: f.descendants top).map (f.lineBelow top)) := by
      intro text hPrints
      have hText := hLinked.eq_join_of_prints hPrints
        (List.forall_mem_singleton.mpr ⟨.refl, f.stepsUp_self top⟩)
      rwa [List.flatMap_singleton] at hText
    refine ⟨fun text => ⟨fun hPrints => ?_, ?_⟩, hLines _ hOutline, fun id hMem steps => ?_⟩
    · rw [hLines text hPrints, hLines _ hOutline]
    · rintro rfl
      exact hOutline
    · refine hLinked.iterate_parent?_eq_some_iff ?_ steps
      rw [List.mem_cons, hLinked.mem_descendants_iff, ← hLinked.mem_ancestors_iff] at hMem
      rwa [List.mem_cons, eq_comm]
  · rw [outline]
    cases f.root <;> rfl

/-- A module with a function, for which a slot was chosen, and its block. -/
example :
    ((ofModule "m").after [.build (.function ⟨0⟩ "f" [] .synthetic), .setSlot ⟨1⟩ 3]).outline =
      "module m\n  function f() @3\n    block\n" := by
  decide

end Forest

end LateBinding
