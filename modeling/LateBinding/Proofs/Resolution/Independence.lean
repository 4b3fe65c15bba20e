import LateBinding.Proofs.Lexical.Enclosing
import LateBinding.Proofs.Lexical.Relabelling
import LateBinding.Proofs.Resolution.Calls
import LateBinding.Proofs.Resolution.Recorded

/-!
# Functions are resolved on their own

All functions of a module share the tables of scopes, the fresh names, the list of dynamic calls and
the numbers of nodes.  Still, what a function is resolved to depends on the function alone.  If two
modules have functions that are equal up to the numbers of their nodes, then the nodes of the
functions have the same slots, their functions and closures the same storages, and their dynamic
calls look up the same in the same order, whatever else is in the modules.

* `Agree` - what two outcomes have in common at two nodes; `agree_of_relabel_eq` - they agree where
  positions are equal up to numbers.
* `Outcome.callsIn`, `Tree.dynamic?` - the dynamic calls in a tree, and what is seen of them;
  `IsResolved.map_callsIn` - they are those of the nodes of the tree.
* `IsResolved.functions_are_independent` - for every two resolved modules; `precededOutcome` - a
  function behind another one.
-/

namespace LateBinding

/-- What is looked up does not depend on the value of a constant. -/
@[simp] theorem Construct.selector?_kind (construct : Construct) :
    construct.kind.selector? = construct.selector? := by
  cases construct <;> rfl

namespace Tree

open Lexical (Position Context)

/-- What the topmost node looks up, and for how many operands. -/
def dynamic? (t : Tree) : Option (Selector × Nat) :=
  t.construct.selector?.map (·, t.children.length)

theorem dynamic?_relabel (φ : NodeId → NodeId) (t : Tree) :
    (t.relabel φ).dynamic? = t.dynamic? := by
  rw [dynamic?, dynamic?, construct_relabel, Construct.selector?_kind, children_relabel,
    List.length_map]

/-- Trees that are equal up to the numbers of their nodes have the same dynamic calls. -/
theorem filterMap_dynamic?_of_relabel_eq {φ ψ : NodeId → NodeId} {t u : Tree}
    (hSame : t.relabel φ = u.relabel ψ) :
    t.subtrees.filterMap dynamic? = u.subtrees.filterMap dynamic? := by
  have hKeeps : ∀ (χ : NodeId → NodeId) (s : Tree),
      (s.relabel χ).subtrees.filterMap dynamic? = s.subtrees.filterMap dynamic? := by
    intro χ s
    rw [subtrees_relabel, List.filterMap_map]
    exact List.filterMap_congr fun x _ => dynamic?_relabel χ x
  rw [← hKeeps φ t, hSame, hKeeps ψ u]

/-- Trees that are equal up to the numbers of their nodes have the same positions, up to these
numbers. -/
theorem exists_position_of_relabel_eq {φ ψ : NodeId → NodeId} {t u : Tree}
    (hSame : t.relabel φ = u.relabel ψ) {q : Position} (hQ : q ∈ t.positions .outermost) :
    ∃ x ∈ u.positions .outermost, x.relabel ψ = q.relabel φ := by
  have hMem := List.mem_map_of_mem (f := Position.relabel φ) hQ
  rw [positions_relabel, hSame, Context.relabel_outermost, ← Context.relabel_outermost ψ,
    ← positions_relabel] at hMem
  exact List.mem_map.mp hMem

/-- The trees inside a child are among those inside the tree, in order. -/
theorem sublist_subtrees_of_mem_children {t F : Tree} (hF : F ∈ t.children) :
    F.subtrees.Sublist t.subtrees := by
  obtain ⟨id, node, children⟩ := t
  obtain ⟨before, after, hSplit⟩ := List.append_of_mem hF
  change children = _ at hSplit
  rw [subtrees, subtreesAll_eq_flatMap, hSplit, List.flatMap_append, List.flatMap_cons]
  exact (((List.sublist_append_left _ _).trans (List.sublist_append_right _ _)).cons _)

end Tree

namespace Resolution

open Lexical (Position Context)

/-! ### Agreement at two nodes -/

/-- Two outcomes have the same slot at the topmost nodes of two trees, or both none; and if there is
a function, it has a storage in both, and the same up to what it is called. -/
structure Agree (r r' : Outcome) (s s' : Tree) : Prop where
  slot : r.slotOf? s.id = r'.slotOf? s'.id
  layout : s.construct.isFunction = true → ∃ layout layout',
    r.layoutOf? s.id = some layout ∧ r'.layoutOf? s'.id = some layout' ∧
      layout.isClosure = layout'.isClosure ∧ layout.params = layout'.params ∧
      layout.slotCount = layout'.slotCount ∧ layout.captured = layout'.captured

section Agreement

variable {options options' : Options} {f f' : Forest} {t t' : Tree} {r r' : Outcome}
  (hResolved : IsResolved options f t r) (hResolved' : IsResolved options' f' t' r')
  (hUnslotted : ∀ s ∈ t.subtrees, s.node.slot = none)
  (hUnslotted' : ∀ s ∈ t'.subtrees, s.node.slot = none)

include hResolved hResolved' hUnslotted hUnslotted'

/-- Positions that are equal up to the numbers of nodes are resolved alike. -/
theorem agree_of_relabel_eq {φ ψ : NodeId → NodeId} {q x : Position}
    (hQ : q ∈ t.positions .outermost) (hX : x ∈ t'.positions .outermost)
    (hSame : x.relabel ψ = q.relabel φ) : Agree r r' q.tree x.tree where
  slot := by
    show r.slotOf? q.id = r'.slotOf? x.id
    rw [hResolved.slotOf?_eq hUnslotted hQ, hResolved'.slotOf?_eq hUnslotted' hX,
      ← q.slot?_relabel φ, ← hSame, x.slot?_relabel ψ]
  layout := by
    intro hFunction
    have hFunction' : x.construct.isFunction = true := by
      rw [← Construct.isFunction_kind, ← x.construct_relabel ψ, hSame, q.construct_relabel φ,
        Construct.isFunction_kind]
      exact hFunction
    obtain ⟨name, hLayout⟩ := hResolved.exists_layoutOf? hQ hFunction
    obtain ⟨name', hLayout'⟩ := hResolved'.exists_layoutOf? hX hFunction'
    have hStorage : { q.layout name with function := φ q.id } =
        { x.layout name with function := ψ x.id } := by
      rw [← q.layout_relabel φ name, ← hSame, x.layout_relabel ψ name]
    obtain ⟨-, -, hKind, hParams, hCount, hCaptured⟩ := Layout.mk.inj hStorage
    exact ⟨_, _, hLayout, hLayout', hKind, hParams, hCount, hCaptured⟩

/-- Functions of two modules that are equal up to the numbers of nodes are resolved alike, node by
node. -/
theorem forall₂_agree_of_relabel_eq {φ : NodeId → NodeId} {F F' : Tree} (hF : F ∈ t.children)
    (hF' : F' ∈ t'.children) (hSame : F.relabel φ = F'.relabel fun id => id) :
    List.Forall₂ (Agree r r') F.subtrees F'.subtrees := by
  have hPairs : List.Forall₂ (fun s s' => s.relabel φ = s'.relabel fun id => id)
      F.subtrees F'.subtrees := by
    have hLists := congrArg Tree.subtrees hSame
    rw [Tree.subtrees_relabel, Tree.subtrees_relabel, ← List.forall₂_eq_eq_eq,
      List.forall₂_map_left_iff, List.forall₂_map_right_iff] at hLists
    exact hLists
  refine ((List.forall₂_and_left _ _).mpr ⟨fun _ hS => hS, hPairs⟩).imp fun s s' hBoth => ?_
  obtain ⟨hS, hNodes⟩ : s ∈ F.subtrees ∧ _ := hBoth
  obtain ⟨q, hQ, rfl⟩ :=
    List.mem_map.mp ((Tree.perm_subtrees F .outermost).mem_iff.mpr hS)
  obtain ⟨x, hX, hRelabel⟩ := Tree.exists_position_of_relabel_eq hSame hQ
  have hId : x.id = s'.id := by
    have hIds := congrArg Position.id hRelabel
    rw [Position.id_relabel, Position.id_relabel] at hIds
    have hNodeIds := congrArg Tree.id hNodes
    rw [Tree.id_relabel, Tree.id_relabel] at hNodeIds
    exact hIds.trans hNodeIds
  have hAgree := agree_of_relabel_eq hResolved hResolved' hUnslotted hUnslotted'
    ((Tree.sublist_positions (hResolved.module.mem_positions_of_mem_children hF)).subset hQ)
    ((Tree.sublist_positions (hResolved'.module.mem_positions_of_mem_children hF')).subset hX)
    hRelabel
  exact {
    slot := hId ▸ hAgree.slot
    layout := fun hFunction => hId ▸ hAgree.layout hFunction }

end Agreement

/-! ### The dynamic calls in a tree -/

/-- The dynamic calls at the nodes of a tree, in the order of the list. -/
def Outcome.callsIn (r : Outcome) (t : Tree) : List DynamicCall :=
  r.calls.filter fun c => c.node ∈ t.subtrees.map Tree.id

/-- A part of a list is what is found in the list by the keys of the part, if keys are different. -/
theorem filter_mem_map_of_sublist {α β : Type} [DecidableEq β] {key : α → β} {part whole : List α}
    (hPart : part.Sublist whole) (hDistinct : (whole.map key).Nodup) :
    whole.filter (fun a => key a ∈ part.map key) = part := by
  induction hPart with
  | slnil => rfl
  | cons a hRest ih =>
      rw [List.map_cons, List.nodup_cons] at hDistinct
      have hNew : ¬ key a ∈ List.map key _ := fun hMem =>
        hDistinct.1 ((hRest.map key).subset hMem)
      rw [List.filter_cons_of_neg (by simpa using hNew), ih hDistinct.2]
  | cons_cons a hRest ih =>
      rw [List.map_cons, List.nodup_cons] at hDistinct
      rw [List.filter_cons_of_pos (by simp)]
      congr 1
      refine (List.filter_congr fun b hB => ?_).trans (ih hDistinct.2)
      have hNe : key b ≠ key a := fun hSame => hDistinct.1 (hSame ▸ List.mem_map_of_mem hB)
      simp only [List.map_cons, List.mem_cons, hNe, false_or]

/-- The dynamic calls in a function of a module are those of its nodes, in their order. -/
theorem IsResolved.map_callsIn {options : Options} {f : Forest} {t : Tree} {r : Outcome}
    (hResolved : IsResolved options f t r) {F : Tree} (hF : F ∈ t.children) :
    (r.callsIn F).map (fun c => (c.selector, c.arity)) = F.subtrees.filterMap Tree.dynamic? := by
  obtain ⟨-, hCalls⟩ := calls_of_resolve hResolved.root
    hResolved.module.toIsProper.isReadWhole hResolved.resolved
  have hNodes : t.subtrees.filter (fun s => s.id ∈ F.subtrees.map Tree.id) = F.subtrees :=
    filter_mem_map_of_sublist (Tree.sublist_subtrees_of_mem_children hF) hResolved.distinct
  -- the list with all that is seen of its calls, their numbers and places apart
  have hSeen : r.calls.map (fun c => (c.node, c.selector, c.arity)) =
      (dynamicTrees t.subtrees).map fun pair => (pair.1.id, pair.2, pair.1.children.length) := by
    rw [hCalls, map_calls fun _ _ _ => rfl]
    rfl
  calc (r.callsIn F).map (fun c => (c.selector, c.arity))
      = ((r.calls.map fun c => (c.node, c.selector, c.arity)).filter
          fun seen => seen.1 ∈ F.subtrees.map Tree.id).map Prod.snd := by
        rw [Outcome.callsIn, List.filter_map, List.map_map]
        rfl
    _ = (t.subtrees.filter fun s => s.id ∈ F.subtrees.map Tree.id).filterMap Tree.dynamic? := by
        rw [hSeen, dynamicTrees, List.map_filterMap, List.filter_filterMap, List.map_filterMap,
          List.filterMap_filter]
        refine List.filterMap_congr fun s _ => ?_
        rw [Tree.dynamic?]
        cases s.construct.selector? with
        | none => simp only [Option.map_none, Option.filter_none, ite_self]
        | some selector =>
            simp only [Option.map_some, Option.filter_some]
            split <;> rfl
    _ = F.subtrees.filterMap Tree.dynamic? := by rw [hNodes]

/-! ### Functions in two modules -/

/-- Functions are resolved on their own.  If functions of two resolved modules are equal in shape, in
kinds and in names, then all their nodes are resolved alike, and the dynamic calls in them look up
the same for as many operands, in the same order.  Nothing is asked of what else is in the modules,
of where the functions stand in them, or of the names that exist without a slot. -/
theorem IsResolved.functions_are_independent {options options' : Options} {f f' : Forest}
    {t t' : Tree} {r r' : Outcome} (hResolved : IsResolved options f t r)
    (hResolved' : IsResolved options' f' t' r')
    (hUnslotted : ∀ s ∈ t.subtrees, s.node.slot = none)
    (hUnslotted' : ∀ s ∈ t'.subtrees, s.node.slot = none) {F F' : Tree} (hF : F ∈ t.children)
    (hF' : F' ∈ t'.children) (hAlike : F.alike F' = true) :
    List.Forall₂ (Agree r r') F.subtrees F'.subtrees ∧
      (r.callsIn F).map (fun c => (c.selector, c.arity)) =
        (r'.callsIn F').map fun c => (c.selector, c.arity) := by
  have hDistinct : (F.subtrees.map Tree.id).Nodup :=
    ((Tree.sublist_subtrees_of_mem_children hF).map Tree.id).nodup hResolved.distinct
  obtain ⟨φ, hSame⟩ := Tree.exists_relabel_of_alike hAlike hDistinct
  constructor
  · exact forall₂_agree_of_relabel_eq hResolved hResolved' hUnslotted hUnslotted' hF hF' hSame
  · rw [hResolved.map_callsIn hF, hResolved'.map_callsIn hF']
    exact Tree.filterMap_dynamic?_of_relabel_eq hSame

/-- A module with the function of the module with closures behind another function, which goes
through items with a closure that calls a method. -/
def precededForest : Forest where
  nodes := #[
    ⟨.module "n", .synthetic, none, none, [⟨1⟩, ⟨13⟩]⟩,
    ⟨.function "first" ["items"] false, .synthetic, none, some ⟨0⟩, [⟨2⟩]⟩,
    ⟨.block, .synthetic, none, some ⟨1⟩, [⟨3⟩]⟩,
    ⟨.iteration "item", .synthetic, none, some ⟨2⟩, [⟨4⟩, ⟨5⟩]⟩,
    ⟨.reference "items", .synthetic, none, some ⟨3⟩, []⟩,
    ⟨.block, .synthetic, none, some ⟨3⟩, [⟨6⟩]⟩,
    ⟨.evaluation, .synthetic, none, some ⟨5⟩, [⟨7⟩]⟩,
    ⟨.closure, .synthetic, none, some ⟨6⟩, [⟨8⟩]⟩,
    ⟨.function "" [] true, .synthetic, none, some ⟨7⟩, [⟨9⟩]⟩,
    ⟨.block, .synthetic, none, some ⟨8⟩, [⟨10⟩]⟩,
    ⟨.returning, .synthetic, none, some ⟨9⟩, [⟨11⟩]⟩,
    ⟨.methodCall "size", .synthetic, none, some ⟨10⟩, [⟨12⟩]⟩,
    ⟨.reference "item", .synthetic, none, some ⟨11⟩, []⟩] ++
    -- the nodes of the function, after these
    (nestedForest.nodes.extract 1 17).map fun n =>
      { n with
        parent := n.parent.map fun id => if id = ⟨0⟩ then id else ⟨id.index + 12⟩
        children := n.children.map fun id => ⟨id.index + 12⟩ }
  root := some ⟨0⟩

/-- The tree of this module. -/
def precededTree : Tree :=
  precededForest.rootTree?.get (by decide +kernel)

/-- The outcome of this module, where a name exists without a slot. -/
def precededOutcome : Outcome :=
  (resolve ⟨["print"]⟩ precededForest).toOption.get (by decide +kernel)

/-- This module resolves to its outcome. -/
theorem precededOutcome_isResolved :
    IsResolved ⟨["print"]⟩ precededForest precededTree precededOutcome where
  root := by rw [precededTree, Option.some_get]
  module :=
    { shape := by decide +kernel
      names := by decide +kernel
      module := ⟨"n", by decide +kernel⟩ }
  distinct := by decide +kernel
  resolved := eq_ok_get _

/-- The function that stands alone in the one module and behind another function in the other one is
resolved alike in both, with its closures and its dynamic call. -/
theorem IsResolved.functions_are_independent_precededOutcome :
    IsResolved ⟨[]⟩ nestedForest nestedTree nestedOutcome ∧
    IsResolved ⟨["print"]⟩ precededForest precededTree precededOutcome ∧
    (∀ s ∈ nestedTree.subtrees, s.node.slot = none) ∧
    (∀ s ∈ precededTree.subtrees, s.node.slot = none) ∧
    ∃ F ∈ nestedTree.children, ∃ F' ∈ precededTree.children, F.alike F' = true ∧
      F.id = ⟨1⟩ ∧ F'.id = ⟨13⟩ ∧
      List.Forall₂ (Agree nestedOutcome precededOutcome) F.subtrees F'.subtrees ∧
      (precededOutcome.callsIn F').map (fun c => (c.selector, c.arity)) =
        [(.operator .plus, 2)] := by
  have hUnslotted : ∀ s ∈ nestedTree.subtrees, s.node.slot = none := by decide +kernel
  have hUnslotted' : ∀ s ∈ precededTree.subtrees, s.node.slot = none := by decide +kernel
  obtain ⟨F, hF, F', hF', hAlike, hId, hId', hFirst⟩ : ∃ F ∈ nestedTree.children,
      ∃ F' ∈ precededTree.children, F.alike F' = true ∧ F.id = ⟨1⟩ ∧ F'.id = ⟨13⟩ ∧
        (nestedOutcome.callsIn F).map (fun c => (c.selector, c.arity)) =
          [(.operator .plus, 2)] := by
    decide +kernel
  obtain ⟨hNodes, hCalls⟩ := nestedOutcome_isResolved.functions_are_independent
    precededOutcome_isResolved hUnslotted hUnslotted' hF hF' hAlike
  exact ⟨nestedOutcome_isResolved, precededOutcome_isResolved, hUnslotted, hUnslotted', F, hF, F',
    hF', hAlike, hId, hId', hNodes, hCalls.symm.trans hFirst⟩

end Resolution

end LateBinding
