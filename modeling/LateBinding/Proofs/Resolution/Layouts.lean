import LateBinding.Proofs.Lexical.Frames
import LateBinding.Proofs.Resolution.Naming
import LateBinding.Proofs.Resolution.Scopes

/-!
# The layouts of an outcome

An outcome has one layout for each function, laid down where the function ends.  The slots of a
function are those of the names visible where it is entered, of its parameters, and of the
declarations in its body, a value that is taken apart directly before the names that its parts get.
So the scopes of a function have no more bindings than the function has slots of its own, and fewer
only if a name is declared twice in one of them.

* `Leaves`, `closed_leaves` - the walk through trees lays down the functions that end in them.
* `Outcome.Frames`, `Outcome.Furnishes` - what is said of the layout of one function, and of all.
* `IsResolved.layouts_account_for_slots`, and the layouts of the module with a loop.
-/

namespace LateBinding

namespace Lexical.Position

/-- The number of names visible where a function is entered, each value without a name counted. -/
def visibleCount (F : Position) : Nat :=
  nameCount (F.context.declared.map Declaration.name)

/-- The nodes of a function that have a scope: the function itself, and those in its body. -/
def scopeTrees (F : Position) : List Tree :=
  (F.tree :: Tree.bodyNodesAll F.tree.children).filter (·.construct.hasScope)

/-- The nodes of a function that have a scope lie in its tree, and none of them is a module. -/
theorem of_mem_scopeTrees {F : Position} (hProper : F.tree.IsProper)
    (hFunction : F.construct.isFunction = true) {s : Tree} (hS : s ∈ F.scopeTrees) :
    s ∈ F.tree.subtrees ∧ s.construct.hasScope = true ∧ ∀ name, s.construct ≠ .module name := by
  obtain ⟨c, ⟨id, node, children⟩⟩ := F
  obtain ⟨hMem, hScope⟩ := List.mem_filter.mp hS
  have hNoModule : ∀ name, node.construct ≠ .module name := by
    rintro name hConstruct
    rw [Position.construct_mk, hConstruct] at hFunction
    cases hFunction
  rcases List.mem_cons.mp hMem with rfl | hMem
  · exact ⟨Tree.mem_subtrees_self _, hScope, hNoModule⟩
  · change s ∈ Tree.bodyNodesAll children at hMem
    rw [Tree.bodyNodesAll_eq_flatMap] at hMem
    obtain ⟨child, hChild, hBody⟩ := List.mem_flatMap.mp hMem
    have hBelow := Tree.mem_subtrees_of_mem_bodyNodes hBody
    refine ⟨Tree.mem_subtrees_of_mem_children hChild hBelow, hScope, fun name hConstruct => ?_⟩
    have hLocal := (hProper.of_mem_children hChild).isLocal_of_mem_subtrees
      (hProper.isLocal_of_mem_children hNoModule hChild) hBelow
    rw [hConstruct] at hLocal
    cases hLocal

/-- The slot of what a position is about, if it is a declaration of the function around it. -/
theorem slot_of_denotes? {F S q : Position} (hNested : F.context.Nested) (hS : S ∈ F.own)
    (hQ : q ∈ F.own) (hDistinct : ((F.tree.positions F.context).map Position.id).Nodup)
    (hFunction : F.construct.isFunction = true) (hPlain : S.construct.isFunction = false)
    {place : Nat} (hDenotes : q.denotes? = some (.own S.id place)) :
    q.slot? = some (F.context.visible.length + (S.context.made + place)) := by
  obtain ⟨d, hBinding, hMeaning⟩ := Option.map_eq_some_iff.mp hDenotes
  rw [slot?, hBinding, Option.map_some]
  rcases slot_of_binding? hNested hQ hBinding with ⟨hOwn, hMem, hSlot⟩ | ⟨hInherited, -, -⟩
  · obtain ⟨hNode, hPlace⟩ := Lexical.Meaning.own.inj (hOwn.symm.trans hMeaning)
    rw [hSlot]
    rw [Tree.positions_of_isFunction F hFunction, List.map_cons, List.nodup_cons] at hDistinct
    have hSInside := (List.mem_filter.mp hS).1
    -- the declaration is one that the node makes
    have hMakes : d ∈ S.makes := by
      rcases List.mem_append.mp hMem with hParam | hMade
      · have hSame : F.id = S.id := (Context.of_mem_declarations _ _ _ _ hParam).1.symm.trans hNode
        exact absurd (hSame ▸ List.mem_map_of_mem hSInside) hDistinct.1
      · obtain ⟨x, hX, -, hXMakes⟩ := mem_madeBy.mp hMade
        have hSame : x.id = S.id := (of_mem_makes hXMakes).1.symm.trans hNode
        rwa [← List.inj_on_of_nodup_map hDistinct.2 hX hSInside hSame]
    rw [makes_eq S hPlain] at hMakes
    obtain ⟨i, hD⟩ := List.mem_iff_getElem?.mp hMakes
    rw [Context.getElem?_declarations] at hD
    obtain ⟨b, -, rfl⟩ := Option.map_eq_some_iff.mp hD
    rw [← hPlace, Nat.zero_add]
  · rw [hInherited] at hMeaning
    cases hMeaning

end Lexical.Position

namespace Resolution

open Lexical (Context Declaration Position nameCount)
open FreshName (isReserved)

/-! ### The order of layouts -/

namespace Progress

/-- The functions whose layouts are laid down. -/
def left (p : Progress) : List NodeId :=
  p.layouts.toList.map Layout.function

end Progress

/-- The walk through trees, known by the list of their nodes, lays down the functions that end in
them. -/
def Leaves (p : Progress) (nodes : List Tree) (q : Progress) : Prop :=
  ∃ ts, nodes = Tree.subtreesAll ts ∧ q.left = p.left ++ Tree.exitsAll ts

/-- A part of the walk that ends no function. -/
theorem Silent.leaves {p q : Progress} (hSilent : Silent p q) : Leaves p [] q :=
  ⟨[], rfl, by rw [Progress.left, hSilent.layouts, Tree.exitsAll, List.append_nil]; rfl⟩

theorem Leaves.trans {p q r : Progress} {nodes others : List Tree} (hFirst : Leaves p nodes q)
    (hSecond : Leaves q others r) : Leaves p (nodes ++ others) r := by
  obtain ⟨ts, rfl, hLeft⟩ := hFirst
  obtain ⟨us, rfl, hLeftToo⟩ := hSecond
  refine ⟨ts ++ us, ?_, ?_⟩
  · simp only [Tree.subtreesAll_eq_flatMap, List.flatMap_append]
  · rw [hLeftToo, hLeft, List.append_assoc]
    simp only [Tree.exitsAll_eq_flatMap, List.flatMap_append]

/-- A node that is no function ends no function. -/
theorem Leaves.of_children {p q : Progress} {id : NodeId} {node : Node} {children : List Tree}
    (hFunction : node.construct.isFunction = false)
    (hBelow : Leaves p (Tree.subtreesAll children) q) :
    Leaves p (Tree.mk id node children).subtrees q := by
  obtain ⟨ts, hNodes, hLeft⟩ := hBelow
  obtain rfl := Tree.subtreesAll_injective hNodes
  refine ⟨[Tree.mk id node children], (Tree.subtreesAll_singleton _).symm, ?_⟩
  rw [Tree.exitsAll_singleton, Tree.exits, hFunction, if_neg Bool.false_ne_true, List.append_nil,
    hLeft]

/-- A function ends after the functions in its block. -/
theorem Leaves.function {p q r : Progress} {outer : Scope.ScopeId} {id : NodeId} {node : Node}
    {body : Tree} {name : String} {params : List String} {isClosure : Bool} {entry : Progress.Entry}
    (hConstruct : node.construct = .function name params isClosure)
    (hNames : ∀ other ∈ node.construct.names, isReserved other = false)
    (hOk : p.enterFunction outer id name params isClosure = .ok (entry, q))
    (hBody : Leaves q body.subtrees r) :
    Leaves p (Tree.mk id node [body]).subtrees (r.leaveFunction id isClosure entry p.frame).2 := by
  have hParams : ∀ param ∈ params, isReserved param = false := fun param hMem =>
    hNames param (Construct.mem_names_of_mem_params hConstruct hMem)
  obtain ⟨-, hSilent⟩ := silent_enterFunction hParams hOk
  have hEntered : q.left = p.left := by
    rw [Progress.left, hSilent.layouts]
    cases isClosure <;> rfl
  have hLeave : (r.leaveFunction id isClosure entry p.frame).2.left = r.left ++ [id] := by
    simp [Progress.left, Progress.leaveFunction]
  obtain ⟨ts, hNodes, hLeft⟩ := hBody
  obtain rfl := Tree.subtreesAll_injective ((Tree.subtreesAll_singleton body).trans hNodes)
  refine ⟨[Tree.mk id node [body]], (Tree.subtreesAll_singleton _).symm, ?_⟩
  have hFunction : node.construct.isFunction = true := by
    rw [hConstruct]
    rfl
  rw [hLeave, hLeft, hEntered, List.append_assoc, Tree.exitsAll_singleton, Tree.exitsAll_singleton,
    Tree.exits, if_pos hFunction, Tree.exitsAll_singleton]

/-- The walk through trees lays down the functions that end in them. -/
theorem closed_leaves : Closed (isReserved · = false) Leaves where
  toSteps := steps_of_silent Silent.leaves Leaves.trans
  node hFunction _ hBelow := hBelow.of_children hFunction
  call hSelector hBelow := by
    exact ((Silent.recordCall ..).leaves.trans hBelow).of_children
      (Construct.isFunction_eq_false_of_selector? hSelector)
  function hConstruct hNames hOk hBody := Leaves.function hConstruct hNames hOk hBody

/-! ### What layouts say -/

namespace Outcome

/-- A layout of a function with given parameters accounts for the slots of the function: first those
of what is visible where the function is entered, then those of the parameters, then those of the
declarations in the body.  The scopes of the function have at most as many bindings as it has slots
of its own, and as many exactly if no name is declared twice in one of them. -/
structure Frames (r : Outcome) (F : Position) (names : List String) (layout : Layout) : Prop where
  params : layout.params = List.range' F.visibleCount names.length
  size : layout.slotCount = F.visibleCount + names.length +
    ((Tree.bodyNodesAll F.tree.children).map (·.construct.slotCount)).sum
  bindings_le : F.visibleCount + (F.scopeTrees.map fun s => (r.localsOf s.id).length).sum ≤
    layout.slotCount
  bindings_eq_iff : F.visibleCount + (F.scopeTrees.map fun s => (r.localsOf s.id).length).sum =
    layout.slotCount ↔ ∀ s ∈ F.scopeTrees, s.declaredNames.reduceOption.Nodup

/-- The layouts of an outcome for a module are those of its functions, the inner ones first, and
account for their slots.  A value that is taken apart has its slot directly before those of the
names of its parts: in the bindings of the block, for names that are not declared again, and
wherever one of these names is used. -/
structure Furnishes (r : Outcome) (t : Tree) : Prop where
  functions : (r.layouts.map Layout.function).Perm
    ((t.subtrees.filter (·.construct.isFunction)).map Tree.id)
  exits : r.layouts.map Layout.function = t.exits
  inner_first : ∀ s ∈ t.subtrees, s.construct.isFunction = true →
    ∀ inner ∈ Tree.subtreesAll s.children, inner.construct.isFunction = true →
      [inner.id, s.id].Sublist (r.layouts.map Layout.function)
  frames : ∀ F ∈ t.positions .outermost, ∀ name params isClosure,
    F.construct = .function name params isClosure →
      (∃ layout, r.layoutOf? F.id = some layout ∧ r.Frames F params layout) ∧
      (isClosure = false → F.visibleCount = 0)
  parts : ∀ B ∈ t.positions .outermost, B.construct = .block →
    ∀ before s after names mutability, B.tree.children = before ++ s :: after →
      s.construct = .destructuring names mutability →
        ∃ slot, r.slotOf? s.id = some slot ∧
          (∃ b ∈ r.localsOf B.id, isReserved b.name = true ∧ b.slot = some slot) ∧
          ∀ place name, names[place]? = some name → name ∉ names.drop (place + 1) →
            some name ∉ after.flatMap Tree.boundNames →
              ∃ b ∈ r.localsOf B.id, b.name = name ∧ b.slot = some (slot + 1 + place)
  uses : ∀ F ∈ t.positions .outermost, F.construct.isFunction = true →
    ∀ S ∈ F.own, ∀ names mutability, S.construct = .destructuring names mutability →
      ∃ slot, r.slotOf? S.id = some slot ∧
        ∀ q ∈ F.own, ∀ place, q.denotes? = some (.own S.id place) →
          r.slotOf? q.id = some (slot + place)

end Outcome

namespace IsResolved

variable {options : Options} {f : Forest} {t : Tree} {r : Outcome}
  (hResolved : IsResolved options f t r)

include hResolved

/-- The layouts stand in the order in which their functions end. -/
theorem map_function_layouts : r.layouts.map Layout.function = t.exits := by
  obtain ⟨p, hWalk, rfl⟩ := hResolved.exists_walk
  obtain ⟨name, hConstruct, hLeaves⟩ :=
    closed_leaves.moduleTree hResolved.module.toIsProper.isReadWhole hWalk
  have hFunction : t.construct.isFunction = false := by
    rw [hConstruct]
    rfl
  obtain ⟨id, node, children⟩ := t
  have hAll : Leaves _ (Tree.mk id node children).subtrees p := hLeaves.of_children hFunction
  obtain ⟨ts, hNodes, hLeft⟩ := hAll
  obtain rfl := Tree.subtreesAll_injective ((Tree.subtreesAll_singleton _).trans hNodes)
  rw [Tree.exitsAll_singleton] at hLeft
  exact hLeft

/-- The scope of a node other than the module has as many bindings as there are names declared in
it. -/
theorem length_localsOf {q : Position} (hQ : q ∈ t.positions .outermost)
    (hScope : q.construct.hasScope = true) (hModule : ∀ name, q.construct ≠ .module name) :
    (r.localsOf q.id).length = nameCount q.tree.declaredNames := by
  obtain ⟨fresh, openings, hAccounts⟩ := hResolved.exists_accounts
  rw [hAccounts.localsOf_eq hResolved hQ hScope, Position.locals, List.length_map,
    Lexical.length_foldl_overlay, Position.map_name_declaredInside hScope hModule]

/-- The bindings of the scopes of a function. -/
theorem sum_length_localsOf {F : Position} (hF : F ∈ t.positions .outermost)
    (hFunction : F.construct.isFunction = true) :
    (F.scopeTrees.map fun s => (r.localsOf s.id).length).sum =
      (F.scopeTrees.map fun s => nameCount s.declaredNames).sum := by
  congr 1
  refine List.map_congr_left fun s hS => ?_
  obtain ⟨hBelow, hScope, hModule⟩ :=
    Position.of_mem_scopeTrees (hResolved.isProper hF) hFunction hS
  obtain ⟨q, hQ, rfl⟩ :=
    List.mem_map.mp ((Tree.perm_subtrees F.tree F.context).mem_iff.mpr hBelow)
  exact hResolved.length_localsOf ((Tree.sublist_positions hF).subset hQ) hScope hModule

/-- The layout of a function accounts for its slots. -/
theorem frames_layout {F : Position} (hF : F ∈ t.positions .outermost) {name : String}
    {params : List String} {isClosure : Bool}
    (hConstruct : F.construct = .function name params isClosure) (title : String) :
    r.Frames F params (F.layout title) := by
  have hFunction : F.construct.isFunction = true := by
    rw [hConstruct]
    rfl
  have hVisible : F.context.visible.length = F.visibleCount := F.context.length_visible
  have hParams : F.construct.bindings.length = params.length := by
    rw [hConstruct, Construct.bindings, List.length_map]
  -- the slots beyond those of what is visible are as many as the declarations in the scopes
  have hSize : (F.layout title).slotCount =
      F.visibleCount + (F.scopeTrees.map fun s => s.declaredNames.length).sum := by
    have hProper := hResolved.isProper hF
    obtain ⟨c, ⟨id, node, children⟩⟩ := F
    have hCount := Tree.declaredCount_of_function hProper hFunction
    show c.visible.length + node.construct.bindings.length + Tree.declarationCountAll children = _
    rw [← hVisible, Nat.add_assoc, ← hCount]
    rfl
  obtain ⟨hLe, hEq⟩ := Tree.sum_nameCount F.scopeTrees
  have hLocals := hResolved.sum_length_localsOf hF hFunction
  exact {
    params := by
      show List.range' F.context.visible.length F.construct.bindings.length = _
      rw [hVisible, hParams]
    size := by
      show F.context.visible.length + F.construct.bindings.length +
        Tree.declarationCountAll F.tree.children = _
      rw [hVisible, hParams, Tree.declarationCountAll_eq_sum]
    bindings_le := by
      rw [hLocals, hSize]
      exact Nat.add_le_add_left hLe _
    bindings_eq_iff := by
      rw [hLocals, hSize, Nat.add_left_cancel_iff]
      exact hEq }

/-- The function of a function with a name has nothing visible around it. -/
theorem visibleCount_of_isNamedFunction {F : Position} (hF : F ∈ t.positions .outermost)
    (hNamed : F.construct.isNamedFunction = true) : F.visibleCount = 0 := by
  rw [Position.visibleCount, hResolved.module.declared_of_isNamedFunction hF hNamed]
  rfl

/-- A value that is taken apart has the first slot that is free. -/
theorem slotOf?_of_destructuring {S : Position} (hS : S ∈ t.positions .outermost)
    {names : List String} {mutability : Mutability}
    (hConstruct : S.construct = .destructuring names mutability) :
    r.slotOf? S.id = some (S.context.inherited.length + S.context.made) := by
  refine hResolved.slotOf?_of_slot? hS ?_
  rw [Position.slot?, Position.binding?, hConstruct, Option.map_some, Context.slot, if_pos rfl]

/-- A declaration that a block has a binding for has its slot there. -/
theorem exists_mem_localsOf {B : Position} (hB : B ∈ t.positions .outermost)
    (hBlock : B.construct = .block) {before after : List Tree} {s : Tree}
    (hChildren : B.tree.children = before ++ s :: after)
    (hBinds : s.construct.bindsInBlock = true) {place : Nat} {name : Option String}
    {mutability : Mutability} (hAt : s.construct.bindings[place]? = some (name, mutability))
    (hLast : name.isSome = true →
      name ∉ (s.construct.bindings.map Prod.fst).drop (place + 1) ∧
        name ∉ after.flatMap Tree.boundNames) {fresh : NodeId → String} {openings : List Opening}
    (hAccounts : r.Accounts t fresh openings) :
    ∃ b ∈ r.localsOf B.id, b.name = name.getD (fresh s.id) ∧
      b.slot = some (B.context.inherited.length + ((B.context.afterAll before).made + place)) := by
  have hLocals : r.localsOf B.id = B.locals fresh :=
    hAccounts.localsOf_eq hResolved hB (by rw [hBlock]; rfl)
  have hEnding : B.ending = B.context.afterAll B.tree.children := by
    rw [Position.ending, hBlock]
  have hMem := Position.mem_declaredInside_of_last hBlock hChildren hBinds
    (by rw [Context.getElem?_declarations, hAt, Option.map_some]) hLast
  rw [hLocals]
  refine ⟨_, List.mem_map_of_mem hMem, rfl, ?_⟩
  show some (B.ending.slot _) = _
  rw [hEnding, Context.slot, if_pos (by simp)]
  simp

end IsResolved

/-- **Layouts account for all slots.**  The layouts of a resolved module are those of its functions,
and every slot of a function is one of what is visible where it is entered, of a parameter, or of a
declaration in its body. -/
theorem IsResolved.layouts_account_for_slots {options : Options} {f : Forest} {t : Tree}
    {r : Outcome} (hResolved : IsResolved options f t r) : r.Furnishes t where
  functions := hResolved.map_function_layouts ▸ t.perm_exits
  exits := hResolved.map_function_layouts
  inner_first := fun s hS hFunction inner hInner hInnerFunction =>
    hResolved.map_function_layouts ▸ Tree.sublist_exits hS hFunction hInner hInnerFunction
  frames := by
    intro F hF name params isClosure hConstruct
    refine ⟨?_, ?_⟩
    · obtain ⟨title, hLayout⟩ := hResolved.exists_layoutOf? hF (by rw [hConstruct]; rfl)
      exact ⟨F.layout title, hLayout, hResolved.frames_layout hF hConstruct title⟩
    · rintro rfl
      exact hResolved.visibleCount_of_isNamedFunction hF (by rw [hConstruct]; rfl)
  parts := by
    intro B hB hBlock before s after names mutability hChildren hConstruct
    obtain ⟨fresh, openings, hAccounts⟩ := hResolved.exists_accounts
    have hBinds : s.construct.bindsInBlock = true := by
      rw [hConstruct]
      rfl
    have hS : ⟨B.context.afterAll before, s⟩ ∈ t.positions .outermost :=
      (Tree.sublist_positions hB).subset (Position.mem_positions_of_block hBlock hChildren)
    have hSlot := hResolved.slotOf?_of_destructuring hS hConstruct
    rw [Context.inherited_afterAll] at hSlot
    refine ⟨_, hSlot, ?_, ?_⟩
    · have hFirst : s.construct.bindings[0]? = some (none, .constant) := by
        rw [hConstruct]
        rfl
      obtain ⟨b, hMem, hName, hBSlot⟩ :=
        hResolved.exists_mem_localsOf hB hBlock hChildren hBinds hFirst (by simp) hAccounts
      refine ⟨b, hMem, ?_, hBSlot⟩
      rw [hName]
      exact hAccounts.reserved _ hS (by rw [Position.construct, hConstruct]; rfl)
    · intro place name hAt hHere hAfter
      have hPart : s.construct.bindings[place + 1]? = some (some name, mutability) := by
        rw [hConstruct, Construct.bindings, List.getElem?_cons_succ, List.getElem?_map, hAt]
        rfl
      have hLater : some name ∉ (s.construct.bindings.map Prod.fst).drop (place + 1 + 1) := by
        have hNames : (s.construct.bindings.map Prod.fst).drop (place + 1 + 1) =
            (names.drop (place + 1)).map some := by
          rw [hConstruct]
          simp [Construct.bindings, List.map_drop, Function.comp_def]
        rwa [hNames, List.mem_map_of_injective (Option.some_injective String)]
      obtain ⟨b, hMem, hName, hBSlot⟩ :=
        hResolved.exists_mem_localsOf hB hBlock hChildren hBinds hPart
          (fun _ => ⟨hLater, hAfter⟩) hAccounts
      refine ⟨b, hMem, hName, ?_⟩
      rw [hBSlot, Nat.add_comm place, ← Nat.add_assoc, ← Nat.add_assoc]
  uses := by
    intro F hF hFunction S hS names mutability hConstruct
    have hInside := (List.mem_filter.mp hS).1
    have hMem := IsResolved.mem_positions_of_mem_inside hF hFunction hInside
    have hSlot := hResolved.slotOf?_of_destructuring hMem hConstruct
    rw [Position.inherited_of_mem_own hS, List.length_map] at hSlot
    refine ⟨_, hSlot, fun q hQ place hDenotes => ?_⟩
    rw [Nat.add_assoc]
    refine hResolved.slotOf?_of_slot?
      (IsResolved.mem_positions_of_mem_inside hF hFunction (List.mem_filter.mp hQ).1) ?_
    exact Position.slot_of_denotes? (IsResolved.nested hF) hS hQ (hResolved.nodup_ids_of_mem hF)
      hFunction (by rw [hConstruct]; rfl) hDenotes

/-- The layouts of the module with a loop: the closure ends first, and has the slots of all names
visible around it; the function has a slot more than bindings, as its block declares a name twice. -/
theorem layouts_account_for_slots_loopOutcome :
    loopOutcome.Furnishes loopTree ∧
    loopOutcome.layouts.map (fun l => (l.function, l.params, l.slotCount)) =
      [(⟨12⟩, [6], 7), (⟨1⟩, [0], 7)] ∧
    [⟨1⟩, ⟨2⟩, ⟨7⟩, ⟨9⟩].map (fun node => (loopOutcome.localsOf node).length) = [1, 3, 2, 0] :=
  ⟨loopOutcome_isResolved.layouts_account_for_slots, by decide +kernel, by decide +kernel⟩

end Resolution

end LateBinding
