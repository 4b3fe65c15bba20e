import LateBinding.Proofs.Lexical.Ownership
import LateBinding.Proofs.Resolution.Scoping

/-!
# What is found in an outcome

A resolved module has at each of its nodes the slot that its position has by the rules of scope, and
for each of its functions the layout of its position.  Both rest on the nodes of a tree being
different: what is recorded for one node is not changed for another.

* `Outcome.slotOf?` - the slot at a node.
* `node?_of_mem_subtrees` - the nodes of a tree are those of its forest.
* `IsResolved` - a module, whose nodes are different, with its outcome.
* `IsResolved.slotOf?_eq`, `IsResolved.exists_layoutOf?` - what is found; `nestedOutcome` - what is
  found for a module with closures.
-/

namespace LateBinding

/-! ### Trees of a forest -/

/-- The nodes of a tree are those of the forest that it was read from. -/
theorem Forest.node?_of_mem_subtrees {f : Forest} {depth : Nat} {id : NodeId} {t : Tree}
    (hTree : f.treeTo depth id = some t) {s : Tree} (hMem : s ∈ t.subtrees) :
    f.node? s.id = some s.node := by
  induction depth generalizing id t with
  | zero => cases hTree
  | succ depth ih =>
      obtain ⟨n, hNode, rfl⟩ := Option.map_eq_some_iff.mp hTree
      rw [Tree.subtrees, Tree.subtreesAll_eq_flatMap] at hMem
      rcases List.mem_cons.mp hMem with rfl | hMem
      · exact hNode
      · obtain ⟨child, hChild, hS⟩ := List.mem_flatMap.mp hMem
        obtain ⟨childId, -, hChildTree⟩ := List.mem_filterMap.mp hChild
        exact ih hChildTree hS

/-! ### Annotated nodes -/

namespace Resolution

open Lexical (Context Declaration Position)

/-- The slot at a node of a resolved program. -/
def Outcome.slotOf? (r : Outcome) (node : NodeId) : Option Nat :=
  (r.forest.node? node).bind Node.slot

section Recording

variable {α : Type} (change : α → Node → Node) (f : Forest) {records : List (NodeId × α)}
  {id : NodeId}

/-- What is recorded at nodes leaves other nodes as they are. -/
theorem node?_foldl_modify_of_not_mem (hNew : id ∉ records.map Prod.fst) :
    (records.foldl (fun f (id, a) => f.modify id (change a)) f).node? id = f.node? id := by
  induction records generalizing f with
  | nil => rfl
  | cons record rest ih =>
      rw [List.map_cons, List.mem_cons, not_or] at hNew
      rw [List.foldl_cons, ih _ hNew.2, Forest.node?_modify, if_neg hNew.1]

/-- What is recorded at different nodes is recorded at each of them. -/
theorem node?_foldl_modify_of_mem (hDistinct : (records.map Prod.fst).Nodup) {a : α}
    (hMem : (id, a) ∈ records) :
    (records.foldl (fun f (id, a) => f.modify id (change a)) f).node? id =
      (f.node? id).map (change a) := by
  induction records generalizing f with
  | nil => cases hMem
  | cons record rest ih =>
      rw [List.map_cons, List.nodup_cons] at hDistinct
      rw [List.foldl_cons]
      rcases List.mem_cons.mp hMem with rfl | hMem
      · rw [node?_foldl_modify_of_not_mem _ _ hDistinct.1, Forest.node?_modify, if_pos rfl]
      · have hNe : id ≠ record.1 := by
          rintro rfl
          exact hDistinct.1 (List.mem_map.mpr ⟨_, hMem, rfl⟩)
        rw [ih _ hDistinct.2 hMem, Forest.node?_modify, if_neg hNe]

end Recording

/-- Naming functions leaves slots as they are. -/
theorem slot_foldl_renamed (f : Forest) (names : List (NodeId × String)) (id : NodeId) :
    ((names.foldl (fun f (id, name) =>
      f.modify id fun n => { n with construct := n.construct.renamed name }) f).node? id).bind
        Node.slot = (f.node? id).bind Node.slot := by
  induction names generalizing f with
  | nil => rfl
  | cons record rest ih =>
      rw [List.foldl_cons, ih, Forest.node?_modify]
      split
      · cases f.node? id <;> rfl
      · rfl

/-- Slots are recorded at the nodes of positions, in order. -/
theorem sublist_map_fst_records (qs : List Position) :
    ((qs.filterMap Position.record?).map Prod.fst).Sublist (qs.map Position.id) := by
  induction qs with
  | nil => exact List.Sublist.refl _
  | cons q rest ih =>
      cases hSlot : q.slot? with
      | none =>
          rw [List.filterMap_cons_none (by rw [Position.record?, hSlot]; rfl), List.map_cons]
          exact ih.trans (List.sublist_cons_self _ _)
      | some slot =>
          have hRecord : q.record? = some (q.id, slot) := by
            rw [Position.record?, hSlot]
            rfl
          rw [List.filterMap_cons_some hRecord, List.map_cons, List.map_cons]
          exact ih.cons_cons q.id

/-! ### Resolved modules -/

/-- A well-formed module, the nodes of whose tree are different, with its outcome. -/
structure IsResolved (options : Options) (f : Forest) (t : Tree) (r : Outcome) : Prop where
  root : f.rootTree? = some t
  module : t.IsModule
  distinct : (t.subtrees.map Tree.id).Nodup
  resolved : resolve options f = .ok r

namespace IsResolved

variable {options : Options} {f : Forest} {t : Tree} {r : Outcome}
  (hResolved : IsResolved options f t r)

include hResolved

omit hResolved in
/-- Nothing is declared further in than a position of the module stands. -/
theorem nested {q : Position} (hQ : q ∈ t.positions .outermost) : q.context.Nested :=
  Tree.rel_context_of_mem_positions Tree.onward_nested hQ Context.nested_outermost

omit hResolved in
/-- What is inside a function of the module is at a position of the module. -/
theorem mem_positions_of_mem_inside {F q : Position} (hF : F ∈ t.positions .outermost)
    (hFunction : F.construct.isFunction = true) (hInside : q ∈ F.inside) :
    q ∈ t.positions .outermost := by
  have hBelow := (Tree.sublist_positions hF).subset (a := q)
  rw [Tree.positions_of_isFunction F hFunction] at hBelow
  exact hBelow (List.mem_cons_of_mem F hInside)

/-- The positions of the module have different nodes. -/
theorem nodup_ids : ((t.positions .outermost).map Position.id).Nodup := by
  have hPerm := ((Tree.perm_subtrees t .outermost).map Tree.id).symm.nodup hResolved.distinct
  rwa [List.map_map] at hPerm

/-- A position of the module is known by its node. -/
theorem eq_of_id_eq {q x : Position} (hQ : q ∈ t.positions .outermost)
    (hX : x ∈ t.positions .outermost) (hSame : q.id = x.id) : q = x :=
  List.inj_on_of_nodup_map hResolved.nodup_ids hQ hX hSame

omit hResolved in
/-- What stands at a position is a tree of the module. -/
theorem mem_subtrees {q : Position} (hQ : q ∈ t.positions .outermost) : q.tree ∈ t.subtrees :=
  (Tree.perm_subtrees t .outermost).mem_iff.mp (List.mem_map_of_mem hQ)

/-- What lies at a position of the module is proper. -/
theorem isProper {q : Position} (hQ : q ∈ t.positions .outermost) : q.tree.IsProper := by
  have hBelow : ∀ s ∈ q.tree.subtrees, s ∈ t.subtrees := by
    intro s hS
    rw [← (Tree.perm_subtrees q.tree q.context).mem_iff] at hS
    rw [← (Tree.perm_subtrees t .outermost).mem_iff]
    exact ((Tree.sublist_positions hQ).map Position.tree).subset hS
  exact {
    shape := fun s hS => hResolved.module.shape s (hBelow s hS)
    names := fun s hS => hResolved.module.names s (hBelow s hS) }

/-- The nodes at a position of the module and below it are different. -/
theorem nodup_ids_of_mem {q : Position} (hQ : q ∈ t.positions .outermost) :
    ((q.tree.positions q.context).map Position.id).Nodup :=
  ((Tree.sublist_positions hQ).map Position.id).nodup hResolved.nodup_ids

/-- The outcome is what the walk through the module has found out. -/
theorem exists_walk : ∃ p, moduleTree options t = .ok p ∧
    r = ⟨annotate f p.slots.toList p.renamed.toList, p.scopes, p.layouts.toList, p.calls.toList,
      p.opened.toList⟩ := by
  have hResult := hResolved.resolved
  rw [resolve, hResolved.root] at hResult
  obtain ⟨p, hWalk, hOk⟩ := exists_of_bind_eq_ok hResult
  cases hOk
  exact ⟨p, hWalk, rfl⟩

/-- The outcome of the walk: what was recorded is what the positions say. -/
theorem exists_recorded : ∃ names,
    r.forest = annotate f ((t.positions .outermost).filterMap Position.record?) names ∧
    (r.layouts.map Position.nameless).Perm ((t.positions .outermost).filterMap Position.layout?) := by
  have hFollows := @follows_resolve options f t hResolved.root hResolved.module
  unfold Follows at hFollows
  split at hFollows
  · rw [hResolved.resolved] at hFollows
    cases hFollows
  · obtain ⟨r', hResult, p, hForest, -, hLayouts⟩ := hFollows
    rw [hResolved.resolved] at hResult
    cases hResult
    exact ⟨_, hForest, hLayouts⟩

/-- The nodes of the tree are those of the forest. -/
theorem node?_eq {s : Tree} (hMem : s ∈ t.subtrees) : f.node? s.id = some s.node :=
  Forest.node?_of_mem_subtrees (Option.bind_eq_some_iff.mp hResolved.root).choose_spec.2 hMem

/-- The slot of a position stands at its node. -/
theorem slotOf?_of_slot? {q : Position} (hQ : q ∈ t.positions .outermost) {slot : Nat}
    (hSlot : q.slot? = some slot) : r.slotOf? q.id = some slot := by
  obtain ⟨names, hForest, -⟩ := hResolved.exists_recorded
  have hNode : f.node? q.id = some q.tree.node := hResolved.node?_eq (mem_subtrees hQ)
  have hMem : (q.id, slot) ∈ (t.positions .outermost).filterMap Position.record? :=
    List.mem_filterMap.mpr ⟨q, hQ, by rw [Position.record?, hSlot]; rfl⟩
  -- a node has one record at most, which no other record overwrites
  have hRecords := (sublist_map_fst_records (t.positions .outermost)).nodup hResolved.nodup_ids
  rw [Outcome.slotOf?, hForest, annotate, slot_foldl_renamed,
    node?_foldl_modify_of_mem (fun slot n => { n with slot := some slot }) f hRecords hMem,
    hNode]
  rfl

/-- If there were no slots before, at every node stands the slot of its position. -/
theorem slotOf?_eq (hUnslotted : ∀ s ∈ t.subtrees, s.node.slot = none) {q : Position}
    (hQ : q ∈ t.positions .outermost) : r.slotOf? q.id = q.slot? := by
  cases hSlot : q.slot? with
  | some slot => exact hResolved.slotOf?_of_slot? hQ hSlot
  | none =>
      obtain ⟨names, hForest, -⟩ := hResolved.exists_recorded
      have hNode : f.node? q.id = some q.tree.node := hResolved.node?_eq (mem_subtrees hQ)
      have hNew : q.id ∉ ((t.positions .outermost).filterMap Position.record?).map Prod.fst := by
        intro hMem
        obtain ⟨⟨id, slot⟩, hRecord, hId⟩ := List.mem_map.mp hMem
        obtain ⟨x, hX, hFound⟩ := List.mem_filterMap.mp hRecord
        obtain ⟨found, hFoundSlot, hPair⟩ := Option.map_eq_some_iff.mp hFound
        cases hPair
        rw [hResolved.eq_of_id_eq hX hQ hId, hSlot] at hFoundSlot
        cases hFoundSlot
      rw [Outcome.slotOf?, hForest, annotate, slot_foldl_renamed,
        node?_foldl_modify_of_not_mem (fun slot n => { n with slot := some slot }) f hNew, hNode]
      exact hUnslotted _ (mem_subtrees hQ)

/-- Every function has the layout of its position, under some name. -/
theorem exists_layoutOf? {q : Position} (hQ : q ∈ t.positions .outermost)
    (hFunction : q.construct.isFunction = true) :
    ∃ name, r.layoutOf? q.id = some (q.layout name) := by
  obtain ⟨-, -, hLayouts⟩ := hResolved.exists_recorded
  have hOwn : q.layout "" ∈ (t.positions .outermost).filterMap Position.layout? :=
    List.mem_filterMap.mpr ⟨q, hQ, by rw [Position.layout?, if_pos hFunction]⟩
  obtain ⟨l, hL, hNameless⟩ := List.mem_map.mp (hLayouts.mem_iff.mpr hOwn)
  have hId : l.function = q.id := congrArg Layout.function hNameless
  obtain ⟨found, hFound⟩ : ∃ found, r.layoutOf? q.id = some found := by
    rw [← Option.isSome_iff_exists, Outcome.layoutOf?, List.find?_isSome]
    exact ⟨l, hL, by simpa using hId⟩
  have hMem := List.mem_of_find?_eq_some hFound
  have hFoundId : found.function = q.id := by simpa using List.find?_some hFound
  -- the layout that is found belongs to a position with the same node, which is this one
  obtain ⟨x, hX, hLayout⟩ :=
    List.mem_filterMap.mp (hLayouts.mem_iff.mp (List.mem_map_of_mem hMem))
  rw [Position.layout?] at hLayout
  split at hLayout
  · have hSame : x.layout "" = Position.nameless found := Option.some.inj hLayout
    have hXId : x.id = q.id := (congrArg Layout.function hSame).trans hFoundId
    obtain rfl := hResolved.eq_of_id_eq hX hQ hXId
    refine ⟨found.name, hFound.trans ?_⟩
    have hRest : found = { Position.nameless found with name := found.name } := rfl
    rw [hRest, ← hSame]
    rfl
  · cases hLayout

end IsResolved

/-! ### A resolved module -/

/-- What succeeds gives its result. -/
theorem eq_ok_get {ε α : Type} {x : Except ε α} (hSuccess : x.toOption.isSome = true) :
    x = .ok (x.toOption.get hSuccess) := by
  cases x with
  | error e => cases hSuccess
  | ok a => rfl

/-- The outcome of the module with the closures. -/
def nestedOutcome : Outcome :=
  (resolve ⟨[]⟩ nestedForest).toOption.get (by decide +kernel)

/-- The module with the closures resolves to its outcome. -/
theorem nestedOutcome_isResolved : IsResolved ⟨[]⟩ nestedForest nestedTree nestedOutcome where
  root := rootTree?_nestedForest
  module := nestedTree_isModule
  distinct := by decide +kernel
  resolved := eq_ok_get _

/-- The inner one of its closures. -/
def nestedClosure : Position :=
  ((nestedTree.positions .outermost).find? (·.id = ⟨11⟩)).get (by decide +kernel)

theorem nestedClosure_mem : nestedClosure ∈ nestedTree.positions .outermost :=
  List.get_find?_mem _

theorem nestedClosure_isFunction : nestedClosure.construct.isFunction = true := by
  decide +kernel

end Resolution

end LateBinding
