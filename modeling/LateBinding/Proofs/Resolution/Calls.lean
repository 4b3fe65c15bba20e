import Mathlib.Data.List.Induction
import LateBinding.Proofs.Program.Preorder
import LateBinding.Proofs.Resolution.Induction

/-!
# The dynamic calls of a program

The walk of a resolution lists the dynamic calls as it comes to them.  Where it reads every node of
the tree it changes no order, so the list is the one that the tree gives: its dynamic calls in the
order of the tree.

* `recordTree` - the list of calls with that of one tree; `map_calls`, `map_node_calls` - the list for
  trees in a row.
* `Adds`, `closed_adds` - what the walk through trees adds to the list.
* `calls_of_resolve` - the calls of a resolved program.
-/

namespace LateBinding

/-- What a node of a forest looks up when the program runs, if it is known and does. -/
def Forest.selector? (f : Forest) (id : NodeId) : Option Selector :=
  (f.node? id).bind (·.construct.selector?)

/-- Whether a number of operands goes with a selector: an operator has its own number, and a method
has a receiver. -/
def Selector.Takes (count : Nat) : Selector → Prop
  | operator op => count = op.arity
  | method _ => 0 < count

/-- A dynamic call of a well-shaped tree has operands that go with what it looks up. -/
theorem Tree.IsWellShaped.takes {t : Tree} (hShaped : t.IsWellShaped) {selector : Selector}
    (hSelector : t.construct.selector? = some selector) : selector.Takes t.children.length := by
  obtain ⟨id, node, children⟩ := t
  have hShape := hShaped.hasShape
  change node.construct.selector? = some selector at hSelector
  show selector.Takes children.length
  cases hConstruct : node.construct with
  | binary op =>
      rw [hConstruct] at hShape hSelector
      cases hSelector
      rcases children with _ | ⟨left, _ | ⟨right, _ | ⟨other, rest⟩⟩⟩ <;>
        simp_all [Construct.hasShape, Construct.admits, Selector.Takes]
  | unary op =>
      rw [hConstruct] at hShape hSelector
      cases hSelector
      rcases children with _ | ⟨operand, _ | ⟨other, rest⟩⟩ <;>
        simp_all [Construct.hasShape, Construct.admits, Selector.Takes]
  | methodCall name =>
      rw [hConstruct] at hShape hSelector
      cases hSelector
      cases children with
      | nil => cases hShape
      | cons receiver arguments => exact Nat.succ_pos _
  | _ =>
      rw [hConstruct] at hSelector
      cases hSelector

/-- All trees of a well-shaped tree are well-shaped. -/
theorem Tree.IsWellShaped.of_mem_subtrees {t s : Tree} (hShaped : t.IsWellShaped)
    (hMem : s ∈ t.subtrees) : s.IsWellShaped := by
  induction t using Tree.induction_children with
  | mk id node children ih =>
      rw [Tree.subtrees, Tree.subtreesAll_eq_flatMap] at hMem
      rcases List.mem_cons.mp hMem with rfl | hBelow
      · exact hShaped
      · obtain ⟨child, hChild, hS⟩ := List.mem_flatMap.mp hBelow
        exact ih child hChild (hShaped.of_mem_children hChild) hS

namespace Resolution

open Scope (ScopeId)

/-! ### The list of calls -/

/-- The dynamic call at the top of a tree, as the one of a number. -/
def callAt (i : Nat) (t : Tree) (selector : Selector) : DynamicCall :=
  ⟨i, t.id, selector, t.children.length, t.node.span⟩

/-- A list of dynamic calls with the one at the top of a tree, if there is one. -/
def recordTree (calls : Array DynamicCall) (t : Tree) : Array DynamicCall :=
  match t.construct.selector? with
  | some selector => calls.push (callAt calls.size t selector)
  | none => calls

/-- The trees with a dynamic call at the top, with what the call looks up. -/
def dynamicTrees (ts : List Tree) : List (Tree × Selector) :=
  ts.filterMap fun t => t.construct.selector?.map (t, ·)

theorem map_fst_dynamicTrees (ts : List Tree) :
    (dynamicTrees ts).map Prod.fst = ts.filter (·.construct.selector?.isSome) := by
  induction ts with
  | nil => rfl
  | cons t rest ih =>
      rw [dynamicTrees, List.filterMap_cons, List.filter_cons, ← dynamicTrees]
      cases t.construct.selector? <;> simp [ih]

/-- The dynamic calls of trees in a row are numbered in their order. -/
theorem toList_foldl_recordTree (ts : List Tree) :
    (ts.foldl recordTree #[]).toList = (dynamicTrees ts).mapIdx fun i (t, selector) =>
      callAt i t selector := by
  induction ts using List.reverseRec with
  | nil => rfl
  | append_singleton rest t ih =>
      have hSize : (rest.foldl recordTree #[]).size = (dynamicTrees rest).length := by
        rw [← Array.length_toList, ih, List.length_mapIdx]
      rw [List.foldl_append, List.foldl_cons, List.foldl_nil, recordTree, dynamicTrees,
        List.filterMap_append, ← dynamicTrees]
      cases hSelector : t.construct.selector? with
      | none => simpa [hSelector] using ih
      | some selector => simp [hSelector, ih, hSize]

/-- A call in the list is that of one of the trees, and its number is its place. -/
theorem exists_of_getElem?_calls {ts : List Tree} {i : Nat} {c : DynamicCall}
    (hCall : (ts.foldl recordTree #[]).toList[i]? = some c) :
    ∃ t ∈ ts, ∃ selector, t.construct.selector? = some selector ∧ c = callAt i t selector := by
  rw [toList_foldl_recordTree, List.getElem?_mapIdx, Option.map_eq_some_iff] at hCall
  obtain ⟨⟨t, selector⟩, hFound, rfl⟩ := hCall
  obtain ⟨s, hMem, hDynamic⟩ := List.mem_filterMap.mp (List.mem_of_getElem? hFound)
  obtain ⟨found, hSelector, hPair⟩ := Option.map_eq_some_iff.mp hDynamic
  obtain ⟨rfl, rfl⟩ := Prod.mk.inj hPair
  exact ⟨s, hMem, found, hSelector, rfl⟩

/-- All that is seen of the calls without their numbers is seen of the trees that are dynamic. -/
theorem map_calls {α : Type} {view : DynamicCall → α}
    (hView : ∀ i t selector, view (callAt i t selector) = view (callAt 0 t selector))
    (ts : List Tree) : (ts.foldl recordTree #[]).toList.map view =
      (dynamicTrees ts).map fun (t, selector) => view (callAt 0 t selector) := by
  rw [toList_foldl_recordTree]
  apply List.ext_getElem?
  intro i
  rw [List.getElem?_map, List.getElem?_map, List.getElem?_mapIdx, Option.map_map]
  congr 1
  funext pair
  exact hView i pair.1 pair.2

/-- The nodes of the calls are those of the trees that are dynamic. -/
theorem map_node_calls (ts : List Tree) :
    (ts.foldl recordTree #[]).toList.map DynamicCall.node =
      (ts.filter (·.construct.selector?.isSome)).map Tree.id := by
  rw [map_calls (fun _ _ _ => rfl), ← map_fst_dynamicTrees, List.map_map]
  rfl

/-! ### What leaves the list alone -/

namespace Progress

variable {p q : Progress}

theorem calls_openScope {node : NodeId} {outer inner : ScopeId}
    (hOk : p.openScope node outer = .ok (inner, q)) : q.calls = p.calls := by
  obtain ⟨⟨scope, scopes⟩, -, hRest⟩ := exists_of_bind_eq_ok hOk
  cases hRest
  rfl

theorem calls_declare {scope : ScopeId} {name : String} {mutability : Mutability} {slot : Nat}
    (hOk : p.declare scope name mutability = .ok (slot, q)) : q.calls = p.calls := by
  obtain ⟨scopes, -, hRest⟩ := exists_of_bind_eq_ok hOk
  cases hRest
  rfl

theorem calls_declareAll {scope : ScopeId} {mutability : Mutability} {names : List String}
    {slots : List Nat} (hOk : p.declareAll scope mutability names = .ok (slots, q)) :
    q.calls = p.calls := by
  induction names generalizing p slots with
  | nil =>
      cases hOk
      rfl
  | cons name rest ih =>
      obtain ⟨⟨slot, middle⟩, hFirst, hOk⟩ := exists_of_bind_eq_ok hOk
      obtain ⟨⟨others, last⟩, hRest, hOk⟩ := exists_of_bind_eq_ok hOk
      cases hOk
      rw [ih hRest, calls_declare hFirst]

@[simp] theorem calls_capture (p : Progress) (environment : ScopeId) (b : Scope.Binding) :
    (p.capture environment b).calls = p.calls := by
  unfold capture
  split <;> rfl

@[simp] theorem calls_nameFunction (p : Progress) (node : NodeId) (name : String)
    (isClosure : Bool) : (p.nameFunction node name isClosure).2.calls = p.calls := by
  cases isClosure <;> rfl

theorem calls_beginFrame {outer : ScopeId} {isClosure : Bool}
    (hOk : p.beginFrame outer isClosure = .ok q) : q.calls = p.calls := by
  cases isClosure with
  | false =>
      cases hOk
      rfl
  | true =>
      obtain ⟨⟨environment, scopes⟩, -, hRest⟩ := exists_of_bind_eq_ok hOk
      cases hRest
      rfl

theorem calls_enterFunction {outer : ScopeId} {node : NodeId} {name : String}
    {params : List String} {isClosure : Bool} {entry : Entry}
    (hOk : p.enterFunction outer node name params isClosure = .ok (entry, q)) :
    q.calls = p.calls := by
  obtain ⟨begun, opened, hBegin, hOpen, -, hDeclare⟩ := exists_of_enterFunction hOk
  rw [calls_declareAll hDeclare]
  show opened.calls = p.calls
  rw [calls_openScope hOpen, calls_beginFrame hBegin, calls_nameFunction]

@[simp] theorem calls_leaveFunction (p : Progress) (node : NodeId) (isClosure : Bool)
    (entry : Entry) (around : Frame) :
    (p.leaveFunction node isClosure entry around).2.calls = p.calls := rfl

end Progress

/-! ### The walk -/

/-- Trees that are walked add their dynamic calls to the list, in their order. -/
def Adds (p : Progress) (ts : List Tree) (q : Progress) : Prop :=
  q.calls = ts.foldl recordTree p.calls

/-- The walk through a tree adds the dynamic calls of the tree: the single steps add none, and a node
that is a dynamic call comes before what its children add. -/
theorem closed_adds (plain : String → Prop) : Closed plain Adds where
  refl _ := rfl
  trans hFirst hSecond := by
    unfold Adds at *
    rw [List.foldl_append, ← hFirst, hSecond]
  openScope hOk := Progress.calls_openScope hOk
  recordSlot _ _ _ := rfl
  capture p environment b := p.calls_capture environment b
  declare _ hOk := Progress.calls_declare hOk
  declareFresh hOk := by
    have hCalls := Progress.calls_declare hOk
    exact hCalls
  node _ hSelector hBelow := by
    unfold Adds at *
    rw [Tree.subtrees, List.foldl_cons, hBelow, recordTree]
    simp only [Tree.construct, Tree.node, hSelector]
  call hSelector hBelow := by
    unfold Adds at *
    rw [Tree.subtrees, List.foldl_cons, hBelow, recordTree]
    simp only [Tree.construct, Tree.node, hSelector]
    rfl
  function hConstruct _ hEnter hBody := by
    unfold Adds at *
    rw [Progress.calls_leaveFunction, hBody, Progress.calls_enterFunction hEnter, Tree.subtrees,
      List.foldl_cons, recordTree, Tree.subtreesAll_singleton]
    simp only [Tree.construct, Tree.node, hConstruct, Construct.selector?]

/-- A module that resolves has the dynamic calls of its tree, in the order of the tree; its topmost
node is none of them. -/
theorem calls_of_resolve {options : Options} {f : Forest} {t : Tree} {r : Outcome}
    (hTree : f.rootTree? = some t) {plain : String → Prop} (hRead : t.IsReadWhole plain)
    (hResolved : resolve options f = .ok r) :
    t.construct.selector? = none ∧ r.calls = (t.subtrees.foldl recordTree #[]).toList := by
  rw [resolve, hTree] at hResolved
  obtain ⟨p, hModule, hOk⟩ := exists_of_bind_eq_ok hResolved
  cases hOk
  obtain ⟨name, hConstruct, hBelow⟩ := (closed_adds plain).moduleTree hRead hModule
  have hFunction : t.construct.isFunction = false := by rw [hConstruct]; rfl
  have hSelector : t.construct.selector? = none := by rw [hConstruct]; rfl
  refine ⟨hSelector, congrArg Array.toList ?_⟩
  obtain ⟨id, node, children⟩ := t
  exact (closed_adds plain).node hFunction hSelector hBelow

/-! ### The resolved program -/

section Annotated

variable {γ : Type} (view : Forest → γ)

/-- What single changes of nodes keep, changes in a row keep. -/
theorem foldl_modify_keeps {α : Type} {change : α → Node → Node}
    (hKeeps : ∀ f id a, view (f.modify id (change a)) = view f) (records : List (NodeId × α))
    (f : Forest) : view (records.foldl (fun f (id, a) => f.modify id (change a)) f) = view f := by
  induction records generalizing f with
  | nil => rfl
  | cons record rest ih => rw [List.foldl_cons, ih, hKeeps]

/-- A resolved program is the program in all that neither slots nor names of functions show. -/
theorem annotate_keeps
    (hSlot : ∀ (f : Forest) id slot,
      view (f.modify id fun n => { n with slot := some slot }) = view f)
    (hName : ∀ (f : Forest) id name,
      view (f.modify id fun n => { n with construct := n.construct.renamed name }) = view f)
    (f : Forest) (slots : List (NodeId × Nat)) (names : List (NodeId × String)) :
    view (annotate f slots names) = view f :=
  (foldl_modify_keeps view hName names _).trans (foldl_modify_keeps view hSlot slots f)

end Annotated

/-- A resolved program is the program with slots and names recorded at its nodes. -/
theorem exists_annotate {options : Options} {f : Forest} {r : Outcome}
    (hResolved : resolve options f = .ok r) : ∃ slots names, r.forest = annotate f slots names := by
  rw [resolve] at hResolved
  split at hResolved
  · cases hResolved
  · obtain ⟨p, -, hOk⟩ := exists_of_bind_eq_ok hResolved
    cases hOk
    exact ⟨_, _, rfl⟩

theorem root_annotate (f : Forest) (slots : List (NodeId × Nat)) (names : List (NodeId × String)) :
    (annotate f slots names).root = f.root :=
  annotate_keeps Forest.root (fun _ _ _ => rfl) (fun _ _ _ => rfl) f slots names

theorem size_annotate (f : Forest) (slots : List (NodeId × Nat)) (names : List (NodeId × String)) :
    (annotate f slots names).size = f.size :=
  annotate_keeps Forest.size (fun f id _ => f.size_modify id _) (fun f id _ => f.size_modify id _)
    f slots names

/-- No walk meets other nodes in the resolved program. -/
theorem descendants_annotate (f : Forest) (slots : List (NodeId × Nat))
    (names : List (NodeId × String)) (id : NodeId) :
    (annotate f slots names).descendants id = f.descendants id := by
  have hChildren : (annotate f slots names).children = f.children := by
    apply annotate_keeps Forest.children
    · exact fun f id _ => funext fun other => f.children_modify_of_keeps id other fun _ => rfl
    · exact fun f id _ => funext fun other => f.children_modify_of_keeps id other fun _ => rfl
  unfold Forest.descendants Walk.toList Walk.below
  rw [size_annotate, Walk.advance_congr hChildren, hChildren]

/-- A function is no dynamic call, whatever its name. -/
theorem selector?_renamed (construct : Construct) (name : String) :
    (construct.renamed name).selector? = construct.selector? := by
  cases construct <;> rfl

/-- No node looks up anything else in the resolved program. -/
theorem selector?_annotate (f : Forest) (slots : List (NodeId × Nat))
    (names : List (NodeId × String)) (id : NodeId) :
    (annotate f slots names).selector? id = f.selector? id := by
  have hModify : ∀ (f : Forest) (other : NodeId) (change : Node → Node),
      (∀ n, (change n).construct.selector? = n.construct.selector?) →
        (f.modify other change).selector? id = f.selector? id := by
    intro f other change hKeeps
    unfold Forest.selector?
    rw [Forest.node?_modify]
    split
    · cases f.node? id with
      | none => rfl
      | some n => exact hKeeps n
    · rfl
  apply annotate_keeps (Forest.selector? · id)
  · exact fun f other slot => hModify f other _ fun _ => rfl
  · exact fun f other name => hModify f other _ fun n => selector?_renamed n.construct name

/-! ### Calls and nodes -/

section Nodes

variable {options : Options} {f : Forest} {t : Tree} {r : Outcome} (hLinked : f.Linked)
  (hTree : f.rootTree? = some t) (hShaped : t.IsWellShaped) (hResolved : resolve options f = .ok r)

include hLinked hTree

/-- The tree of the root is that of its topmost node. -/
theorem root_of_rootTree? : f.root = some t.id ∧ f.tree? t.id = some t := by
  obtain ⟨root, hRoot, hRead⟩ := Option.bind_eq_some_iff.mp hTree
  obtain ⟨rfl, -, -⟩ := hLinked.children_of_tree? hRead
  exact ⟨hRoot, hRead⟩

/-- A tree inside that of the root looks up what its node in the forest looks up. -/
theorem selector?_of_mem_subtrees {s : Tree} (hMem : s ∈ t.subtrees) :
    f.selector? s.id = s.construct.selector? := by
  have hRead := hLinked.tree?_of_mem_subtrees (root_of_rootTree? hLinked hTree).2 hMem
  obtain ⟨-, hNode, -⟩ := hLinked.children_of_tree? hRead
  rw [Forest.selector?, hNode, Option.bind_some]
  rfl

include hShaped hResolved

/-- The dynamic calls are those met by the walk below the root. -/
theorem map_node_calls_of_resolve :
    r.calls.map DynamicCall.node =
      (f.descendants t.id).filter fun id => (f.selector? id).isSome := by
  obtain ⟨hRoot, hCalls⟩ := calls_of_resolve hTree hShaped.isReadWhole hResolved
  have hAll : (t.id :: f.descendants t.id).filter (fun id => (f.selector? id).isSome) =
      (f.descendants t.id).filter fun id => (f.selector? id).isSome := by
    rw [List.filter_cons, if_neg]
    rw [selector?_of_mem_subtrees hLinked hTree t.mem_subtrees_self, hRoot]
    simp
  rw [← hAll, hLinked.descendants_eq (root_of_rootTree? hLinked hTree).2, ← t.map_id_subtrees,
    List.filter_map, hCalls, map_node_calls]
  congr 1
  apply List.filter_congr
  intro s hMem
  rw [Function.comp_apply, selector?_of_mem_subtrees hLinked hTree hMem]

/-- A dynamic call has the number of its place, and what it says of its node is so. -/
theorem node_of_call {i : Nat} {c : DynamicCall} (hCall : r.calls[i]? = some c) :
    c.id = i ∧ ∃ n, f.node? c.node = some n ∧ n.construct.selector? = some c.selector ∧
      c.span = n.span ∧ c.arity = n.children.length ∧ c.selector.Takes c.arity := by
  obtain ⟨-, hCalls⟩ := calls_of_resolve hTree hShaped.isReadWhole hResolved
  rw [hCalls] at hCall
  obtain ⟨s, hMem, selector, hSelector, rfl⟩ := exists_of_getElem?_calls hCall
  have hRead := hLinked.tree?_of_mem_subtrees (root_of_rootTree? hLinked hTree).2 hMem
  obtain ⟨-, hNode, -⟩ := hLinked.children_of_tree? hRead
  have hCount : s.children.length = s.node.children.length := by
    rw [← Forest.children_eq_of_node? hNode, hLinked.children_eq_map_id hRead, List.length_map]
  exact ⟨rfl, s.node, hNode, hSelector, rfl, hCount, (hShaped.of_mem_subtrees hMem).takes hSelector⟩

end Nodes

end Resolution

end LateBinding
