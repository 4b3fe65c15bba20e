import LateBinding.Proofs.Resolution.Naming

/-!
# Resolving again

A resolution only annotates a program: it records slots at nodes and gives names to the functions of
closures.  The walk reads neither, so it goes through the resolved program as it went through the
program, and what is recorded then is there already.

* `Construct.Alike`, `Node.Alike` - what the walk does not tell apart.
* `Tree.mapNodes` - a tree with other nodes in the same places.
* `Repeats`, `repeats_mapNodes` - walks that succeed do so on trees that are alike, with the same
  result.
* `last?`, `node?_annotate` - what a resolution leaves at a node.
* `treeTo_annotate`, `annotate_annotate` - the tree of an annotated forest, and annotating again.
* `IsResolved.resolve_forest` - a resolved program is the program with annotations, and resolves to
  itself.
-/

namespace LateBinding

open Resolution

/-- Constructs that differ at most in the name that the function of a closure has. -/
def Construct.Alike (construct other : Construct) : Prop :=
  other = construct ∨
    construct.isClosureFunction = true ∧ ∃ name, other = construct.renamed name

/-- Nodes that were read in the same place, with constructs that are alike. -/
structure Node.Alike (n m : Node) : Prop where
  span : m.span = n.span
  construct : n.construct.Alike m.construct

namespace Construct.Alike

variable {construct other : Construct} (hAlike : construct.Alike other)

include hAlike

theorem isBlock_eq : other.isBlock = construct.isBlock := by
  rcases hAlike with rfl | ⟨-, name, rfl⟩
  · rfl
  · cases construct <;> rfl

theorem isFunction_eq : other.isFunction = construct.isFunction := by
  rcases hAlike with rfl | ⟨-, name, rfl⟩
  · rfl
  · cases construct <;> rfl

/-- Nothing but the function of a closure is alike to something else. -/
theorem eq_of_isClosureFunction_eq_false (hClosure : construct.isClosureFunction = false) :
    other = construct := by
  rcases hAlike with rfl | ⟨hTrue, -⟩
  · rfl
  · rw [hClosure] at hTrue
    cases hTrue

/-- What is no function is alike to itself only. -/
theorem eq_of_isFunction_eq_false (hFunction : construct.isFunction = false) :
    other = construct := by
  refine hAlike.eq_of_isClosureFunction_eq_false ?_
  cases construct with
  | function => cases hFunction
  | _ => rfl

/-- What is alike to a function is a function with the same parameters, and the same name unless it
belongs to a closure. -/
theorem exists_of_function {name : String} {params : List String} {isClosure : Bool}
    (hConstruct : construct = .function name params isClosure) :
    ∃ given, other = .function given params isClosure ∧ (isClosure = false → given = name) := by
  rcases hAlike with rfl | ⟨hClosure, given, rfl⟩
  · exact ⟨name, hConstruct, fun _ => rfl⟩
  · subst hConstruct
    refine ⟨given, rfl, fun hNamed => ?_⟩
    subst hNamed
    cases hClosure

end Construct.Alike

namespace Tree

mutual

/-- The tree with other nodes in the same places. -/
def mapNodes (change : NodeId → Node → Node) : Tree → Tree
  | mk id node children => mk id (change id node) (mapNodesAll change children)

/-- Several trees with other nodes in the same places. -/
def mapNodesAll (change : NodeId → Node → Node) : List Tree → List Tree
  | [] => []
  | t :: rest => t.mapNodes change :: mapNodesAll change rest

end

variable (change : NodeId → Node → Node)

theorem mapNodesAll_eq_map (ts : List Tree) : mapNodesAll change ts = ts.map (mapNodes change) := by
  induction ts with
  | nil => rfl
  | cons t rest ih => rw [mapNodesAll, ih, List.map_cons]

theorem mapNodes_mk (id : NodeId) (node : Node) (children : List Tree) :
    (mk id node children).mapNodes change =
      mk id (change id node) (children.map (mapNodes change)) := by
  rw [mapNodes, mapNodesAll_eq_map]

theorem construct_mapNodes (t : Tree) :
    (t.mapNodes change).construct = (change t.id t.node).construct := by
  obtain ⟨id, node, children⟩ := t
  rw [mapNodes_mk]
  rfl

end Tree

namespace Resolution

open Scope (ScopeId)

/-! ### What the walk reads -/

/-- A result is successful if it is made of successful results. -/
theorem bind_eq_ok {α β ε : Type} {result : Except ε α} {next : α → Except ε β} {a : α} {b : β}
    (hFirst : result = .ok a) (hNext : next a = .ok b) : (result >>= next) = .ok b := by
  rw [hFirst]
  exact hNext

/-- A function is entered in the same way under every name that is alike. -/
theorem Progress.enterFunction_congr (p : Progress) (outer : ScopeId) (node : NodeId)
    {name given : String} (params : List String) {isClosure : Bool}
    (hName : isClosure = false → given = name) :
    p.enterFunction outer node given params isClosure =
      p.enterFunction outer node name params isClosure := by
  cases isClosure with
  | false => rw [hName rfl]
  | true => rfl

/-- Whatever part of the walk succeeds on the first tree succeeds on the second with the same
result. -/
structure Repeats (globals : List String) (t u : Tree) : Prop where
  construct : t.construct.Alike u.construct
  expression : ∀ {scope p q},
    expression globals scope t p = .ok q → expression globals scope u p = .ok q
  statement : ∀ {scope p q},
    statement globals scope t p = .ok q → statement globals scope u p = .ok q
  block : ∀ {scope p q}, block globals scope t p = .ok q → block globals scope u p = .ok q
  function : ∀ {scope p q}, function globals scope t p = .ok q → function globals scope u p = .ok q

section Repeating

variable {globals : List String} {scope : ScopeId} {p q : Progress}

section Lists

variable {ts us : List Tree} (hTrees : List.Forall₂ (Repeats globals) ts us)

include hTrees

theorem repeats_statements (hOk : statements globals scope ts p = .ok q) :
    statements globals scope us p = .ok q := by
  induction hTrees generalizing p with
  | nil => exact hOk
  | cons hHead _ ih =>
      rw [statements] at hOk ⊢
      obtain ⟨middle, hFirst, hRest⟩ := exists_of_bind_eq_ok hOk
      rw [hHead.statement hFirst]
      exact ih hRest

theorem repeats_operands (hOk : operands globals scope ts p = .ok q) :
    operands globals scope us p = .ok q := by
  induction hTrees generalizing p with
  | nil => exact hOk
  | cons hHead _ ih =>
      rw [operands] at hOk ⊢
      rw [hHead.construct.isBlock_eq]
      split at hOk
      · rename_i hBlock
        obtain ⟨middle, hFirst, hRest⟩ := exists_of_bind_eq_ok hOk
        rw [if_pos hBlock, hHead.block hFirst]
        exact ih hRest
      · rename_i hBlock
        obtain ⟨middle, hFirst, hRest⟩ := exists_of_bind_eq_ok hOk
        rw [if_neg hBlock, hHead.expression hFirst]
        exact ih hRest

theorem repeats_body (hOk : body globals scope ts p = .ok q) : body globals scope us p = .ok q := by
  cases hTrees with
  | nil => cases hOk
  | cons hHead hRest =>
      rw [body] at hOk ⊢
      rw [hHead.construct.isBlock_eq]
      split at hOk
      · rename_i hBlock
        rw [if_pos hBlock]
        exact hHead.block hOk
      · cases hOk

theorem repeats_iterationBody (hOk : iterationBody globals scope ts p = .ok q) :
    iterationBody globals scope us p = .ok q := by
  cases hTrees with
  | nil => cases hOk
  | cons hHead hRest =>
      rw [iterationBody] at hOk ⊢
      exact hHead.block hOk

theorem repeats_iteration {id : NodeId} {name : String}
    (hOk : iteration globals scope id name ts p = .ok q) :
    iteration globals scope id name us p = .ok q := by
  cases hTrees with
  | nil => cases hOk
  | cons hHead hRest =>
      rw [iteration] at hOk ⊢
      obtain ⟨middle, hItems, hOk⟩ := exists_of_bind_eq_ok hOk
      obtain ⟨⟨inner, opened⟩, hOpen, hOk⟩ := exists_of_bind_eq_ok hOk
      obtain ⟨⟨first, named⟩, hIterator, hOk⟩ := exists_of_bind_eq_ok hOk
      obtain ⟨⟨second, declared⟩, hItem, hOk⟩ := exists_of_bind_eq_ok hOk
      refine bind_eq_ok (hHead.expression hItems) (bind_eq_ok hOpen ?_)
      exact bind_eq_ok hIterator (bind_eq_ok hItem (repeats_iterationBody hRest hOk))

theorem repeats_closure (hOk : closure globals scope ts p = .ok q) :
    closure globals scope us p = .ok q := by
  cases hTrees with
  | nil => cases hOk
  | cons hHead hRest =>
      rw [closure] at hOk ⊢
      obtain ⟨⟨captured, middle⟩, hFunction, hOk⟩ := exists_of_bind_eq_ok hOk
      rw [hHead.function hFunction]
      exact hOk

theorem repeats_moduleFunctions (hOk : moduleFunctions globals scope ts p = .ok q) :
    moduleFunctions globals scope us p = .ok q := by
  induction hTrees generalizing p with
  | nil => exact hOk
  | cons hHead _ ih =>
      rw [moduleFunctions] at hOk ⊢
      rw [hHead.construct.isFunction_eq]
      split at hOk
      · rename_i hFunction
        obtain ⟨⟨captured, middle⟩, hFirst, hRest⟩ := exists_of_bind_eq_ok hOk
        rw [if_pos hFunction, hHead.function hFirst]
        exact ih hRest
      · cases hOk

end Lists

section Nodes

variable {id : NodeId} {node other : Node} {ts us : List Tree} (hAlike : node.Alike other)
  (hTrees : List.Forall₂ (Repeats globals) ts us)

include hTrees

theorem repeats_block (hOk : block globals scope (.mk id node ts) p = .ok q) :
    block globals scope (.mk id other us) p = .ok q := by
  rw [block] at hOk ⊢
  obtain ⟨⟨inner, opened⟩, hOpen, hOk⟩ := exists_of_bind_eq_ok hOk
  rw [hOpen]
  exact repeats_statements hTrees hOk

include hAlike

theorem repeats_function {result : List String × Progress}
    (hOk : function globals scope (.mk id node ts) p = .ok result) :
    function globals scope (.mk id other us) p = .ok result := by
  rw [function] at hOk ⊢
  split at hOk
  case h_1 name params isClosure hConstruct =>
    obtain ⟨given, hOther, hName⟩ := hAlike.construct.exists_of_function hConstruct
    obtain ⟨⟨entry, entered⟩, hEnter, hOk⟩ := exists_of_bind_eq_ok hOk
    obtain ⟨last, hBody, hOk⟩ := exists_of_bind_eq_ok hOk
    simp only [hOther, p.enterFunction_congr scope id params hName]
    exact bind_eq_ok hEnter (bind_eq_ok (repeats_body hTrees hBody) hOk)
  case h_2 => cases hOk

theorem repeats_expression (hOk : expression globals scope (.mk id node ts) p = .ok q) :
    expression globals scope (.mk id other us) p = .ok q := by
  have hLength := hTrees.length_eq
  have hSpan := hAlike.span
  -- an expression is no function, so its construct is the same
  have hSame := hAlike.construct.eq_of_isFunction_eq_false
  rw [expression] at hOk ⊢
  cases hConstruct : node.construct with
  | constant literal | reference name =>
      rw [hSame (by rw [hConstruct]; rfl), hSpan]
      simp only [hConstruct] at hOk ⊢
      exact hOk
  | binary op | unary op | methodCall name | functionCall name =>
      rw [hSame (by rw [hConstruct]; rfl), hSpan, ← hLength]
      simp only [hConstruct] at hOk ⊢
      exact repeats_operands hTrees hOk
  | closure =>
      rw [hSame (by rw [hConstruct]; rfl)]
      simp only [hConstruct] at hOk ⊢
      exact repeats_closure hTrees hOk
  | _ =>
      simp only [hConstruct] at hOk
      cases hOk

theorem repeats_statement (hOk : statement globals scope (.mk id node ts) p = .ok q) :
    statement globals scope (.mk id other us) p = .ok q := by
  have hSpan := hAlike.span
  have hSame := hAlike.construct.eq_of_isFunction_eq_false
  rw [statement] at hOk ⊢
  cases hConstruct : node.construct with
  | declaration name mutability | destructuring names mutability | assignment name =>
      rw [hSame (by rw [hConstruct]; rfl)]
      simp only [hConstruct, hSpan] at hOk ⊢
      obtain ⟨middle, hOperands, hOk⟩ := exists_of_bind_eq_ok hOk
      rw [repeats_operands hTrees hOperands]
      exact hOk
  | iteration name =>
      rw [hSame (by rw [hConstruct]; rfl)]
      simp only [hConstruct] at hOk ⊢
      exact repeats_iteration hTrees hOk
  | returning | branch | loop | evaluation =>
      rw [hSame (by rw [hConstruct]; rfl)]
      simp only [hConstruct] at hOk ⊢
      exact repeats_operands hTrees hOk
  | block =>
      rw [hSame (by rw [hConstruct]; rfl)]
      simp only [hConstruct] at hOk ⊢
      obtain ⟨⟨inner, opened⟩, hOpen, hOk⟩ := exists_of_bind_eq_ok hOk
      rw [hOpen]
      exact repeats_statements hTrees hOk
  | _ =>
      simp only [hConstruct] at hOk
      cases hOk

end Nodes

/-- The walk through a tree is repeated on the tree with nodes that are alike. -/
theorem repeats_mapNodes {change : NodeId → Node → Node} {t : Tree}
    (hAlike : ∀ s ∈ t.subtrees, s.node.Alike (change s.id s.node)) :
    Repeats globals t (t.mapNodes change) := by
  induction t using Tree.induction_children with
  | mk id node children ih =>
      have hTop : node.Alike (change id node) := hAlike _ (Tree.mem_subtrees_self _)
      have hBelow : List.Forall₂ (Repeats globals) children
          (children.map (Tree.mapNodes change)) := by
        rw [List.forall₂_map_right_iff, List.forall₂_same]
        exact fun child hChild => ih child hChild fun s hS =>
          hAlike s (Tree.mem_subtrees_of_mem_children hChild hS)
      rw [Tree.mapNodes_mk]
      exact
        { construct := hTop.construct
          expression := repeats_expression hTop hBelow
          statement := repeats_statement hTop hBelow
          block := repeats_block hBelow
          function := repeats_function hTop hBelow }

end Repeating

/-- The functions of a module have the same names in the tree with nodes that are alike. -/
theorem functionNames_mapNodes {change : NodeId → Node → Node} {ts : List Tree}
    (hAlike : ∀ t ∈ ts, t.construct.isNamedFunction = true ∧ t.node.Alike (change t.id t.node)) :
    functionNames (ts.map (Tree.mapNodes change)) = functionNames ts := by
  rw [functionNames, functionNames, List.filterMap_map]
  refine List.filterMap_congr fun t hMem => ?_
  obtain ⟨hNamed, hNode⟩ := hAlike t hMem
  have hClosure : t.construct.isClosureFunction = false := by
    cases hConstruct : t.construct <;>
      simp_all [Construct.isNamedFunction, Construct.isClosureFunction]
  rw [Function.comp_apply, Tree.construct_mapNodes,
    hNode.construct.eq_of_isClosureFunction_eq_false hClosure]
  rfl

/-- The walk through a module is repeated on the module with nodes that are alike. -/
theorem moduleTree_mapNodes {options : Options} {change : NodeId → Node → Node} {t : Tree}
    (hModule : t.IsModule) (hAlike : ∀ s ∈ t.subtrees, s.node.Alike (change s.id s.node))
    {p : Progress} (hOk : moduleTree options t = .ok p) :
    moduleTree options (t.mapNodes change) = .ok p := by
  obtain ⟨id, node, children⟩ := t
  obtain ⟨name, hConstruct⟩ := hModule.module
  change node.construct = .module name at hConstruct
  have hBelow : ∀ child ∈ children, ∀ s ∈ child.subtrees, s.node.Alike (change s.id s.node) :=
    fun child hChild s hS => hAlike s (Tree.mem_subtrees_of_mem_children hChild hS)
  have hTop : (change id node).construct = .module name := by
    have hNode : node.Alike (change id node) := hAlike _ (Tree.mem_subtrees_self _)
    rw [← hConstruct]
    exact hNode.construct.eq_of_isClosureFunction_eq_false (by rw [hConstruct]; rfl)
  have hNames := @functionNames_mapNodes change children fun child hChild =>
    ⟨hModule.isNamedFunction_of_mem_children hChild,
      hBelow child hChild child child.mem_subtrees_self⟩
  have hRepeats : ∀ globals, List.Forall₂ (Repeats globals) children
      (children.map (Tree.mapNodes change)) := by
    intro globals
    rw [List.forall₂_map_right_iff, List.forall₂_same]
    exact fun child hChild => repeats_mapNodes (hBelow child hChild)
  rw [Tree.mapNodes_mk]
  rw [moduleTree] at hOk ⊢
  simp only [hConstruct] at hOk
  simp only [hTop, hNames]
  exact repeats_moduleFunctions (hRepeats _) hOk

/-! ### What is recorded -/

section Recorded

variable {α : Type}

/-- What is recorded last for a node. -/
def last? (records : List (NodeId × α)) (id : NodeId) : Option α :=
  (records.reverse.find? (·.1 = id)).map Prod.snd

theorem last?_append_singleton (records : List (NodeId × α)) (record : NodeId × α) (id : NodeId) :
    last? (records ++ [record]) id = if record.1 = id then some record.2 else last? records id := by
  unfold last?
  rw [List.reverse_append, List.reverse_singleton, List.singleton_append, List.find?_cons]
  by_cases hSame : record.1 = id <;> simp [hSame]

/-- Something is recorded for the nodes of the records. -/
theorem exists_last? {records : List (NodeId × α)} {id : NodeId}
    (hMem : id ∈ records.map Prod.fst) : ∃ a, last? records id = some a ∧ (id, a) ∈ records := by
  obtain ⟨record, hRecord, hId⟩ := List.mem_map.mp hMem
  obtain ⟨found, hFound⟩ : ∃ found, records.reverse.find? (·.1 = id) = some found := by
    rw [← Option.isSome_iff_exists, List.find?_isSome]
    exact ⟨record, List.mem_reverse.mpr hRecord, by simpa using hId⟩
  have hFoundId : found.1 = id := by simpa using List.find?_some hFound
  refine ⟨found.2, by rw [last?, hFound]; rfl, ?_⟩
  rw [← hFoundId]
  exact List.mem_reverse.mp (List.mem_of_find?_eq_some hFound)

/-- Nothing is recorded for other nodes. -/
theorem last?_eq_none {records : List (NodeId × α)} {id : NodeId}
    (hNew : id ∉ records.map Prod.fst) : last? records id = none := by
  rw [last?, Option.map_eq_none_iff, List.find?_eq_none]
  intro record hRecord hSame
  exact hNew (List.mem_map.mpr ⟨record, List.mem_reverse.mp hRecord, by simpa using hSame⟩)

/-- Where a later record overwrites an earlier one, the last record is what counts. -/
theorem node?_foldl_modify (change : α → Node → Node)
    (hOverwrites : ∀ a b n, change a (change b n) = change a n) (records : List (NodeId × α))
    (f : Forest) (id : NodeId) :
    (records.foldl (fun f (id, a) => f.modify id (change a)) f).node? id =
      (f.node? id).map fun n => (last? records id).elim n (change · n) := by
  induction records using List.reverseRec with
  | nil => exact Option.map_id'.symm
  | append_singleton rest record ih =>
      rw [List.foldl_append, List.foldl_cons, List.foldl_nil, Forest.node?_modify, ih,
        last?_append_singleton]
      by_cases hSame : id = record.1
      · rw [if_pos hSame, if_pos hSame.symm, Option.map_map]
        congr 1
        funext n
        -- whatever was recorded before is overwritten
        cases hLast : last? rest id with
        | none => rfl
        | some a => exact hOverwrites record.2 a n
      · rw [if_neg hSame, if_neg fun hBack => hSame hBack.symm]

end Recorded

/-! ### Annotated forests -/

section Annotated

variable (slots : List (NodeId × Nat)) (names : List (NodeId × String))

/-- A node with what is recorded for it. -/
def annotated (id : NodeId) (n : Node) : Node :=
  { n with
    slot := (last? slots id).or n.slot
    construct := (last? names id).elim n.construct n.construct.renamed }

theorem renamed_renamed (construct : Construct) (name other : String) :
    (construct.renamed other).renamed name = construct.renamed name := by
  cases construct <;> rfl

theorem node?_annotate (f : Forest) (id : NodeId) :
    (annotate f slots names).node? id = (f.node? id).map (annotated slots names id) := by
  rw [annotate, node?_foldl_modify (fun name n => { n with construct := n.construct.renamed name })
      (fun _ _ n => by simp only [renamed_renamed]),
    node?_foldl_modify (fun slot n => { n with slot := some slot }) (fun _ _ _ => rfl),
    Option.map_map]
  congr 1
  funext n
  unfold annotated
  cases last? slots id <;> cases last? names id <;> rfl

/-- A node that is annotated again is the same. -/
theorem annotated_annotated (id : NodeId) (n : Node) :
    annotated slots names id (annotated slots names id n) = annotated slots names id n := by
  unfold annotated
  cases last? slots id <;> cases last? names id <;> simp [renamed_renamed]

/-- Annotating again changes nothing. -/
theorem annotate_annotate (f : Forest) :
    annotate (annotate f slots names) slots names = annotate f slots names := by
  refine Forest.ext_node? ?_ fun id => ?_
  · exact root_annotate _ slots names
  · rw [node?_annotate, node?_annotate, Option.map_map]
    congr 1
    funext n
    exact annotated_annotated slots names id n

/-- The tree of a node in the annotated forest is the tree of the node with annotations. -/
theorem treeTo_annotate (f : Forest) (depth : Nat) (id : NodeId) :
    (annotate f slots names).treeTo depth id =
      (f.treeTo depth id).map (Tree.mapNodes (annotated slots names)) := by
  induction depth generalizing id with
  | zero => rfl
  | succ depth ih =>
      rw [Forest.treeTo, Forest.treeTo, node?_annotate, Option.map_map, Option.map_map]
      congr 1
      funext n
      have hChildren : n.children.filterMap ((annotate f slots names).treeTo depth) =
          (n.children.filterMap (f.treeTo depth)).map (Tree.mapNodes (annotated slots names)) := by
        rw [List.map_filterMap]
        exact List.filterMap_congr fun child _ => ih child
      rw [Function.comp_apply, Function.comp_apply, Tree.mapNodes_mk, ← hChildren]
      rfl

theorem rootTree?_annotate (f : Forest) :
    (annotate f slots names).rootTree? =
      f.rootTree?.map (Tree.mapNodes (annotated slots names)) := by
  unfold Forest.rootTree? Forest.tree?
  rw [root_annotate, size_annotate]
  cases f.root with
  | none => rfl
  | some root => exact treeTo_annotate slots names f f.size root

end Annotated

/-! ### Resolved modules -/

/-- A resolved program is the program with annotations: the nodes stand where they stood, the
functions of closures have the fresh names under which their frames were laid down, all other
constructs are the same, and nodes outside the module are untouched. -/
structure Annotates (f : Forest) (t : Tree) (r : Outcome) : Prop where
  size : r.forest.size = f.size
  root : r.forest.root = f.root
  kept : ∀ id n, f.node? id = some n → ∃ slot construct,
    r.forest.node? id = some { n with slot := slot, construct := construct }
  constructs : ∀ s ∈ t.subtrees, s.construct.isClosureFunction = false →
    (r.forest.node? s.id).map Node.construct = some s.construct
  closures : ∀ s ∈ t.subtrees, s.construct.isClosureFunction = true → ∃ layout,
    r.layoutOf? s.id = some layout ∧ FreshName.isReserved layout.name = true ∧
      (r.forest.node? s.id).map Node.construct = some (s.construct.renamed layout.name)
  outside : ∀ id, id ∉ t.subtrees.map Tree.id → r.forest.node? id = f.node? id

namespace IsResolved

variable {options : Options} {f : Forest} {t : Tree} {r : Outcome}
  (hResolved : IsResolved options f t r)

include hResolved

/-- The functions of closures are different nodes. -/
theorem nodup_closureIds : (closureIds t.subtrees).Nodup :=
  (List.filter_sublist.map Tree.id).nodup hResolved.distinct

/-- Only the functions of closures are renamed. -/
theorem not_mem_closureIds {s : Tree} (hMem : s ∈ t.subtrees)
    (hClosure : s.construct.isClosureFunction = false) : s.id ∉ closureIds t.subtrees := by
  intro hId
  obtain ⟨c, hC, hSame⟩ := List.mem_map.mp hId
  obtain ⟨hSub, hKind⟩ := List.mem_filter.mp hC
  obtain rfl := List.inj_on_of_nodup_map hResolved.distinct hSub hMem hSame
  rw [hClosure] at hKind
  cases hKind

/-- What the walk has recorded: slots at nodes of the module, and for the functions of its closures
the names under which their frames were laid down. -/
theorem exists_records : ∃ p, moduleTree options t = .ok p ∧
    r = ⟨annotate f p.slots.toList p.renamed.toList, p.scopes, p.layouts.toList, p.calls.toList,
      p.opened.toList⟩ ∧
    p.slots.toList.map Prod.fst ⊆ t.subtrees.map Tree.id ∧
    p.renamed.toList.map Prod.fst = closureIds t.subtrees ∧
    p.Apart ∧ p.laidDown.Perm p.renamed.toList := by
  obtain ⟨p, hWalk, hOutcome⟩ := hResolved.exists_walk
  obtain ⟨hApart, hIds, hLaid⟩ := apart_moduleTree hResolved.module.toIsProper hWalk
  refine ⟨p, hWalk, hOutcome, ?_, hIds, hApart, hLaid⟩
  rw [((follows_moduleTree options hResolved.module).of_eq_ok hWalk).1]
  intro id hId
  have hPosition := (sublist_map_fst_records (t.positions .outermost)).subset hId
  have hPerm := (Tree.perm_subtrees t .outermost).map Tree.id
  rw [List.map_map] at hPerm
  exact hPerm.mem_iff.mp hPosition

/-- A resolved program is the program with annotations. -/
theorem annotates : Annotates f t r := by
  obtain ⟨p, hWalk, hOutcome, hSlots, hIds, hApart, hLaid⟩ := hResolved.exists_records
  have hForest : r.forest = annotate f p.slots.toList p.renamed.toList := by rw [hOutcome]
  have hLayouts : r.layouts = p.layouts.toList := by rw [hOutcome]
  constructor
  · rw [hForest, size_annotate]
  · rw [hForest, root_annotate]
  · intro id n hNode
    rw [hForest, node?_annotate, hNode]
    exact ⟨_, _, rfl⟩
  · intro s hMem hClosure
    have hNone : last? p.renamed.toList s.id = none :=
      last?_eq_none (hIds ▸ hResolved.not_mem_closureIds hMem hClosure)
    rw [hForest, node?_annotate, hResolved.node?_eq hMem, Option.map_some, Option.map_some,
      annotated, hNone]
    rfl
  · intro s hMem hClosure
    obtain ⟨q, hQ, rfl⟩ := List.mem_map.mp ((Tree.perm_subtrees t .outermost).mem_iff.mpr hMem)
    obtain ⟨name, hLayout⟩ :=
      hResolved.exists_layoutOf? hQ (Construct.isFunction_of_isClosureFunction hClosure)
    -- the frame was laid down under the name that was recorded
    have hPair : (q.id, name) ∈ p.renamed.toList := by
      refine hLaid.mem_iff.mp (List.mem_map.mpr ⟨q.layout name, List.mem_filter.mpr ⟨?_, hClosure⟩, rfl⟩)
      rw [← hLayouts]
      exact List.mem_of_find?_eq_some hLayout
    obtain ⟨last, hLast, hLastPair⟩ := exists_last? (List.mem_map_of_mem (f := Prod.fst) hPair)
    have hDistinct : (p.renamed.toList.map Prod.fst).Nodup := hIds ▸ hResolved.nodup_closureIds
    obtain rfl : last = name :=
      congrArg Prod.snd (List.inj_on_of_nodup_map hDistinct hLastPair hPair rfl)
    refine ⟨q.layout last, hLayout, (hApart.fresh last (List.mem_map_of_mem hPair)).1, ?_⟩
    rw [hForest, node?_annotate, hResolved.node?_eq hMem, Option.map_some, Option.map_some,
      annotated]
    exact congrArg (fun found => some (found.elim q.construct q.construct.renamed)) hLast
  · intro id hOutside
    have hNoSlot : last? p.slots.toList id = none := last?_eq_none fun hId => hOutside (hSlots hId)
    have hNoName : last? p.renamed.toList id = none := by
      refine last?_eq_none fun hId => hOutside ?_
      rw [hIds] at hId
      exact (List.filter_sublist.map Tree.id).subset hId
    have hSame : annotated p.slots.toList p.renamed.toList id = fun n => n := by
      funext n
      rw [annotated, hNoSlot, hNoName]
      rfl
    rw [hForest, node?_annotate, hSame, Option.map_id']

/-- **A resolution only annotates, and does so once.**  A resolved program is the program with
annotations, and resolving it again with the same options gives the same outcome: the same program,
scopes, layouts, calls, and scopes of nodes. -/
theorem resolve_forest : Annotates f t r ∧ resolve options r.forest = .ok r := by
  refine ⟨hResolved.annotates, ?_⟩
  obtain ⟨p, hWalk, hOutcome, -, hIds, -, -⟩ := hResolved.exists_records
  have hAlike : ∀ s ∈ t.subtrees,
      s.node.Alike (annotated p.slots.toList p.renamed.toList s.id s.node) := by
    intro s hMem
    refine ⟨rfl, ?_⟩
    cases hLast : last? p.renamed.toList s.id with
    | none =>
        left
        rw [annotated, hLast]
        rfl
    | some name =>
        right
        refine ⟨?_, name, by rw [annotated, hLast]; rfl⟩
        by_contra hClosure
        have hNot := hResolved.not_mem_closureIds hMem (Bool.eq_false_iff.mpr hClosure)
        rw [last?_eq_none (hIds ▸ hNot)] at hLast
        cases hLast
  have hTree : r.forest.rootTree? =
      some (t.mapNodes (annotated p.slots.toList p.renamed.toList)) := by
    rw [hOutcome, rootTree?_annotate, hResolved.root]
    rfl
  rw [resolve, hTree]
  refine bind_eq_ok (moduleTree_mapNodes hResolved.module hAlike hWalk) ?_
  rw [hOutcome]
  simp only [annotate_annotate]
  rfl

end IsResolved

/-- The module with the closures resolves to its outcome again. -/
theorem resolve_forest_nestedOutcome :
    IsResolved ⟨[]⟩ nestedForest nestedTree nestedOutcome ∧
      resolve ⟨[]⟩ nestedOutcome.forest = .ok nestedOutcome :=
  ⟨nestedOutcome_isResolved, nestedOutcome_isResolved.resolve_forest.2⟩

end Resolution

end LateBinding
