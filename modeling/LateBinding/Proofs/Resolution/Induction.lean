import LateBinding.Proofs.Lexical.Shape
import LateBinding.Resolution.Outcome

/-!
# Induction along the walk

The walk of a resolution is made of functions that call each other, one for each kind of construct.
What holds of its single steps, and of a node where it holds of the walk below the node, holds of
every walk that succeeds.  The condition on the tree is only that the walk leaves out no child.

* `Construct.hasParts`, `Tree.IsReadWhole` - trees of which the walk leaves out nothing.
* `Steps` - a relation between states of the walk, and the trees walked between them, that holds of
  the single steps; `Steps.declareAll`, `Steps.useAt`, `Steps.refer`, `Steps.assign` - then it holds
  of what is made of these.
* `Closed` - the relation is kept by every construct.
* `Closed.walked`, `Closed.moduleTree` - then it holds of every walk.
-/

namespace LateBinding

namespace Construct

/-- What a node looks up when the program runs: the uses of operators and the calls of methods are
dynamic. -/
def selector? : Construct → Option Selector
  | binary op | unary op => some (.operator op)
  | methodCall name => some (.method name)
  | _ => none

/-- A function looks nothing up itself. -/
theorem isFunction_eq_false_of_selector? {construct : Construct} {selector : Selector}
    (hSelector : construct.selector? = some selector) : construct.isFunction = false := by
  cases construct <;> first | rfl | cases hSelector

/-- Whether the walk reads all children of a node.  Functions, closures and loops over items are
walked through given children, and constants and references through none. -/
def hasParts : Construct → List Construct → Bool
  | function .., below => below.length = 1
  | closure, below => below.length = 1
  | iteration _, [_, body] => body.isBlock
  | iteration _, _ => false
  | constant _, below => below.isEmpty
  | reference _, below => below.isEmpty
  | _, _ => true

/-- All children that are admitted are read. -/
theorem hasParts_of_admits {construct : Construct} {below : List Construct}
    (hAdmits : construct.admits below = true) : construct.hasParts below = true := by
  rcases below with _ | ⟨first, _ | ⟨second, _ | ⟨third, rest⟩⟩⟩ <;>
    cases construct <;> simp_all [admits, hasParts]

/-- All children of a node of good shape are read. -/
theorem hasParts_of_hasShape {construct : Construct} {below : List Construct}
    (hShape : construct.hasShape below = true) : construct.hasParts below = true := by
  cases construct with
  | closure =>
      rcases below with _ | ⟨function, _ | ⟨other, rest⟩⟩
      · cases hShape
      · rfl
      · cases hShape
  | binary op | unary op => rfl
  | module name => rfl
  | _ => exact hasParts_of_admits hShape

end Construct

namespace Tree

/-- The walk reads every node of the tree, and all names in the tree satisfy a condition. -/
structure IsReadWhole (plain : String → Prop) (t : Tree) : Prop where
  parts : ∀ s ∈ t.subtrees, s.construct.hasParts (s.children.map Tree.construct) = true
  names : ∀ s ∈ t.subtrees, ∀ name ∈ s.construct.names, plain name

/-- Well-shaped trees are read whole. -/
theorem IsWellShaped.isReadWhole {t : Tree} (hShaped : t.IsWellShaped) :
    t.IsReadWhole fun _ => True where
  parts := fun s hMem => Construct.hasParts_of_hasShape (hShaped s hMem)
  names := fun _ _ _ _ => trivial

/-- Proper trees are read whole, and their names are plain. -/
theorem IsProper.isReadWhole {t : Tree} (hProper : t.IsProper) :
    t.IsReadWhole fun name => FreshName.isReserved name = false where
  parts := fun s hMem => Construct.hasParts_of_admits (hProper.shape s hMem)
  names := hProper.names

namespace IsReadWhole

variable {plain : String → Prop} {id : NodeId} {node : Node} {children : List Tree}
  (hRead : (Tree.mk id node children).IsReadWhole plain)

include hRead

theorem of_mem_children {child : Tree} (hChild : child ∈ children) : child.IsReadWhole plain where
  parts := fun s hMem => hRead.parts s (mem_subtrees_of_mem_children hChild hMem)
  names := fun s hMem => hRead.names s (mem_subtrees_of_mem_children hChild hMem)

theorem hasParts : node.construct.hasParts (children.map Tree.construct) = true :=
  hRead.parts _ (mem_subtrees_self _)

theorem names_plain : ∀ name ∈ node.construct.names, plain name :=
  hRead.names _ (mem_subtrees_self _)

/-- Functions and closures have one child. -/
theorem exists_of_single
    (hSingle : node.construct.isFunction = true ∨ node.construct = .closure) :
    ∃ child, children = [child] := by
  have hLength : children.length = 1 := by
    have hParts := hRead.hasParts
    rcases hSingle with hFunction | hClosure
    · cases hConstruct : node.construct <;>
        simp_all [Construct.isFunction, Construct.hasParts]
    · simpa [hClosure, Construct.hasParts] using hParts
  exact List.length_eq_one_iff.mp hLength

/-- A loop over items has two children, the items and its block. -/
theorem exists_of_iteration {name : String} (hConstruct : node.construct = .iteration name) :
    ∃ items body, children = [items, body] ∧ body.construct.isBlock = true := by
  have hParts := hRead.hasParts
  rw [hConstruct] at hParts
  rcases children with _ | ⟨items, _ | ⟨body, _ | ⟨other, rest⟩⟩⟩
  · cases hParts
  · cases hParts
  · exact ⟨items, body, rfl, hParts⟩
  · cases hParts

/-- Constants and references have no children. -/
theorem eq_nil_of_leaf (hLeaf : (∃ literal, node.construct = .constant literal) ∨
    ∃ name, node.construct = .reference name) : children = [] := by
  have hParts := hRead.hasParts
  cases children with
  | nil => rfl
  | cons t rest =>
      rcases hLeaf with ⟨literal, hConstruct⟩ | ⟨name, hConstruct⟩ <;>
        rw [hConstruct] at hParts <;> cases hParts

end IsReadWhole

end Tree

namespace Resolution

open Scope (ScopeId Binding)

/-- What a successful result was made of. -/
theorem exists_of_bind_eq_ok {α β ε : Type} {result : Except ε α} {next : α → Except ε β} {b : β}
    (hOk : (result >>= next) = .ok b) : ∃ a, result = .ok a ∧ next a = .ok b := by
  cases result with
  | error e => cases hOk
  | ok a => exact ⟨a, rfl, hOk⟩

/-- A function that was entered was named, its frame was begun, and its parameters were declared in a
scope of its own. -/
theorem Progress.exists_of_enterFunction {p q : Progress} {outer : ScopeId} {node : NodeId}
    {name : String} {params : List String} {isClosure : Bool} {entry : Entry}
    (hOk : p.enterFunction outer node name params isClosure = .ok (entry, q)) :
    ∃ begun opened,
      (p.nameFunction node name isClosure).2.beginFrame outer isClosure = .ok begun ∧
      begun.openScope node (begun.frame.environment.getD outer) = .ok (entry.scope, opened) ∧
      entry.name = (p.nameFunction node name isClosure).1 ∧
      { opened with names := opened.names.enter entry.name }.declareAll entry.scope .constant params =
        .ok (entry.params, q) := by
  rw [enterFunction] at hOk
  obtain ⟨begun, hBegin, hOk⟩ := exists_of_bind_eq_ok hOk
  obtain ⟨⟨scope, opened⟩, hOpen, hOk⟩ := exists_of_bind_eq_ok hOk
  obtain ⟨⟨slots, declared⟩, hDeclare, hOk⟩ := exists_of_bind_eq_ok hOk
  cases hOk
  exact ⟨begun, opened, hBegin, hOpen, rfl, hDeclare⟩

/-! ### Steps -/

/-- A relation between states of the walk, and the trees that were walked from the one to the other,
holds of the single steps; names that are declared satisfy a condition or are fresh. -/
structure Steps (plain : String → Prop) (R : Progress → List Tree → Progress → Prop) : Prop where
  refl : ∀ p, R p [] p
  trans : ∀ {p q r ts us}, R p ts q → R q us r → R p (ts ++ us) r
  openScope : ∀ {p q node outer inner}, p.openScope node outer = .ok (inner, q) → R p [] q
  recordSlot : ∀ p node slot, R p [] (p.recordSlot node slot)
  capture : ∀ (p : Progress) environment b, R p [] (p.capture environment b)
  declare : ∀ {p q scope name mutability slot}, plain name →
    p.declare scope name mutability = .ok (slot, q) → R p [] q
  declareFresh : ∀ {p q tag scope mutability slot},
    (p.mint tag).2.declare scope (p.mint tag).1 mutability = .ok (slot, q) → R p [] q

namespace Steps

variable {plain : String → Prop} {R : Progress → List Tree → Progress → Prop}
  (hSteps : Steps plain R) {p q : Progress}

include hSteps

/-- Plain names can be declared one after the other. -/
theorem declareAll {scope : ScopeId} {mutability : Mutability} {names : List String}
    {slots : List Nat} (hNames : ∀ name ∈ names, plain name)
    (hOk : p.declareAll scope mutability names = .ok (slots, q)) : R p [] q := by
  induction names generalizing p slots with
  | nil =>
      cases hOk
      exact hSteps.refl _
  | cons name rest ih =>
      obtain ⟨⟨slot, middle⟩, hFirst, hOk⟩ := exists_of_bind_eq_ok hOk
      obtain ⟨⟨others, last⟩, hRest, hOk⟩ := exists_of_bind_eq_ok hOk
      cases hOk
      exact hSteps.trans (hSteps.declare (hNames name List.mem_cons_self) hFirst)
        (ih (fun other hMem => hNames other (List.mem_cons_of_mem name hMem)) hRest)

/-- Using a name captures at most. -/
theorem use (p : Progress) (scope : ScopeId) (name : String) : R p [] (p.use scope name).2 := by
  unfold Progress.use
  split
  · split
    · exact hSteps.capture ..
    · exact hSteps.refl p
  · exact hSteps.refl p

theorem useAll (p : Progress) (scope : ScopeId) (names : List String) :
    R p [] (p.useAll scope names) := by
  induction names generalizing p with
  | nil => exact hSteps.refl p
  | cons name rest ih => exact hSteps.trans (hSteps.use p scope name) (ih _)

theorem useAt (p : Progress) (scope : ScopeId) (node : NodeId) (name : String) :
    R p [] (p.useAt scope node name) := by
  have hUse := hSteps.use p scope name
  unfold Progress.useAt
  split
  · rename_i hFound
    rw [hFound] at hUse
    exact hSteps.trans hUse (hSteps.recordSlot ..)
  · rename_i hFound
    rw [hFound] at hUse
    exact hUse

theorem refer {globals : List String} {scope : ScopeId} {node : NodeId} {name : String} {span : Span}
    (hOk : p.refer globals scope node name span = .ok q) : R p [] q := by
  have hUse := hSteps.use p scope name
  unfold Progress.refer at hOk
  split at hOk
  · rename_i hFound
    rw [hFound] at hUse
    cases hOk
    exact hSteps.trans hUse (hSteps.recordSlot ..)
  · rename_i hFound
    rw [hFound] at hUse
    split at hOk
    · cases hOk
      exact hUse
    · cases hOk

theorem assign {scope : ScopeId} {node : NodeId} {name : String} {span : Span}
    (hOk : p.assign scope node name span = .ok q) : R p [] q := by
  unfold Progress.assign at hOk
  split at hOk
  · cases hOk
  · split at hOk
    · cases hOk
    · split at hOk
      · cases hOk
      · cases hOk
        exact hSteps.useAt ..

end Steps

/-! ### Constructs -/

/-- A relation that holds of the single steps is kept by the constructs: it holds of the walk through
a node if it holds of the walk below the node. -/
structure Closed (plain : String → Prop) (R : Progress → List Tree → Progress → Prop) : Prop
    extends Steps plain R where
  node : ∀ {p q id node children}, node.construct.isFunction = false →
    node.construct.selector? = none → R p (Tree.subtreesAll children) q →
    R p (Tree.mk id node children).subtrees q
  call : ∀ {p q id node children selector}, node.construct.selector? = some selector →
    R (p.recordCall id selector children.length node.span) (Tree.subtreesAll children) q →
    R p (Tree.mk id node children).subtrees q
  function : ∀ {p q r outer id node body name params isClosure entry},
    node.construct = .function name params isClosure →
    (∀ other ∈ node.construct.names, plain other) →
    p.enterFunction outer id name params isClosure = .ok (entry, q) → R q body.subtrees r →
    R p (Tree.mk id node [body]).subtrees (r.leaveFunction id isClosure entry p.frame).2

/-- A relation holds of what each function of the walk does where it succeeds on a tree. -/
structure Walked (R : Progress → List Tree → Progress → Prop) (globals : List String) (t : Tree) :
    Prop where
  expression : ∀ {scope p q}, expression globals scope t p = .ok q → R p t.subtrees q
  statement : ∀ {scope p q}, statement globals scope t p = .ok q → R p t.subtrees q
  block : t.construct.isBlock = true →
    ∀ {scope p q}, block globals scope t p = .ok q → R p t.subtrees q
  function : ∀ {scope p captured q},
    function globals scope t p = .ok (captured, q) → R p t.subtrees q

namespace Closed

variable {plain : String → Prop} {R : Progress → List Tree → Progress → Prop}
  (hClosed : Closed plain R) {globals : List String} {p q r : Progress} {scope : ScopeId}

include hClosed

/-- The relation holds of a step before a walk. -/
theorem before {ts : List Tree} (hStep : R p [] q) (hWalk : R q ts r) : R p ts r :=
  hClosed.trans hStep hWalk

/-- The relation holds of a step after a walk. -/
theorem behind {ts : List Tree} (hWalk : R p ts q) (hStep : R q [] r) : R p ts r := by
  rw [← List.append_nil ts]
  exact hClosed.trans hWalk hStep

omit hClosed in
theorem singleton {t : Tree} (hWalk : R p t.subtrees q) : R p (Tree.subtreesAll [t]) q := by
  rw [Tree.subtreesAll_singleton]
  exact hWalk

section Lists

variable {ts : List Tree} (hTrees : ∀ t ∈ ts, Walked R globals t)

include hTrees

theorem statements (hOk : statements globals scope ts p = .ok q) : R p (Tree.subtreesAll ts) q := by
  induction ts generalizing p with
  | nil =>
      cases hOk
      exact hClosed.refl _
  | cons t rest ih =>
      rw [Resolution.statements] at hOk
      obtain ⟨middle, hFirst, hRest⟩ := exists_of_bind_eq_ok hOk
      exact hClosed.trans ((hTrees t List.mem_cons_self).statement hFirst)
        (ih (fun s hS => hTrees s (List.mem_cons_of_mem t hS)) hRest)

theorem operands (hOk : operands globals scope ts p = .ok q) : R p (Tree.subtreesAll ts) q := by
  induction ts generalizing p with
  | nil =>
      cases hOk
      exact hClosed.refl _
  | cons t rest ih =>
      have hHead := hTrees t List.mem_cons_self
      have hRest : ∀ {middle}, R p t.subtrees middle →
          Resolution.operands globals scope rest middle = .ok q →
            R p (Tree.subtreesAll (t :: rest)) q :=
        fun hFirst hOk =>
          hClosed.trans hFirst (ih (fun s hS => hTrees s (List.mem_cons_of_mem t hS)) hOk)
      rw [Resolution.operands] at hOk
      split at hOk
      · rename_i hBlock
        obtain ⟨middle, hFirst, hOk⟩ := exists_of_bind_eq_ok hOk
        exact hRest (hHead.block hBlock hFirst) hOk
      · obtain ⟨middle, hFirst, hOk⟩ := exists_of_bind_eq_ok hOk
        exact hRest (hHead.expression hFirst) hOk

/-- The functions of a module are walked in order. -/
theorem moduleFunctions (hOk : moduleFunctions globals scope ts p = .ok q) :
    R p (Tree.subtreesAll ts) q := by
  induction ts generalizing p with
  | nil =>
      cases hOk
      exact hClosed.refl _
  | cons t rest ih =>
      rw [Resolution.moduleFunctions] at hOk
      split at hOk
      · obtain ⟨⟨captured, middle⟩, hFirst, hRest⟩ := exists_of_bind_eq_ok hOk
        exact hClosed.trans ((hTrees t List.mem_cons_self).function hFirst)
          (ih (fun s hS => hTrees s (List.mem_cons_of_mem t hS)) hRest)
      · cases hOk

end Lists

section Nodes

variable {id : NodeId} {node : Node} {children : List Tree}
  (hRead : (Tree.mk id node children).IsReadWhole plain)
  (hChildren : ∀ t ∈ children, Walked R globals t)

include hChildren

theorem block (hBlock : node.construct.isBlock = true)
    (hOk : block globals scope (.mk id node children) p = .ok q) :
    R p (Tree.mk id node children).subtrees q := by
  have hKind : node.construct.isFunction = false ∧ node.construct.selector? = none := by
    cases hConstruct : node.construct <;>
      simp_all [Construct.isBlock, Construct.isFunction, Construct.selector?]
  rw [Resolution.block] at hOk
  obtain ⟨⟨inner, opened⟩, hOpen, hStatements⟩ := exists_of_bind_eq_ok hOk
  exact hClosed.node hKind.1 hKind.2
    (hClosed.before (hClosed.openScope hOpen) (hClosed.statements hChildren hStatements))

include hRead

theorem of_function {captured : List String}
    (hOk : Resolution.function globals scope (.mk id node children) p = .ok (captured, q)) :
    R p (Tree.mk id node children).subtrees q := by
  rw [Resolution.function] at hOk
  split at hOk
  case h_1 name params isClosure hConstruct =>
    obtain ⟨t, rfl⟩ := hRead.exists_of_single (Or.inl (by rw [hConstruct]; rfl))
    obtain ⟨⟨entry, entered⟩, hEnter, hOk⟩ := exists_of_bind_eq_ok hOk
    obtain ⟨last, hBody, hOk⟩ := exists_of_bind_eq_ok hOk
    rw [body] at hBody
    split at hBody
    · rename_i hBlock
      cases hOk
      exact hClosed.function hConstruct hRead.names_plain hEnter
        ((hChildren t List.mem_cons_self).block hBlock hBody)
    · cases hBody
  case h_2 => cases hOk

/-- A loop over items is walked through the items, then through its block, in a scope that has what
is left of the items and the item. -/
theorem iteration {name : String} (hConstruct : node.construct = .iteration name)
    (hOk : iteration globals scope id name children p = .ok q) :
    R p (Tree.subtreesAll children) q := by
  obtain ⟨items, body, rfl, hBlock⟩ := hRead.exists_of_iteration hConstruct
  have hPlain : plain name := hRead.names_plain name (by simp [hConstruct, Construct.names])
  rw [Resolution.iteration] at hOk
  obtain ⟨afterItems, hItems, hOk⟩ := exists_of_bind_eq_ok hOk
  obtain ⟨⟨inner, opened⟩, hOpen, hOk⟩ := exists_of_bind_eq_ok hOk
  obtain ⟨⟨first, named⟩, hIterator, hOk⟩ := exists_of_bind_eq_ok hOk
  obtain ⟨⟨second, declared⟩, hItem, hOk⟩ := exists_of_bind_eq_ok hOk
  simp only [iterationBody] at hOk
  have hFirst := (hChildren items List.mem_cons_self).expression hItems
  have hSecond := (hChildren body (List.mem_cons_of_mem _ List.mem_cons_self)).block hBlock hOk
  have hBetween : R afterItems [] (declared.recordSlot id second) :=
    hClosed.before (hClosed.openScope hOpen)
      (hClosed.before (hClosed.declareFresh hIterator)
        (hClosed.before (hClosed.declare hPlain hItem) (hClosed.recordSlot ..)))
  exact hClosed.trans hFirst (singleton (hClosed.before hBetween hSecond))

theorem closure (hConstruct : node.construct = .closure)
    (hOk : closure globals scope children p = .ok q) : R p (Tree.subtreesAll children) q := by
  obtain ⟨t, rfl⟩ := hRead.exists_of_single (Or.inr hConstruct)
  rw [Resolution.closure] at hOk
  obtain ⟨⟨captured, left⟩, hFunction, hOk⟩ := exists_of_bind_eq_ok hOk
  cases hOk
  exact singleton (hClosed.behind ((hChildren t List.mem_cons_self).function hFunction)
    (hClosed.useAll ..))

/-- An expression is walked before its children, if it is not one of the few that have none. -/
theorem expression (hOk : expression globals scope (.mk id node children) p = .ok q) :
    R p (Tree.mk id node children).subtrees q := by
  rw [Resolution.expression] at hOk
  cases hConstruct : node.construct with
  | constant literal =>
      simp only [hConstruct] at hOk
      cases hOk
      rw [hRead.eq_nil_of_leaf (Or.inl ⟨literal, hConstruct⟩)]
      exact hClosed.node (by rw [hConstruct]; rfl) (by rw [hConstruct]; rfl) (hClosed.refl p)
  | reference name =>
      simp only [hConstruct] at hOk
      rw [hRead.eq_nil_of_leaf (Or.inr ⟨name, hConstruct⟩)]
      exact hClosed.node (by rw [hConstruct]; rfl) (by rw [hConstruct]; rfl) (hClosed.refer hOk)
  | binary op | unary op =>
      simp only [hConstruct] at hOk
      exact hClosed.call (by rw [hConstruct]; rfl) (hClosed.operands hChildren hOk)
  | methodCall name =>
      simp only [hConstruct] at hOk
      exact hClosed.call (by rw [hConstruct]; rfl) (hClosed.operands hChildren hOk)
  | functionCall name =>
      simp only [hConstruct] at hOk
      exact hClosed.node (by rw [hConstruct]; rfl) (by rw [hConstruct]; rfl)
        (hClosed.before (hClosed.useAt ..) (hClosed.operands hChildren hOk))
  | closure =>
      simp only [hConstruct] at hOk
      exact hClosed.node (by rw [hConstruct]; rfl) (by rw [hConstruct]; rfl)
        (hClosed.closure hRead hChildren hConstruct hOk)
  | _ =>
      simp only [hConstruct] at hOk
      cases hOk

/-- A statement is walked after its children, unless it is a block or a loop over items. -/
theorem statement (hOk : statement globals scope (.mk id node children) p = .ok q) :
    R p (Tree.mk id node children).subtrees q := by
  rw [Resolution.statement] at hOk
  cases hConstruct : node.construct with
  | declaration name mutability =>
      simp only [hConstruct] at hOk
      obtain ⟨read, hOperands, hOk⟩ := exists_of_bind_eq_ok hOk
      obtain ⟨⟨slot, declared⟩, hDeclare, hOk⟩ := exists_of_bind_eq_ok hOk
      cases hOk
      have hPlain : plain name := hRead.names_plain name (by simp [hConstruct, Construct.names])
      have hStep := hClosed.before (hClosed.declare hPlain hDeclare) (hClosed.recordSlot _ id slot)
      exact hClosed.node (by rw [hConstruct]; rfl) (by rw [hConstruct]; rfl)
        (hClosed.behind (hClosed.operands hChildren hOperands) hStep)
  | destructuring names mutability =>
      simp only [hConstruct] at hOk
      obtain ⟨read, hOperands, hOk⟩ := exists_of_bind_eq_ok hOk
      obtain ⟨⟨slot, whole⟩, hWhole, hOk⟩ := exists_of_bind_eq_ok hOk
      obtain ⟨⟨slots, declared⟩, hDeclare, hOk⟩ := exists_of_bind_eq_ok hOk
      cases hOk
      have hPlain : ∀ name ∈ names, plain name := fun name hMem =>
        hRead.names_plain name (by simpa [hConstruct, Construct.names] using hMem)
      have hStep := hClosed.before (hClosed.declareFresh hWhole)
        (hClosed.before (hClosed.recordSlot _ id slot) (hClosed.declareAll hPlain hDeclare))
      exact hClosed.node (by rw [hConstruct]; rfl) (by rw [hConstruct]; rfl)
        (hClosed.behind (hClosed.operands hChildren hOperands) hStep)
  | assignment name =>
      simp only [hConstruct] at hOk
      obtain ⟨read, hOperands, hOk⟩ := exists_of_bind_eq_ok hOk
      exact hClosed.node (by rw [hConstruct]; rfl) (by rw [hConstruct]; rfl)
        (hClosed.behind (hClosed.operands hChildren hOperands) (hClosed.assign hOk))
  | iteration name =>
      simp only [hConstruct] at hOk
      exact hClosed.node (by rw [hConstruct]; rfl) (by rw [hConstruct]; rfl)
        (hClosed.iteration hRead hChildren hConstruct hOk)
  | returning | branch | loop | evaluation =>
      simp only [hConstruct] at hOk
      exact hClosed.node (by rw [hConstruct]; rfl) (by rw [hConstruct]; rfl)
        (hClosed.operands hChildren hOk)
  | block =>
      simp only [hConstruct] at hOk
      exact hClosed.block hChildren (by rw [hConstruct]; rfl) (by rw [Resolution.block]; exact hOk)
  | _ =>
      simp only [hConstruct] at hOk
      cases hOk

end Nodes

/-- A relation that the constructs keep holds of every walk that succeeds. -/
theorem walked (globals : List String) {t : Tree} (hRead : t.IsReadWhole plain) :
    Walked R globals t := by
  induction t using Tree.induction_children with
  | mk id node children ih =>
      have hChildren : ∀ t ∈ children, Walked R globals t :=
        fun t hMem => ih t hMem (hRead.of_mem_children hMem)
      exact
        { expression := hClosed.expression hRead hChildren
          statement := hClosed.statement hRead hChildren
          block := fun hBlock _ _ _ hOk => hClosed.block hChildren hBlock hOk
          function := hClosed.of_function hRead hChildren }

end Closed

/-- The state at the beginning of the walk through a module. -/
def Progress.atModule (id : NodeId) (name : String) : Progress :=
  { Progress.initial with
    scopes := Progress.initial.scopes.openRoot.2
    opened := #[(id, ⟨0⟩)]
    names := Progress.initial.names.enter name }

/-- A relation that the constructs keep holds of the walk through a module, from the state at its
beginning. -/
theorem Closed.moduleTree {plain : String → Prop} {R : Progress → List Tree → Progress → Prop}
    (hClosed : Closed plain R) {options : Options} {t : Tree} (hRead : t.IsReadWhole plain)
    {p : Progress} (hOk : moduleTree options t = .ok p) :
    ∃ name, t.construct = .module name ∧
      R (Progress.atModule t.id name) (Tree.subtreesAll t.children) p := by
  obtain ⟨id, node, children⟩ := t
  rw [Resolution.moduleTree] at hOk
  split at hOk
  case h_1 name hConstruct =>
    exact ⟨name, hConstruct, hClosed.moduleFunctions
      (fun t hMem => hClosed.walked _ (hRead.of_mem_children hMem)) hOk⟩
  case h_2 => cases hOk

end Resolution

end LateBinding
