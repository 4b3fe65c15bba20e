import LateBinding.Program.Tree
import LateBinding.FreshName

/-!
# Well-formed modules

Which constructs may stand below which, and in what number and order, and which names a program may
use.  A module is well-formed if every node of its tree has children that its construct admits, and
if no name in it is one that only fresh names have.

* `Construct.admits` - the table of constructs and children; `isOperand_of_admits` and
  `isExpression_of_admits` - what it says about children that are read in order.
* `Construct.isLocal`, `Tree.IsProper.isLocal_of_mem_subtrees` - what stands inside functions only.
* `Tree.IsProper` - a tree, of any construct, whose nodes all have admitted children and plain
  names; `IsProper.of_mem_children` passes it on to the children.
* `Tree.IsModule` - a proper tree with a module on top.
* `Construct.hasShape`, `Tree.IsWellShaped` - shapes alone, whatever the names.
-/

namespace LateBinding

namespace Construct

/-- Whether the node is an expression. -/
def isExpression : Construct → Bool
  | constant _ | reference _ | binary _ | unary _ | methodCall _ | functionCall _ | closure => true
  | _ => false

/-- Whether the node is a statement. -/
def isStatement : Construct → Bool
  | block | declaration .. | destructuring .. | assignment _ | returning | branch | loop
  | iteration _ | evaluation => true
  | _ => false

/-- Whether the node is a function with a name of its own. -/
def isNamedFunction : Construct → Bool
  | function _ _ isClosure => !isClosure
  | _ => false

/-- Whether the node is the function of a closure. -/
def isClosureFunction : Construct → Bool
  | function _ _ isClosure => isClosure
  | _ => false

/-- The function of a closure is a function. -/
theorem isFunction_of_isClosureFunction {construct : Construct}
    (hClosure : construct.isClosureFunction = true) : construct.isFunction = true := by
  cases construct with
  | function name params isClosure => rfl
  | _ => cases hClosure

/-- A function with a name is a function. -/
theorem isFunction_of_isNamedFunction {construct : Construct}
    (hNamed : construct.isNamedFunction = true) : construct.isFunction = true := by
  cases construct with
  | function name params isClosure => rfl
  | _ => cases hNamed

/-- Whether the node stands inside functions only: an expression, a statement or the function of a
closure. -/
def isLocal (construct : Construct) : Bool :=
  construct.isExpression || construct.isStatement || construct.isClosureFunction

/-- No function with a name stands inside functions. -/
theorem isNamedFunction_eq_false_of_isLocal {construct : Construct}
    (hLocal : construct.isLocal = true) : construct.isNamedFunction = false := by
  cases construct with
  | function name params isClosure =>
      simpa [isLocal, isExpression, isStatement, isClosureFunction, isNamedFunction] using hLocal
  | _ => rfl

/-- Whether children of the given constructs, in this order, may stand below a node. -/
def admits : Construct → List Construct → Bool
  | module _, functions => functions.all isNamedFunction
  | function .., [body] => body.isBlock
  | block, statements => statements.all isStatement
  | declaration .., [value] => value.isExpression
  | destructuring .., [value] => value.isExpression
  | assignment _, [value] => value.isExpression
  | returning, [] => true
  | returning, [value] => value.isExpression
  | branch, [condition, body] => condition.isExpression && body.isBlock
  | branch, [condition, body, otherwise] =>
      condition.isExpression && body.isBlock && otherwise.isBlock
  | loop, [condition, body] => condition.isExpression && body.isBlock
  | iteration _, [items, body] => items.isExpression && body.isBlock
  | evaluation, [value] => value.isExpression
  | constant _, [] => true
  | reference _, [] => true
  | binary _, [left, right] => left.isExpression && right.isExpression
  | unary _, [operand] => operand.isExpression
  | methodCall _, receiver :: arguments => (receiver :: arguments).all isExpression
  | functionCall _, arguments => arguments.all isExpression
  | closure, [body] => body.isClosureFunction
  | _, _ => false

/-- Whether children of the given constructs make up the shape of a node.  Functions may be of either
kind here, and an operator has as many operands as it takes. -/
def hasShape : Construct → List Construct → Bool
  | module _, functions => functions.all isFunction
  | closure, [body] => body.isFunction
  | closure, _ => false
  | binary op, operands => op.arity = 2 && (binary op).admits operands
  | unary op, operands => op.arity = 1 && (unary op).admits operands
  | other, below => other.admits below

/-- Whether a construct binds for the statements that follow it in its block, and not only inside
itself. -/
def bindsInBlock : Construct → Bool
  | declaration .. | destructuring .. => true
  | _ => false

/-- The names that a program writes in a construct.  The function of a closure has no name of its
own there. -/
def names : Construct → List String
  | module name => [name]
  | function name params isClosure => if isClosure then params else name :: params
  | declaration name _ => [name]
  | destructuring names _ => names
  | assignment name => [name]
  | iteration name => [name]
  | reference name => [name]
  | methodCall name => [name]
  | functionCall name => [name]
  | _ => []

/-- Whether the children of a node are read one after the other in the scope that the node stands
in.  They are expressions and blocks. -/
def hasOperands : Construct → Bool
  | declaration .. | destructuring .. | assignment _ | returning | branch | loop | evaluation
  | binary _ | unary _ | methodCall _ | functionCall _ => true
  | _ => false

/-! ### Kinds of constructs -/

section Kinds

variable {construct : Construct}

/-- The parameters of a function are among its names. -/
theorem mem_names_of_mem_params {name : String} {params : List String} {isClosure : Bool}
    (hConstruct : construct = .function name params isClosure) {param : String}
    (hMem : param ∈ params) : param ∈ construct.names := by
  rw [hConstruct, names]
  split
  · exact hMem
  · exact List.mem_cons_of_mem _ hMem

/-- A statement that binds in its block is no function. -/
theorem isFunction_eq_false_of_bindsInBlock (hBinds : construct.bindsInBlock = true) :
    construct.isFunction = false := by
  cases construct <;> first | rfl | cases hBinds

/-- A function binds nothing for the statements that follow it. -/
theorem bindsInBlock_eq_false_of_isFunction (hFunction : construct.isFunction = true) :
    construct.bindsInBlock = false := by
  cases construct <;> first | rfl | cases hFunction

/-- An expression binds nothing for the statements that follow it. -/
theorem bindsInBlock_eq_false_of_isExpression (hExpression : construct.isExpression = true) :
    construct.bindsInBlock = false := by
  cases construct <;> first | rfl | cases hExpression

/-- A block binds nothing for the statements that follow it. -/
theorem bindsInBlock_eq_false_of_isBlock (hBlock : construct.isBlock = true) :
    construct.bindsInBlock = false := by
  cases construct <;> first | rfl | cases hBlock

/-- A statement that binds in its block has operands. -/
theorem hasOperands_of_bindsInBlock (hBinds : construct.bindsInBlock = true) :
    construct.hasOperands = true := by
  cases construct <;> first | rfl | cases hBinds

/-- A node with operands is no function. -/
theorem isFunction_eq_false_of_hasOperands (hOperands : construct.hasOperands = true) :
    construct.isFunction = false := by
  cases construct <;> first | rfl | cases hOperands

/-- A loop over items is read in an order of its own. -/
theorem ne_iteration_of_hasOperands (hOperands : construct.hasOperands = true) (name : String) :
    construct ≠ .iteration name := by
  rintro rfl
  cases hOperands

/-- The function of a closure has no name. -/
theorem isNamedFunction_eq_false_of_isClosureFunction
    (hClosure : construct.isClosureFunction = true) : construct.isNamedFunction = false := by
  cases construct with
  | function name params isClosure =>
      simpa [isClosureFunction, isNamedFunction] using hClosure
  | _ => rfl

end Kinds

/-! ### Children of constructs -/

/-- Below every node but a module stands only what stands inside functions. -/
theorem isLocal_of_admits {construct : Construct} {below : List Construct}
    (hModule : ∀ name, construct ≠ .module name) (hAdmits : construct.admits below = true) :
    ∀ child ∈ below, child.isLocal = true := by
  have hBlock : ∀ child : Construct, child.isBlock = true → child.isStatement = true := by
    intro child hBlock
    cases child <;> first | rfl | cases hBlock
  rcases below with _ | ⟨first, _ | ⟨second, _ | ⟨third, _ | ⟨fourth, rest⟩⟩⟩⟩ <;>
    cases construct <;> simp_all [admits, isLocal]

/-- The operands of a node are expressions and blocks. -/
theorem isOperand_of_admits {construct : Construct} {below : List Construct}
    (hOperands : construct.hasOperands = true) (hAdmits : construct.admits below = true) :
    ∀ child ∈ below, child.isExpression = true ∨ child.isBlock = true := by
  rcases below with _ | ⟨first, _ | ⟨second, _ | ⟨third, _ | ⟨fourth, rest⟩⟩⟩⟩ <;>
    cases construct <;> simp_all [admits, hasOperands]

/-- The operands of an expression, and of a statement that binds or assigns, are expressions. -/
theorem isExpression_of_admits {construct : Construct} {below : List Construct}
    (hOperands : construct.hasOperands = true)
    (hKind : construct.isExpression = true ∨ construct.bindsInBlock = true ∨
      ∃ name, construct = .assignment name)
    (hAdmits : construct.admits below = true) : ∀ child ∈ below, child.isExpression = true := by
  rcases below with _ | ⟨first, _ | ⟨second, _ | ⟨third, _ | ⟨fourth, rest⟩⟩⟩⟩ <;>
    cases construct <;> simp_all [admits, hasOperands, isExpression, bindsInBlock]

end Construct

namespace Tree

mutual

/-- A tree and all trees below it, the outer ones first. -/
def subtrees : Tree → List Tree
  | mk id node children => mk id node children :: subtreesAll children

/-- Several trees and all trees below them. -/
def subtreesAll : List Tree → List Tree
  | [] => []
  | t :: rest => t.subtrees ++ subtreesAll rest

end

/-- All nodes of the tree have children that their constructs admit, and none of their names is
reserved. -/
structure IsProper (t : Tree) : Prop where
  shape : ∀ s ∈ t.subtrees, s.construct.admits (s.children.map Tree.construct) = true
  names : ∀ s ∈ t.subtrees, ∀ name ∈ s.construct.names, FreshName.isReserved name = false

/-- The tree is a well-formed module. -/
structure IsModule (t : Tree) : Prop extends IsProper t where
  module : ∃ name, t.construct = .module name

/-- Every node of the tree has the shape of its construct.  Nothing is said about names. -/
def IsWellShaped (t : Tree) : Prop :=
  ∀ s ∈ t.subtrees, s.construct.hasShape (s.children.map Tree.construct) = true

/-- Proofs about trees go from the children of a node to the node. -/
theorem induction_children {motive : Tree → Prop}
    (mk : ∀ id node children, (∀ t ∈ children, motive t) → motive (.mk id node children)) (t : Tree) :
    motive t :=
  @Tree.rec motive (fun ts => ∀ t ∈ ts, motive t) mk
    (fun _ hMem => absurd hMem List.not_mem_nil)
    (fun _ _ hHead hTail _ hMem => by
      rcases List.mem_cons.mp hMem with rfl | hMem
      · exact hHead
      · exact hTail _ hMem) t

theorem subtreesAll_eq_flatMap (ts : List Tree) : subtreesAll ts = ts.flatMap subtrees := by
  induction ts with
  | nil => rfl
  | cons t rest ih => rw [subtreesAll, List.flatMap_cons, ih]

theorem subtreesAll_singleton (t : Tree) : subtreesAll [t] = t.subtrees := by
  rw [subtreesAll, subtreesAll, List.append_nil]

theorem mem_subtrees_self (t : Tree) : t ∈ t.subtrees := by
  cases t
  exact List.mem_cons_self

/-- What lies below a child lies below the node. -/
theorem mem_subtrees_of_mem_children {id : NodeId} {node : Node} {children : List Tree}
    {child t : Tree} (hChild : child ∈ children) (hMem : t ∈ child.subtrees) :
    t ∈ (mk id node children).subtrees := by
  rw [subtrees, subtreesAll_eq_flatMap]
  exact List.mem_cons_of_mem _ (List.mem_flatMap.mpr ⟨child, hChild, hMem⟩)

/-! ### Children that are admitted -/

section Admitted

variable {children : List Tree}

/-- A function has one child, its block. -/
theorem exists_of_admits_function {name : String} {params : List String} {isClosure : Bool}
    (hAdmits : (Construct.function name params isClosure).admits (children.map Tree.construct) =
      true) : ∃ body, children = [body] ∧ body.construct.isBlock = true := by
  rcases children with _ | ⟨body, _ | ⟨other, rest⟩⟩ <;> simp [Construct.admits] at hAdmits
  exact ⟨body, rfl, hAdmits⟩

/-- A loop over items has two children, the items and its block. -/
theorem exists_of_admits_iteration {name : String}
    (hAdmits : (Construct.iteration name).admits (children.map Tree.construct) = true) :
    ∃ items body, children = [items, body] ∧ items.construct.isExpression = true ∧
      body.construct.isBlock = true := by
  rcases children with _ | ⟨items, _ | ⟨body, _ | ⟨other, rest⟩⟩⟩ <;>
    simp [Construct.admits] at hAdmits
  exact ⟨items, body, rfl, hAdmits⟩

end Admitted

namespace IsProper

/-- The children of a proper tree are proper. -/
theorem of_mem_children {id : NodeId} {node : Node} {children : List Tree}
    (hProper : (Tree.mk id node children).IsProper) {child : Tree} (hChild : child ∈ children) :
    child.IsProper where
  shape := fun s hMem => hProper.shape s (mem_subtrees_of_mem_children hChild hMem)
  names := fun s hMem => hProper.names s (mem_subtrees_of_mem_children hChild hMem)

/-- The construct of a proper tree admits its children. -/
theorem admits {id : NodeId} {node : Node} {children : List Tree}
    (hProper : (Tree.mk id node children).IsProper) :
    node.construct.admits (children.map Tree.construct) = true :=
  hProper.shape _ (mem_subtrees_self _)

/-- The names of the topmost node of a proper tree are plain. -/
theorem names_plain {id : NodeId} {node : Node} {children : List Tree}
    (hProper : (Tree.mk id node children).IsProper) :
    ∀ name ∈ node.construct.names, FreshName.isReserved name = false :=
  hProper.names _ (mem_subtrees_self _)

/-- Below every node but a module stands only what stands inside functions. -/
theorem isLocal_of_mem_children {id : NodeId} {node : Node} {children : List Tree}
    (hProper : (Tree.mk id node children).IsProper) (hModule : ∀ name, node.construct ≠ .module name)
    {child : Tree} (hChild : child ∈ children) : child.construct.isLocal = true :=
  Construct.isLocal_of_admits hModule hProper.admits _ (List.mem_map_of_mem hChild)

/-- With a node that stands inside functions, everything below it does. -/
theorem isLocal_of_mem_subtrees {t : Tree} (hProper : t.IsProper)
    (hLocal : t.construct.isLocal = true) {s : Tree} (hMem : s ∈ t.subtrees) :
    s.construct.isLocal = true := by
  induction t using induction_children with
  | mk id node children ih =>
      rw [subtrees, subtreesAll_eq_flatMap] at hMem
      rcases List.mem_cons.mp hMem with rfl | hMem
      · exact hLocal
      · obtain ⟨child, hChild, hBelow⟩ := List.mem_flatMap.mp hMem
        have hModule : ∀ name, node.construct ≠ .module name := by
          intro name hConstruct
          change node.construct.isLocal = true at hLocal
          rw [hConstruct] at hLocal
          cases hLocal
        exact ih child hChild (hProper.of_mem_children hChild)
          (hProper.isLocal_of_mem_children hModule hChild) hBelow

/-! ### Children -/

section Children

variable {id : NodeId} {node : Node} {children : List Tree}
  (hProper : (Tree.mk id node children).IsProper)

include hProper

/-- A function has one child, its block. -/
theorem exists_of_function {name : String} {params : List String} {isClosure : Bool}
    (hConstruct : node.construct = .function name params isClosure) :
    ∃ body, children = [body] ∧ body.construct.isBlock = true :=
  exists_of_admits_function (hConstruct ▸ hProper.admits)

/-- A loop over items has two children, the items and its block. -/
theorem exists_of_iteration {name : String} (hConstruct : node.construct = .iteration name) :
    ∃ items body, children = [items, body] ∧ items.construct.isExpression = true ∧
      body.construct.isBlock = true :=
  exists_of_admits_iteration (hConstruct ▸ hProper.admits)

/-- A closure has one child, its function. -/
theorem exists_of_closure (hConstruct : node.construct = .closure) :
    ∃ function, children = [function] ∧ function.construct.isClosureFunction = true := by
  have hAdmits := hProper.admits
  rw [hConstruct] at hAdmits
  rcases children with _ | ⟨function, _ | ⟨other, rest⟩⟩ <;> simp [Construct.admits] at hAdmits
  exact ⟨function, rfl, hAdmits⟩

/-- Constants and references have no children. -/
theorem eq_nil_of_leaf (hExpression : node.construct.isExpression = true)
    (hOperands : node.construct.hasOperands = false) (hClosure : node.construct ≠ .closure) :
    children = [] := by
  have hAdmits := hProper.admits
  cases children with
  | nil => rfl
  | cons t rest =>
      cases hConstruct : node.construct <;>
        simp_all [Construct.admits, Construct.isExpression, Construct.hasOperands]

end Children

end IsProper

/-! ### Shapes -/

namespace IsWellShaped

variable {id : NodeId} {node : Node} {children : List Tree}
  (hShaped : (Tree.mk id node children).IsWellShaped)

include hShaped

/-- The children of a well-shaped tree are well-shaped. -/
theorem of_mem_children {child : Tree} (hChild : child ∈ children) : child.IsWellShaped :=
  fun s hMem => hShaped s (mem_subtrees_of_mem_children hChild hMem)

/-- The topmost node of a well-shaped tree has the shape of its construct. -/
theorem hasShape : node.construct.hasShape (children.map Tree.construct) = true :=
  hShaped _ (mem_subtrees_self _)

end IsWellShaped

/-- The children of a module are functions with names. -/
theorem IsModule.isNamedFunction_of_mem_children {t : Tree} (hModule : t.IsModule) {child : Tree}
    (hChild : child ∈ t.children) : child.construct.isNamedFunction = true := by
  obtain ⟨id, node, children⟩ := t
  obtain ⟨name, hConstruct⟩ := hModule.module
  have hAdmits := hModule.admits
  change node.construct = _ at hConstruct
  rw [hConstruct] at hAdmits
  exact List.all_eq_true.mp hAdmits _ (List.mem_map_of_mem hChild)

end Tree

end LateBinding
