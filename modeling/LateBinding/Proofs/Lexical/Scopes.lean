import Mathlib.Data.List.Basic
import LateBinding.Proofs.Lexical.Lookup
import LateBinding.Proofs.Lexical.Storage

/-!
# The scopes of a program

A module, a function, a block and a loop over items each have a scope.  What is declared directly in
the scope of a node is what is declared at its end and not around it.  Scopes lie in each other as
their nodes do, but for the function of a closure, which has in place of the scope around it a copy
of everything visible there.

* `Construct.hasScope`, `Construct.hasTemporary` - the nodes that have a scope, and those that
  declare something that the program has no name for.
* `Tree.scopeNodes` - the nodes of a tree that have a scope, each with the innermost such node around
  it.
* `Position.declaredInside`, `Position.locals` - what is declared directly in the scope of a node,
  and the bindings of it.
* `Position.environment` - the copy that a closure has of what is visible around it.
-/

namespace LateBinding

namespace Construct

/-- Whether the node has a scope. -/
def hasScope : Construct → Bool
  | module _ | function .. | block | iteration _ => true
  | _ => false

/-- Whether the node declares something that has no name in the program. -/
def hasTemporary : Construct → Bool
  | destructuring .. | iteration _ => true
  | _ => false

/-- Functions have a scope. -/
theorem hasScope_of_isFunction {construct : Construct} (hFunction : construct.isFunction = true) :
    construct.hasScope = true := by
  cases construct <;> first | rfl | cases hFunction

/-- Expressions have no scope and declare nothing. -/
theorem hasScope_of_isExpression {construct : Construct}
    (hExpression : construct.isExpression = true) :
    construct.hasScope = false ∧ construct.hasTemporary = false := by
  cases construct <;> first | exact ⟨rfl, rfl⟩ | cases hExpression

/-- A node with operands has no scope. -/
theorem hasScope_of_hasOperands {construct : Construct}
    (hOperands : construct.hasOperands = true) : construct.hasScope = false := by
  cases construct <;> first | rfl | cases hOperands

end Construct

namespace Tree

/-! ### Nodes with a scope -/

mutual

/-- The nodes of a tree that have a scope, the outer ones first, each with the innermost one around
it, given the one around the tree. -/
def scopeNodes (around : NodeId) : Tree → List (Tree × NodeId)
  | mk id node children =>
      if node.construct.hasScope then (mk id node children, around) :: scopeNodesAll id children
      else scopeNodesAll around children

/-- The nodes with a scope of several trees that stand around in the same node. -/
def scopeNodesAll (around : NodeId) : List Tree → List (Tree × NodeId)
  | [] => []
  | t :: rest => t.scopeNodes around ++ scopeNodesAll around rest

end

theorem scopeNodesAll_eq_flatMap (around : NodeId) (ts : List Tree) :
    scopeNodesAll around ts = ts.flatMap (scopeNodes around) := by
  induction ts with
  | nil => rfl
  | cons t rest ih => rw [scopeNodesAll, List.flatMap_cons, ih]

@[simp] theorem scopeNodesAll_singleton (around : NodeId) (t : Tree) :
    scopeNodesAll around [t] = t.scopeNodes around := by
  rw [scopeNodesAll, scopeNodesAll, List.append_nil]

/-- The nodes that are listed are those with a scope. -/
theorem map_fst_scopeNodes (t : Tree) (around : NodeId) :
    (t.scopeNodes around).map Prod.fst = t.subtrees.filter (·.construct.hasScope) := by
  induction t using induction_children generalizing around with
  | mk id node children ih =>
      have hBelow : ∀ around, (scopeNodesAll around children).map Prod.fst =
          (subtreesAll children).filter (·.construct.hasScope) := by
        intro around
        rw [scopeNodesAll_eq_flatMap, subtreesAll_eq_flatMap, List.map_flatMap, List.filter_flatMap]
        exact List.flatMap_congr fun t hMem => ih t hMem around
      rw [scopeNodes, subtrees, List.filter_cons]
      show _ = if node.construct.hasScope = true then _ else _
      split
      · rw [List.map_cons, hBelow]
      · rw [hBelow]

/-- A node with a scope stands in the node around it. -/
theorem mem_scopeNodes_self (t : Tree) (around : NodeId) (hScope : t.construct.hasScope = true) :
    (t, around) ∈ t.scopeNodes around := by
  obtain ⟨id, node, children⟩ := t
  rw [scopeNodes, if_pos (show node.construct.hasScope = true from hScope)]
  exact List.mem_cons_self

theorem map_fst_scopeNodesAll (ts : List Tree) (around : NodeId) :
    (scopeNodesAll around ts).map Prod.fst = (subtreesAll ts).filter (·.construct.hasScope) := by
  rw [scopeNodesAll_eq_flatMap, subtreesAll_eq_flatMap, List.map_flatMap, List.filter_flatMap]
  exact List.flatMap_congr fun t _ => map_fst_scopeNodes t around

/-- What is in an expression and has a scope is the function of a closure or inside one, so what
stands around the expression matters for functions of closures only. -/
theorem mem_scopeNodes_of_isExpression {t : Tree} (hProper : t.IsProper)
    (hExpression : t.construct.isExpression = true) (around other : NodeId) {y : Tree × NodeId}
    (hMem : y ∈ t.scopeNodes around) (hClosure : y.1.construct.isClosureFunction = false) :
    y ∈ t.scopeNodes other := by
  induction t using induction_children with
  | mk id node children ih =>
      have hScope : node.construct.hasScope ≠ true := by
        have hNone : node.construct.hasScope = false :=
          (Construct.hasScope_of_isExpression hExpression).1
        rw [hNone]
        exact Bool.false_ne_true
      rw [scopeNodes, if_neg hScope, scopeNodesAll_eq_flatMap] at hMem ⊢
      obtain ⟨child, hChild, hY⟩ := List.mem_flatMap.mp hMem
      refine List.mem_flatMap.mpr ⟨child, hChild, ?_⟩
      have hChildProper := hProper.of_mem_children hChild
      by_cases hKind : node.construct = .closure
      · -- the function of the closure is left out, and what is inside it stands around in it
        obtain ⟨function, rfl, hFunction⟩ := hProper.exists_of_closure hKind
        obtain rfl := List.mem_singleton.mp hChild
        obtain ⟨id', node', children'⟩ := child
        have hFunctionScope : node'.construct.hasScope = true :=
          Construct.hasScope_of_isFunction (Construct.isFunction_of_isClosureFunction hFunction)
        rw [scopeNodes, if_pos hFunctionScope] at hY ⊢
        rcases List.mem_cons.mp hY with rfl | hY
        · rw [hFunction] at hClosure
          cases hClosure
        · exact List.mem_cons_of_mem _ hY
      · have hOperands : node.construct.hasOperands = true := by
          by_contra hNone
          rw [hProper.eq_nil_of_leaf hExpression (by simpa using hNone) hKind] at hChild
          cases hChild
        exact ih child hChild hChildProper
          (Construct.isExpression_of_admits hOperands (Or.inl hExpression) hProper.admits _
            (List.mem_map_of_mem hChild)) hY

end Tree

namespace Lexical

open Resolution (Capture)
open Scope (Binding)

/-! ### Bindings of declarations -/

/-- The name of the binding of a declaration, given the names of the bindings that have none in the
program. -/
def Declaration.title (fresh : NodeId → String) (d : Declaration) : String :=
  d.name.getD (fresh d.node)

/-- The binding of a declaration of the function around a point. -/
def Context.bindingOf (fresh : NodeId → String) (c : Context) (d : Declaration) : Binding where
  name := d.title fresh
  mutability := d.mutability
  slot := some (c.slot d)
  captured := false

namespace Position

/-- What is declared where the scope of a node ends. -/
def ending (q : Position) : Context :=
  match q.construct with
  | .function .. => q.context.enter.extend q.id q.construct
  | .iteration _ => q.context.extend q.id q.construct
  | _ => q.context.afterAll q.tree.children

/-- What is declared directly in the scope of a node, in the order in which it is declared. -/
def declaredInside (q : Position) : List Declaration :=
  q.ending.declared.drop q.context.declared.length

/-- The bindings of a scope: one for each name, in the order of first declaration, with mutability
and slot of the last one. -/
def locals (fresh : NodeId → String) (q : Position) : List Binding :=
  (q.declaredInside.foldl overlay []).map (q.ending.bindingOf fresh)

/-- The bindings that a closure has from outside: one for each name visible around it, numbered from
0, and marked if it is among those captured. -/
def environment (fresh : NodeId → String) (captured : List Capture) (q : Position) :
    List Binding :=
  q.context.visible.mapIdx fun i d =>
    { name := d.title fresh
      mutability := d.mutability
      slot := some i
      captured := decide (d.title fresh ∈ captured.map Capture.name) }

end Position

end Lexical

end LateBinding
