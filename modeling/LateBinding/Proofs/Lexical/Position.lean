import LateBinding.Proofs.Lexical.Context
import LateBinding.Resolution.Outcome

/-!
# The positions of a program

Every node of a program, once, in the order in which a program is read: a value before the name that
it is declared under, a function before what is in it.  Beside each node stands what is declared
where it is read.  Everything that the rules of lexical scope say about a program is said about this
list.

* `Position` - a node with its context.
* `Tree.positions` - the positions of a tree.
* `Position.Lawful` - what the rules of scope ask of one position, and `Position.fault?` - what is
  wrong with a position that does not satisfy them.
* `Position.use?` - the name that a position uses.
-/

namespace LateBinding

namespace Lexical

/-- A node with everything below it, and what is declared where it is read. -/
structure Position where
  context : Context
  tree : Tree

end Lexical

namespace Tree

open Lexical

mutual

/-- The positions of a tree that is read in a context. -/
def positions (c : Context) : Tree → List Position
  | mk id node children =>
      match node.construct with
      | .function .. =>
          ⟨c, mk id node children⟩ :: positionsAll (c.enter.extend id node.construct) children
      | .iteration _ =>
          iterationPositions c (c.extend id node.construct) ⟨c, mk id node children⟩ children
      | .declaration .. | .destructuring .. | .assignment _ =>
          positionsAll c children ++ [⟨c, mk id node children⟩]
      | _ => ⟨c, mk id node children⟩ :: positionsAll c children

/-- The positions of trees that are read one after the other. -/
def positionsAll (c : Context) : List Tree → List Position
  | [] => []
  | t :: rest => t.positions c ++ positionsAll (c.after t) rest

/-- The positions of a loop over items: the items are read before the loop binds anything. -/
def iterationPositions (c inside : Context) (here : Position) : List Tree → List Position
  | [] => [here]
  | items :: rest => items.positions c ++ here :: positionsAll inside rest

end

end Tree

namespace Lexical.Position

open Resolution (ResolutionError)

/-- The number of the node. -/
def id (q : Position) : NodeId :=
  q.tree.id

/-- The construct of the node. -/
def construct (q : Position) : Construct :=
  q.tree.construct

/-- Where the node was read. -/
def span (q : Position) : Span :=
  q.tree.node.span

@[simp] theorem id_mk (c : Context) (id : NodeId) (node : Node) (children : List Tree) :
    (⟨c, .mk id node children⟩ : Position).id = id := rfl

@[simp] theorem construct_mk (c : Context) (id : NodeId) (node : Node) (children : List Tree) :
    (⟨c, .mk id node children⟩ : Position).construct = node.construct := rfl

/-- The name that a node uses the binding of, if it is a reference or the call of a function. -/
def use? (q : Position) : Option String :=
  match q.construct with
  | .reference name | .functionCall name => some name
  | _ => none

/-- A function uses no name. -/
theorem use?_of_isFunction {q : Position} (hFunction : q.construct.isFunction = true) :
    q.use? = none := by
  unfold use?
  cases hConstruct : q.construct <;> simp [hConstruct, Construct.isFunction] at hFunction
  rfl

/-- What the rules of scope ask of a position: a reference is to something declared or global, an
assignment is to something declared in the same function that may be set again, and nothing is
declared under the empty name. -/
structure Lawful (globals : List String) (q : Position) : Prop where
  reference : ∀ name, q.construct = .reference name →
    (∃ d, q.context.lookup? name = some d) ∨ name ∈ globals
  assignment : ∀ name, q.construct = .assignment name →
    ∃ d, q.context.lookup? name = some d ∧ d.mutability = .mutable ∧ d.depth = q.context.depth
  binding : ∀ name mutability, (some name, mutability) ∈ q.construct.bindings → name ≠ ""

/-- What is wrong with a position, if anything is. -/
def fault? (globals : List String) (q : Position) : Option ResolutionError :=
  match q.construct with
  | .reference name =>
      if (q.context.lookup? name).isSome || globals.contains name then none
      else some (.unresolved name q.span)
  | .assignment name =>
      match q.context.lookup? name with
      | none => some (.unresolved name q.span)
      | some d =>
          if d.mutability = .constant then some (.constantAssigned name q.span)
          else if d.depth = q.context.depth then none
          else some (.capturedAssigned name q.span)
  | construct =>
      if construct.bindings.any (·.1 = some "") then some (.scope .namelessBinding) else none

/-- A position satisfies the rules of scope exactly if nothing is wrong with it. -/
theorem lawful_iff (globals : List String) (q : Position) :
    q.Lawful globals ↔ q.fault? globals = none := by
  unfold fault?
  constructor
  · intro hLawful
    cases hConstruct : q.construct with
    | reference name =>
        rcases hLawful.reference name hConstruct with ⟨d, hLookup⟩ | hGlobal
        · simp [hLookup]
        · simp [hGlobal]
    | assignment name =>
        obtain ⟨d, hLookup, hMutable, hDepth⟩ := hLawful.assignment name hConstruct
        simp [hLookup, hMutable, hDepth]
    | _ =>
        simp only [ite_eq_right_iff, reduceCtorEq, imp_false, List.any_eq_true, decide_eq_true_eq,
          not_exists, not_and]
        rintro ⟨name, mutability⟩ hMem hName
        simp only at hName
        subst hName
        exact hLawful.binding "" mutability (by rw [hConstruct]; exact hMem) rfl
  · intro hFault
    refine ⟨?_, ?_, ?_⟩
    · intro name hConstruct
      rw [hConstruct] at hFault
      simp only [ite_eq_left_iff, reduceCtorEq, imp_false, Classical.not_not, Bool.or_eq_true,
        List.contains_iff_mem, Option.isSome_iff_exists] at hFault
      exact hFault
    · intro name hConstruct
      rw [hConstruct] at hFault
      cases hLookup : q.context.lookup? name with
      | none => simp [hLookup] at hFault
      | some d =>
          simp only [hLookup] at hFault
          by_cases hConstant : d.mutability = .constant
          · simp [hConstant] at hFault
          · by_cases hDepth : d.depth = q.context.depth
            · refine ⟨d, rfl, ?_, hDepth⟩
              cases hMutability : d.mutability with
              | constant => exact absurd hMutability hConstant
              | mutable => rfl
            · simp [hConstant, hDepth] at hFault
    · rintro name mutability hMem rfl
      cases hConstruct : q.construct <;> rw [hConstruct] at hMem hFault
      case reference => cases hMem
      case assignment => cases hMem
      all_goals
        simp only [ite_eq_right_iff, reduceCtorEq, imp_false, List.any_eq_true,
          decide_eq_true_eq, not_exists, not_and] at hFault
        exact hFault _ hMem rfl

end Lexical.Position

end LateBinding
