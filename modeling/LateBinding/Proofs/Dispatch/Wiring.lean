import LateBinding.Proofs.Dispatch.Transparency
import LateBinding.Proofs.Resolution.Calls

/-!
# From a program to its call sites

A resolved program lists its dynamic calls, and linking makes a site of each.  The list is the walk
through the program from its root, without the nodes that are no dynamic calls; so the sites belong
to the nodes one by one, and a site that gets one value for each child of its node has the number of
operands that it asks for.

* `Runtime.resolve_ne_wrongArity` - a lookup does not complain about a number of operands that goes
  with what is looked up.
* `Linkage.sites_link`, `Linkage.invoke?_run_link` - the sites of a list of calls, and what a call of
  one of them does after any others.
* `calls_preorder` - the dynamic calls of a program, from its tree to its sites.
-/

namespace LateBinding.Dispatch

open LateBinding.Resolution (Options Outcome resolve)
open LateBinding.Class (Registry)

/-! ### The number of operands -/

/-- An operator that is not defined on as many operands as it takes says so by their types. -/
theorem undefinedOn_ne_wrongArity {op : Operator} {operands : List Value}
    (hCount : operands.length = op.arity) (name : String) (expected actual : Nat) :
    op.undefinedOn operands ≠ .wrongArity name expected actual := by
  have hArity : op.arity = 1 ∨ op.arity = 2 := by cases op <;> decide
  intro hError
  rcases operands with _ | ⟨a, _ | ⟨b, _ | ⟨c, rest⟩⟩⟩
  · rcases hArity with hOne | hTwo <;> simp_all
  · cases hError
  · cases hError
  · rcases hArity with hOne | hTwo <;> simp_all

/-- Where a method is called on a receiver, the choice of the method does not complain about a number
of operands. -/
theorem chooseMethod_ne_wrongArity (r : Registry) (called : String) (receiver : Tag)
    (args : List Tag) (name : String) (expected actual : Nat) :
    r.chooseMethod called (receiver :: args) ≠ .error (.wrongArity name expected actual) := by
  intro hError
  simp only [Registry.chooseMethod] at hError
  split at hError
  · cases hError
  · split at hError <;> cases hError

/-- Where the number of operands goes with what is looked up, the lookup does not complain about
it. -/
theorem Runtime.resolve_ne_wrongArity (rt : Runtime) {selector : Selector} {operands : List Value}
    (hTakes : selector.Takes operands.length) (name : String) (expected actual : Nat) :
    rt.resolve selector operands ≠ .error (.wrongArity name expected actual) := by
  cases selector with
  | operator op =>
      intro hError
      rw [resolve] at hError
      split at hError
      · cases hError
      · exact undefinedOn_ne_wrongArity hTakes name expected actual (Except.error.inj hError)
  | method called =>
      cases operands with
      | nil => cases hTakes
      | cons receiver args =>
          intro hError
          rw [resolve, Value.tags, List.map_cons] at hError
          cases hChosen : rt.registry.chooseMethod called (receiver.tag :: args.map Value.tag) with
          | ok m => simp [hChosen, Except.map] at hError
          | error e =>
              rw [hChosen, Except.map, Except.error.injEq] at hError
              rw [hError] at hChosen
              exact chooseMethod_ne_wrongArity _ _ _ _ _ _ _ hChosen

/-! ### The sites of a list of calls -/

namespace Linkage

/-- Linking makes a site of each call, in order. -/
theorem sites_link (rt : Runtime) (calls : List DynamicCall) :
    (link rt calls).sites.toList.map Site.call = calls := by
  rw [link, List.map_map]
  exact List.map_id calls

/-- After any calls of sites, the call of a site with as many operands as it asks for looks an
implementation up and runs it. -/
theorem invoke?_run_link (registry : Registry) (policy : Policy) {calls : List DynamicCall}
    (steps : List (Nat × List Value)) {i : Nat} {c : DynamicCall} {operands : List Value}
    (hCall : calls[i]? = some c) (hCount : operands.length = c.arity) :
    (((link (Runtime.ofRegistry registry policy) calls).run steps).2.invoke? i operands).1 =
      some (((Runtime.ofRegistry registry policy).resolve c.selector operands).bind
        fun target => target.invoke operands) := by
  have hCoherent := ((coherent_link registry policy calls).run steps).2
  rw [(hCoherent.invoke? i operands).1, hCall, Option.map_some, Runtime.dispatch, if_pos hCount]
  rfl

end Linkage

/-! ### The dynamic calls of a program -/

/-- The dynamic calls of a program that resolves are the operators and method calls met by the walk
below its root, closures included, in the order of the walk and each once; the resolved program has
the same walk.  Each call is numbered by its place, and has the span of its node, what its node looks
up, and as many operands as the node has children, which is what an operator takes.  Linking makes a
site of each call, in order; and whenever a site is called with one value for each child of its node,
it goes on to look an implementation up, which does not complain about the number of operands. -/
theorem calls_preorder {origin : Option String} {edits : List Forest.Edit} {options : Options}
    {f : Forest} {t : Tree} {r : Outcome} (hMade : f = (Forest.initial origin).after edits)
    (hTree : f.rootTree? = some t) (hShaped : t.IsWellShaped)
    (hResolved : resolve options f = .ok r) :
    (f.root = some t.id ∧ r.forest.root = some t.id) ∧
      r.calls.map DynamicCall.node =
        (f.descendants t.id).filter (fun id => (f.selector? id).isSome) ∧
      r.calls.map DynamicCall.node =
        (r.forest.descendants t.id).filter (fun id => (r.forest.selector? id).isSome) ∧
      (r.calls.map DynamicCall.node).Nodup ∧
      (∀ (i : Nat) (c : DynamicCall), r.calls[i]? = some c → c.id = i ∧
        ∃ n, f.node? c.node = some n ∧ n.construct.selector? = some c.selector ∧
          c.span = n.span ∧ c.arity = n.children.length ∧
          ∀ op, c.selector = .operator op → c.arity = op.arity) ∧
      ∀ (registry : Registry) (policy : Policy),
        (Linkage.link (Runtime.ofRegistry registry policy) r.calls).sites.toList.map Site.call =
          r.calls ∧
        ∀ (steps : List (Nat × List Value)) (i : Nat) (c : DynamicCall) (operands : List Value),
          r.calls[i]? = some c →
          operands.length = (f.children c.node).length →
          (((Linkage.link (Runtime.ofRegistry registry policy) r.calls).run steps).2.invoke?
              i operands).1 =
            some (((Runtime.ofRegistry registry policy).resolve c.selector operands).bind
              fun target => target.invoke operands) ∧
          ∀ name expected actual, (Runtime.ofRegistry registry policy).resolve c.selector operands ≠
            .error (.wrongArity name expected actual) := by
  have hLinked : f.Linked := by
    rw [hMade]
    exact Forest.linked_after origin edits
  have hRoot := (Resolution.root_of_rootTree? hLinked hTree).1
  have hCalls := Resolution.map_node_calls_of_resolve hLinked hTree hShaped hResolved
  obtain ⟨slots, names, hForest⟩ := Resolution.exists_annotate hResolved
  refine ⟨⟨hRoot, ?_⟩, hCalls, ?_, ?_, ?_, ?_⟩
  · rw [hForest, Resolution.root_annotate, hRoot]
  · simp only [hForest, Resolution.descendants_annotate, Resolution.selector?_annotate, hCalls]
  · rw [hCalls]
    exact (hLinked.nodup_descendants t.id).filter _
  · intro i c hCall
    obtain ⟨hId, n, hNode, hSelector, hSpan, hArity, hTakes⟩ :=
      Resolution.node_of_call hLinked hTree hShaped hResolved hCall
    refine ⟨hId, n, hNode, hSelector, hSpan, hArity, ?_⟩
    intro op hOperator
    rw [hOperator] at hTakes
    exact hTakes
  · intro registry policy
    refine ⟨Linkage.sites_link _ _, ?_⟩
    intro steps i c operands hCall hCount
    obtain ⟨-, n, hNode, -, -, hArity, hTakes⟩ :=
      Resolution.node_of_call hLinked hTree hShaped hResolved hCall
    have hOperands : operands.length = c.arity := by
      rw [hCount, hArity, Forest.children_eq_of_node? hNode]
    refine ⟨Linkage.invoke?_run_link registry policy steps hCall hOperands, ?_⟩
    intro name expected actual
    apply Runtime.resolve_ne_wrongArity
    rw [hOperands]
    exact hTakes

/-- A module whose function calls a method with a closure, in which two operators are used. -/
def mappingEdits : List Forest.Edit :=
  [.build (.function ⟨0⟩ "scale" ["xs", "k"] .synthetic),
    .build (.reference "xs" .synthetic),
    .build (.closure ["x"] .synthetic),
    .build (.reference "x" .synthetic),
    .build (.reference "k" .synthetic),
    .build (.unary .negate ⟨8⟩ .synthetic),
    .build (.binary .times ⟨7⟩ ⟨9⟩ .synthetic),
    .build (.returning ⟨6⟩ (some ⟨10⟩) .synthetic),
    .build (.methodCall ⟨3⟩ "map" [⟨4⟩] .synthetic),
    .build (.returning ⟨2⟩ (some ⟨12⟩) .synthetic)]

/-- The forest of this module. -/
def mappingForest : Forest :=
  (Forest.initial (some "m")).after mappingEdits

/-- The tree of this module. -/
def mappingTree : Tree :=
  mappingForest.rootTree?.get (by decide +kernel)

/-- The method call comes first, then the multiplication in the closure, and then the negation that
was made before both. -/
theorem calls_preorder_mapping : mappingForest.rootTree? = some mappingTree ∧
    mappingTree.IsWellShaped ∧ ∃ r, resolve ⟨[]⟩ mappingForest = .ok r ∧
      r.calls.map DynamicCall.node = [⟨12⟩, ⟨10⟩, ⟨9⟩] := by
  have hTree : mappingForest.rootTree? = some mappingTree := by
    rw [mappingTree, Option.some_get]
  have hShaped : mappingTree.IsWellShaped := by
    unfold Tree.IsWellShaped
    decide +kernel
  have hSome : (resolve ⟨[]⟩ mappingForest).toOption.isSome = true := by decide +kernel
  obtain ⟨r, hResolved⟩ : ∃ r, resolve ⟨[]⟩ mappingForest = .ok r := by
    cases hResult : resolve ⟨[]⟩ mappingForest with
    | ok r => exact ⟨r, rfl⟩
    | error e =>
        rw [hResult] at hSome
        cases hSome
  refine ⟨hTree, hShaped, r, hResolved, ?_⟩
  rw [(calls_preorder rfl hTree hShaped hResolved).2.1]
  decide +kernel

end LateBinding.Dispatch
