import LateBinding.Program.Outline
import LateBinding.Resolution.Pass

/-!
# Resolved programs

Resolving a module gives every use of a binding its storage slot, every function a layout of its
frame, and lists the dynamic calls.  The program keeps its structure; only slots, and names for the
closures, are added to it.
-/

namespace LateBinding.Resolution

open Scope (ScopeId)

/-- What a resolution may be told about the surroundings: names that exist without a slot. -/
structure Options where
  globals : List String
deriving DecidableEq, Repr

/-- A resolved program with everything found out about it. -/
structure Outcome where
  forest : Forest
  scopes : Scope.Store
  layouts : List Layout
  calls : List DynamicCall
  opened : List (NodeId × ScopeId)

/-- The names of functions among the topmost nodes of trees. -/
def functionNames (ts : List Tree) : List String :=
  ts.filterMap fun t =>
    match t.construct with
    | .function name _ _ => some name
    | _ => none

/-- A name is among them exactly if a function of this name stands topmost in one of the trees. -/
theorem mem_functionNames_iff {ts : List Tree} {name : String} :
    name ∈ functionNames ts ↔ ∃ t ∈ ts, t.construct.functionName? = some name :=
  List.mem_filterMap

/-- The forest with slots and names for functions recorded at its nodes. -/
def annotate (f : Forest) (slots : List (NodeId × Nat)) (names : List (NodeId × String)) : Forest :=
  let slotted := slots.foldl
    (fun f (id, slot) => f.modify id fun n => { n with slot := some slot }) f
  names.foldl
    (fun f (id, name) => f.modify id fun n => { n with construct := n.construct.renamed name })
    slotted

/-- Walks a module: its scope stands on its own and stays empty, and its name is the outermost
context of fresh names. -/
def moduleTree (options : Options) : Tree → Except ResolutionError Progress
  | .mk id node children =>
      match node.construct with
      | .module name => do
          let (scope, scopes) := Progress.initial.scopes.openRoot
          let p :=
            { Progress.initial with
              scopes := scopes
              opened := #[(id, scope)]
              names := Progress.initial.names.enter name }
          moduleFunctions (options.globals ++ functionNames children) scope children p
      | other => .error (.malformed (.rootNotModule other))

/-- Resolves the module at the root of a forest. -/
def resolve (options : Options) (f : Forest) : Except ResolutionError Outcome :=
  match f.rootTree? with
  | none => .error (.malformed .noRoot)
  | some t => do
      let p ← moduleTree options t
      return {
        forest := annotate f p.slots.toList p.renamed.toList
        scopes := p.scopes
        layouts := p.layouts.toList
        calls := p.calls.toList
        opened := p.opened.toList }

namespace Outcome

/-- The first layout of a name. -/
def layout? (r : Outcome) (name : String) : Option Layout :=
  r.layouts.find? (·.name = name)

/-- The layout of a function. -/
def layoutOf? (r : Outcome) (function : NodeId) : Option Layout :=
  r.layouts.find? (·.function = function)

/-- The scope that a node opens. -/
def scopeOf? (r : Outcome) (node : NodeId) : Option ScopeId :=
  (r.opened.find? (·.1 = node)).map Prod.snd

/-- The bindings that the scope of a node declares. -/
def localsOf (r : Outcome) (node : NodeId) : List Scope.Binding :=
  ((r.scopeOf? node).map r.scopes.owned).getD []

end Outcome

end LateBinding.Resolution
