import Std.Data.TreeMap
import LateBinding.Scope.Binding

/-!
# The bindings of one scope

A table holds the bindings that one scope declares, in the order in which their names were first
declared, with an index from names to positions.  Declaring a name again changes its binding in
place.
-/

namespace LateBinding.Scope

/-- The scope around a scope, its own bindings in order, and the position of each name. -/
structure Table where
  parent : Option ScopeId
  bindings : Array Binding
  positions : Std.TreeMap String Nat

namespace Table

/-- The table without bindings. -/
def empty (parent : Option ScopeId) : Table where
  parent := parent
  bindings := #[]
  positions := ∅

/-- The binding of a name. -/
def find? (t : Table) (name : String) : Option Binding :=
  t.positions[name]?.bind (t.bindings[·]?)

/-- Declares a binding: in the place of the one of that name, or else at the end. -/
def insert (t : Table) (b : Binding) : Table :=
  match t.positions[b.name]? with
  | some i => { t with bindings := t.bindings.setIfInBounds i b }
  | none =>
      { t with
        bindings := t.bindings.push b
        positions := t.positions.insert b.name t.bindings.size }

/-- Takes the binding of a name away; those behind it move up by one place. -/
def erase (t : Table) (name : String) : Option Binding × Table :=
  match t.positions[name]? with
  | none => (none, t)
  | some i =>
      (t.bindings[i]?,
        { t with
          bindings := t.bindings.eraseIdxIfInBounds i
          positions := (t.positions.erase name).map fun _ j => if i < j then j - 1 else j })

/-- Changes the binding of a name, in its place.  The change must keep the name. -/
def update (t : Table) (name : String) (change : Binding → Binding) : Table :=
  match t.positions[name]? with
  | none => t
  | some i => { t with bindings := t.bindings.modify i change }

/-- Changes every binding.  The change must keep the names. -/
def updateAll (t : Table) (change : Binding → Binding) : Table :=
  { t with bindings := t.bindings.map change }

end Table

end LateBinding.Scope
