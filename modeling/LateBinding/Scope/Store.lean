import LateBinding.Scope.Table

/-!
# Nested scopes

The scopes of a program in one store.  A scope is opened inside another one or on its own, and a
name is looked up in a scope, then in the scope around it, and so on.  A snapshot is a scope on its
own that owns a copy of everything visible from another one.
-/

namespace LateBinding.Scope

/-- All scopes, numbered from 0 in the order in which they were opened. -/
structure Store where
  tables : Array Table

namespace Store

/-- The store without scopes. -/
def empty : Store := ⟨#[]⟩

/-- The number of scopes. -/
def size (s : Store) : Nat :=
  s.tables.size

/-- The bindings of a scope. -/
def table? (s : Store) (id : ScopeId) : Option Table :=
  s.tables[id.index]?

/-- The scope around a scope. -/
def parent? (s : Store) (id : ScopeId) : Option ScopeId :=
  (s.table? id).bind Table.parent

/-- Adds a scope with given bindings. -/
def push (s : Store) (t : Table) : ScopeId × Store :=
  (⟨s.size⟩, ⟨s.tables.push t⟩)

/-- The store with the bindings of one scope changed. -/
def modify (s : Store) (id : ScopeId) (change : Table → Table) : Store :=
  ⟨s.tables.modify id.index change⟩

/-- Opens a scope on its own. -/
def openRoot (s : Store) : ScopeId × Store :=
  s.push (Table.empty none)

/-- Opens a scope inside another one. -/
def openInside (s : Store) (id : ScopeId) : Except ScopeError (ScopeId × Store) :=
  match s.table? id with
  | none => .error (.unknownScope id)
  | some _ => .ok (s.push (Table.empty (some id)))

/-- A scope, the one around it, and so on, for at most `steps` scopes. -/
def climb (s : Store) : Nat → ScopeId → List ScopeId
  | 0, _ => []
  | steps + 1, id =>
      match s.table? id with
      | none => []
      | some t =>
          id ::
            match t.parent with
            | none => []
            | some parent => s.climb steps parent

/-- A scope and the scopes around it, the innermost first.  A scope is opened after the one around
it, so its number bounds how many there are. -/
def chain (s : Store) (id : ScopeId) : List ScopeId :=
  s.climb (id.index + 1) id

/-- The binding that a scope itself declares for a name. -/
def owned? (s : Store) (id : ScopeId) (name : String) : Option Binding :=
  (s.table? id).bind (·.find? name)

/-- The binding that a name has in a scope: the one of the innermost scope that declares it. -/
def lookup? (s : Store) (id : ScopeId) (name : String) : Option Binding :=
  (s.chain id).findSome? (s.owned? · name)

/-- Whether a name has a binding in a scope. -/
def isVisible (s : Store) (id : ScopeId) (name : String) : Bool :=
  (s.lookup? id name).isSome

/-- The innermost scope that declares a name, seen from a scope. -/
def owner? (s : Store) (id : ScopeId) (name : String) : Option ScopeId :=
  (s.chain id).find? fun scope => (s.owned? scope name).isSome

/-- The bindings that a scope itself declares, in order; an unknown scope declares none. -/
def owned (s : Store) (id : ScopeId) : List Binding :=
  ((s.table? id).map (·.bindings.toList)).getD []

/-- The names that a scope itself declares, in order. -/
def ownedNames (s : Store) (id : ScopeId) : List String :=
  (s.owned id).map Binding.name

/-- A list of bindings with one more: in the place of the one of that name, or else at the end. -/
def overlay : List Binding → Binding → List Binding
  | [], b => [b]
  | a :: rest, b => if a.name = b.name then b :: rest else a :: overlay rest b

/-- Every binding visible in a scope.  A name stands where the outermost scope that declares it puts
it, with the binding of the innermost one. -/
def visible (s : Store) (id : ScopeId) : List Binding :=
  ((s.chain id).reverse.flatMap s.owned).foldl overlay []

/-- Every name visible in a scope. -/
def visibleNames (s : Store) (id : ScopeId) : List String :=
  (s.visible id).map Binding.name

/-- Declares a binding in a scope. -/
def declare (s : Store) (id : ScopeId) (b : Binding) : Except ScopeError Store :=
  match s.table? id with
  | none => .error (.unknownScope id)
  | some _ =>
      if b.name = "" then .error .namelessBinding else .ok (s.modify id (·.insert b))

/-- Declares bindings in a scope one by one, up to the first that is refused; the ones before it
stay. -/
def declareAll (s : Store) (id : ScopeId) : List Binding → Option ScopeError × Store
  | [] => (if (s.table? id).isSome then none else some (.unknownScope id), s)
  | b :: rest =>
      match s.declare id b with
      | .error e => (some e, s)
      | .ok next => next.declareAll id rest

/-- Takes away a binding that a scope itself declares. -/
def remove (s : Store) (id : ScopeId) (name : String) : Option Binding × Store :=
  match s.table? id with
  | none => (none, s)
  | some t => ((t.erase name).1, s.modify id fun t => (t.erase name).2)

/-- Takes away a binding that a scope itself declares; the scope must be known. -/
def removeKnown (s : Store) (id : ScopeId) (name : String) :
    Except ScopeError (Option Binding × Store) :=
  match s.table? id with
  | none => .error (.unknownScope id)
  | some _ => .ok (s.remove id name)

/-- Gives a slot to a binding that a scope itself declares. -/
def setSlot (s : Store) (id : ScopeId) (name : String) (slot : Nat) : Store :=
  s.modify id (·.update name fun b => { b with slot := some slot })

/-- Marks a binding that a scope itself declares as read by a closure, or not. -/
def setCaptured (s : Store) (id : ScopeId) (name : String) (captured : Bool) : Store :=
  s.modify id (·.update name fun b => { b with captured := captured })

/-- Marks no binding of a scope as read by a closure. -/
def clearCaptured (s : Store) (id : ScopeId) : Store :=
  s.modify id (·.updateAll fun b => { b with captured := false })

/-- The bindings of a snapshot: the visible ones, with their own slots or with slots counted from
0. -/
def snapshotBindings (s : Store) (id : ScopeId) (keepsSlots : Bool) : List Binding :=
  if keepsSlots then s.visible id
  else (s.visible id).mapIdx fun i b => { b with slot := some i }

/-- Opens a scope on its own that owns everything visible in another one. -/
def snapshot (s : Store) (id : ScopeId) (keepsSlots : Bool) :
    Except ScopeError (ScopeId × Store) :=
  match s.table? id with
  | none => .error (.unknownScope id)
  | some _ =>
      .ok (s.push ((s.snapshotBindings id keepsSlots).foldl Table.insert (Table.empty none)))

theorem table?_push (s : Store) (t : Table) (id : ScopeId) :
    (s.push t).2.table? id = if id.index = s.size then some t else s.table? id :=
  Array.getElem?_push

theorem table?_modify (s : Store) (id other : ScopeId) (change : Table → Table) :
    (s.modify id change).table? other =
      if other = id then (s.table? other).map change else s.table? other := by
  have key : (other = id) ↔ id.index = other.index := by
    cases id; cases other; simp [eq_comm]
  simp only [table?, modify, Array.getElem?_modify, key]

theorem table?_eq_none_iff (s : Store) (id : ScopeId) : s.table? id = none ↔ s.size ≤ id.index := by
  simp [table?, size]

end Store

end LateBinding.Scope
