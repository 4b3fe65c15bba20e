import LateBinding.Dispatch.Error
import LateBinding.Value.Basic

/-!
# Classes and methods

A registry holds the classes of a program, each with at most one superclass, and the methods that can
be called on objects and on other values.  A class is registered after its superclass, so the way up
from a class ends.
-/

namespace LateBinding.Class

open Dispatch (DispatchError)

/-- A class: its number, its name, and its superclass. -/
structure Definition where
  id : ClassId
  name : String
  parent : Option ClassId
deriving DecidableEq, Repr

/-- What a parameter of a method takes: anything, or values of one type and of the types that can
stand in for it. -/
inductive Param where
  | any
  | exact (tag : Tag)
deriving DecidableEq, Repr

/-- A method: the type it is declared on, its parameters without the receiver, and its body, which
is run on the receiver and the arguments. -/
structure Method where
  name : String
  receiver : Tag
  params : List Param
  body : List Value → Except DispatchError Value

namespace Method

/-- The number of parameters, the receiver not counted. -/
def arity (m : Method) : Nat :=
  m.params.length

/-- Runs a method on its receiver and arguments. -/
def invoke (m : Method) (operands : List Value) : Except DispatchError Value :=
  if operands.length = m.arity + 1 then m.body operands
  else .error (.wrongArity m.name (m.arity + 1) operands.length)

end Method

/-- The classes by number, and the methods in the order in which they were registered. -/
structure Registry where
  classes : Array Definition
  methods : List Method

namespace Registry

/-- The registry without classes and methods. -/
def empty : Registry where
  classes := #[]
  methods := []

/-- The number of classes. -/
def size (r : Registry) : Nat :=
  r.classes.size

/-- The class of a number. -/
def class? (r : Registry) (id : ClassId) : Option Definition :=
  r.classes[id.index]?

/-- The class of a name, the last one registered if there are several. -/
def classNamed? (r : Registry) (name : String) : Option Definition :=
  r.classes.toList.reverse.find? (·.name = name)

/-- Registers a class; its superclass must be registered before it. -/
def addClass (r : Registry) (name : String) (parent : Option ClassId) :
    Except DispatchError (ClassId × Registry) :=
  let id : ClassId := ⟨r.size⟩
  let next : Registry := { r with classes := r.classes.push ⟨id, name, parent⟩ }
  match parent with
  | none => .ok (id, next)
  | some p =>
      match r.class? p with
      | none => .error (.unknownClass p)
      | some _ => .ok (id, next)

/-- Whether two methods are declared on one type with one name and one list of parameters. -/
def sameDeclaration (m n : Method) : Bool :=
  m.receiver = n.receiver && m.name = n.name && m.params = n.params

/-- The registry with a method registered last, in place of the one with the same declaration. -/
def withMethod (r : Registry) (m : Method) : Registry :=
  { r with methods := r.methods.filter (fun n => !sameDeclaration n m) ++ [m] }

/-- Registers a method; a class that it is declared on must be registered. -/
def addMethod (r : Registry) (m : Method) : Except DispatchError Registry :=
  match m.receiver with
  | .object cls =>
      match r.class? cls with
      | none => .error (.unknownClass cls)
      | some _ => .ok (r.withMethod m)
  | _ => .ok (r.withMethod m)

/-- An object of a class, told apart from all others by its serial number. -/
def instantiate (r : Registry) (serial : Nat) (cls : ClassId) (fields : List Value) :
    Except DispatchError Value :=
  match r.class? cls with
  | none => .error (.unknownClass cls)
  | some c => .ok (.object serial cls c.name fields)

/-- The methods declared on a type itself, in the order of registration. -/
def declared (r : Registry) (receiver : Tag) : List Method :=
  r.methods.filter (·.receiver = receiver)

/-- A class, its superclass, and so on, for at most `steps` classes. -/
def climb (r : Registry) : Nat → ClassId → List ClassId
  | 0, _ => []
  | steps + 1, cls =>
      cls ::
        match (r.class? cls).bind Definition.parent with
        | none => []
        | some parent => r.climb steps parent

/-- A class and its superclasses, the nearest first.  A class has a greater number than its
superclass, so its number bounds how many there are. -/
def superclasses (r : Registry) (cls : ClassId) : List ClassId :=
  r.climb (cls.index + 1) cls

/-- A type and the types it inherits methods from, the nearest first. -/
def lineage (r : Registry) : Tag → List Tag
  | .object cls => (r.superclasses cls).map .object
  | t => [t]

/-- The number of steps from a class up to another. -/
def distance? (r : Registry) (cls ancestor : ClassId) : Option Nat :=
  (r.superclasses cls).idxOf? ancestor

/-- Whether a class is another one or lies below it. -/
def isSubclass (r : Registry) (cls ancestor : ClassId) : Bool :=
  (r.distance? cls ancestor).isSome

/-- Whether a value of type `source` can stand in for one of type `target`: an object for one of a
superclass, null for a text or an object, and a number for one of a wider type. -/
def isAssignable (r : Registry) (source target : Tag) : Bool :=
  source = target ||
    match source, target with
    | .object cls, .object ancestor => r.isSubclass cls ancestor
    | .null, .text => true
    | .null, .object _ => true
    | _, _ =>
        match source.width?, target.width? with
        | some v, some w => v.rank ≤ w.rank
        | _, _ => false

/-- Whether a parameter takes arguments of a type. -/
def accepts (r : Registry) : Param → Tag → Bool
  | .any, _ => true
  | .exact expected, argument => r.isAssignable argument expected

/-- The name of a type as messages show it. -/
def typeName (r : Registry) : Tag → String
  | .object cls =>
      match r.class? cls with
      | some c => c.name
      | none => (Tag.object cls).name
  | t => t.name

/-- What a parameter takes, as messages show it. -/
def paramName (r : Registry) : Param → String
  | .any => "any"
  | .exact tag => r.typeName tag

/-- A method with its parameters, as messages show it. -/
def signature (r : Registry) (m : Method) : String :=
  m.name ++ "(" ++ String.intercalate ", " (m.params.map r.paramName) ++ ")"

theorem class?_eq_none_iff (r : Registry) (id : ClassId) : r.class? id = none ↔ r.size ≤ id.index := by
  simp [class?, size]

theorem mem_declared_iff (r : Registry) (receiver : Tag) (m : Method) :
    m ∈ r.declared receiver ↔ m ∈ r.methods ∧ m.receiver = receiver := by
  simp [declared]

end Registry

end LateBinding.Class
