import LateBinding.Class.Registry

/-!
# Choosing among overloads

Methods may share a name when their parameters differ.  A call sees the methods of its name and
number of arguments declared on the type of its receiver or inherited, where a nearer declaration
hides a farther one with the same parameters.  Of those that take the arguments, the one is called
that is at least as specific as every other.
-/

namespace LateBinding.Class.Registry

open Dispatch (DispatchError)

/-- Whether a method answers to a name with a number of arguments. -/
def answersTo (name : String) (arity : Nat) (m : Method) : Bool :=
  m.name = name && m.arity = arity

/-- The methods of a list that no earlier one hides by having the same parameters. -/
def unhidden : List Method → List Method
  | [] => []
  | m :: rest => m :: (unhidden rest).filter (·.params ≠ m.params)

/-- The methods of a name and a number of arguments that a receiver has, the nearest declaration
first. -/
def candidates (r : Registry) (receiver : Tag) (name : String) (arity : Nat) : List Method :=
  unhidden (((r.lineage receiver).flatMap r.declared).filter (answersTo name arity))

/-- Whether the parameters of a method take arguments of given types. -/
def takes (r : Registry) (args : List Tag) (m : Method) : Bool :=
  (m.params.zip args).all fun (param, arg) => r.accepts param arg

/-- Whether a parameter is at least as specific as another: whatever it takes, the other takes. -/
def isNarrower (r : Registry) : Param → Param → Bool
  | _, .any => true
  | .any, .exact _ => false
  | .exact a, .exact b => r.isAssignable a b

/-- Whether every parameter of a method is at least as specific as that of another. -/
def isMoreSpecific (r : Registry) (m n : Method) : Bool :=
  (m.params.zip n.params).all fun (a, b) => r.isNarrower a b

/-- The methods that a call could run. -/
def applicable (r : Registry) (name : String) (receiver : Tag) (args : List Tag) : List Method :=
  (r.candidates receiver name args.length).filter (r.takes args)

/-- The method that a call runs, given the types of its receiver and its arguments. -/
def chooseMethod (r : Registry) (name : String) : List Tag → Except DispatchError Method
  | [] => .error (.wrongArity name 1 0)
  | receiver :: args =>
      let methods := r.applicable name receiver args
      if methods.isEmpty then .error (.noSuchMethod name (r.typeName receiver) args.length)
      else
        match methods.filter fun m => methods.all (r.isMoreSpecific m) with
        | [winner] => .ok winner
        | _ => .error (.ambiguous name (r.typeName receiver) (methods.map r.signature))

theorem mem_applicable_iff (r : Registry) (name : String) (receiver : Tag) (args : List Tag)
    (m : Method) :
    m ∈ r.applicable name receiver args ↔
      m ∈ r.candidates receiver name args.length ∧ r.takes args m = true := by
  simp [applicable]

theorem chooseMethod_eq_noSuchMethod_iff (r : Registry) (name : String) (receiver : Tag)
    (args : List Tag) :
    r.chooseMethod name (receiver :: args) =
        .error (.noSuchMethod name (r.typeName receiver) args.length) ↔
      r.applicable name receiver args = [] := by
  simp only [chooseMethod]
  split
  · simp_all
  · split <;> simp_all

end LateBinding.Class.Registry
