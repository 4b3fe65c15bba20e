import LateBinding.Proofs.Class.RegistrationOrder

/-!
# Registering a method is local

A method that is registered takes part in the hiding of overloads even where it cannot be run: it
hides the farther methods with its parameters.  What it hides takes the same arguments as itself, so
a call that the method is not applicable to has the same applicable methods as before, in the same
order, and comes to the same outcome.

* `unhidden_filter`, `applicable_eq` - hiding among the methods that take the arguments is all the
  hiding that matters.
* `Unconcerned` - why a call has nothing to do with a method.
* `chooseMethod_addMethod` - such a call is not changed by the registration of the method.
-/

namespace LateBinding.Class.Registry

/-- Why a call of a name has nothing to do with a method: the method is not declared in the lineage
of the receiver, or has another name, or another number of parameters, or a parameter that does not
take the argument in its place. -/
inductive Unconcerned (r : Registry) (name : String) (m : Method) : List Tag → Prop where
  | noReceiver : Unconcerned r name m []
  | elsewhere {receiver : Tag} {args : List Tag} (hReceiver : m.receiver ∉ r.lineage receiver) :
      Unconcerned r name m (receiver :: args)
  | otherName {receiver : Tag} {args : List Tag} (hName : m.name ≠ name) :
      Unconcerned r name m (receiver :: args)
  | otherArity {receiver : Tag} {args : List Tag} (hArity : m.params.length ≠ args.length) :
      Unconcerned r name m (receiver :: args)
  | refused {receiver : Tag} {args : List Tag} (i : Nat) {param : Param} {arg : Tag}
      (hParam : m.params[i]? = some param) (hArg : args[i]? = some arg)
      (hRefused : r.accepts param arg = false) : Unconcerned r name m (receiver :: args)

/-! ### Hiding among the methods that matter -/

/-- A choice by parameters may be made before hiding or after it: methods that hide each other are
chosen together or not at all. -/
theorem unhidden_filter {keep : Method → Bool}
    (hKeep : ∀ m n : Method, m.params = n.params → keep m = keep n) (ms : List Method) :
    (unhidden ms).filter keep = unhidden (ms.filter keep) := by
  induction ms with
  | nil => rfl
  | cons m rest ih =>
      rw [unhidden]
      cases hM : keep m with
      | true =>
          rw [List.filter_cons_of_pos hM, List.filter_cons_of_pos hM, unhidden, ← ih,
            List.filter_filter, List.filter_filter]
          simp only [Bool.and_comm]
      | false =>
          have hNot : ¬keep m = true := by simp [hM]
          rw [List.filter_cons_of_neg hNot, List.filter_cons_of_neg hNot, ← ih, List.filter_filter]
          -- what the method hides is not kept either
          refine List.filter_congr fun n _ => ?_
          cases hN : keep n with
          | false => rfl
          | true =>
              have hOther : n.params ≠ m.params := by
                intro hSame
                rw [hKeep n m hSame, hM] at hN
                cases hN
              simpa using hOther

/-- Whether a method could run on arguments, wherever it is declared. -/
def suits (r : Registry) (name : String) (args : List Tag) (m : Method) : Bool :=
  r.takes args m && answersTo name args.length m

/-- The applicable methods are those along the lineage that could run on the arguments, without the
hidden ones. -/
theorem applicable_eq (r : Registry) (name : String) (receiver : Tag) (args : List Tag) :
    r.applicable name receiver args =
      unhidden ((r.lineage receiver).flatMap fun t =>
        (r.declared t).filter (r.suits name args)) := by
  have hTakes : ∀ m n : Method, m.params = n.params → r.takes args m = r.takes args n := by
    intro m n hSame
    rw [takes, takes, hSame]
  rw [applicable, candidates, unhidden_filter hTakes, List.filter_filter, List.filter_flatMap]
  rfl

/-- A method does not suit a call that has nothing to do with it. -/
theorem suits_eq_false_of_unconcerned {r : Registry} {name : String} {m : Method} {receiver : Tag}
    {args : List Tag} (hUnconcerned : r.Unconcerned name m (receiver :: args))
    (hReceiver : m.receiver ∈ r.lineage receiver) : r.suits name args m = false := by
  cases hUnconcerned with
  | elsewhere hElsewhere => exact absurd hReceiver hElsewhere
  | otherName hName => simp [suits, answersTo, hName]
  | otherArity hArity => simp [suits, answersTo, Method.arity, hArity]
  | @refused _ _ i param arg hParam hArg hRefused =>
      have hPair : (param, arg) ∈ m.params.zip args :=
        List.mem_of_getElem? (List.getElem?_zip_eq_some.mpr ⟨hParam, hArg⟩)
      have hTakes : r.takes args m = false := by
        rw [takes, List.all_eq_false]
        exact ⟨(param, arg), hPair, by simp [hRefused]⟩
      rw [suits, hTakes, Bool.false_and]

/-! ### The registration -/

/-- A type declares what it declared before, and the new method if it is the method's own type. -/
theorem declared_withMethod {r : Registry} {m : Method}
    (hNew : ∀ n ∈ r.declared m.receiver, ¬(n.name = m.name ∧ n.params = m.params)) (t : Tag) :
    (r.withMethod m).declared t = r.declared t ++ if m.receiver = t then [m] else [] := by
  have hOther : ∀ n ∈ r.methods, sameDeclaration n m = false := by
    intro n hN
    by_cases hReceiver : n.receiver = m.receiver
    · have hDifferent := hNew n ((mem_declared_iff r m.receiver n).mpr ⟨hN, hReceiver⟩)
      simpa [sameDeclaration, hReceiver] using hDifferent
    · simp [sameDeclaration, hReceiver]
  rw [declared, methods_withMethod hOther, List.filter_append, declared]
  split
  · rename_i hReceiver
    rw [List.filter_cons_of_pos (by simpa using hReceiver), List.filter_nil]
  · rename_i hReceiver
    rw [List.filter_cons_of_neg (by simpa using hReceiver), List.filter_nil]

/-- Registries with the same classes choose alike among the same applicable methods. -/
theorem chooseMethod_congr_of_applicable {r s : Registry} (hClasses : r.classes = s.classes)
    {name : String} {receiver : Tag} {args : List Tag}
    (hApplicable : r.applicable name receiver args = s.applicable name receiver args) :
    r.chooseMethod name (receiver :: args) = s.chooseMethod name (receiver :: args) := by
  have hNarrower : r.isNarrower = s.isNarrower := by
    funext p q
    cases p <;> cases q <;> simp only [isNarrower, isAssignable_congr hClasses]
  have hSpecific : r.isMoreSpecific = s.isMoreSpecific := by
    funext m n
    rw [isMoreSpecific, isMoreSpecific, hNarrower]
  rw [chooseMethod, chooseMethod, hApplicable, hSpecific, typeName_congr hClasses,
    signature_congr hClasses]

/-- A call that has nothing to do with a method has the same applicable methods, in the same order,
after the method is registered. -/
theorem applicable_withMethod {r : Registry} {m : Method}
    (hNew : ∀ n ∈ r.declared m.receiver, ¬(n.name = m.name ∧ n.params = m.params))
    {name : String} {receiver : Tag} {args : List Tag}
    (hUnconcerned : r.Unconcerned name m (receiver :: args)) :
    (r.withMethod m).applicable name receiver args = r.applicable name receiver args := by
  have hClasses : (r.withMethod m).classes = r.classes := rfl
  have hSuits : (r.withMethod m).suits name args = r.suits name args := by
    funext n
    simp only [suits, takes, accepts_congr hClasses]
  rw [applicable_eq, applicable_eq, lineage_congr hClasses, hSuits]
  congr 1
  refine List.flatMap_congr fun t hT => ?_
  rw [declared_withMethod hNew, List.filter_append]
  split
  · rename_i hReceiver
    subst hReceiver
    have hNot := suits_eq_false_of_unconcerned hUnconcerned hT
    rw [List.filter_singleton, hNot]
    exact List.append_nil _
  · exact List.append_nil _

/-- **Registering a method is local.**  Take any registry that registrations can make, and a method
that is accepted by it and replaces none that its type declares with the same name and parameters.  A
call that has nothing to do with the method comes to the same outcome after the registration as
before: the same method, or the same refusal, with the same list of methods among which it is
ambiguous. -/
theorem chooseMethod_addMethod (registrations : List Registration) {m : Method} {next : Registry}
    (hAdded : (build registrations).addMethod m = .ok next)
    (hNew : ∀ n ∈ (build registrations).declared m.receiver,
      ¬(n.name = m.name ∧ n.params = m.params))
    {name : String} {signature : List Tag}
    (hUnconcerned : (build registrations).Unconcerned name m signature) :
    next.chooseMethod name signature = (build registrations).chooseMethod name signature := by
  have hNext : next = (build registrations).withMethod m := by
    rcases register_cases (g := .ofMethod m) hAdded with ⟨_, _, hClass, -⟩ | ⟨n, hMethod, -, hNext⟩
    · cases hClass
    · cases hMethod
      exact hNext
  subst hNext
  cases signature with
  | nil => rfl
  | cons receiver args =>
      have hClasses : ((build registrations).withMethod m).classes = (build registrations).classes :=
        rfl
      exact chooseMethod_congr_of_applicable hClasses (applicable_withMethod hNew hUnconcerned)

/-- A class with three overloads of one name, and a class below it. -/
def feedings : List Registration :=
  let feed (first second : Param) : Registration :=
    .ofMethod ⟨"feed", .object ⟨0⟩, [first, second], fun _ => .ok .null⟩
  [.ofClass "Animal" none, .ofClass "Dog" (some ⟨0⟩), feed (.exact .int) .any,
    feed .any (.exact .int), feed (.exact .text) .any]

/-- The last of these overloads, declared by the class below. -/
def feedingByName : Method :=
  ⟨"feed", .object ⟨1⟩, [.exact .text, .any], fun _ => .ok .null⟩

/-- A method that hides an inherited one leaves a call as ambiguous as it was, if it does not take the
arguments. -/
theorem chooseMethod_addMethod_feedings :
    ∃ next, (build feedings).addMethod feedingByName = .ok next ∧
      next.chooseMethod "feed" [.object ⟨1⟩, .int, .int] =
        .error (.ambiguous "feed" "Dog" ["feed(int, any)", "feed(any, int)"]) := by
  have hNew : ∀ n ∈ (build feedings).declared feedingByName.receiver,
      ¬(n.name = feedingByName.name ∧ n.params = feedingByName.params) := by decide
  have hRefused : (build feedings).accepts (.exact .text) .int = false := by decide
  refine ⟨_, rfl, ?_⟩
  rw [chooseMethod_addMethod feedings rfl hNew (.refused 0 rfl rfl hRefused)]
  rfl

end LateBinding.Class.Registry
