import LateBinding.Proofs.Class.Overload
import LateBinding.Proofs.Dispatch.Step
import LateBinding.Proofs.Value.Primitive

/-!
# What is looked up fits

An implementation is looked up by the types of the operands and may be kept; later it runs on other
operands of these types without another look at them.  It fits these too: a primitive has an answer
for them, and a method gets as many arguments as it has parameters, each of a type that its
parameter takes.

* `Registry.of_mem_applicable`, `Registry.mem_applicable_of_chooseMethod` - what is known of the
  method that is chosen, in any registry.
* `Runtime.resolve_cases` - what a lookup finds is a primitive that fits or an applicable method.
* `Runtime.resolve_fits` - what it does on operands of the types that it was looked up for.
-/

namespace LateBinding.Class.Registry

/-- An applicable method has the name, is declared on the receiver's type or above it, and each of
its parameters takes the argument in its place. -/
theorem of_mem_applicable {r : Registry} {name : String} {receiver : Tag} {args : List Tag}
    {m : Method} (hMem : m ∈ r.applicable name receiver args) :
    m.name = name ∧ m.arity = args.length ∧ m.receiver ∈ r.lineage receiver ∧
      m ∈ r.declared m.receiver ∧
      List.Forall₂ (fun param arg => r.accepts param arg = true) m.params args := by
  obtain ⟨hCandidate, hTakes⟩ := (mem_applicable_iff r name receiver args m).mp hMem
  have hListed := (unhidden_sublist _).subset hCandidate
  obtain ⟨hInherited, hAnswers⟩ := List.mem_filter.mp hListed
  obtain ⟨hName, hArity⟩ := (answersTo_iff name args.length m).mp hAnswers
  obtain ⟨t, hLineage, hDeclared⟩ := List.mem_flatMap.mp hInherited
  -- the type that declares a method is the one it is declared on
  obtain rfl : m.receiver = t := by simpa using (List.mem_filter.mp hDeclared).2
  exact ⟨hName, hArity, hLineage, hDeclared, (all_zip_iff_forall₂ r.accepts hArity).mp hTakes⟩

/-- The method that is chosen is applicable. -/
theorem mem_applicable_of_chooseMethod {r : Registry} {name : String} {receiver : Tag}
    {args : List Tag} {m : Method} (hChosen : r.chooseMethod name (receiver :: args) = .ok m) :
    m ∈ r.applicable name receiver args := by
  simp only [chooseMethod] at hChosen
  split at hChosen
  · cases hChosen
  · split at hChosen
    · rename_i winner hWinner
      cases hChosen
      have hMem := List.mem_singleton_self m
      rw [← hWinner] at hMem
      exact List.mem_of_mem_filter hMem
    · cases hChosen

end LateBinding.Class.Registry

namespace LateBinding.Dispatch.Runtime

open LateBinding.Class (Registry Method)

/-- What a lookup finds is a primitive of the operator that works on the types of the operands, or a
method that is applicable to them. -/
theorem resolve_cases {rt : Runtime} {selector : Selector} {operands : List Value} {target : Target}
    (hFound : rt.resolve selector operands = .ok target) :
    (∃ p : Primitive, target = .primitive p ∧ selector = .operator p.operator ∧
      p.Fits (Value.tags operands)) ∨
    ∃ name receiver args m, selector = .method name ∧ target = .method m ∧
      Value.tags operands = receiver :: args ∧ m ∈ rt.registry.applicable name receiver args := by
  cases selector with
  | operator op =>
      simp only [resolve] at hFound
      cases hChosen : op.primitive? (Value.tags operands) with
      | none => simp [hChosen] at hFound
      | some p =>
          simp only [hChosen, Except.ok.injEq] at hFound
          obtain ⟨rfl, hFits⟩ := Primitive.fits_of_primitive? hChosen
          exact Or.inl ⟨p, hFound.symm, rfl, hFits⟩
  | method name =>
      simp only [resolve] at hFound
      cases hChosen : rt.registry.chooseMethod name (Value.tags operands) with
      | error e => simp [hChosen, Except.map] at hFound
      | ok m =>
          simp only [hChosen, Except.map, Except.ok.injEq] at hFound
          cases hTags : Value.tags operands with
          | nil => simp [hTags, Registry.chooseMethod] at hChosen
          | cons receiver args =>
              rw [hTags] at hChosen
              exact Or.inr ⟨name, receiver, args, m, rfl, hFound.symm, rfl,
                Registry.mem_applicable_of_chooseMethod hChosen⟩

/-- An implementation that was looked up for some operands runs on all operands of the same types.
If it is a primitive, it belongs to the operator that was looked up, it has an answer of its own,
and the answer is a value, or the failure of a division of whole numbers by zero, or that of a text
that would become too large.  If it is a method, it has the name that was looked up, it is declared
on the receiver's type or above it, it has a parameter for each argument, which takes it, and its
body is run. -/
theorem resolve_fits (rt : Runtime) (selector : Selector) (operands others : List Value)
    (target : Target) (hFound : rt.resolve selector operands = .ok target)
    (hTags : Value.tags others = Value.tags operands) :
    (∃ op p, selector = .operator op ∧ target = .primitive p ∧ p.operator = op ∧
      p.run? others = some (target.invoke others) ∧
      ((∃ v, target.invoke others = .ok v) ∨
        target.invoke others = .error (.divisionByZero op) ∨
        ∃ s count, op = .times ∧ others = [.text s, .int count] ∧
          repeatLimit < s.utf8ByteSize * count.toInt.toNat ∧
          target.invoke others = .error (.repeatTooLarge s.utf8ByteSize count repeatLimit)) ∧
      (target.invoke others = .error (.divisionByZero op) ↔ Primitive.DividesByZero op others)) ∨
    ∃ name m receiver args, selector = .method name ∧ target = .method m ∧ m.name = name ∧
      Value.tags operands = receiver :: args ∧ m.arity = operands.length - 1 ∧
      m.receiver ∈ rt.registry.lineage receiver ∧ m ∈ rt.registry.declared m.receiver ∧
      List.Forall₂ (fun param arg => rt.registry.accepts param arg = true) m.params args ∧
      others.length = m.arity + 1 ∧ target.invoke others = m.body others := by
  obtain ⟨p, rfl, rfl, hFits⟩ | ⟨name, receiver, args, m, rfl, rfl, hSignature, hApplicable⟩ :=
    resolve_cases hFound
  · refine Or.inl ⟨p.operator, p, rfl, rfl, rfl, ?_⟩
    have hInvoke : ∀ outcome, p.run? others = some outcome →
        Target.invoke (.primitive p) others = outcome := by
      intro outcome hRun
      rw [Target.invoke, Primitive.apply, hRun, Option.getD_some]
    rw [← hTags] at hFits
    obtain ⟨hNot, v, hRun⟩ | ⟨hDivides, hRun⟩ | ⟨hTimes, s, count, rfl, hLarge, hRun⟩ :=
      hFits.run?_cases
    · rw [hInvoke _ hRun]
      exact ⟨hRun, Or.inl ⟨v, rfl⟩, by simpa using hNot⟩
    · rw [hInvoke _ hRun]
      exact ⟨hRun, Or.inr (Or.inl rfl), by simpa using hDivides⟩
    · rw [hInvoke _ hRun]
      refine ⟨hRun, Or.inr (Or.inr ⟨s, count, hTimes, rfl, hLarge, rfl⟩), ?_⟩
      -- the operator that repeats is none of the two that divide
      simp [Primitive.DividesByZero, hTimes]
  · obtain ⟨hName, hArity, hLineage, hDeclared, hTakes⟩ := Registry.of_mem_applicable hApplicable
    have hCount : operands.length = args.length + 1 := by
      rw [← Value.tags_length, hSignature, List.length_cons]
    have hOthers : others.length = m.arity + 1 := by
      rw [← Value.tags_length, hTags, Value.tags_length, hCount, hArity]
    refine Or.inr ⟨name, m, receiver, args, rfl, rfl, hName, hSignature, by omega, hLineage,
      hDeclared, hTakes, hOthers, ?_⟩
    rw [Target.invoke, Method.invoke, if_pos hOthers]

/-- A division looked up for an `int` and a `long` can meet another `long`, which is zero. -/
theorem resolve_fits_divide :
    Target.invoke (.primitive (.arithmetic .divide .long)) [.int 1, .long 0] =
      .error (.divisionByZero .divide) := by
  have hFound : (ofRegistry Registry.empty Policy.standard).resolve (.operator .divide)
      [.int 7, .long 2] = .ok (.primitive (.arithmetic .divide .long)) := rfl
  have hTags : Value.tags [.int 1, .long 0] = Value.tags [.int 7, .long 2] := rfl
  obtain ⟨op, p, hOp, -, -, -, -, hFails⟩ | ⟨name, m, receiver, args, hName, -⟩ :=
    resolve_fits _ _ _ _ _ hFound hTags
  · cases hOp
    exact hFails.mpr ⟨Or.inl rfl, _, _, rfl, Or.inr rfl, Or.inr rfl⟩
  · cases hName

end LateBinding.Dispatch.Runtime
