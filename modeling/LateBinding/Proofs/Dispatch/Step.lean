import LateBinding.Dispatch.Linkage

/-!
# One call of a call site

This file says once what a call of a site can do, so that no invariant has to open the definitions
of `Dispatch.Site` again.

* `Runtime.resolve_eq_ok_of_tags_eq` - which implementation is found depends on the types of the
  operands only, and `Runtime.resolve_congr` - on no part of the runtime but its registry.
* `Site.locate_cases` - locating an implementation reuses what is kept, or fails as the lookup
  fails, or looks the implementation up and keeps it.
* `Site.invoke_cases` - a call is refused for its number of operands, or goes the way of `locate`;
  `Site.snd_invoke_cases` - what it leaves behind.
* `Linkage.invoke?_of_getElem?`, `Linkage.getElem?_sites_invoke?` - a call among several sites.
-/

namespace LateBinding.Dispatch

namespace Runtime

/-- Which implementation is found depends on the types of the operands only. -/
theorem resolve_eq_ok_of_tags_eq (rt : Runtime) (selector : Selector) {operands others : List Value}
    {target : Target} (hTags : Value.tags others = Value.tags operands)
    (hFound : rt.resolve selector operands = .ok target) :
    rt.resolve selector others = .ok target := by
  cases selector with
  | operator op =>
      simp only [resolve, hTags] at hFound ⊢
      cases hPrimitive : op.primitive? (Value.tags operands) with
      | none => simp [hPrimitive] at hFound
      | some p => simpa [hPrimitive] using hFound
  | method name => simpa only [resolve, hTags] using hFound

/-- The lookup reads the registry of a runtime and nothing else of it. -/
theorem resolve_congr {rt other : Runtime} (hRegistry : other.registry = rt.registry)
    (selector : Selector) (operands : List Value) :
    other.resolve selector operands = rt.resolve selector operands := by
  cases selector with
  | operator op => rfl
  | method name => simp only [resolve, hRegistry]

end Runtime

namespace Site

/-- The implementation that a site finds without looking it up: among its own answers, or in the
shared table once it keeps none of its own. -/
def kept? (s : Site) (rt : Runtime) (signature : List Tag) : Option Target :=
  match s.cache with
  | .own entries => lookup? entries signature
  | .shared => rt.shared.find? ⟨s.call.selector, signature⟩

/-- Keeps an implementation just looked up, where the site keeps its answers now. -/
def install (s : Site) (rt : Runtime) (signature : List Tag) (target : Target) : Located :=
  match s.cache with
  | .own entries => s.keep rt entries signature target
  | .shared =>
      { target := target
        site := { s with resolutions := s.resolutions + 1 }
        runtime := { rt with shared := rt.shared.insert ⟨s.call.selector, signature⟩ target } }

/-- Locating an implementation reuses the one that is kept, or else looks it up; what is found is
installed, and a failed lookup changes nothing. -/
theorem locate_eq (s : Site) (rt : Runtime) (operands : List Value) :
    s.locate rt operands =
      match s.kept? rt (Value.tags operands) with
      | some target => .ok ⟨target, s, rt⟩
      | none =>
          (rt.resolve s.call.selector operands).map (s.install rt (Value.tags operands)) := by
  unfold locate kept? install
  cases s.cache with
  | own entries => rfl
  | shared => rfl

/-- The three ways in which locating an implementation goes. -/
theorem locate_cases (s : Site) (rt : Runtime) (operands : List Value) :
    (∃ target, s.kept? rt (Value.tags operands) = some target ∧
      s.locate rt operands = .ok ⟨target, s, rt⟩) ∨
    (∃ e, s.kept? rt (Value.tags operands) = none ∧
      rt.resolve s.call.selector operands = .error e ∧ s.locate rt operands = .error e) ∨
    (∃ target, s.kept? rt (Value.tags operands) = none ∧
      rt.resolve s.call.selector operands = .ok target ∧
      s.locate rt operands = .ok (s.install rt (Value.tags operands) target)) := by
  rw [locate_eq]
  cases hKept : s.kept? rt (Value.tags operands) with
  | some target => exact .inl ⟨target, rfl, rfl⟩
  | none =>
      cases hFound : rt.resolve s.call.selector operands with
      | error e => exact .inr (.inl ⟨e, rfl, rfl, rfl⟩)
      | ok target => exact .inr (.inr ⟨target, rfl, rfl, rfl⟩)

/-- The three ways in which a call of a site goes. -/
theorem invoke_cases (s : Site) (rt : Runtime) (operands : List Value) :
    (operands.length ≠ s.call.arity ∧
      s.invoke rt operands =
        (.error (.wrongArity s.call.name s.call.arity operands.length), s.counted, rt)) ∨
    (∃ e, operands.length = s.call.arity ∧ s.counted.locate rt operands = .error e ∧
      s.invoke rt operands = (.error e, s.counted, rt)) ∨
    (∃ found, operands.length = s.call.arity ∧ s.counted.locate rt operands = .ok found ∧
      s.invoke rt operands = (found.target.invoke operands, found.site, found.runtime)) := by
  unfold invoke
  by_cases hArity : operands.length = s.call.arity
  · rw [if_pos hArity]
    cases hLocated : s.counted.locate rt operands with
    | error e => exact .inr (.inl ⟨e, hArity, rfl, rfl⟩)
    | ok found => exact .inr (.inr ⟨found, hArity, rfl, rfl⟩)
  · rw [if_neg hArity]
    exact .inl ⟨hArity, rfl⟩

@[simp] theorem call_counted (s : Site) : s.counted.call = s.call := rfl

@[simp] theorem kept?_counted (s : Site) (rt : Runtime) (signature : List Tag) :
    s.counted.kept? rt signature = s.kept? rt signature := rfl

/-- A call installs an implementation that the site did not have and that the lookup finds, or it
leaves the site counted as called and the runtime as it was. -/
theorem snd_invoke_cases (s : Site) (rt : Runtime) (operands : List Value) :
    (∃ target, operands.length = s.call.arity ∧ s.kept? rt (Value.tags operands) = none ∧
      rt.resolve s.call.selector operands = .ok target ∧
      (s.invoke rt operands).2 =
        ((s.counted.install rt (Value.tags operands) target).site,
          (s.counted.install rt (Value.tags operands) target).runtime)) ∨
    (¬ (operands.length = s.call.arity ∧ s.kept? rt (Value.tags operands) = none ∧
        ∃ target, rt.resolve s.call.selector operands = .ok target) ∧
      (s.invoke rt operands).2 = (s.counted, rt)) := by
  unfold invoke
  by_cases hArity : operands.length = s.call.arity
  · rw [if_pos hArity, locate_eq, kept?_counted, call_counted]
    cases hKept : s.kept? rt (Value.tags operands) with
    | some target => exact .inr ⟨by simp, rfl⟩
    | none =>
        cases hFound : rt.resolve s.call.selector operands with
        | error e => exact .inr ⟨by simp, rfl⟩
        | ok target => exact .inl ⟨target, hArity, rfl, rfl, rfl⟩
  · rw [if_neg hArity]
    exact .inr ⟨fun hAll => hArity hAll.1, rfl⟩

@[simp] theorem target_install (s : Site) (rt : Runtime) (signature : List Tag) (target : Target) :
    (s.install rt signature target).target = target := by
  unfold install keep
  split
  · split <;> rfl
  · rfl

@[simp] theorem call_install (s : Site) (rt : Runtime) (signature : List Tag) (target : Target) :
    (s.install rt signature target).site.call = s.call := by
  unfold install keep
  split
  · split <;> rfl
  · rfl

@[simp] theorem registry_install (s : Site) (rt : Runtime) (signature : List Tag)
    (target : Target) : (s.install rt signature target).runtime.registry = rt.registry := by
  unfold install keep
  split
  · split <;> rfl
  · rfl

/-- A call of a site leaves the registry as it is. -/
theorem registry_invoke (s : Site) (rt : Runtime) (operands : List Value) :
    (s.invoke rt operands).2.2.registry = rt.registry := by
  rcases s.snd_invoke_cases rt operands with ⟨target, -, -, -, hInvoke⟩ | ⟨-, hInvoke⟩
  · rw [hInvoke, registry_install]
  · rw [hInvoke]

end Site

namespace Linkage

/-- A call of a site, said of the site. -/
theorem invoke?_of_getElem? {l : Linkage} {i : Nat} {s : Site} (hSite : l.sites[i]? = some s)
    (operands : List Value) :
    l.invoke? i operands =
      (some (s.invoke l.runtime operands).1,
        { runtime := (s.invoke l.runtime operands).2.2
          sites := l.sites.setIfInBounds i (s.invoke l.runtime operands).2.1 }) := by
  unfold invoke?
  rw [hSite]

/-- Where there is no site nothing is called. -/
theorem invoke?_of_getElem?_eq_none {l : Linkage} {i : Nat} (hNone : l.sites[i]? = none)
    (operands : List Value) : l.invoke? i operands = (none, l) := by
  unfold invoke?
  rw [hNone]

/-- A call of any site leaves the registry as it is. -/
theorem registry_invoke? (l : Linkage) (i : Nat) (operands : List Value) :
    (l.invoke? i operands).2.runtime.registry = l.runtime.registry := by
  cases hSite : l.sites[i]? with
  | none => rw [invoke?_of_getElem?_eq_none hSite]
  | some s =>
      rw [invoke?_of_getElem? hSite]
      exact s.registry_invoke l.runtime operands

/-- After the call of a site the other sites are as they were. -/
theorem getElem?_sites_invoke? (l : Linkage) (i : Nat) (operands : List Value) (j : Nat) :
    (l.invoke? i operands).2.sites[j]? =
      if i = j then (l.sites[i]?).map fun s => (s.invoke l.runtime operands).2.1
      else l.sites[j]? := by
  cases hSite : l.sites[i]? with
  | none =>
      rw [invoke?_of_getElem?_eq_none hSite, Option.map_none]
      split
      · rename_i hSame
        rw [← hSame, hSite]
      · rfl
  | some s =>
      obtain ⟨hBound, -⟩ := Array.getElem?_eq_some_iff.mp hSite
      rw [invoke?_of_getElem? hSite, Array.getElem?_setIfInBounds]
      simp only [hBound, if_true, Option.map_some]

end Linkage

end LateBinding.Dispatch
