import LateBinding.Proofs.Dispatch.Transparency

/-!
# What a failing call leaves behind

A call fails before an implementation is found, or while it runs.  In the first case nothing was
learnt and nothing is kept: only the number of calls of the site grows.  In the second case the
implementation is known as well as if it had succeeded, and what is kept is the same.

* `Site.invokeBy`, `Linkage.invokeBy?` - calls whose implementations are run in any given way; the
  site and the runtime after them do not depend on the way (`snd_invokeBy`).
* `Site.snd_invoke_congr` - nor do they depend on more of the operands than their types.
* `Site.invoke_of_resolve_eq_error` - a site that finds no implementation is only counted; here the
  invariant of `Transparency` is needed, by which nothing is kept where the lookup fails.
* `Linkage.Coherent.exists_invoke?_eq_counted`, `Linkage.Coherent.invokeBy?_of_resolve_eq_ok` - the
  two kinds of calls among several sites.
* `run_link_failure` - failing calls after any run.
-/

namespace LateBinding.Dispatch

/-! ### One call of a site -/

namespace Site

/-- Calls a site, with implementations run in a given way. -/
def invokeBy (execute : Target → List Value → Except DispatchError Value) (s : Site) (rt : Runtime)
    (operands : List Value) : Except DispatchError Value × Site × Runtime :=
  if operands.length = s.call.arity then
    match s.counted.locate rt operands with
    | .error e => (.error e, s.counted, rt)
    | .ok found => (execute found.target operands, found.site, found.runtime)
  else (.error (.wrongArity s.call.name s.call.arity operands.length), s.counted, rt)

variable (s : Site) (rt : Runtime)

/-- How implementations are run does not show in the site and the runtime after the call. -/
theorem snd_invokeBy (execute : Target → List Value → Except DispatchError Value)
    (operands : List Value) : (s.invokeBy execute rt operands).2 = (s.invoke rt operands).2 := by
  unfold invokeBy invoke
  split
  · cases s.counted.locate rt operands <;> rfl
  · rfl

/-- What a lookup finds for operands, it finds for all operands of the same types; so where it fails
for some, it fails for the others. -/
theorem exists_resolve_eq_error_of_tags_eq {selector : Selector} {operands others : List Value}
    (hTags : Value.tags others = Value.tags operands) {e : DispatchError}
    (hFailed : rt.resolve selector operands = .error e) :
    ∃ other, rt.resolve selector others = .error other := by
  cases hFound : rt.resolve selector others with
  | error other => exact ⟨other, rfl⟩
  | ok target =>
      rw [rt.resolve_eq_ok_of_tags_eq selector hTags.symm hFound] at hFailed
      cases hFailed

/-- The site and the runtime after a call depend on the types of the operands only. -/
theorem snd_invoke_congr {operands others : List Value}
    (hTags : Value.tags others = Value.tags operands) :
    (s.invoke rt others).2 = (s.invoke rt operands).2 := by
  have hLength : others.length = operands.length := by
    rw [← Value.tags_length, hTags, Value.tags_length]
  unfold invoke
  rw [hLength]
  split
  · rw [locate_eq, locate_eq, hTags]
    cases s.counted.kept? rt (Value.tags operands) with
    | some target => rfl
    | none =>
        cases hFound : rt.resolve s.counted.call.selector operands with
        | ok target =>
            rw [rt.resolve_eq_ok_of_tags_eq _ hTags hFound]
            rfl
        | error e =>
            obtain ⟨other, hOther⟩ := exists_resolve_eq_error_of_tags_eq rt hTags hFound
            rw [hOther]
            rfl
  · rfl

variable {s rt} (hOwn : s.OwnsAnswers rt) (hShared : rt.SharesAnswers) {operands : List Value}

include hOwn hShared

/-- A site that finds no implementation is counted as called, and nothing else happens. -/
theorem invoke_of_resolve_eq_error {e : DispatchError} (hArity : operands.length = s.call.arity)
    (hFailed : rt.resolve s.call.selector operands = .error e) :
    s.invoke rt operands = (.error e, s.counted, rt) := by
  have hLocated := locate_faithful (s := s.counted) hOwn hShared operands
  rw [invoke, if_pos hArity]
  cases hLocate : s.counted.locate rt operands with
  | error other =>
      simp only [hLocate, call_counted, hFailed] at hLocated
      rw [Except.error.inj hLocated]
  | ok found =>
      simp only [hLocate, call_counted, hFailed] at hLocated
      cases hLocated.1

/-- A call that is refused for the number of operands, or finds no implementation, is counted and
nothing else happens. -/
theorem exists_invoke_eq_counted
    (hFails : operands.length ≠ s.call.arity ∨ ∃ e, rt.resolve s.call.selector operands = .error e) :
    ∃ e, s.invoke rt operands = (.error e, s.counted, rt) := by
  by_cases hArity : operands.length = s.call.arity
  · obtain ⟨e, hFailed⟩ := hFails.resolve_left fun hNe => hNe hArity
    exact ⟨e, invoke_of_resolve_eq_error hOwn hShared hArity hFailed⟩
  · exact ⟨_, if_neg hArity⟩

/-- A site that finds an implementation runs it, in whatever way that is done. -/
theorem fst_invokeBy_of_resolve_eq_ok {target : Target} (hArity : operands.length = s.call.arity)
    (hFound : rt.resolve s.call.selector operands = .ok target)
    (execute : Target → List Value → Except DispatchError Value) :
    (s.invokeBy execute rt operands).1 = execute target operands := by
  have hLocated := locate_faithful (s := s.counted) hOwn hShared operands
  rw [invokeBy, if_pos hArity]
  cases hLocate : s.counted.locate rt operands with
  | error other =>
      simp only [hLocate, call_counted, hFound] at hLocated
      cases hLocated
  | ok found =>
      simp only [hLocate, call_counted, hFound] at hLocated
      rw [Except.ok.inj hLocated.1]

end Site

/-! ### After any run -/

namespace Linkage

/-- Calls a site, with implementations run in a given way; there is no outcome if there is no such
site. -/
def invokeBy? (execute : Target → List Value → Except DispatchError Value) (l : Linkage) (i : Nat)
    (operands : List Value) : Option (Except DispatchError Value) × Linkage :=
  match l.sites[i]? with
  | none => (none, l)
  | some s =>
      let (outcome, site, rt) := s.invokeBy execute l.runtime operands
      (some outcome, { runtime := rt, sites := l.sites.setIfInBounds i site })

/-- A call runs what it finds on its operands. -/
theorem invokeBy?_invoke : invokeBy? Target.invoke = invoke? := rfl

/-- The state after a call depends on the types of the operands only. -/
theorem snd_invoke?_congr (l : Linkage) (i : Nat) {operands others : List Value}
    (hTags : Value.tags others = Value.tags operands) :
    (l.invoke? i others).2 = (l.invoke? i operands).2 := by
  cases hSite : l.sites[i]? with
  | none => rw [invoke?_of_getElem?_eq_none hSite, invoke?_of_getElem?_eq_none hSite]
  | some s =>
      rw [invoke?_of_getElem? hSite, invoke?_of_getElem? hSite,
        Site.snd_invoke_congr s l.runtime hTags]

section Coherent

variable {rt : Runtime} {calls : List DynamicCall} {l : Linkage} (hCoherent : l.Coherent rt calls)
  {i : Nat} {s : Site} (hSite : l.sites[i]? = some s) {operands : List Value}

include hCoherent hSite

/-- A call that is refused for the number of operands, or finds no implementation, changes nothing
but the number of calls of its site. -/
theorem Coherent.exists_invoke?_eq_counted
    (hFails : operands.length ≠ s.call.arity ∨ ∃ e, rt.resolve s.call.selector operands = .error e) :
    ∃ e, (l.invoke? i operands).1 = some (.error e) ∧
      (l.invoke? i operands).2.sites[i]? = some s.counted ∧
      (∀ j, j ≠ i → (l.invoke? i operands).2.sites[j]? = l.sites[j]?) ∧
      (l.invoke? i operands).2.runtime = l.runtime := by
  rw [← Runtime.resolve_congr hCoherent.registry] at hFails
  obtain ⟨e, hCounted⟩ :=
    Site.exists_invoke_eq_counted (hCoherent.own i s hSite) hCoherent.shared hFails
  have hSites := l.getElem?_sites_invoke? i operands
  have hInvoke := invoke?_of_getElem? hSite operands
  rw [hCounted] at hInvoke
  refine ⟨e, congrArg Prod.fst hInvoke, ?_, fun j hNe => ?_, ?_⟩
  · rw [hSites, if_pos rfl, hSite, Option.map_some, hCounted]
  · rw [hSites, if_neg (Ne.symm hNe)]
  · rw [hInvoke]

/-- A call that finds an implementation runs it, in whatever way that is done, and the state after
the call does not depend on the way. -/
theorem Coherent.invokeBy?_of_resolve_eq_ok {target : Target}
    (hArity : operands.length = s.call.arity)
    (hFound : rt.resolve s.call.selector operands = .ok target)
    (execute : Target → List Value → Except DispatchError Value) :
    l.invokeBy? execute i operands =
      (some (execute target operands), (l.invoke? i operands).2) := by
  rw [← Runtime.resolve_congr hCoherent.registry] at hFound
  have hRuns := Site.fst_invokeBy_of_resolve_eq_ok (hCoherent.own i s hSite) hCoherent.shared hArity
    hFound execute
  rw [invoke?_of_getElem? hSite, invokeBy?, hSite]
  simp only [hRuns, Site.snd_invokeBy]

end Coherent

/-- **What a failing call leaves behind.**  Take any runtime, all sites linked on it, and the state
after any run of calls of them; call any site with any operands.  If their number is not the arity of
the site, or the lookup finds no implementation for them, then the call fails, the number of calls of
the site grows by one, and everything else is as before: what the site keeps and its count of
lookups, the runtime with the shared table, and all other sites.  If an implementation is found, the
call runs it, and the state after the call is the same however that ends: it is the one after a run
of the implementation that ends in any other way, and the one after a call with any other operands of
the same types. -/
theorem run_link_failure (registry : Class.Registry) (policy : Policy) (calls : List DynamicCall)
    (steps : List (Nat × List Value)) (i : Fin calls.length) (operands : List Value) :
    let rt := Runtime.ofRegistry registry policy
    let l := ((link rt calls).run steps).2
    let outcome := (l.invoke? i operands).1
    let next := (l.invoke? i operands).2
    ∃ site, l.sites[i.val]? = some site ∧
      ((operands.length ≠ (calls.get i).arity ∨
          ∃ e, rt.resolve (calls.get i).selector operands = .error e) →
        (∃ e, outcome = some (.error e)) ∧
        next.sites[i.val]? = some { site with invocations := site.invocations + 1 } ∧
        (∀ j, j ≠ i.val → next.sites[j]? = l.sites[j]?) ∧ next.runtime = l.runtime) ∧
      ∀ target, operands.length = (calls.get i).arity →
        rt.resolve (calls.get i).selector operands = .ok target →
        outcome = some (target.invoke operands) ∧
        (∀ execute, l.invokeBy? execute i operands = (some (execute target operands), next)) ∧
        ∀ others, Value.tags others = Value.tags operands → (l.invoke? i others).2 = next := by
  intro rt l outcome next
  have hCoherent : l.Coherent rt calls := ((coherent_link registry policy calls).run steps).2
  obtain ⟨site, hSite, hCall⟩ := hCoherent.exists_site i
  rw [← hCall]
  refine ⟨site, hSite, fun hFails => ?_, fun target hArity hFound => ?_⟩
  · obtain ⟨e, hOutcome, hOwn, hOthers, hRuntime⟩ :=
      hCoherent.exists_invoke?_eq_counted hSite hFails
    exact ⟨⟨e, hOutcome⟩, hOwn, hOthers, hRuntime⟩
  · have hRuns := hCoherent.invokeBy?_of_resolve_eq_ok hSite hArity hFound
    refine ⟨?_, hRuns, fun others hTags => l.snd_invoke?_congr i hTags⟩
    have hInvoke := hRuns Target.invoke
    rw [invokeBy?_invoke] at hInvoke
    exact congrArg Prod.fst hInvoke

end Linkage

end LateBinding.Dispatch
