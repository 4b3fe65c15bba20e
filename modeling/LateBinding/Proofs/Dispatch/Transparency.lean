import LateBinding.Proofs.Dispatch.Step
import LateBinding.Proofs.Keyed

/-!
# Keeping answers is transparent

A call site that keeps answers gives the outcome of a call for which nothing is kept.  The reason is
an invariant of all that is kept, at the sites and in the shared table: a target stands beside a
list of types only if a lookup on operands of these types, done now, would find this very target.

* `SharedTable.find?_insert` - the shared table after one more answer.
* `Runtime.Answers` - what the invariant says of one target.
* `Linkage.Coherent` - the invariant.  It holds after linking (`coherent_link`), and a call of any
  site keeps it (`Coherent.invoke?`).
* `Site.invoke_outcome` - under the invariant a call has the outcome of `Runtime.dispatch`.
* `run_link_outcomes` - so has every call of every run, whatever was called before.
-/

namespace LateBinding.Dispatch

namespace SharedTable

/-- Answers are overlaid by their keys. -/
theorem overlay_eq_keyed (key : Key) (target : Target) (entries : List (Key × Target)) :
    overlay key target entries =
      Keyed.overlay (fun e : Key × Target => some e.1) entries (key, target) := by
  induction entries with
  | nil => rfl
  | cons e rest ih => simp [overlay, Keyed.overlay, ih]

/-- An answer that is kept is found for its key, and any other key has the answer it had. -/
theorem find?_insert (t : SharedTable) (key other : Key) (target : Target) :
    (t.insert key target).find? other = if other = key then some target else t.find? other := by
  have hFound := Keyed.find?_overlay (fun e : Key × Target => some e.1) t.entries (key, target) other
  rw [← overlay_eq_keyed] at hFound
  simp only [Option.some.injEq] at hFound
  rw [find?, insert, hFound, find?]
  by_cases hKey : other = key
  · rw [if_pos hKey.symm, if_pos hKey]
    rfl
  · rw [if_neg (Ne.symm hKey), if_neg hKey]

end SharedTable

/-- On all operands of the types of `signature` the lookup finds `target`. -/
def Runtime.Answers (rt : Runtime) (selector : Selector) (signature : List Tag) (target : Target) :
    Prop :=
  ∀ operands, Value.tags operands = signature → rt.resolve selector operands = .ok target

/-- One successful lookup answers for all operands of the same types. -/
theorem Runtime.answers_of_resolve_eq_ok {rt : Runtime} {selector : Selector} {operands : List Value}
    {target : Target} (hFound : rt.resolve selector operands = .ok target) :
    rt.Answers selector (Value.tags operands) target :=
  fun _ hTags => rt.resolve_eq_ok_of_tags_eq selector hTags hFound

/-- Runtimes with one registry give the same answers. -/
theorem Runtime.Answers.congr {rt other : Runtime} (hRegistry : other.registry = rt.registry)
    {selector : Selector} {signature : List Tag} {target : Target}
    (hAnswers : rt.Answers selector signature target) :
    other.Answers selector signature target := by
  intro operands hTags
  rw [Runtime.resolve_congr hRegistry]
  exact hAnswers operands hTags

/-- Every target in the shared table is the answer to its key. -/
def Runtime.SharesAnswers (rt : Runtime) : Prop :=
  ∀ key target, rt.shared.find? key = some target → rt.Answers key.selector key.signature target

/-- Every target that a site keeps of its own is the answer for its list of types. -/
def Site.OwnsAnswers (s : Site) (rt : Runtime) : Prop :=
  ∀ entries, s.cache = .own entries →
    ∀ e ∈ entries, rt.Answers s.call.selector e.signature e.target

namespace Site

/-- A kept target is the target of an entry with the wanted list of types. -/
theorem exists_entry_of_lookup?_eq_some {entries : List Entry} {signature : List Tag}
    {target : Target} (hLookup : lookup? entries signature = some target) :
    ∃ e ∈ entries, e.signature = signature ∧ e.target = target := by
  obtain ⟨e, hFind, hTarget⟩ := Option.map_eq_some_iff.mp hLookup
  have hSignature := List.find?_some hFind
  exact ⟨e, List.mem_of_find?_eq_some hFind, by simpa using hSignature, hTarget⟩

/-- What a site finds without a lookup is what the lookup would find. -/
theorem answers_of_kept? {s : Site} {rt : Runtime} (hOwn : s.OwnsAnswers rt)
    (hShared : rt.SharesAnswers) {signature : List Tag} {target : Target}
    (hKept : s.kept? rt signature = some target) :
    rt.Answers s.call.selector signature target := by
  unfold kept? at hKept
  split at hKept
  · rename_i entries hCache
    obtain ⟨e, hMem, rfl, rfl⟩ := exists_entry_of_lookup?_eq_some hKept
    exact hOwn entries hCache e hMem
  · exact hShared _ target hKept

/-- The shared table stays faithful when an answer is added to it. -/
theorem sharesAnswers_insert {rt : Runtime} (hShared : rt.SharesAnswers) {key : Key}
    {target : Target} (hAnswers : rt.Answers key.selector key.signature target) :
    Runtime.SharesAnswers { rt with shared := rt.shared.insert key target } := by
  intro other found hFound
  rw [SharedTable.find?_insert] at hFound
  by_cases hKey : other = key
  · rw [if_pos hKey] at hFound
    cases hFound
    subst hKey
    exact hAnswers.congr rfl
  · rw [if_neg hKey] at hFound
    exact (hShared other found hFound).congr rfl

/-- Installing an answer keeps the shared table faithful. -/
theorem sharesAnswers_install {s : Site} {rt : Runtime} (hShared : rt.SharesAnswers)
    {signature : List Tag} {target : Target}
    (hAnswers : rt.Answers s.call.selector signature target) :
    (s.install rt signature target).runtime.SharesAnswers := by
  unfold install keep
  split
  · split
    · exact sharesAnswers_insert hShared hAnswers
    · exact hShared
  · exact sharesAnswers_insert hShared hAnswers

/-- Installing an answer keeps the site's own answers faithful. -/
theorem ownsAnswers_install {s : Site} {rt : Runtime} (hOwn : s.OwnsAnswers rt)
    {signature : List Tag} {target : Target}
    (hAnswers : rt.Answers s.call.selector signature target) :
    (s.install rt signature target).site.OwnsAnswers rt := by
  intro kept hKept e hMem
  rw [call_install]
  unfold install keep at hKept
  split at hKept
  · rename_i entries hCache
    split at hKept
    · simp at hKept
    · simp only [Cache.own.injEq] at hKept
      subst hKept
      rcases List.mem_append.mp hMem with hOld | hNew
      · exact hOwn entries hCache e hOld
      · obtain rfl := List.mem_singleton.mp hNew
        exact hAnswers
  · rename_i hCache
    simp [hCache] at hKept

/-- Locating an implementation under the invariant: a failure is the failure of the lookup, and a
target is the one of the lookup, with the invariant kept. -/
theorem locate_faithful {s : Site} {rt : Runtime} (hOwn : s.OwnsAnswers rt)
    (hShared : rt.SharesAnswers) (operands : List Value) :
    match s.locate rt operands with
    | .error e => rt.resolve s.call.selector operands = .error e
    | .ok found =>
        rt.resolve s.call.selector operands = .ok found.target ∧
        found.site.call = s.call ∧ found.runtime.registry = rt.registry ∧
        found.site.OwnsAnswers rt ∧ found.runtime.SharesAnswers := by
  rcases s.locate_cases rt operands with
    ⟨target, hKept, hLocate⟩ | ⟨e, -, hFailed, hLocate⟩ | ⟨target, -, hFound, hLocate⟩
  · rw [hLocate]
    exact ⟨answers_of_kept? hOwn hShared hKept operands rfl, rfl, rfl, hOwn, hShared⟩
  · rw [hLocate]
    exact hFailed
  · rw [hLocate]
    -- what was just found is the answer for all operands of these types, so it may be kept
    have hAnswers := Runtime.answers_of_resolve_eq_ok hFound
    refine ⟨?_, call_install s rt _ target, registry_install s rt _ target,
      ownsAnswers_install hOwn hAnswers, sharesAnswers_install hShared hAnswers⟩
    rw [target_install]
    exact hFound

/-- Under the invariant a call has the outcome of a call for which nothing is kept, and keeps the
invariant. -/
theorem invoke_outcome {s : Site} {rt : Runtime} (hOwn : s.OwnsAnswers rt)
    (hShared : rt.SharesAnswers) (operands : List Value) :
    (s.invoke rt operands).1 = rt.dispatch s.call operands ∧
    (s.invoke rt operands).2.1.call = s.call ∧
    (s.invoke rt operands).2.2.registry = rt.registry ∧
    (s.invoke rt operands).2.1.OwnsAnswers rt ∧
    (s.invoke rt operands).2.2.SharesAnswers := by
  have hLocated := locate_faithful (s := s.counted) hOwn hShared operands
  rcases s.invoke_cases rt operands with
    ⟨hArity, hInvoke⟩ | ⟨e, hArity, hLocate, hInvoke⟩ | ⟨found, hArity, hLocate, hInvoke⟩
  · rw [hInvoke]
    exact ⟨by simp [Runtime.dispatch, hArity], rfl, rfl, hOwn, hShared⟩
  · rw [hLocate] at hLocated
    rw [hInvoke]
    refine ⟨?_, rfl, rfl, hOwn, hShared⟩
    rw [call_counted] at hLocated
    simp only [Runtime.dispatch, if_pos hArity, hLocated]
    rfl
  · rw [hLocate] at hLocated
    rw [hInvoke]
    obtain ⟨hResolve, hCall, hRegistry, hOwned, hTable⟩ := hLocated
    refine ⟨?_, hCall, hRegistry, hOwned, hTable⟩
    rw [call_counted] at hResolve
    simp only [Runtime.dispatch, if_pos hArity, hResolve]
    rfl

end Site

/-- All that is kept is faithful to the lookups of `rt`, and the sites are those of `calls`. -/
structure Linkage.Coherent (rt : Runtime) (calls : List DynamicCall) (l : Linkage) : Prop where
  registry : l.runtime.registry = rt.registry
  shared : l.runtime.SharesAnswers
  own : ∀ (i : Nat) (s : Site), l.sites[i]? = some s → s.OwnsAnswers l.runtime
  calls : ∀ i : Nat, (l.sites[i]?).map Site.call = calls[i]?

namespace Linkage

/-- Nothing is kept after linking. -/
theorem coherent_link (registry : Class.Registry) (policy : Policy) (calls : List DynamicCall) :
    (link (Runtime.ofRegistry registry policy) calls).Coherent
      (Runtime.ofRegistry registry policy) calls where
  registry := rfl
  shared := by
    intro key target hFound
    simp [link, Runtime.ofRegistry, SharedTable.empty, SharedTable.find?] at hFound
  own := by
    intro i s hSite entries hEntries e hMem
    simp only [link, List.getElem?_toArray, List.getElem?_map, Option.map_eq_some_iff] at hSite
    obtain ⟨call, -, rfl⟩ := hSite
    simp only [Site.link, Cache.own.injEq] at hEntries
    subst hEntries
    simp at hMem
  calls := by
    intro i
    simp only [link, List.getElem?_toArray, List.getElem?_map, Option.map_map]
    exact Option.map_id'

/-- A call of any site has the outcome of a call for which nothing is kept, and keeps the
invariant. -/
theorem Coherent.invoke? {rt : Runtime} {calls : List DynamicCall} {l : Linkage}
    (hCoherent : l.Coherent rt calls) (i : Nat) (operands : List Value) :
    (l.invoke? i operands).1 = (calls[i]?).map (fun call => rt.dispatch call operands) ∧
    (l.invoke? i operands).2.Coherent rt calls := by
  cases hSite : l.sites[i]? with
  | none =>
      have hCalls := hCoherent.calls i
      rw [hSite] at hCalls
      rw [invoke?_of_getElem?_eq_none hSite]
      exact ⟨by simp [← hCalls], hCoherent⟩
  | some s =>
      have hCalls : calls[i]? = some s.call := by rw [← hCoherent.calls i, hSite]; rfl
      obtain ⟨hOutcome, hCall, hRegistry, hOwned, hTable⟩ :=
        Site.invoke_outcome (hCoherent.own i s hSite) hCoherent.shared operands
      have hDispatch :
          l.runtime.dispatch s.call operands = rt.dispatch s.call operands := by
        simp only [Runtime.dispatch, Runtime.resolve_congr hCoherent.registry]
      have hSites := l.getElem?_sites_invoke? i operands
      rw [invoke?_of_getElem? hSite] at hSites ⊢
      refine ⟨by simp [hCalls, hOutcome, hDispatch], hRegistry.trans hCoherent.registry, hTable,
        ?_, ?_⟩
      · -- kept answers are about the registry only, which no call changes
        intro j t hGet entries hEntries e hMem
        apply Runtime.Answers.congr hRegistry
        rw [hSites, hSite] at hGet
        by_cases hSame : i = j
        · rw [if_pos hSame] at hGet
          cases hGet
          exact hOwned entries hEntries e hMem
        · rw [if_neg hSame] at hGet
          exact hCoherent.own j t hGet entries hEntries e hMem
      · intro j
        rw [hSites, hSite]
        by_cases hSame : i = j
        · subst hSame
          simp [hCalls, hCall]
        · rw [if_neg hSame]
          exact hCoherent.calls j

/-- There is a site for every dynamic call. -/
theorem Coherent.exists_site {rt : Runtime} {calls : List DynamicCall} {l : Linkage}
    (hCoherent : l.Coherent rt calls) (i : Fin calls.length) :
    ∃ s, l.sites[i.val]? = some s ∧ s.call = calls.get i := by
  have hCalls := hCoherent.calls i.val
  rw [List.getElem?_eq_getElem i.isLt] at hCalls
  exact Option.map_eq_some_iff.mp hCalls

/-- Every call of a run has the outcome of a call for which nothing is kept. -/
theorem Coherent.run {rt : Runtime} {calls : List DynamicCall} {l : Linkage}
    (hCoherent : l.Coherent rt calls) (steps : List (Nat × List Value)) :
    (l.run steps).1 =
        steps.map (fun step => (calls[step.1]?).map (fun call => rt.dispatch call step.2)) ∧
    (l.run steps).2.Coherent rt calls := by
  induction steps generalizing l with
  | nil => exact ⟨rfl, hCoherent⟩
  | cons step rest ih =>
      obtain ⟨i, operands⟩ := step
      obtain ⟨hOutcome, hNext⟩ := hCoherent.invoke? i operands
      obtain ⟨hOutcomes, hFinal⟩ := ih hNext
      simp only [Linkage.run]
      exact ⟨by rw [hOutcome, hOutcomes]; rfl, hFinal⟩

/-- **Keeping answers is transparent.**  For every registry and policy, all sites linked on one
runtime and every run of calls on them in any order, each call has exactly the outcome it has when
nothing is kept: the wrong number of operands is reported with the name and the arity of the site,
and otherwise the outcome is the failure of the lookup, or what the target found does on the
operands. -/
theorem run_link_outcomes (registry : Class.Registry) (policy : Policy) (calls : List DynamicCall)
    (steps : List (Nat × List Value)) :
    ((link (Runtime.ofRegistry registry policy) calls).run steps).1 =
      steps.map fun step =>
        (calls[step.1]?).map fun call =>
          if step.2.length = call.arity then
            ((Runtime.ofRegistry registry policy).resolve call.selector step.2).bind
              fun target => target.invoke step.2
          else .error (.wrongArity call.name call.arity step.2.length) :=
  ((coherent_link registry policy calls).run steps).1

end Linkage

end LateBinding.Dispatch
