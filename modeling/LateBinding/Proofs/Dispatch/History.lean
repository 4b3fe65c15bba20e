import Mathlib.Data.Finset.Card
import Mathlib.Data.Finset.Dedup
import LateBinding.Proofs.Dispatch.Step

/-!
# What a call site remembers of its past

The state of a call site is a function of the set of lists of types that it has found an
implementation for: one answer for each of them while they fit, and no answer of its own once they
do not.  Neither their order nor repetitions count, nor calls that find nothing, nor other sites.

* `Runtime.met` - that set, read off the calls made of the site.
* `Site.Tracks` - how the site is tied to it.  A call keeps the tie (`Tracks.invoke`), and a run of
  calls of any sites keeps it for each site (`Linkage.Tracked`).
* `run_link_stats` - the counts of a site after every run.
-/

namespace LateBinding.Dispatch

/-- Whether a call has the right number of operands and finds an implementation. -/
def Runtime.finds (rt : Runtime) (call : DynamicCall) (operands : List Value) : Bool :=
  operands.length = call.arity && (rt.resolve call.selector operands).isOk

/-- The lists of types of the calls that find an implementation. -/
def Runtime.met (rt : Runtime) (call : DynamicCall) (history : List (List Value)) :
    Finset (List Tag) :=
  ((history.filter (rt.finds call)).map Value.tags).toFinset

/-- The operands of the calls that a run makes of one site. -/
def Linkage.callsOf (i : Nat) (steps : List (Nat × List Value)) : List (List Value) :=
  (steps.filter (·.1 = i)).map Prod.snd

namespace Runtime

/-- A call finds an implementation if it has the right number of operands and the lookup succeeds. -/
theorem finds_eq_true_iff (rt : Runtime) (call : DynamicCall) (operands : List Value) :
    rt.finds call operands = true ↔
      operands.length = call.arity ∧ ∃ target, rt.resolve call.selector operands = .ok target := by
  rw [finds, Bool.and_eq_true, decide_eq_true_eq]
  cases rt.resolve call.selector operands <;> simp [Except.isOk, Except.toBool]

/-- A call that finds nothing adds nothing. -/
theorem met_append_of_finds_eq_false {rt : Runtime} {call : DynamicCall} {operands : List Value}
    (history : List (List Value)) (hNot : rt.finds call operands = false) :
    rt.met call (history ++ [operands]) = rt.met call history := by
  simp [met, hNot]

/-- A call that finds an implementation adds its types. -/
theorem met_append_of_finds {rt : Runtime} {call : DynamicCall} {operands : List Value}
    (history : List (List Value)) (hFinds : rt.finds call operands = true) :
    rt.met call (history ++ [operands]) = insert (Value.tags operands) (rt.met call history) := by
  ext signature
  simp only [met, List.filter_append, List.filter_cons, hFinds, if_true, List.filter_nil,
    List.map_append, List.map_cons, List.map_nil, List.mem_toFinset, List.mem_append,
    List.mem_singleton, Finset.mem_insert]
  exact or_comm

/-- Whoever has met some lists of types has met them later on. -/
theorem met_subset_append (rt : Runtime) (call : DynamicCall) (history more : List (List Value)) :
    rt.met call history ⊆ rt.met call (history ++ more) := by
  intro signature hMem
  simp only [met, List.mem_toFinset, List.filter_append, List.map_append, List.mem_append] at hMem ⊢
  exact Or.inl hMem

end Runtime

namespace Site

/-! ### One call of a site -/

/-- A site keeps an implementation for a list of types if one of its answers is for it. -/
theorem lookup?_eq_none_iff (entries : List Entry) (signature : List Tag) :
    lookup? entries signature = none ↔ signature ∉ entries.map Entry.signature := by
  simp [lookup?, List.find?_eq_none]

/-- What a site keeps after the calls of a history: one answer for each list of types it has met, or
none of its own if these are more than its limit. -/
def Remembers (s : Site) (met : Finset (List Tag)) : Prop :=
  match s.cache with
  | .own entries =>
      (entries.map Entry.signature).Nodup ∧ (entries.map Entry.signature).toFinset = met ∧
        entries.length ≤ s.limit ∧ s.resolutions = entries.length
  | .shared => s.limit < met.card

/-- A site as the calls of a history leave it. -/
structure Tracks (rt : Runtime) (call : DynamicCall) (s : Site) (history : List (List Value)) :
    Prop where
  call_eq : s.call = call
  limit_eq : s.limit = max rt.policy.polymorphicLimit 1
  invocations_eq : s.invocations = history.length
  remembers : s.Remembers (rt.met call history)

/-- The answers kept are as many as the lists of types met. -/
theorem length_entries {entries : List Entry} {met : Finset (List Tag)}
    (hNodup : (entries.map Entry.signature).Nodup)
    (hMet : (entries.map Entry.signature).toFinset = met) : entries.length = met.card := by
  rw [← hMet, List.toFinset_card_of_nodup hNodup, List.length_map]

/-- A list of types for which something is kept was met, or its site keeps no answers of its own. -/
theorem Remembers.insert_of_kept? {s : Site} {rt : Runtime} {met : Finset (List Tag)}
    (hRemembers : s.Remembers met) {signature : List Tag} {target : Target}
    (hKept : s.kept? rt signature = some target) : s.Remembers (insert signature met) := by
  unfold Remembers kept? at *
  cases hCache : s.cache with
  | own entries =>
      simp only [hCache] at hRemembers hKept ⊢
      obtain ⟨hNodup, hMet, hRoom, hResolutions⟩ := hRemembers
      have hMem : signature ∈ met := by
        by_contra hNew
        rw [← hMet, List.mem_toFinset, ← lookup?_eq_none_iff, hKept] at hNew
        cases hNew
      rw [Finset.insert_eq_of_mem hMem]
      exact ⟨hNodup, hMet, hRoom, hResolutions⟩
  | shared =>
      simp only [hCache] at hRemembers ⊢
      exact Nat.lt_of_lt_of_le hRemembers (Finset.card_le_card (Finset.subset_insert _ _))

/-- An implementation just found is kept beside the others, or takes the site over its limit. -/
theorem Remembers.install {s : Site} {rt : Runtime} {met : Finset (List Tag)}
    (hRemembers : s.Remembers met) {signature : List Tag} (target : Target)
    (hKept : s.kept? rt signature = none) :
    (s.install rt signature target).site.Remembers (insert signature met) := by
  unfold Remembers Site.install kept? at *
  cases hCache : s.cache with
  | own entries =>
      simp only [hCache] at hRemembers hKept ⊢
      obtain ⟨hNodup, hMet, hRoom, hResolutions⟩ := hRemembers
      have hNew := (lookup?_eq_none_iff entries signature).mp hKept
      have hLength := length_entries hNodup hMet
      have hCard : (insert signature met).card = met.card + 1 := by
        apply Finset.card_insert_of_notMem
        rwa [← hMet, List.mem_toFinset]
      unfold keep
      by_cases hFull : s.limit ≤ entries.length
      · simp only [if_pos hFull]
        show s.limit < (insert signature met).card
        omega
      · simp only [if_neg hFull, List.map_append, List.map_singleton, List.length_append,
          List.length_singleton]
        refine ⟨?_, ?_, by omega, by omega⟩
        · exact List.Nodup.append hNodup (List.nodup_singleton _) (by simpa using hNew)
        · rw [← hMet]
          ext other
          simp
  | shared =>
      simp only [hCache] at hRemembers ⊢
      exact Nat.lt_of_lt_of_le hRemembers (Finset.card_le_card (Finset.subset_insert _ _))

@[simp] theorem limit_install (s : Site) (rt : Runtime) (signature : List Tag) (target : Target) :
    (s.install rt signature target).site.limit = s.limit := by
  unfold install keep
  split
  · split <;> rfl
  · rfl

@[simp] theorem invocations_install (s : Site) (rt : Runtime) (signature : List Tag)
    (target : Target) : (s.install rt signature target).site.invocations = s.invocations := by
  unfold install keep
  split
  · split <;> rfl
  · rfl

/-- A call of a site, on a runtime of the same registry, adds to what the site remembers. -/
theorem Tracks.invoke {rt now : Runtime} {call : DynamicCall} {s : Site}
    {history : List (List Value)} (hTracks : s.Tracks rt call history)
    (hRegistry : now.registry = rt.registry) (operands : List Value) :
    (s.invoke now operands).2.1.Tracks rt call (history ++ [operands]) := by
  obtain ⟨rfl, hLimit, hInvocations, hRemembers⟩ := hTracks
  have hCounted : s.counted.invocations = (history ++ [operands]).length := by
    simp [Site.counted, hInvocations]
  -- the lookup is the same as at the start, since the registry is
  have hLookup : now.resolve s.call.selector operands = rt.resolve s.call.selector operands :=
    Runtime.resolve_congr hRegistry _ _
  rcases s.snd_invoke_cases now operands with
    ⟨target, hArity, hKept, hFound, hInvoke⟩ | ⟨hNothingNew, hInvoke⟩
  · rw [hInvoke]
    refine ⟨call_install s.counted now _ target,
      (limit_install s.counted now _ target).trans hLimit,
      (invocations_install s.counted now _ target).trans hCounted, ?_⟩
    rw [hLookup] at hFound
    rw [Runtime.met_append_of_finds history
      ((rt.finds_eq_true_iff s.call operands).mpr ⟨hArity, target, hFound⟩)]
    exact Remembers.install (s := s.counted) hRemembers target hKept
  · rw [hInvoke]
    refine ⟨rfl, hLimit, hCounted, ?_⟩
    cases hFinds : rt.finds s.call operands with
    | false =>
        rw [Runtime.met_append_of_finds_eq_false history hFinds]
        exact hRemembers
    | true =>
        -- what is found but is not new was kept before
        obtain ⟨hArity, target, hFound⟩ := (rt.finds_eq_true_iff s.call operands).mp hFinds
        obtain ⟨kept, hKept⟩ : ∃ kept, s.kept? now (Value.tags operands) = some kept :=
          Option.ne_none_iff_exists'.mp fun hNone =>
            hNothingNew ⟨hArity, hNone, target, hLookup.trans hFound⟩
        rw [Runtime.met_append_of_finds history hFinds]
        exact Remembers.insert_of_kept? (s := s.counted) hRemembers hKept

/-- The counts of a site that remembers a set of lists of types. -/
theorem Tracks.stats {rt : Runtime} {call : DynamicCall} {s : Site} {history : List (List Value)}
    (hTracks : s.Tracks rt call history) :
    s.stats.invocations = history.length ∧
    (((rt.met call history).card ≤ max rt.policy.polymorphicLimit 1 ∧
      s.stats.resolutions = (rt.met call history).card ∧
      s.stats.entries = (rt.met call history).card ∧
      s.stats.mode =
        if (rt.met call history).card = 0 then .unlinked
        else if (rt.met call history).card = 1 then .monomorphic else .polymorphic) ∨
    (max rt.policy.polymorphicLimit 1 < (rt.met call history).card ∧ s.stats.entries = 0 ∧
      s.stats.mode = .megamorphic)) := by
  refine ⟨hTracks.invocations_eq, ?_⟩
  have hRemembers := hTracks.remembers
  rw [← hTracks.limit_eq]
  unfold Remembers at hRemembers
  cases hCache : s.cache with
  | own entries =>
      simp only [hCache] at hRemembers
      obtain ⟨hNodup, hMet, hRoom, hResolutions⟩ := hRemembers
      rw [← length_entries hNodup hMet]
      refine Or.inl ⟨hRoom, hResolutions, by simp [Site.stats, hCache, Cache.size], ?_⟩
      simp only [Site.stats, hCache]
      match entries with
      | [] => rfl
      | [_] => rfl
      | _ :: _ :: _ => simp [Cache.mode]
  | shared =>
      simp only [hCache] at hRemembers
      exact Or.inr ⟨hRemembers, by simp [Site.stats, hCache, Cache.size],
        by simp [Site.stats, hCache, Cache.mode]⟩

end Site

namespace Linkage

/-! ### Runs -/

/-- Every site is as the calls made of it leave it. -/
structure Tracked (rt : Runtime) (calls : List DynamicCall) (past : List (Nat × List Value))
    (l : Linkage) : Prop where
  registry : l.runtime.registry = rt.registry
  sites : ∀ (i : Nat) (call : DynamicCall), calls[i]? = some call →
    ∃ s, l.sites[i]? = some s ∧ s.Tracks rt call (callsOf i past)

theorem callsOf_append (i : Nat) (past more : List (Nat × List Value)) :
    callsOf i (past ++ more) = callsOf i past ++ callsOf i more := by
  simp [callsOf]

/-- After linking nothing is remembered. -/
theorem tracked_link (rt : Runtime) (calls : List DynamicCall) :
    (link rt calls).Tracked rt calls [] where
  registry := rfl
  sites := by
    intro i call hCall
    refine ⟨Site.link rt.policy call, by simp [link, hCall], rfl, rfl, rfl, ?_⟩
    simp [Site.Remembers, Site.link, callsOf, Runtime.met]

/-- A call of one site is remembered by this site and by no other. -/
theorem Tracked.invoke? {rt : Runtime} {calls : List DynamicCall} {past : List (Nat × List Value)}
    {l : Linkage} (hTracked : l.Tracked rt calls past) (i : Nat) (operands : List Value) :
    (l.invoke? i operands).2.Tracked rt calls (past ++ [(i, operands)]) where
  registry := (l.registry_invoke? i operands).trans hTracked.registry
  sites := by
    intro j call hCall
    obtain ⟨s, hSite, hTracks⟩ := hTracked.sites j call hCall
    rw [getElem?_sites_invoke?, callsOf_append]
    by_cases hSame : i = j
    · subst hSame
      have hOwn : callsOf i [(i, operands)] = [operands] := by simp [callsOf]
      rw [if_pos rfl, hSite, Option.map_some, hOwn]
      exact ⟨_, rfl, hTracks.invoke hTracked.registry operands⟩
    · have hOther : callsOf j [(i, operands)] = [] := by simp [callsOf, hSame]
      rw [if_neg hSame, hOther, List.append_nil]
      exact ⟨s, hSite, hTracks⟩

/-- After a run every site remembers the calls made of it. -/
theorem Tracked.run {rt : Runtime} {calls : List DynamicCall} {past : List (Nat × List Value)}
    {l : Linkage} (hTracked : l.Tracked rt calls past) (steps : List (Nat × List Value)) :
    (l.run steps).2.Tracked rt calls (past ++ steps) := by
  induction steps generalizing l past with
  | nil => simpa [Linkage.run] using hTracked
  | cons step rest ih =>
      obtain ⟨i, operands⟩ := step
      have hRest := ih (hTracked.invoke? i operands)
      simpa [Linkage.run] using hRest

/-- **The counts of a site are a function of the set of lists of types it has met.**  For every
runtime, all sites linked on it and every run of calls of them in any order, let `met` be the lists
of types of those calls of a site that had the right number of operands and found an implementation.
The mode of the site and the number of its answers depend on the number of these lists only, and so
does its count of lookups up to the limit; its count of calls is the number of calls made of it.  A
site that has become megamorphic stays so, whatever is called afterwards. -/
theorem run_link_stats (rt : Runtime) (calls : List DynamicCall) (steps : List (Nat × List Value))
    (i : Fin calls.length) :
    let limit := max rt.policy.polymorphicLimit 1
    let met := rt.met calls[i] (callsOf i steps)
    ∃ site, ((link rt calls).run steps).2.sites[i.val]? = some site ∧
      (met.card = 0 → site.stats.mode = .unlinked ∧ site.stats.entries = 0) ∧
      (met.card = 1 → site.stats.mode = .monomorphic ∧ site.stats.entries = 1) ∧
      (2 ≤ met.card → met.card ≤ limit →
        site.stats.mode = .polymorphic ∧ site.stats.entries = met.card) ∧
      (limit < met.card → site.stats.mode = .megamorphic ∧ site.stats.entries = 0) ∧
      (met.card ≤ limit → site.stats.resolutions = met.card) ∧
      site.stats.invocations = (callsOf i steps).length ∧
      (site.stats.mode = .megamorphic → ∀ more, ∃ later,
        ((link rt calls).run (steps ++ more)).2.sites[i.val]? = some later ∧
          later.stats.mode = .megamorphic) := by
  intro limit met
  have hCall : calls[i.val]? = some calls[i] := List.getElem?_eq_getElem i.isLt
  have hAfter : ∀ run : List (Nat × List Value), ∃ s,
      ((link rt calls).run run).2.sites[i.val]? = some s ∧
        s.Tracks rt calls[i] (callsOf i run) := by
    intro run
    simpa using ((tracked_link rt calls).run run).sites i.val calls[i] hCall
  obtain ⟨site, hSite, hTracks⟩ := hAfter steps
  obtain ⟨hInvocations, hStats⟩ := hTracks.stats
  change (met.card ≤ limit ∧ site.stats.resolutions = met.card ∧ site.stats.entries = met.card ∧
      site.stats.mode = if met.card = 0 then .unlinked
        else if met.card = 1 then .monomorphic else .polymorphic) ∨
    (limit < met.card ∧ site.stats.entries = 0 ∧ site.stats.mode = .megamorphic) at hStats
  have hLimit : 1 ≤ limit := Nat.le_max_right _ _
  refine ⟨site, hSite, ?_⟩
  rcases hStats with ⟨hRoom, hResolutions, hEntries, hMode⟩ | ⟨hOver, hEntries, hMode⟩
  · refine ⟨?_, ?_, ?_, by omega, fun _ => hResolutions, hInvocations, ?_⟩
    · intro hZero
      rw [hMode, hEntries, if_pos hZero]
      exact ⟨rfl, hZero⟩
    · intro hOne
      rw [hMode, hEntries, hOne]
      exact ⟨rfl, rfl⟩
    · intro hTwo _
      rw [hMode, hEntries, if_neg (by omega), if_neg (by omega)]
      exact ⟨rfl, rfl⟩
    · intro hMega
      rw [hMode] at hMega
      split at hMega
      · cases hMega
      · split at hMega <;> cases hMega
  · refine ⟨by omega, by omega, by omega, fun _ => ⟨hMode, hEntries⟩, by omega, hInvocations, ?_⟩
    intro _ more
    obtain ⟨later, hLater, hTracksLater⟩ := hAfter (steps ++ more)
    refine ⟨later, hLater, ?_⟩
    -- the set only grows, so it stays over the limit
    have hGrows : met.card ≤ (rt.met calls[i] (callsOf i (steps ++ more))).card := by
      rw [callsOf_append]
      exact Finset.card_le_card (rt.met_subset_append calls[i] _ _)
    rcases hTracksLater.stats.2 with ⟨hRoom, -⟩ | ⟨-, -, hMega⟩
    · have hRoom' : (rt.met calls[i] (callsOf i (steps ++ more))).card ≤ limit := hRoom
      omega
    · exact hMega

end Linkage

end LateBinding.Dispatch
