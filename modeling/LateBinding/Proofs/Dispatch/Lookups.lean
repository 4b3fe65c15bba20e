import LateBinding.Proofs.Dispatch.History
import LateBinding.Proofs.Dispatch.Transparency

/-!
# How often implementations are looked up

A site looks an implementation up when it keeps none for the types of the operands.  While it keeps
answers of its own it never looks up twice for the same types; nor does it afterwards, when the
shared table keeps them, which never loses or changes an answer.  Between the two, at the call that
takes the site over its limit, its own answers are dropped and only that of this call gets into the
table; so for types that were met before, one more lookup may follow.

* `SharedTable.Extends`, `Coherent.extends_run` - the shared table only grows.
* `Lookup`, `Linkage.lookups` - the lookups that a run makes at a site, read off the counts.
* `Site.Logged` - how a site is tied to the lookups made at it; a call keeps the tie
  (`Logged.invoke`), and so does a run (`exists_logged_run`).
* `run_link_lookups` - the lookups of every run.
-/

namespace LateBinding.Dispatch

/-! ### The shared table -/

/-- A table has every answer of another one. -/
def SharedTable.Extends (later earlier : SharedTable) : Prop :=
  ∀ key target, earlier.find? key = some target → later.find? key = some target

theorem SharedTable.Extends.refl (t : SharedTable) : t.Extends t :=
  fun _ _ hFound => hFound

theorem SharedTable.Extends.trans {a b c : SharedTable} (hLate : c.Extends b)
    (hEarly : b.Extends a) :
    c.Extends a :=
  fun key target hFound => hLate key target (hEarly key target hFound)

/-- In a faithful table an answer is only replaced by itself. -/
theorem Runtime.SharesAnswers.extends_insert {rt : Runtime} (hShared : rt.SharesAnswers)
    {selector : Selector} {operands : List Value} {target : Target}
    (hFound : rt.resolve selector operands = .ok target) :
    (rt.shared.insert ⟨selector, Value.tags operands⟩ target).Extends rt.shared := by
  intro other kept hKept
  rw [SharedTable.find?_insert]
  split
  · rename_i hSame
    subst hSame
    have hAnswer := hShared _ kept hKept operands rfl
    rw [hFound] at hAnswer
    rw [Except.ok.inj hAnswer]
  · exact hKept

namespace Site

/-- What a site is and keeps after it installed an implementation: one more answer of its own while
there is room, and otherwise one more answer in the shared table. -/
theorem install_cases (s : Site) (rt : Runtime) (signature : List Tag) (target : Target) :
    (∃ entries, s.cache = .own entries ∧
      (s.install rt signature target).site =
        { s with
          cache := .own (entries ++ [⟨signature, target⟩])
          resolutions := s.resolutions + 1 } ∧
      (s.install rt signature target).runtime = rt) ∨
    ((s.install rt signature target).site =
        { s with cache := .shared, resolutions := s.resolutions + 1 } ∧
      (s.install rt signature target).runtime =
        { rt with shared := rt.shared.insert ⟨s.call.selector, signature⟩ target }) := by
  unfold install keep
  split
  · rename_i entries hCache
    split
    · exact .inr ⟨rfl, rfl⟩
    · exact .inl ⟨entries, hCache, rfl, rfl⟩
  · rename_i hCache
    exact .inr ⟨by rw [← hCache], rfl⟩

/-- A call of a site leaves every answer in the shared table. -/
theorem extends_invoke (s : Site) {rt : Runtime} (hShared : rt.SharesAnswers)
    (operands : List Value) : (s.invoke rt operands).2.2.shared.Extends rt.shared := by
  rcases s.snd_invoke_cases rt operands with ⟨target, -, -, hFound, hInvoke⟩ | ⟨-, hInvoke⟩
  · rw [hInvoke]
    rcases s.counted.install_cases rt (Value.tags operands) target with
      ⟨-, -, -, hRuntime⟩ | ⟨-, hRuntime⟩
    · rw [hRuntime]
      exact SharedTable.Extends.refl _
    · rw [hRuntime]
      exact hShared.extends_insert hFound
  · rw [hInvoke]
    exact SharedTable.Extends.refl _

end Site

namespace Linkage

/-- A call of any site leaves every answer in the shared table. -/
theorem Coherent.extends_invoke? {rt : Runtime} {calls : List DynamicCall} {l : Linkage}
    (hCoherent : l.Coherent rt calls) (i : Nat) (operands : List Value) :
    (l.invoke? i operands).2.runtime.shared.Extends l.runtime.shared := by
  cases hSite : l.sites[i]? with
  | none =>
      rw [invoke?_of_getElem?_eq_none hSite]
      exact SharedTable.Extends.refl _
  | some s =>
      rw [invoke?_of_getElem? hSite]
      exact s.extends_invoke hCoherent.shared operands

/-- A run leaves every answer in the shared table. -/
theorem Coherent.extends_run {rt : Runtime} {calls : List DynamicCall} {l : Linkage}
    (hCoherent : l.Coherent rt calls) (steps : List (Nat × List Value)) :
    (l.run steps).2.runtime.shared.Extends l.runtime.shared := by
  induction steps generalizing l with
  | nil => exact SharedTable.Extends.refl _
  | cons step rest ih =>
      obtain ⟨i, operands⟩ := step
      exact (ih (hCoherent.invoke? i operands).2).trans (hCoherent.extends_invoke? i operands)

end Linkage

/-! ### Lookups -/

/-- One lookup of an implementation at a site: the types that it was made for, and the modes of the
site before and after the call that made it. -/
structure Lookup where
  signature : List Tag
  before : Mode
  after : Mode
deriving DecidableEq, Repr

namespace Lookup

/-- Whether the lookup was made while the site was not yet megamorphic. -/
def isEarly (e : Lookup) : Bool :=
  e.before ≠ .megamorphic

/-- Whether the lookup made the site megamorphic. -/
def isSwitch (e : Lookup) : Bool :=
  e.before ≠ .megamorphic && e.after = .megamorphic

end Lookup

/-- The lookup made by a call that led from one state of a site to another, if the counts of the site
show one. -/
def Lookup.between? (s t : Site) (operands : List Value) : Option Lookup :=
  if s.stats.resolutions < t.stats.resolutions then
    some ⟨Value.tags operands, s.stats.mode, t.stats.mode⟩
  else none

/-- The lookups that a run makes at a site, in order. -/
def Linkage.lookups (i : Nat) : Linkage → List (Nat × List Value) → List Lookup
  | _, [] => []
  | l, (j, operands) :: rest =>
      let next := (l.invoke? j operands).2
      let made :=
        match l.sites[i]?, next.sites[i]? with
        | some s, some t => if i = j then Lookup.between? s t operands else none
        | _, _ => none
      made.toList ++ lookups i next rest

namespace Site

/-- A site is megamorphic exactly if it keeps no answers of its own. -/
theorem mode_eq_megamorphic_iff (s : Site) : s.stats.mode = .megamorphic ↔ s.cache = .shared := by
  cases hCache : s.cache with
  | own entries =>
      match entries with
      | [] => simp [stats, hCache, Cache.mode]
      | [_] => simp [stats, hCache, Cache.mode]
      | _ :: _ :: _ => simp [stats, hCache, Cache.mode]
  | shared => simp [stats, hCache, Cache.mode]

/-- A site with the lookups made at it so far.  Each of them was counted.  While the site keeps
answers of its own, there is one for each lookup; the answers to later lookups, and to the one of the
switch, are in the shared table.  So of two lookups for the same types the first was made before the
switch and the second after it. -/
structure Logged (s : Site) (shared : SharedTable) (log : List Lookup) : Prop where
  counted : s.resolutions = log.length
  own : ∀ entries, s.cache = .own entries →
    entries.map Entry.signature = log.map Lookup.signature
  late : ∀ e ∈ log, e.isEarly = false ∨ e.isSwitch = true →
    (shared.find? ⟨s.call.selector, e.signature⟩).isSome = true
  once : log.Pairwise fun e later => e.signature = later.signature →
    e.isEarly = true ∧ e.isSwitch = false ∧ later.isEarly = false

namespace Logged

variable {s : Site} {rt : Runtime} {shared later : SharedTable} {log : List Lookup}

/-- The log of a site is as good when the shared table has more answers. -/
theorem mono (hLogged : s.Logged shared log) (hExtends : later.Extends shared) :
    s.Logged later log where
  counted := hLogged.counted
  own := hLogged.own
  late := by
    intro e hMem hKind
    obtain ⟨target, hFound⟩ := Option.isSome_iff_exists.mp (hLogged.late e hMem hKind)
    rw [hExtends _ _ hFound]
    rfl
  once := hLogged.once

/-- Of two lookups for the same types the second is made after the switch, and the first before
it. -/
theorem of_kept?_eq_none (hLogged : s.Logged rt.shared log) {signature : List Tag}
    (hKept : s.kept? rt signature = none) {e : Lookup} (hMem : e ∈ log)
    (hSame : e.signature = signature) :
    e.isEarly = true ∧ e.isSwitch = false ∧ s.cache = .shared := by
  subst hSame
  unfold kept? at hKept
  cases hCache : s.cache with
  | own entries =>
      simp only [hCache] at hKept
      -- the answer to the first lookup would be among those of the site
      rw [lookup?_eq_none_iff, hLogged.own entries hCache] at hKept
      exact absurd (List.mem_map_of_mem hMem) hKept
  | shared =>
      simp only [hCache] at hKept
      have hNot : ¬ (e.isEarly = false ∨ e.isSwitch = true) := by
        intro hKind
        have hSome := hLogged.late e hMem hKind
        rw [hKept] at hSome
        cases hSome
      simpa using hNot

/-- A site that went on from a lookup for which nothing was kept. -/
theorem append {t : Site} (hLogged : s.Logged rt.shared log) (hExtends : later.Extends rt.shared)
    {operands : List Value} (hKept : s.kept? rt (Value.tags operands) = none)
    (hCall : t.call = s.call) (hCounted : t.resolutions = s.resolutions + 1)
    (hOwn : ∀ entries, t.cache = .own entries → ∃ before, s.cache = .own before ∧
      entries.map Entry.signature = before.map Entry.signature ++ [Value.tags operands])
    (hLate : t.cache = .shared →
      (later.find? ⟨s.call.selector, Value.tags operands⟩).isSome = true) :
    t.Logged later (log ++ (Lookup.between? s t operands).toList) := by
  have hMade : Lookup.between? s t operands =
      some ⟨Value.tags operands, s.stats.mode, t.stats.mode⟩ :=
    if_pos (by rw [stats, stats, hCounted]; exact Nat.lt_succ_self _)
  rw [hMade, Option.toList_some]
  refine ⟨?_, ?_, ?_, ?_⟩
  · rw [hCounted, hLogged.counted, List.length_append, List.length_singleton]
  · intro entries hCache
    obtain ⟨before, hBefore, hEntries⟩ := hOwn entries hCache
    rw [hEntries, hLogged.own before hBefore, List.map_append, List.map_singleton]
  · intro e hMem hKind
    rw [hCall]
    rcases List.mem_append.mp hMem with hOld | hNew
    · exact (hLogged.mono hExtends).late e hOld hKind
    · obtain rfl := List.mem_singleton.mp hNew
      cases hCache : t.cache with
      | shared => exact hLate hCache
      | own entries =>
          -- a site that keeps answers of its own has always done so
          obtain ⟨before, hBefore, -⟩ := hOwn entries hCache
          have hModeBefore : s.stats.mode ≠ .megamorphic := by
            rw [Ne, mode_eq_megamorphic_iff, hBefore]
            exact Cache.noConfusion
          have hModeAfter : t.stats.mode ≠ .megamorphic := by
            rw [Ne, mode_eq_megamorphic_iff, hCache]
            exact Cache.noConfusion
          simp [Lookup.isEarly, Lookup.isSwitch, hModeBefore, hModeAfter] at hKind
  · refine List.pairwise_append.mpr ⟨hLogged.once, List.pairwise_singleton _ _, ?_⟩
    intro e hOld x hNew hSame
    obtain rfl := List.mem_singleton.mp hNew
    obtain ⟨hEarly, hSwitch, hShared⟩ := hLogged.of_kept?_eq_none hKept hOld hSame
    refine ⟨hEarly, hSwitch, ?_⟩
    simpa [Lookup.isEarly] using (mode_eq_megamorphic_iff s).mpr hShared

/-- A call of a site adds its lookup to the log, if it makes one. -/
theorem invoke (hLogged : s.Logged rt.shared log) (hShared : rt.SharesAnswers)
    (operands : List Value) :
    (s.invoke rt operands).2.1.Logged (s.invoke rt operands).2.2.shared
      (log ++ (Lookup.between? s (s.invoke rt operands).2.1 operands).toList) := by
  have hExtends := s.extends_invoke hShared operands
  rcases s.snd_invoke_cases rt operands with ⟨target, -, hKept, -, hInvoke⟩ | ⟨-, hInvoke⟩
  · rw [hInvoke] at hExtends ⊢
    rcases s.counted.install_cases rt (Value.tags operands) target with
      ⟨entries, hCache, hSite, hRuntime⟩ | ⟨hSite, hRuntime⟩
    · rw [hSite, hRuntime]
      refine hLogged.append (SharedTable.Extends.refl _) hKept rfl rfl ?_ ?_
      · intro kept hKeeps
        cases hKeeps
        exact ⟨entries, hCache, by simp⟩
      · intro hShares
        cases hShares
    · rw [hRuntime] at hExtends
      rw [hSite, hRuntime]
      refine hLogged.append hExtends hKept rfl rfl ?_ ?_
      · intro kept hKeeps
        cases hKeeps
      · intro _
        rw [SharedTable.find?_insert, call_counted, if_pos rfl]
        rfl
  · rw [hInvoke]
    have hNone : Lookup.between? s s.counted operands = none := if_neg (Nat.lt_irrefl _)
    rw [hNone, Option.toList_none, List.append_nil]
    exact ⟨hLogged.counted, hLogged.own, hLogged.late, hLogged.once⟩

section Once

variable (hLogged : s.Logged shared log)

include hLogged

/-- No list of types is looked up twice while the site is not yet megamorphic. -/
theorem nodup_early : ((log.filter (·.isEarly)).map Lookup.signature).Nodup := by
  rw [List.Nodup, List.pairwise_map]
  refine (hLogged.once.filter _).imp_of_mem ?_
  intro e x _ hX hOnce hSame
  have hLate := (hOnce hSame).2.2
  rw [(List.mem_filter.mp hX).2] at hLate
  cases hLate

/-- No list of types is looked up twice once the site is megamorphic. -/
theorem nodup_late : ((log.filter (!·.isEarly)).map Lookup.signature).Nodup := by
  rw [List.Nodup, List.pairwise_map]
  refine (hLogged.once.filter _).imp_of_mem ?_
  intro e x hE _ hOnce hSame
  have hLate := (List.mem_filter.mp hE).2
  rw [(hOnce hSame).1] at hLate
  cases hLate

/-- The types that made the site megamorphic are not looked up once it is. -/
theorem signature_ne_of_isSwitch {e x : Lookup} (hE : e ∈ log) (hSwitch : e.isSwitch = true)
    (hX : x ∈ log) (hLate : x.isEarly = false) : x.signature ≠ e.signature := by
  -- whichever of the two came first, the other one would have been made in the other phase
  let Apart : Lookup → Lookup → Prop := fun a b =>
    a.signature = b.signature → ¬ (a.isSwitch = true ∧ b.isEarly = false)
  have hSelf : ∀ a ∈ log, Apart a a := by
    rintro a - - ⟨hSwitch, hLate⟩
    simp only [Lookup.isSwitch, Lookup.isEarly, Bool.and_eq_true] at hSwitch hLate
    rw [hSwitch.1] at hLate
    cases hLate
  have hForward : log.Pairwise Apart := by
    refine hLogged.once.imp ?_
    rintro a b hOnce hSame ⟨hSwitch, -⟩
    rw [(hOnce hSame).2.1] at hSwitch
    cases hSwitch
  have hBackward : log.Pairwise (flip Apart) := by
    refine hLogged.once.imp ?_
    rintro a b hOnce hSame ⟨-, hLate⟩
    rw [(hOnce hSame.symm).1] at hLate
    cases hLate
  intro hSame
  exact hForward.forall_of_forall_of_flip hSelf hBackward hE hX hSame.symm ⟨hSwitch, hLate⟩

end Once

end Logged

/-- A call of a megamorphic site with the right number of operands is counted as a lookup exactly if
the lookup finds an implementation and the shared table has none. -/
theorem resolutions_invoke_of_shared {s : Site} (rt : Runtime) (hCache : s.cache = .shared)
    {operands : List Value} (hArity : operands.length = s.call.arity) :
    let finds := (∃ target, rt.resolve s.call.selector operands = .ok target) ∧
      rt.shared.find? ⟨s.call.selector, Value.tags operands⟩ = none
    ((s.invoke rt operands).2.1.resolutions = s.resolutions + 1 ↔ finds) ∧
      ((s.invoke rt operands).2.1.resolutions = s.resolutions ↔ ¬ finds) := by
  intro finds
  have hKept : s.kept? rt (Value.tags operands) =
      rt.shared.find? ⟨s.call.selector, Value.tags operands⟩ := by
    rw [kept?, hCache]
  rcases s.snd_invoke_cases rt operands with ⟨target, -, hNone, hFound, hInvoke⟩ | ⟨hNot, hInvoke⟩
  · have hFinds : finds := ⟨⟨target, hFound⟩, hKept.symm.trans hNone⟩
    have hCount : (s.invoke rt operands).2.1.resolutions = s.resolutions + 1 := by
      rw [hInvoke]
      rcases s.counted.install_cases rt (Value.tags operands) target with
        ⟨entries, hOwn, -, -⟩ | ⟨hSite, -⟩
      · rw [show s.counted.cache = s.cache from rfl, hCache] at hOwn
        cases hOwn
      · rw [hSite]
        rfl
    exact ⟨iff_of_true hCount hFinds, iff_of_false (by omega) (not_not_intro hFinds)⟩
  · have hFinds : ¬ finds := fun hFinds => hNot ⟨hArity, hKept.trans hFinds.2, hFinds.1⟩
    have hCount : (s.invoke rt operands).2.1.resolutions = s.resolutions := by
      rw [hInvoke]
      rfl
    exact ⟨iff_of_false (by omega) hFinds, iff_of_true hCount hFinds⟩

/-- Before the first call nothing was looked up. -/
theorem logged_link (policy : Policy) (call : DynamicCall) (shared : SharedTable) :
    (link policy call).Logged shared [] where
  counted := rfl
  own := by
    intro entries hCache
    cases hCache
    rfl
  late := by
    intro e hMem
    cases hMem
  once := List.Pairwise.nil

end Site

/-! ### Runs -/

namespace Linkage

/-- A run adds its lookups to the log of a site. -/
theorem Coherent.exists_logged_run {rt : Runtime} {calls : List DynamicCall} {l : Linkage}
    (hCoherent : l.Coherent rt calls) {i : Nat} {s : Site} (hSite : l.sites[i]? = some s)
    {log : List Lookup} (hLogged : s.Logged l.runtime.shared log)
    (steps : List (Nat × List Value)) :
    ∃ t, (l.run steps).2.sites[i]? = some t ∧
      t.Logged (l.run steps).2.runtime.shared (log ++ l.lookups i steps) := by
  induction steps generalizing l s log with
  | nil => exact ⟨s, hSite, by simpa [lookups, Linkage.run] using hLogged⟩
  | cons step rest ih =>
      obtain ⟨j, operands⟩ := step
      have hNext := (hCoherent.invoke? j operands).2
      have hExtends := hCoherent.extends_invoke? j operands
      -- the call logs its lookup if it is one of this site, and leaves the site alone otherwise
      obtain ⟨t, hAfter, hStep⟩ : ∃ t, (l.invoke? j operands).2.sites[i]? = some t ∧
          t.Logged (l.invoke? j operands).2.runtime.shared
            (log ++ (if i = j then Lookup.between? s t operands else none).toList) := by
        by_cases hSame : i = j
        · subst hSame
          refine ⟨(s.invoke l.runtime operands).2.1, ?_, ?_⟩
          · rw [getElem?_sites_invoke?, if_pos rfl, hSite, Option.map_some]
          · rw [invoke?_of_getElem? hSite, if_pos rfl]
            exact hLogged.invoke hCoherent.shared operands
        · refine ⟨s, ?_, ?_⟩
          · rw [getElem?_sites_invoke?, if_neg (Ne.symm hSame), hSite]
          · rw [if_neg hSame, Option.toList_none, List.append_nil]
            exact hLogged.mono hExtends
      obtain ⟨last, hLast, hAll⟩ := ih hNext hAfter hStep
      refine ⟨last, hLast, ?_⟩
      rw [lookups, hSite, hAfter, ← List.append_assoc]
      exact hAll

/-- Steps in a row are a run of the first and a run of the others. -/
theorem snd_run_append (l : Linkage) (steps more : List (Nat × List Value)) :
    (l.run (steps ++ more)).2 = ((l.run steps).2.run more).2 := by
  induction steps generalizing l with
  | nil => rfl
  | cons step rest ih => exact ih (l.invoke? step.1 step.2).2

/-- **Lookups are bounded by the lists of types.**  Take any runtime, all sites linked on it and any
run of calls of them in any order.  Every lookup that a site counts is one of its log.  In the log
each list of types stands at most once before the site is megamorphic, the switch included, and at
most once afterwards; the one of the switch does not stand there afterwards.  What the shared table
has for a key, it has after all further calls.  And a call of a megamorphic site with the right
number of operands counts a lookup exactly if the lookup finds an implementation and the shared table
had none for its key; otherwise the count stays. -/
theorem run_link_lookups (registry : Class.Registry) (policy : Policy) (calls : List DynamicCall)
    (steps : List (Nat × List Value)) (i : Fin calls.length) :
    let rt := Runtime.ofRegistry registry policy
    let l := ((link rt calls).run steps).2
    let log := (link rt calls).lookups i steps
    ∃ site, l.sites[i.val]? = some site ∧
      site.stats.resolutions = log.length ∧
      ((log.filter (·.isEarly)).map Lookup.signature).Nodup ∧
      ((log.filter (!·.isEarly)).map Lookup.signature).Nodup ∧
      (∀ e ∈ log, e.isSwitch = true →
        ∀ x ∈ log, x.isEarly = false → x.signature ≠ e.signature) ∧
      (∀ key target, l.runtime.shared.find? key = some target →
        ∀ more, ((link rt calls).run (steps ++ more)).2.runtime.shared.find? key = some target) ∧
      (site.stats.mode = .megamorphic → ∀ operands, operands.length = (calls.get i).arity →
        let finds := (∃ target, rt.resolve (calls.get i).selector operands = .ok target) ∧
          l.runtime.shared.find? ⟨(calls.get i).selector, Value.tags operands⟩ = none
        ∃ next, (l.invoke? i operands).2.sites[i.val]? = some next ∧
          (next.stats.resolutions = site.stats.resolutions + 1 ↔ finds) ∧
          (next.stats.resolutions = site.stats.resolutions ↔ ¬ finds)) := by
  intro rt l log
  have hLink := coherent_link registry policy calls
  have hCoherent : l.Coherent rt calls := (hLink.run steps).2
  have hStart : (link rt calls).sites[i.val]? = some (Site.link rt.policy (calls.get i)) := by
    simp [link]
  obtain ⟨site, hSite, hLogged⟩ :=
    hLink.exists_logged_run hStart (Site.logged_link rt.policy (calls.get i) _) steps
  rw [List.nil_append] at hLogged
  obtain ⟨same, hSame, hCall⟩ := hCoherent.exists_site i
  obtain rfl : site = same := Option.some.inj (hSite.symm.trans hSame)
  refine ⟨site, hSite, hLogged.counted, hLogged.nodup_early, hLogged.nodup_late,
    fun e hE hSwitch x hX hLate => hLogged.signature_ne_of_isSwitch hE hSwitch hX hLate, ?_, ?_⟩
  · intro key target hFound more
    rw [snd_run_append]
    exact hCoherent.extends_run more key target hFound
  · intro hMode operands hArity finds
    have hCounts := Site.resolutions_invoke_of_shared l.runtime
      ((Site.mode_eq_megamorphic_iff site).mp hMode) (hArity.trans (by rw [hCall]))
    rw [Runtime.resolve_congr hCoherent.registry, hCall] at hCounts
    refine ⟨(site.invoke l.runtime operands).2.1, ?_, hCounts⟩
    rw [getElem?_sites_invoke?, if_pos rfl, hSite, Option.map_some]

end Linkage

end LateBinding.Dispatch
