import Mathlib.Data.List.Forall2
import LateBinding.Proofs.FreshName
import LateBinding.Proofs.Lexical.Inside
import LateBinding.Proofs.Scope.Change

/-!
# Scopes that reflect a context

At each point of the walk through a program, the scopes in the store stand for what is declared
there by the rules of lexical scope.  This file says what that means.  It does not say which tables
there are: only what is visible from the scope of the walk, which scope owns it, and how far the
slots of the frame are used up.

* `Shows` - a binding stands for a declaration: same name, unless the binding has a fresh one, same
  mutability, and the slot that the declaration has in the function.
* `Mirrors`, `Reflects` - a state of the walk, seen from a scope, stands for a context.
* `Reflects.lookup?_eq_none`, `Reflects.exists_lookup?` - then lookups agree.
-/

namespace LateBinding

namespace Scope.Binding

/-- The name of a binding as a program writes it; fresh names are not written anywhere. -/
def written? (b : Binding) : Option String :=
  if b.isGenerated then none else some b.name

/-- A binding is written under its name, if that is plain. -/
theorem written?_eq_some_iff (b : Binding) (name : String) :
    b.written? = some name ↔ b.name = name ∧ FreshName.isReserved name = false := by
  unfold written? isGenerated
  constructor
  · intro hWritten
    split at hWritten
    · cases hWritten
    · rename_i hPlain
      cases hWritten
      exact ⟨rfl, by simpa using hPlain⟩
  · rintro ⟨rfl, hPlain⟩
    rw [hPlain]
    rfl

end Scope.Binding

namespace Resolution

open Lexical (Context Declaration)
open Scope (Binding ScopeId)
open FreshName (MadeBefore isReserved)

/-! ### Bindings and declarations -/

/-- A binding stands for a declaration in the function around a context. -/
structure Shows (c : Context) (b : Binding) (d : Declaration) : Prop where
  name : d.name = b.written?
  mutability : d.mutability = b.mutability
  slot : d.name.isSome = true → b.slot = some (c.slot d)

/-- What a binding stands for depends on the function around the context only. -/
theorem Shows.congr {c next : Context} {b : Binding} {d : Declaration} (hShows : Shows c b d)
    (hDepth : next.depth = c.depth) (hInherited : next.inherited = c.inherited) :
    Shows next b d where
  name := hShows.name
  mutability := hShows.mutability
  slot := by
    have hSlot : next.slot d = c.slot d := by rw [Context.slot, hDepth, hInherited, Context.slot]
    rw [hSlot]
    exact hShows.slot

/-- Marks do not matter. -/
theorem shows_plain_iff {c : Context} {b : Binding} {d : Declaration} :
    Shows c b.plain d ↔ Shows c b d :=
  ⟨fun hShows => ⟨hShows.name, hShows.mutability, hShows.slot⟩,
    fun hShows => ⟨hShows.name, hShows.mutability, hShows.slot⟩⟩

/-- What does not depend on marks holds of bindings that are equal up to marks. -/
theorem forall₂_congr_plain {R : Binding → Declaration → Prop}
    (hMarks : ∀ {b d}, R b.plain d ↔ R b d) {bs other : List Binding} {ds : List Declaration}
    (hPlain : other.map Binding.plain = bs.map Binding.plain) (hAll : List.Forall₂ R bs ds) :
    List.Forall₂ R other ds := by
  have hMap : ∀ l : List Binding, List.Forall₂ R (l.map Binding.plain) ds ↔ List.Forall₂ R l ds := by
    intro l
    simp only [List.forall₂_map_left_iff, hMarks]
  rw [← hMap, hPlain, hMap]
  exact hAll

/-- Bindings that are equal up to marks stand for the same declarations. -/
theorem forall₂_shows_congr {c : Context} {bs other : List Binding} {ds : List Declaration}
    (hPlain : other.map Binding.plain = bs.map Binding.plain)
    (hShows : List.Forall₂ (Shows c) bs ds) : List.Forall₂ (Shows c) other ds :=
  forall₂_congr_plain shows_plain_iff hPlain hShows

/-- A program name finds the declaration that the found binding stands for. -/
theorem forall₂_find? {c : Context} {bs : List Binding} {ds : List Declaration}
    (hShows : List.Forall₂ (Shows c) bs ds) {name : String} (hPlain : isReserved name = false) :
    Option.Rel (Shows c) (bs.find? (·.name = name)) (ds.find? (·.name = some name)) := by
  induction hShows with
  | nil => exact Option.Rel.none
  | @cons b d bs ds hHead _ ih =>
      have hSame : b.name = name ↔ d.name = some name := by
        rw [hHead.name, b.written?_eq_some_iff]
        exact ⟨fun h => ⟨h, hPlain⟩, fun h => h.1⟩
      by_cases hName : b.name = name
      · simpa [hName, hSame.mp hName] using hHead
      · have hOther : d.name ≠ some name := fun h => hName (hSame.mpr h)
        simpa [hName, hOther] using ih

/-- Overlaying keeps pace, if a fresh name is overlaid on bindings that do not have it. -/
theorem forall₂_overlay {R : Binding → Declaration → Prop}
    (hWritten : ∀ {b d}, R b d → d.name = b.written?) {bs : List Binding} {ds : List Declaration}
    {b : Binding} {d : Declaration} (hAll : List.Forall₂ R bs ds) (hNew : R b d)
    (hFresh : b.isGenerated = true → ∀ a ∈ bs, a.name ≠ b.name) :
    List.Forall₂ R (Scope.Store.overlay bs b) (Lexical.overlay ds d) := by
  rw [Scope.Store.overlay_eq_keyed, Lexical.overlay_eq_keyed]
  refine Keyed.forall₂_overlay hAll hNew ?_
  intro a hMem e hShows
  show true = true ∧ some a.name = some b.name ↔ d.name.isSome = true ∧ e.name = d.name
  rw [hWritten hShows, hWritten hNew]
  by_cases hGenerated : b.isGenerated = true
  · have hNe := hFresh hGenerated a hMem
    simp [Binding.written?, hGenerated, hNe]
  · have hPlain : isReserved b.name = false := by
      simpa [Binding.isGenerated] using hGenerated
    have hPlainName : b.written? = some b.name :=
      (b.written?_eq_some_iff _).mpr ⟨rfl, hPlain⟩
    rw [hPlainName, a.written?_eq_some_iff]
    simp [hPlain]

/-! ### States and contexts -/

/-- The state of the walk, seen from a scope, stands for a context: the visible bindings are those
of the visible declarations; what comes from outside the function is owned by its environment, where
it is marked once the function has it; the frame gives the next declaration its slot; and no name
that is still to be made stands in any scope. -/
structure Mirrors (c : Context) (p : Progress) (scope : ScopeId) : Prop where
  sound : p.scopes.Sound
  known : scope.index < p.scopes.size
  fresh : ∀ id, ∀ b ∈ p.scopes.owned id, b.isGenerated = true → MadeBefore p.names.made b.name
  nested : c.Nested
  shows : List.Forall₂ (Shows c) (p.scopes.visible scope) c.visible
  owner : ∀ name d, c.lookup? name = some d →
    (p.scopes.owner? scope name = p.frame.environment ↔ d.depth < c.depth)
  next : p.frame.nextSlot = c.inherited.length + c.made
  outside : ∀ environment, p.frame.environment = some environment → environment.index ≤ scope.index
  marks : ∀ environment, p.frame.environment = some environment →
    ∀ b ∈ p.scopes.owned environment,
      (b.captured = true ↔ b.name ∈ p.frame.captured.map Capture.name)
  distinct : p.frame.captured.eraseDups = p.frame.captured
  slots : ∀ k ∈ p.frame.captured, k.slot = c.inherited.idxOf (some k.name)

/-- The state of the walk in a scope stands for a context, and the scope is not the environment of
the function itself, so that the walk may declare names in it. -/
structure Reflects (c : Context) (p : Progress) (scope : ScopeId) : Prop
    extends Mirrors c p scope where
  inside : p.frame.environment ≠ some scope

section Lookups

variable {c : Context} {p : Progress} {scope : ScopeId} (hReflects : Reflects c p scope)
  {name : String}

include hReflects

/-- Program names are looked up alike in the scope and in the context. -/
theorem Reflects.rel_lookup? (hPlain : isReserved name = false) :
    Option.Rel (Shows c) (p.scopes.lookup? scope name) (c.lookup? name) := by
  rw [hReflects.sound.lookup?_eq_find?_visible hReflects.known, ← c.find?_visible]
  exact forall₂_find? hReflects.shows hPlain

/-- A program name without a declaration has no binding. -/
theorem Reflects.lookup?_eq_none (hPlain : isReserved name = false)
    (hNone : c.lookup? name = none) : p.scopes.lookup? scope name = none := by
  have hRel := hReflects.rel_lookup? hPlain
  rw [hNone] at hRel
  generalize p.scopes.lookup? scope name = found at hRel
  cases hRel
  rfl

/-- A program name with a declaration has the binding that stands for it. -/
theorem Reflects.exists_lookup? (hPlain : isReserved name = false) {d : Declaration}
    (hSome : c.lookup? name = some d) :
    ∃ b, p.scopes.lookup? scope name = some b ∧ Shows c b d := by
  have hRel := hReflects.rel_lookup? hPlain
  rw [hSome] at hRel
  generalize hFound : p.scopes.lookup? scope name = found at hRel
  cases hRel with
  | some hShows => exact ⟨_, rfl, hShows⟩

/-- Declared names are plain. -/
theorem Reflects.isReserved_of_lookup? {d : Declaration} (hSome : c.lookup? name = some d) :
    isReserved name = false := by
  have hMem := Context.mem_visible_of_lookup? hSome
  have hName := (Context.mem_declared_of_lookup? hSome).2
  obtain ⟨b, -, hShows⟩ : ∃ b ∈ p.scopes.visible scope, Shows c b d := by
    have hAll := hReflects.shows
    generalize p.scopes.visible scope = bs at hAll
    generalize c.visible = ds at hAll hMem
    induction hAll with
    | nil => cases hMem
    | @cons b e bs ds hHead _ ih =>
        rcases List.mem_cons.mp hMem with rfl | hMem
        · exact ⟨b, List.mem_cons_self, hHead⟩
        · obtain ⟨a, hA, hShows⟩ := ih hMem
          exact ⟨a, List.mem_cons_of_mem b hA, hShows⟩
  have hWritten := hShows.name.symm.trans hName
  exact ((b.written?_eq_some_iff name).mp hWritten).2

omit hReflects in
/-- A visible binding with a fresh name has one that was made before. -/
theorem Mirrors.madeBefore_of_mem_visible (hMirrors : Mirrors c p scope) {b : Binding}
    (hMem : b ∈ p.scopes.visible scope) (hGenerated : b.isGenerated = true) :
    MadeBefore p.names.made b.name := by
  obtain ⟨owner, hOwned⟩ := Scope.Store.exists_owned_of_mem_visible hMem
  exact hMirrors.fresh owner b hOwned hGenerated

/-- A visible binding does not have a name that is still to be made. -/
theorem Reflects.name_ne_of_not_madeBefore {b : Binding} (hMem : b ∈ p.scopes.visible scope)
    (hReserved : isReserved name = true) (hNew : ¬ MadeBefore p.names.made name) :
    b.name ≠ name := by
  rintro rfl
  exact hNew (hReflects.madeBefore_of_mem_visible hMem hReserved)

end Lookups

end Resolution

end LateBinding
