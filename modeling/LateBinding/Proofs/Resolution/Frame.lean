import LateBinding.Proofs.Resolution.Step

/-!
# Entering and leaving functions

A function is walked in a frame of its own.  The frame of a closure begins with a snapshot of all
that is visible around it; a function with a name stands at the top of a module, where nothing is
visible.  In both cases the new frame stands for the context inside the function, and after the walk
through the function the frame around it is as it was.

* `Begins`, `exists_beginFrame` - a new frame, and its environment.
* `Enters`, `exists_enterFunction`, `enterFunction_eq_error` - entering a function.
* `advances_leaveFunction` - leaving it.
-/

namespace LateBinding.Resolution

open Lexical (Context Declaration)
open Scope (Binding ScopeId)
open FreshName (MadeBefore isReserved)

variable {c : Context} {p q : Progress} {scope : ScopeId}

/-! ### Snapshots -/

/-- The place of a visible declaration is where its name is first found. -/
theorem Mirrors.idxOf_name (hMirrors : Mirrors c p scope) {i : Nat} (hBound : i < c.visible.length)
    (hName : c.visible[i].name.isSome = true) :
    (c.visible.map Declaration.name).idxOf c.visible[i].name = i := by
  have hLength := hMirrors.shows.length_eq
  have hAt : ∀ (j : Nat) (hJ : j < c.visible.length) (hShown : j < (p.scopes.visible scope).length),
      c.visible[j].name = (p.scopes.visible scope)[j].written? :=
    fun j hJ hShown => (hMirrors.shows.get hShown hJ).name
  obtain ⟨name, hSome⟩ := Option.isSome_iff_exists.mp hName
  rw [List.idxOf, List.findIdx_eq (by simpa using hBound)]
  refine ⟨by simp, ?_⟩
  intro j hLt
  have hJ : j < c.visible.length := by omega
  -- an earlier declaration of this name would be a second visible binding of it
  have hNe : c.visible[j].name ≠ c.visible[i].name := by
    intro hSame
    have hNameI := (Binding.written?_eq_some_iff _ name).mp ((hAt i hBound (by omega)).symm.trans hSome)
    have hNameJ := (Binding.written?_eq_some_iff _ name).mp
      ((hAt j hJ (by omega)).symm.trans (hSame.trans hSome))
    have hNodup := Scope.Store.nodup_visible p.scopes scope
    rw [List.nodup_iff_getElem?_ne_getElem?] at hNodup
    apply hNodup j i hLt (by simpa using (by omega : i < (p.scopes.visible scope).length))
    rw [List.getElem?_map, List.getElem?_map, List.getElem?_eq_getElem (by omega),
      List.getElem?_eq_getElem (by omega), Option.map_some, Option.map_some, hNameI.1, hNameJ.1]
  simpa using hNe

/-- The bindings of a snapshot stand for the visible declarations inside the function that takes
it. -/
theorem Mirrors.shows_snapshot (hMirrors : Mirrors c p scope) :
    List.Forall₂ (Shows c.enter) (p.scopes.snapshotBindings scope false) c.enter.visible := by
  have hLength := hMirrors.shows.length_eq
  have hVisible : c.enter.visible = c.visible := rfl
  rw [hVisible, List.forall₂_iff_get]
  refine ⟨by simpa [Scope.Store.snapshotBindings] using hLength, ?_⟩
  intro i hI hJ
  have hOld : Shows c _ _ := hMirrors.shows.get (by omega) hJ
  simp only [Scope.Store.snapshotBindings, Bool.false_eq_true, if_false, List.get_eq_getElem,
    List.getElem_mapIdx] at hOld ⊢
  refine ⟨hOld.name, hOld.mutability, ?_⟩
  intro hName
  have hMem := Context.mem_declared_of_mem_visible (List.getElem_mem hJ)
  have hDepth : c.visible[i].depth ≠ c.enter.depth := by
    have := hMirrors.nested _ hMem
    rw [Context.depth_enter]
    omega
  rw [Context.slot, if_neg hDepth, Context.inherited_enter, hMirrors.idxOf_name hJ hName]

/-- Copies have the names of what is visible where they were made. -/
theorem Mirrors.fresh_snapshot (hMirrors : Mirrors c p scope) {b : Binding}
    (hMem : b ∈ (p.scopes.snapshotBindings scope false).map Binding.plain)
    (hGenerated : b.isGenerated = true) : MadeBefore p.names.made b.name := by
  have hName : b.name ∈ (p.scopes.visible scope).map Binding.name := by
    rw [← Scope.Store.map_name_snapshotBindings _ _ false]
    obtain ⟨x, hX, rfl⟩ := List.mem_map.mp hMem
    exact List.mem_map.mpr ⟨x, hX, rfl⟩
  obtain ⟨x, hX, hSame⟩ := List.mem_map.mp hName
  have hMade := hMirrors.madeBefore_of_mem_visible hX (by rwa [Binding.isGenerated, hSame])
  rwa [hSame] at hMade

/-- A scope that stands for a context with its own bindings owns all that is found in the context. -/
theorem owner?_of_forall₂_owned {store : Scope.Store} (hSound : store.Sound) {environment : ScopeId}
    (hKnown : environment.index < store.size)
    (hShows : List.Forall₂ (Shows c) (store.owned environment) c.visible) {name : String}
    (hPlain : isReserved name = false) {d : Declaration} (hLookup : c.lookup? name = some d) :
    store.owner? environment name = some environment := by
  have hRel := forall₂_find? hShows hPlain
  rw [c.find?_visible, hLookup, ← hSound.owned?_eq_find?] at hRel
  have hOwns : (store.owned? environment name).isSome = true := by
    generalize store.owned? environment name = found at hRel
    cases hRel
    rfl
  rw [hSound.owner?_eq hKnown, if_pos hOwns]

/-! ### New frames -/

/-- A frame was begun for a function, and nothing else was done that concerns the scopes there were.
What the function sees around itself stands for the context inside it. -/
structure Begins (c : Context) (p : Progress) (scope : ScopeId) (q : Progress) : Prop where
  mirrors : Mirrors c.enter q (q.frame.environment.getD scope)
  size_le : p.scopes.size ≤ q.scopes.size
  new : ∀ environment, q.frame.environment = some environment → p.scopes.size ≤ environment.index
  tables : ∀ id : ScopeId, id.index < p.scopes.size → q.scopes.table? id = p.scopes.table? id
  captured : q.frame.captured = []
  slots : q.slots = p.slots
  layouts : q.layouts = p.layouts

/-- The frame of a closure can be begun: its environment owns what is visible around the closure. -/
theorem Reflects.exists_beginFrame_closure (hReflects : Reflects c p scope) :
    ∃ q, p.beginFrame scope true = .ok q ∧ Begins c p scope q := by
  obtain ⟨store, hSnapshot, -, hSound, hSize, hTables, hOwned, hCleared, hParent⟩ :=
    hReflects.sound.exists_snapshot hReflects.known
  have hKnown : (⟨p.scopes.size⟩ : ScopeId).index < (store.clearCaptured ⟨p.scopes.size⟩).size := by
    rw [hSize]
    exact Nat.lt_succ_self _
  have hOwns : List.Forall₂ (Shows c.enter)
      ((store.clearCaptured ⟨p.scopes.size⟩).owned ⟨p.scopes.size⟩) c.enter.visible := by
    rw [hCleared, List.forall₂_map_left_iff]
    exact hReflects.shows_snapshot.imp fun _ _ hShows => shows_plain_iff.mpr hShows
  -- the environment stands on its own, so what it owns is all that is visible from it
  have hShows : List.Forall₂ (Shows c.enter)
      ((store.clearCaptured ⟨p.scopes.size⟩).visible ⟨p.scopes.size⟩) c.enter.visible := by
    rw [hSound.visible_eq hKnown, Scope.Store.visibleAround, hParent,
      Scope.Store.foldl_overlay_nil (hSound.nodup_owned _)]
    exact hOwns
  have hLength : (store.owned ⟨p.scopes.size⟩).length = c.visible.length := by
    rw [hOwned, hReflects.shows_snapshot.length_eq]
    rfl
  refine ⟨{ p with
      scopes := store.clearCaptured ⟨p.scopes.size⟩
      frame := ⟨some ⟨p.scopes.size⟩, (store.owned ⟨p.scopes.size⟩).length, []⟩ }, ?_, ?_⟩
  · simp only [Progress.beginFrame, if_true, hSnapshot]
    rfl
  · exact {
      mirrors := {
        sound := hSound
        known := hKnown
        fresh := by
          intro id b hMem hGenerated
          refine hReflects.fresh_of_added hSize hTables (fun a hAdded => ?_) hMem hGenerated
          rw [hCleared] at hAdded
          exact hReflects.fresh_snapshot hAdded
        nested := hReflects.nested.enter
        shows := hShows
        owner := by
          intro name d hLookup
          -- all that is found in the closure is owned by its environment, and declared outside
          have hDepth : d.depth < c.enter.depth :=
            Nat.lt_succ_of_le (hReflects.nested d (Context.mem_declared_of_lookup? hLookup).1)
          exact iff_of_true (owner?_of_forall₂_owned hSound hKnown hOwns
            (hReflects.isReserved_of_lookup? hLookup) hLookup) hDepth
        next := by
          rw [Context.made_enter, Context.inherited_enter, List.length_map]
          exact hLength
        outside := by
          intro environment hEnvironment
          cases hEnvironment
          exact Nat.le_refl _
        marks := by
          intro environment hEnvironment b hMem
          cases hEnvironment
          rw [hCleared] at hMem
          obtain ⟨x, -, rfl⟩ := List.mem_map.mp hMem
          simp [Binding.plain]
        distinct := rfl
        slots := by
          intro k hMem
          cases hMem }
      size_le := by
        rw [hSize]
        exact Nat.le_succ _
      new := by
        intro environment hEnvironment
        cases hEnvironment
        exact Nat.le_refl _
      tables := hTables
      captured := rfl
      slots := rfl
      layouts := rfl }

/-- The frame of a function with a name can be begun where nothing is declared. -/
theorem Reflects.exists_beginFrame_named (hReflects : Reflects c p scope)
    (hDeclared : c.declared = []) :
    ∃ q, p.beginFrame scope false = .ok q ∧ Begins c p scope q := by
  have hVisible : c.visible = [] := by rw [Context.visible, hDeclared]; rfl
  -- with nothing declared around it the function needs no environment
  have hNone : ∀ name, c.enter.lookup? name = none := by
    intro name
    rw [Context.lookup?, Context.enter, hDeclared]
    rfl
  refine ⟨{ p with frame := ⟨none, 0, []⟩ }, rfl, ?_⟩
  exact {
    mirrors := {
      sound := hReflects.sound
      known := hReflects.known
      fresh := hReflects.fresh
      nested := hReflects.nested.enter
      shows := by
        have hEmpty := hReflects.shows
        have hEnter : c.enter.visible = [] := hVisible
        rw [hVisible, List.forall₂_nil_right_iff] at hEmpty
        rw [hEnter]
        exact List.forall₂_nil_right_iff.mpr hEmpty
      owner := by
        intro name d hLookup
        rw [hNone] at hLookup
        cases hLookup
      next := by
        rw [Context.made_enter, Context.inherited_enter, hVisible]
        rfl
      outside := by
        intro environment hEnvironment
        cases hEnvironment
      marks := by
        intro environment hEnvironment
        cases hEnvironment
      distinct := rfl
      slots := by
        intro k hMem
        cases hMem }
    size_le := Nat.le_refl _
    new := by
      intro environment hEnvironment
      cases hEnvironment
    tables := fun _ _ => rfl
    captured := rfl
    slots := rfl
    layouts := rfl }

/-! ### Entering a function -/

/-- A function was entered: the state stands for a context in a scope that was not there before, and
what was there before is as it was. -/
structure Enters (p : Progress) (next : Context) (inner : ScopeId) (q : Progress) : Prop where
  reflects : Reflects next q inner
  size_le : p.scopes.size ≤ q.scopes.size
  new : p.scopes.size ≤ inner.index
  environment : ∀ environment, q.frame.environment = some environment →
    p.scopes.size ≤ environment.index
  tables : ∀ id : ScopeId, id.index < p.scopes.size → q.scopes.table? id = p.scopes.table? id
  captured : q.frame.captured = []
  slots : q.slots = p.slots
  layouts : (q.layouts.toList.map Lexical.Position.nameless).Perm
    (p.layouts.toList.map Lexical.Position.nameless)

/-- Naming a function leaves scopes, frame, slots and layouts alone. -/
theorem Reflects.nameFunction (hReflects : Reflects c p scope) (id : NodeId) (name : String)
    (isClosure : Bool) :
    Reflects c (p.nameFunction id name isClosure).2 scope ∧
      (p.nameFunction id name isClosure).2.scopes = p.scopes ∧
      (p.nameFunction id name isClosure).2.slots = p.slots ∧
      (p.nameFunction id name isClosure).2.layouts = p.layouts := by
  cases isClosure with
  | false => exact ⟨hReflects, rfl, rfl, rfl⟩
  | true => exact ⟨hReflects.congr rfl rfl (Nat.le_succ _), rfl, rfl, rfl⟩

/-- The scope of a function can be opened; it stands for the context inside the function, before its
parameters are declared. -/
theorem Reflects.exists_enter (hReflects : Reflects c p scope) (id : NodeId) (name : String)
    {isClosure : Bool} (hKind : isClosure = true ∨ c.declared = []) :
    ∃ (fresh : String) (inner : ScopeId) (q : Progress),
      (∀ params, p.enterFunction scope id name params isClosure =
        (q.declareAll inner .constant params).map fun (slots, q) => (⟨fresh, inner, slots⟩, q)) ∧
      Enters p c.enter inner q := by
  obtain ⟨hNamed, hScopes, hSlots, hLayouts⟩ := hReflects.nameFunction id name isClosure
  obtain ⟨begun, hBegin, hBegins⟩ :
      ∃ q, (p.nameFunction id name isClosure).2.beginFrame scope isClosure = .ok q ∧
        Begins c (p.nameFunction id name isClosure).2 scope q := by
    rcases hKind with rfl | hDeclared
    · exact hNamed.exists_beginFrame_closure
    · cases isClosure with
      | false => exact hNamed.exists_beginFrame_named hDeclared
      | true => exact hNamed.exists_beginFrame_closure
  obtain ⟨opened, hOpen, hOpens, hInner⟩ := hBegins.mirrors.exists_openScope id
  have hSize := hBegins.size_le
  rw [hScopes] at hSize
  refine ⟨(p.nameFunction id name isClosure).1, ⟨begun.scopes.size⟩,
    { opened with names := opened.names.enter (p.nameFunction id name isClosure).1 }, ?_, ?_⟩
  · intro params
    simp only [Progress.enterFunction]
    rw [hBegin]
    show (begun.openScope id (begun.frame.environment.getD scope) >>= _) = _
    rw [hOpen]
    show (Progress.declareAll _ _ _ params >>= _) = _
    cases Progress.declareAll _ _ _ params <;> rfl
  · exact {
      reflects := hInner.congr rfl rfl (Nat.le_refl _)
      size_le := by
        have hOpened : opened.scopes.size = begun.scopes.size + 1 := hOpens.size
        show p.scopes.size ≤ opened.scopes.size
        omega
      new := hSize
      environment := by
        intro environment hEnvironment
        have hBegun : begun.frame.environment = some environment := by
          rw [← hOpens.frame]
          exact hEnvironment
        -- the environment is as new as the scope
        have hNew := hBegins.new environment hBegun
        rwa [hScopes] at hNew
      tables := by
        intro other hLt
        have hOld := hBegins.tables other (by rwa [hScopes])
        rw [hScopes] at hOld
        rw [← hOld]
        exact hOpens.tables other (by omega)
      captured := by
        show opened.frame.captured = []
        rw [hOpens.frame, hBegins.captured]
      slots := by
        show opened.slots = p.slots
        rw [hOpens.slots, hBegins.slots, hSlots]
      layouts := by
        show (opened.layouts.toList.map _).Perm _
        rw [hOpens.layouts, hBegins.layouts, hLayouts] }

section Parameters

variable (hReflects : Reflects c p scope) (id : NodeId) (name : String) {params : List String}
  {isClosure : Bool} (hKind : isClosure = true ∨ c.declared = [])
  (hPlain : ∀ param ∈ params, isReserved param = false)

include hReflects hKind hPlain

/-- A function whose parameters have names can be entered.  The parameters get the slots after those
of the environment. -/
theorem Reflects.exists_enterFunction (hParams : "" ∉ params) :
    ∃ entry q, p.enterFunction scope id name params isClosure = .ok (entry, q) ∧
      entry.params = List.range' c.visible.length params.length ∧
      Enters p (c.enter.extend id (.function name params isClosure)) entry.scope q := by
  obtain ⟨fresh, inner, entered, hEnter, hEnters⟩ := hReflects.exists_enter id name hKind
  obtain ⟨q, hDeclare, hAdvances⟩ :=
    hEnters.reflects.exists_declareAll .constant hPlain hParams id 0
  have hNext : entered.frame.nextSlot = c.visible.length := by
    rw [hEnters.reflects.next, Context.made_enter, Context.inherited_enter, List.length_map]
    rfl
  refine ⟨⟨fresh, inner, List.range' entered.frame.nextSlot params.length⟩, q, ?_, ?_, ?_⟩
  · rw [hEnter, hDeclare]
    rfl
  · rw [hNext]
  · exact {
      reflects := hAdvances.reflects
      size_le := Nat.le_trans hEnters.size_le hAdvances.size_le
      new := hEnters.new
      environment := by
        rw [hAdvances.environment]
        exact hEnters.environment
      tables := by
        intro other hLt
        have hInner : other ≠ inner := by
          rintro rfl
          have := hEnters.new
          omega
        have hEnvironment : entered.frame.environment ≠ some other := by
          intro hSame
          have := hEnters.environment other hSame
          omega
        rw [hAdvances.tables other (Nat.lt_of_lt_of_le hLt hEnters.size_le) hInner hEnvironment]
        exact hEnters.tables other hLt
      captured := by
        rw [hAdvances.captured, hEnters.captured]
        rfl
      slots := by
        apply Array.toList_inj.mp
        rw [hAdvances.slots, hEnters.slots, List.append_nil]
      layouts := by
        have hLayouts := hAdvances.layouts
        rw [List.append_nil] at hLayouts
        exact hLayouts.trans hEnters.layouts }

/-- A function with a parameter without a name cannot be entered. -/
theorem Reflects.enterFunction_eq_error (hParams : "" ∈ params) :
    p.enterFunction scope id name params isClosure = .error (.scope .namelessBinding) := by
  obtain ⟨fresh, inner, entered, hEnter, hEnters⟩ := hReflects.exists_enter id name hKind
  rw [hEnter, hEnters.reflects.declareAll_eq_error .constant hPlain hParams]
  rfl

end Parameters

/-! ### Leaving a function -/

/-- After a function the walk goes on where it was.  The layout of the function is added to those of
the functions inside it. -/
theorem Reflects.advances_leaveFunction (hReflects : Reflects c p scope) {next : Context}
    {entry : Progress.Entry} (hEnters : Enters p next entry.scope q) {slots : List (NodeId × Nat)}
    {captures : List Capture} {layouts : List Layout} {last : Context} {r : Progress}
    (hBody : Advances entry.scope q slots captures layouts last r) (id : NodeId) (isClosure : Bool) :
    Advances scope p slots []
      (⟨id, "", isClosure, entry.params, last.inherited.length + last.made, captures.eraseDups⟩ ::
        layouts) c (r.leaveFunction id isClosure entry p.frame).2 := by
  have hKnown := hReflects.known
  -- inside the function only scopes are touched that were not there before it
  have hTables : ∀ other : ScopeId, other.index < p.scopes.size →
      r.scopes.table? other = p.scopes.table? other := by
    intro other hLt
    have hInner : other ≠ entry.scope := by
      rintro rfl
      have := hEnters.new
      omega
    have hEnvironment : q.frame.environment ≠ some other := by
      intro hSame
      have := hEnters.environment other hSame
      omega
    rw [hBody.tables other (Nat.lt_of_lt_of_le hLt hEnters.size_le) hInner hEnvironment]
    exact hEnters.tables other hLt
  have hSize : p.scopes.size ≤ r.scopes.size := Nat.le_trans hEnters.size_le hBody.size_le
  exact {
    reflects := by
      refine hReflects.transfer (q := (r.leaveFunction id isClosure entry p.frame).2)
        hBody.reflects.sound hSize hBody.reflects.fresh ?_ rfl hReflects.next ?_
        hReflects.distinct hReflects.slots
      · intro other hIndex
        exact Scope.Store.view_congr (hTables other (by omega))
      · intro environment hEnvironment b hMem
        have hOutside := hReflects.outside environment hEnvironment
        rw [Progress.leaveFunction,
          Scope.Store.owned_congr (hTables environment (by omega))] at hMem
        exact hReflects.marks environment hEnvironment b hMem
    size_le := hSize
    environment := rfl
    tables := fun other hLt _ _ => hTables other hLt
    views := fun other hLt _ => Scope.Store.view_congr (hTables other hLt)
    slots := by
      show r.slots.toList = _
      rw [hBody.slots, hEnters.slots]
    captured := by
      show p.frame.captured = _
      rw [List.append_nil, hReflects.distinct]
    layouts := by
      have hCaptured : r.frame.captured = captures.eraseDups := by
        rw [hBody.captured, hEnters.captured, List.nil_append]
      have hInside := hBody.layouts.trans (hEnters.layouts.append_right layouts)
      simp only [Progress.leaveFunction, Array.toList_push, List.map_append, List.map_cons,
        List.map_nil, Lexical.Position.nameless, hCaptured, hBody.reflects.next]
      refine (hInside.append_right _).trans ?_
      rw [List.append_assoc]
      exact (List.perm_append_singleton _ layouts).append_left _ }

end LateBinding.Resolution
