import LateBinding.Proofs.Occurrence
import LateBinding.Proofs.Resolution.Reflection

/-!
# What the steps of the walk do

Each step of the walk - making a name, declaring one, using one, opening a scope - leads from a
state that stands for a context to a state that stands for the context after it.  `Advances` says
this together with everything that the step adds to the outcome and all that it leaves as it was, so
that steps are put together by `Advances.trans`.

* `Advances` - from one state to another within one scope.
* `exists_declareFresh`, `exists_declareAll`, `declareAll_eq_error` - declaring.
* `exists_use`, `advances_useAt`, `advances_useAll` - using.
* `exists_openScope` - opening a scope inside the scope of the walk, and coming back from it.
-/

namespace LateBinding.Resolution

open Lexical (Context Declaration)
open Scope (Binding ScopeId)
open FreshName (MadeBefore isReserved)

/-- The walk led from a state to another within one scope.  The new state stands for a given
context; slots, captures and layouts were added; and of the scopes that were there before only the
scope itself and marks in the environment of the function have changed. -/
structure Advances (scope : ScopeId) (p : Progress) (slots : List (NodeId × Nat))
    (captures : List Capture) (layouts : List Layout) (next : Context) (q : Progress) : Prop where
  reflects : Reflects next q scope
  size_le : p.scopes.size ≤ q.scopes.size
  environment : q.frame.environment = p.frame.environment
  tables : ∀ id : ScopeId, id.index < p.scopes.size → id ≠ scope → p.frame.environment ≠ some id →
    q.scopes.table? id = p.scopes.table? id
  views : ∀ id : ScopeId, id.index < p.scopes.size → id ≠ scope →
    q.scopes.view id = p.scopes.view id
  slots : q.slots.toList = p.slots.toList ++ slots
  captured : q.frame.captured = (p.frame.captured ++ captures).eraseDups
  layouts : (q.layouts.toList.map Lexical.Position.nameless).Perm
    (p.layouts.toList.map Lexical.Position.nameless ++ layouts)

variable {c : Context} {p q : Progress} {scope : ScopeId}

/-! ### Putting steps together -/

/-- A walk that has not gone anywhere. -/
theorem Reflects.refl (hReflects : Reflects c p scope) : Advances scope p [] [] [] c p where
  reflects := hReflects
  size_le := Nat.le_refl _
  environment := rfl
  tables := fun _ _ _ _ => rfl
  views := fun _ _ _ => rfl
  slots := by simp
  captured := by rw [List.append_nil, hReflects.distinct]
  layouts := by simp

/-- One walk after another. -/
theorem Advances.trans {slots slots' : List (NodeId × Nat)} {captures captures' : List Capture}
    {layouts layouts' : List Layout} {middle next : Context} {r : Progress}
    (hFirst : Advances scope p slots captures layouts middle q)
    (hSecond : Advances scope q slots' captures' layouts' next r) :
    Advances scope p (slots ++ slots') (captures ++ captures') (layouts ++ layouts') next r where
  reflects := hSecond.reflects
  size_le := Nat.le_trans hFirst.size_le hSecond.size_le
  environment := hSecond.environment.trans hFirst.environment
  tables := by
    intro id hKnown hScope hEnvironment
    have hStill : q.frame.environment ≠ some id := by rwa [hFirst.environment]
    rw [hSecond.tables id (Nat.lt_of_lt_of_le hKnown hFirst.size_le) hScope hStill,
      hFirst.tables id hKnown hScope hEnvironment]
  views := by
    intro id hKnown hScope
    rw [hSecond.views id (Nat.lt_of_lt_of_le hKnown hFirst.size_le) hScope,
      hFirst.views id hKnown hScope]
  slots := by rw [hSecond.slots, hFirst.slots, List.append_assoc]
  captured := by
    rw [hSecond.captured, hFirst.captured, Occurrence.eraseDups_append_eraseDups_left,
      List.append_assoc]
  layouts := by
    have hAll := hSecond.layouts.trans (hFirst.layouts.append_right layouts')
    rwa [List.append_assoc] at hAll

/-- A context stands for a state with the same scopes and frame, if no fresh name is forgotten. -/
theorem Reflects.congr (hReflects : Reflects c p scope) (hScopes : q.scopes = p.scopes)
    (hFrame : q.frame = p.frame) (hMade : p.names.made ≤ q.names.made) : Reflects c q scope where
  sound := hScopes ▸ hReflects.sound
  known := hScopes ▸ hReflects.known
  fresh := by
    rw [hScopes]
    exact fun id b hMem hGenerated => (hReflects.fresh id b hMem hGenerated).mono hMade
  nested := hReflects.nested
  shows := hScopes ▸ hReflects.shows
  owner := by
    rw [hScopes, hFrame]
    exact hReflects.owner
  next := hFrame ▸ hReflects.next
  outside := hFrame ▸ hReflects.outside
  marks := by
    rw [hScopes, hFrame]
    exact hReflects.marks
  distinct := hFrame ▸ hReflects.distinct
  slots := hFrame ▸ hReflects.slots
  inside := hFrame ▸ hReflects.inside

/-- A step that leaves scopes, frame and layouts alone. -/
theorem Reflects.advances_of_eq (hReflects : Reflects c p scope) (hScopes : q.scopes = p.scopes)
    (hFrame : q.frame = p.frame) (hMade : p.names.made ≤ q.names.made)
    (hLayouts : q.layouts = p.layouts) {slots : List (NodeId × Nat)}
    (hSlots : q.slots.toList = p.slots.toList ++ slots) : Advances scope p slots [] [] c q where
  reflects := hReflects.congr hScopes hFrame hMade
  size_le := by rw [hScopes]
  environment := by rw [hFrame]
  tables := fun _ _ _ _ => by rw [hScopes]
  views := fun _ _ _ => by rw [hScopes]
  slots := hSlots
  captured := by rw [hFrame, List.append_nil, hReflects.distinct]
  layouts := by simp [hLayouts]

/-- Recording a slot adds this slot. -/
theorem Reflects.advances_recordSlot (hReflects : Reflects c p scope) (id : NodeId) (slot : Nat) :
    Advances scope p [(id, slot)] [] [] c (p.recordSlot id slot) :=
  hReflects.advances_of_eq (q := p.recordSlot id slot) rfl rfl (Nat.le_refl _) rfl
    (by simp [Progress.recordSlot])

/-- Recording a call adds nothing to slots and layouts. -/
theorem Reflects.advances_recordCall (hReflects : Reflects c p scope) (id : NodeId)
    (selector : Selector) (arity : Nat) (span : Span) :
    Advances scope p [] [] [] c (p.recordCall id selector arity span) :=
  hReflects.advances_of_eq (q := p.recordCall id selector arity span) rfl rfl (Nat.le_refl _) rfl
    (by simp [Progress.recordCall])

/-- Making a name changes only what names are fresh. -/
theorem Reflects.advances_mint (hReflects : Reflects c p scope) (tag : String) :
    Advances scope p [] [] [] c (p.mint tag).2 :=
  hReflects.advances_of_eq (q := (p.mint tag).2) rfl rfl (Nat.le_succ _) rfl
    (by simp [Progress.mint])

/-- A state whose scopes look the same from the scope of the walk stands for the same
declarations. -/
theorem Reflects.transfer (hReflects : Reflects c p scope) (hSound : q.scopes.Sound)
    (hSize : p.scopes.size ≤ q.scopes.size)
    (hFresh : ∀ id, ∀ b ∈ q.scopes.owned id, b.isGenerated = true → MadeBefore q.names.made b.name)
    (hViews : ∀ id : ScopeId, id.index ≤ scope.index → q.scopes.view id = p.scopes.view id)
    (hEnvironment : q.frame.environment = p.frame.environment) {made : Nat}
    (hNext : q.frame.nextSlot = c.inherited.length + made)
    (hMarks : ∀ environment, q.frame.environment = some environment →
      ∀ b ∈ q.scopes.owned environment,
        (b.captured = true ↔ b.name ∈ q.frame.captured.map Capture.name))
    (hDistinct : q.frame.captured.eraseDups = q.frame.captured)
    (hSlots : ∀ k ∈ q.frame.captured, k.slot = c.inherited.idxOf (some k.name)) :
    Reflects { c with made := made } q scope where
  sound := hSound
  known := Nat.lt_of_lt_of_le hReflects.known hSize
  fresh := hFresh
  nested := hReflects.nested
  shows := by
    have hVisible :=
      hReflects.sound.map_plain_visible_congr hSound hSize hReflects.known hViews
    have hShows := forall₂_shows_congr hVisible hReflects.shows
    exact hShows.imp fun _ _ hShows => hShows.congr rfl rfl
  owner := by
    intro name d hLookup
    rw [hReflects.sound.owner?_congr hSound hSize hReflects.known hViews, hEnvironment]
    exact hReflects.owner name d hLookup
  next := hNext
  outside := hEnvironment ▸ hReflects.outside
  marks := hMarks
  distinct := hDistinct
  slots := hSlots
  inside := hEnvironment ▸ hReflects.inside

/-! ### Declaring -/

/-- Nothing is declared under the empty name. -/
theorem Reflects.declare_empty (hReflects : Reflects c p scope) (mutability : Mutability) :
    p.declare scope "" mutability = .error (.scope .namelessBinding) := by
  obtain ⟨t, hTable⟩ := Scope.Store.exists_table? hReflects.known
  simp only [Progress.declare, Scope.Store.declare, hTable]
  rfl

/-- A new binding with a plain name, or with a fresh one that was made, leaves only names that were
made. -/
theorem Mirrors.fresh_overlay (hMirrors : Mirrors c p scope) {b : Binding}
    (hMade : b.isGenerated = true → MadeBefore p.names.made b.name) {next : Scope.Store}
    (hTables : ∀ id, id ≠ scope → next.table? id = p.scopes.table? id)
    (hOwned : next.owned scope = Scope.Store.overlay (p.scopes.owned scope) b) {id : ScopeId}
    {a : Binding} (hMem : a ∈ next.owned id) (hGenerated : a.isGenerated = true) :
    MadeBefore p.names.made a.name := by
  by_cases hScope : id = scope
  · subst hScope
    rw [hOwned] at hMem
    rcases Scope.Store.mem_overlay hMem with hMem | rfl
    · exact hMirrors.fresh id a hMem hGenerated
    · exact hMade hGenerated
  · rw [Scope.Store.owned_congr (hTables id hScope)] at hMem
    exact hMirrors.fresh id a hMem hGenerated

/-- If the scope of the walk owns one more name, and everything else is owned as before, then it is
still what comes from outside the function that its environment owns. -/
theorem Reflects.owner_declare (hReflects : Reflects c p scope) {name : String}
    {written : Option String} (hWritten : written = if isReserved name then none else some name)
    (mutability : Mutability) (node : NodeId) (place : Nat) {owner? : String → Option ScopeId}
    (hOwner : ∀ other, owner? other =
      if name = other then some scope else p.scopes.owner? scope other) {other : String}
    {d : Declaration} (hLookup : (c.declare node place written mutability).lookup? other = some d) :
    owner? other = p.frame.environment ↔ d.depth < c.depth := by
  rw [hOwner]
  rw [Context.lookup?_declare] at hLookup
  by_cases hSame : name = other
  · -- the new declaration is not from outside, and its scope is not the environment
    subst hSame
    rw [if_pos rfl]
    have hWrittenSome : written = some name := by
      by_cases hReserved : isReserved name = true
      · rw [hWritten, if_pos hReserved, if_neg (by simp)] at hLookup
        rw [hReflects.isReserved_of_lookup? hLookup] at hReserved
        cases hReserved
      · rw [hWritten, if_neg hReserved]
    rw [if_pos hWrittenSome, Option.some.injEq] at hLookup
    subst hLookup
    exact iff_of_false (fun hEnvironment => hReflects.inside hEnvironment.symm) (Nat.lt_irrefl _)
  · have hOther : written ≠ some other := by
      rw [hWritten]
      split
      · simp
      · simpa using hSame
    rw [if_neg hOther] at hLookup
    rw [if_neg hSame]
    exact hReflects.owner other d hLookup

/-- A name can be declared that is not empty, and new if it is a fresh one.  It gets the next
slot. -/
theorem Reflects.exists_declare (hReflects : Reflects c p scope) {name : String} (hName : name ≠ "")
    (mutability : Mutability) {written : Option String}
    (hWritten : written = if isReserved name then none else some name)
    (hFresh : isReserved name = true →
      MadeBefore p.names.made name ∧ ∀ a ∈ p.scopes.visible scope, a.name ≠ name)
    (node : NodeId) (place : Nat) :
    ∃ q, p.declare scope name mutability = .ok (p.frame.nextSlot, q) ∧
      Advances scope p [] [] [] (c.declare node place written mutability) q := by
  obtain ⟨next, hDeclare, hSound, hSize, hTables, hOwned, hVisible, hOwner⟩ :=
    hReflects.sound.exists_declare hReflects.known
      (b := ⟨name, mutability, some p.frame.nextSlot, false⟩) hName
  -- the environment is another scope
  have hOutside : ∀ environment, p.frame.environment = some environment → environment ≠ scope := by
    rintro environment hEnvironment rfl
    exact hReflects.inside hEnvironment
  -- the slot of the new binding is the one after those given out
  have hShows : Shows (c.declare node place written mutability)
      ⟨name, mutability, some p.frame.nextSlot, false⟩
      ⟨node, place, written, mutability, c.depth, c.made⟩ := by
    refine ⟨hWritten, rfl, fun _ => ?_⟩
    simp [Context.slot, hReflects.next]
  refine ⟨{ p with
      scopes := next
      frame := { p.frame with nextSlot := p.frame.nextSlot + 1 } }, ?_, ?_⟩
  · simp only [Progress.declare, hDeclare]
    rfl
  · exact {
      reflects := {
        sound := hSound
        known := by
          rw [hSize]
          exact hReflects.known
        fresh := by
          intro id a hMem hGenerated
          exact hReflects.fresh_overlay (b := ⟨name, mutability, some p.frame.nextSlot, false⟩)
            (fun hReserved => (hFresh hReserved).1) hTables hOwned hMem hGenerated
        nested := by
          intro d hMem
          rw [Context.declared_declare] at hMem
          rcases List.mem_append.mp hMem with hMem | hMem
          · exact hReflects.nested d hMem
          · rw [List.mem_singleton] at hMem
            subst hMem
            exact Nat.le_refl _
        shows := by
          rw [Context.visible_declare]
          have hOld := hReflects.shows.imp fun _ _ hOld =>
            hOld.congr (c.depth_declare node place written mutability) rfl
          exact forall₂_shows_congr hVisible
            (forall₂_overlay (fun hShown => hShown.name) hOld hShows
              fun hGenerated => (hFresh hGenerated).2)
        owner := by
          intro other d hLookup
          rw [Context.depth_declare]
          exact hReflects.owner_declare hWritten mutability node place hOwner hLookup
        next := by
          show p.frame.nextSlot + 1 = c.inherited.length + (c.made + 1)
          rw [hReflects.next]
          omega
        outside := hReflects.outside
        marks := by
          intro environment hEnvironment
          rw [Scope.Store.owned_congr (hTables environment (hOutside environment hEnvironment))]
          exact hReflects.marks environment hEnvironment
        distinct := hReflects.distinct
        slots := hReflects.slots
        inside := hReflects.inside }
      size_le := Nat.le_of_eq hSize.symm
      environment := rfl
      tables := fun id _ hScope _ => hTables id hScope
      views := fun id _ hScope => Scope.Store.view_congr (hTables id hScope)
      slots := by simp
      captured := by rw [List.append_nil, hReflects.distinct]
      layouts := by simp }

/-- A plain name can be declared. -/
theorem Reflects.exists_declareNamed (hReflects : Reflects c p scope) {name : String}
    (hName : name ≠ "") (hPlain : isReserved name = false) (mutability : Mutability) (node : NodeId)
    (place : Nat) :
    ∃ q, p.declare scope name mutability = .ok (p.frame.nextSlot, q) ∧
      Advances scope p [] [] [] (c.declare node place (some name) mutability) q := by
  apply hReflects.exists_declare hName mutability
  · rw [if_neg (by simp [hPlain])]
  · intro hReserved
    rw [hPlain] at hReserved
    cases hReserved

/-- A fresh name can be made and declared. -/
theorem Reflects.exists_declareFresh (hReflects : Reflects c p scope) (tag : String)
    (mutability : Mutability) (node : NodeId) (place : Nat) :
    ∃ q, (p.mint tag).2.declare scope (p.mint tag).1 mutability = .ok (p.frame.nextSlot, q) ∧
      Advances scope p [] [] [] (c.declare node place none mutability) q := by
  have hReserved : isReserved (p.mint tag).1 = true := p.names.isReserved_mint (some tag)
  have hMint := hReflects.advances_mint tag
  obtain ⟨q, hDeclare, hAdvances⟩ := hMint.reflects.exists_declare
    (FreshName.mint_ne_empty p.names (some tag)) mutability (if_pos hReserved).symm
    (fun _ => ⟨FreshName.madeBefore_mint p.names (some tag), fun a hMem =>
      hReflects.name_ne_of_not_madeBefore hMem hReserved (FreshName.not_madeBefore_mint _ _)⟩)
    node place
  exact ⟨q, hDeclare, hMint.trans hAdvances⟩

/-- Plain names can be declared one after the other.  They get the next slots. -/
theorem Reflects.exists_declareAll (hReflects : Reflects c p scope) (mutability : Mutability)
    {names : List String} (hPlain : ∀ name ∈ names, isReserved name = false) (hNames : "" ∉ names)
    (node : NodeId) (place : Nat) :
    ∃ q, p.declareAll scope mutability names =
        .ok (List.range' p.frame.nextSlot names.length, q) ∧
      Advances scope p [] [] []
        (c.declareAll node place (names.map fun name => (some name, mutability))) q := by
  induction names generalizing c p place with
  | nil => exact ⟨p, rfl, hReflects.refl⟩
  | cons name rest ih =>
      rw [List.mem_cons, not_or] at hNames
      obtain ⟨middle, hDeclare, hFirst⟩ := hReflects.exists_declareNamed (Ne.symm hNames.1)
        (hPlain name List.mem_cons_self) mutability node place
      obtain ⟨q, hRest, hSecond⟩ := ih hFirst.reflects
        (fun other hMem => hPlain other (List.mem_cons_of_mem name hMem)) hNames.2 (place + 1)
      have hNext : middle.frame.nextSlot = p.frame.nextSlot + 1 := by
        rw [hFirst.reflects.next, hReflects.next]
        rfl
      refine ⟨q, ?_, hFirst.trans hSecond⟩
      rw [Progress.declareAll, hDeclare]
      show (middle.declareAll scope mutability rest >>= _) = _
      rw [hRest, hNext]
      rfl

/-- Among plain names the empty one cannot be declared. -/
theorem Reflects.declareAll_eq_error (hReflects : Reflects c p scope) (mutability : Mutability)
    {names : List String} (hPlain : ∀ name ∈ names, isReserved name = false) (hNames : "" ∈ names) :
    p.declareAll scope mutability names = .error (.scope .namelessBinding) := by
  induction names generalizing c p with
  | nil => cases hNames
  | cons name rest ih =>
      by_cases hEmpty : name = ""
      · subst hEmpty
        rw [Progress.declareAll, hReflects.declare_empty]
        rfl
      · have hRest : "" ∈ rest := by
          rcases List.mem_cons.mp hNames with h | h
          · exact absurd h.symm hEmpty
          · exact h
        -- the names before the empty one are declared; at which node does not matter for the error
        obtain ⟨middle, hDeclare, hFirst⟩ := hReflects.exists_declareNamed hEmpty
          (hPlain name List.mem_cons_self) mutability ⟨0⟩ 0
        rw [Progress.declareAll, hDeclare]
        show (middle.declareAll scope mutability rest >>= _) = _
        rw [ih hFirst.reflects (fun other hMem => hPlain other (List.mem_cons_of_mem name hMem)) hRest]
        rfl

/-! ### Using -/

/-- Where scopes look the same, the fresh names in them were made. -/
theorem Mirrors.fresh_of_views (hMirrors : Mirrors c p scope) {next : Scope.Store}
    (hViews : ∀ id, next.view id = p.scopes.view id) {id : ScopeId} {b : Binding}
    (hMem : b ∈ next.owned id) (hGenerated : b.isGenerated = true) :
    MadeBefore p.names.made b.name := by
  have hPlain := Scope.Store.map_plain_owned_congr (hViews id)
  have hMap : b.plain ∈ (p.scopes.owned id).map Binding.plain := hPlain ▸ List.mem_map_of_mem hMem
  -- the binding before had this name, so the name was made before
  obtain ⟨x, hX, hSame⟩ := List.mem_map.mp hMap
  have hName : x.plain.name = b.plain.name := by rw [hSame]
  rw [Binding.name_plain, Binding.name_plain] at hName
  have hMade := hMirrors.fresh id x hX (by rwa [Binding.isGenerated, hName])
  rwa [hName] at hMade

/-- If a name is marked and captured, still those and only those names are marked that are
captured. -/
theorem Mirrors.marks_setCaptured (hMirrors : Mirrors c p scope) {environment : ScopeId}
    (hEnvironment : p.frame.environment = some environment) {k : Capture} {b : Binding}
    (hMem : b ∈ (p.scopes.setCaptured environment k.name true).owned environment) :
    b.captured = true ↔ b.name ∈ (p.frame.captured ++ [k]).map Capture.name := by
  rw [hMirrors.sound.owned_setCaptured] at hMem
  obtain ⟨x, hX, rfl⟩ := List.mem_map.mp hMem
  have hOld := hMirrors.marks environment hEnvironment x hX
  by_cases hName : x.name = k.name
  · simp [hName]
  · simpa [hName] using hOld

/-- A binding that the environment owns and that is used is captured, and marked from then on. -/
theorem Reflects.advances_capture (hReflects : Reflects c p scope) {environment : ScopeId}
    (hEnvironment : p.frame.environment = some environment) {b : Binding}
    (hOwned : b ∈ p.scopes.owned environment)
    (hSlot : b.slot = some (c.inherited.idxOf (some b.name))) :
    Advances scope p [] [⟨b.name, c.inherited.idxOf (some b.name)⟩] [] c
      (p.capture environment b) := by
  have hMark := hReflects.marks environment hEnvironment b hOwned
  by_cases hCaptured : b.captured = true
  · -- it was captured before, with the same slot
    obtain ⟨⟨name, slot⟩, hMem, hName⟩ := List.mem_map.mp (hMark.mp hCaptured)
    obtain rfl : name = b.name := hName
    obtain rfl : slot = c.inherited.idxOf (some b.name) := hReflects.slots _ hMem
    rw [Progress.capture, if_pos hCaptured]
    refine { hReflects.refl with captured := ?_ }
    rw [Occurrence.eraseDups_append_of_mem hMem, hReflects.distinct]
  · -- without the mark the name has not been captured yet
    have hNew : b.name ∉ p.frame.captured.map Capture.name := fun hMem => hCaptured (hMark.mpr hMem)
    have hNew' : (⟨b.name, c.inherited.idxOf (some b.name)⟩ : Capture) ∉ p.frame.captured :=
      fun hMem => hNew (List.mem_map_of_mem hMem)
    have hAppend :
        (p.frame.captured ++ [(⟨b.name, c.inherited.idxOf (some b.name)⟩ : Capture)]).eraseDups =
          p.frame.captured ++ [⟨b.name, c.inherited.idxOf (some b.name)⟩] := by
      rw [Occurrence.eraseDups_append_of_not_mem hNew', hReflects.distinct]
    have hSound := hReflects.sound
    have hMarked := Scope.Store.sound_setCaptured hSound environment b.name true
    have hViews := hSound.view_setCaptured environment b.name true
    rw [Progress.capture, if_neg hCaptured, hSlot]
    exact {
      reflects := by
        refine hReflects.transfer
          (q := { p with
            scopes := p.scopes.setCaptured environment b.name true
            frame := { p.frame with
              captured := p.frame.captured ++ [⟨b.name, c.inherited.idxOf (some b.name)⟩] } })
          hMarked (by simp) (fun _ _ => hReflects.fresh_of_views hViews) (fun id _ => hViews id) rfl
          hReflects.next ?_ hAppend ?_
        · intro other hOther a hMem
          obtain rfl : environment = other := Option.some.inj (hEnvironment.symm.trans hOther)
          exact hReflects.marks_setCaptured hEnvironment hMem
        · intro k hMem
          rcases List.mem_append.mp hMem with hMem | hMem
          · exact hReflects.slots k hMem
          · rw [List.mem_singleton] at hMem
            subst hMem
            rfl
      size_le := by simp
      environment := rfl
      tables := by
        intro id _ _ hOther
        apply Scope.Store.table?_modify_of_ne
        rintro rfl
        exact hOther hEnvironment
      views := fun id _ _ => hViews id
      slots := by simp
      captured := hAppend.symm
      layouts := by simp }

/-- A name without a declaration has no slot. -/
theorem Reflects.use_eq_none (hReflects : Reflects c p scope) {name : String}
    (hPlain : isReserved name = false) (hNone : c.lookup? name = none) :
    p.use scope name = (none, p) := by
  have hLookup := hReflects.lookup?_eq_none hPlain hNone
  unfold Progress.use
  rw [hLookup]
  split
  · rename_i hSome
    cases hSome
  · rfl

/-- A name with a declaration has the slot of the declaration, and is captured if it was declared
outside the function. -/
theorem Reflects.exists_use (hReflects : Reflects c p scope) {name : String} {d : Declaration}
    (hSome : c.lookup? name = some d) :
    ∃ q, p.use scope name = (some (c.slot d), q) ∧
      Advances scope p [] (c.capture? name).toList [] c q := by
  have hPlain := hReflects.isReserved_of_lookup? hSome
  obtain ⟨b, hLookup, hShows⟩ := hReflects.exists_lookup? hPlain hSome
  have hName := (Context.mem_declared_of_lookup? hSome).2
  have hSlot : b.slot = some (c.slot d) := hShows.slot (by rw [hName]; rfl)
  obtain ⟨owner, hOwner⟩ : ∃ owner, p.scopes.owner? scope name = some owner := by
    have hIsSome := Scope.Store.isSome_owner? p.scopes scope name
    rw [hLookup] at hIsSome
    exact Option.isSome_iff_exists.mp hIsSome
  have hOutside := hReflects.owner name d hSome
  rw [hOwner] at hOutside
  unfold Progress.use
  rw [hOwner, hLookup]
  refine ⟨if p.frame.environment = some owner then p.capture owner b else p,
    by simp only [hSlot], ?_⟩
  by_cases hDepth : d.depth < c.depth
  · -- the owner is the environment, which has the slot of the name
    have hEnvironment : p.frame.environment = some owner := (hOutside.mpr hDepth).symm
    have hFound : p.scopes.owned? owner name = some b :=
      (Scope.Store.owned?_of_owner?_eq_some hOwner).trans hLookup
    rw [hReflects.sound.owned?_eq_find?] at hFound
    have hOwned := List.mem_of_find?_eq_some hFound
    obtain rfl : b.name = name := by simpa using List.find?_some hFound
    have hIndex : c.slot d = c.inherited.idxOf (some b.name) := by
      rw [Context.slot, if_neg (Nat.ne_of_lt hDepth), hName]
    have hCapture : c.capture? b.name = some ⟨b.name, c.inherited.idxOf (some b.name)⟩ := by
      simp [Context.capture?, hSome, hDepth]
    rw [if_pos hEnvironment, hCapture]
    exact hReflects.advances_capture hEnvironment hOwned (by rw [hSlot, hIndex])
  · -- a scope of the function itself owns the name, and nothing is captured
    have hEnvironment : p.frame.environment ≠ some owner :=
      fun hSame => hDepth (hOutside.mp hSame.symm)
    have hCapture : c.capture? name = none := by simp [Context.capture?, hSome, hDepth]
    rw [if_neg hEnvironment, hCapture]
    exact hReflects.refl

/-- Using a name at a node records the slot that the name has there. -/
theorem Reflects.advances_useAt (hReflects : Reflects c p scope) {name : String}
    (hPlain : isReserved name = false) (id : NodeId) :
    Advances scope p ((c.lookup? name).map fun d => (id, c.slot d)).toList (c.capture? name).toList []
      c (p.useAt scope id name) := by
  unfold Progress.useAt
  cases hLookup : c.lookup? name with
  | none =>
      have hCapture : c.capture? name = none := by simp [Context.capture?, hLookup]
      rw [hReflects.use_eq_none hPlain hLookup, hCapture]
      exact hReflects.refl
  | some d =>
      obtain ⟨q, hUse, hAdvances⟩ := hReflects.exists_use hLookup
      rw [hUse]
      have hBoth := hAdvances.trans (hAdvances.reflects.advances_recordSlot id (c.slot d))
      simpa using hBoth

/-- Using names one by one captures those that were declared outside the function. -/
theorem Reflects.advances_useAll (hReflects : Reflects c p scope) {names : List String}
    (hPlain : ∀ name ∈ names, isReserved name = false) :
    Advances scope p [] (names.filterMap c.capture?) [] c (p.useAll scope names) := by
  induction names generalizing p with
  | nil => exact hReflects.refl
  | cons name rest ih =>
      have hFirst : Advances scope p [] (c.capture? name).toList [] c (p.use scope name).2 := by
        cases hLookup : c.lookup? name with
        | none =>
            have hCapture : c.capture? name = none := by simp [Context.capture?, hLookup]
            rw [hReflects.use_eq_none (hPlain name List.mem_cons_self) hLookup, hCapture]
            exact hReflects.refl
        | some d =>
            obtain ⟨q, hUse, hAdvances⟩ := hReflects.exists_use hLookup
            rw [hUse]
            exact hAdvances
      have hRest := ih hFirst.reflects fun other hMem => hPlain other (List.mem_cons_of_mem name hMem)
      have hBoth := hFirst.trans hRest
      have hCaptures : (name :: rest).filterMap c.capture? =
          (c.capture? name).toList ++ rest.filterMap c.capture? := by
        cases hCapture : c.capture? name <;> simp [hCapture]
      rw [Progress.useAll, hCaptures]
      exact hBoth

/-! ### Scopes inside the scope of the walk -/

/-- A scope was opened, and nothing else was done. -/
structure Opens (p q : Progress) : Prop where
  size : q.scopes.size = p.scopes.size + 1
  tables : ∀ id : ScopeId, id.index < p.scopes.size → q.scopes.table? id = p.scopes.table? id
  frame : q.frame = p.frame
  slots : q.slots = p.slots
  layouts : q.layouts = p.layouts

/-- If one scope was added, and all fresh names in it were made, then all fresh names were made. -/
theorem Mirrors.fresh_of_added (hMirrors : Mirrors c p scope) {next : Scope.Store}
    (hSize : next.size = p.scopes.size + 1)
    (hTables : ∀ id : ScopeId, id.index < p.scopes.size → next.table? id = p.scopes.table? id)
    (hAdded : ∀ b ∈ next.owned ⟨p.scopes.size⟩,
      b.isGenerated = true → MadeBefore p.names.made b.name)
    {id : ScopeId} {b : Binding} (hMem : b ∈ next.owned id) (hGenerated : b.isGenerated = true) :
    MadeBefore p.names.made b.name := by
  have hBound := Scope.Store.lt_size_of_mem_owned hMem
  rw [hSize] at hBound
  rcases Nat.lt_succ_iff_lt_or_eq.mp hBound with hOld | hNew
  · rw [Scope.Store.owned_congr (hTables id hOld)] at hMem
    exact hMirrors.fresh id b hMem hGenerated
  · obtain rfl : id = ⟨p.scopes.size⟩ := congrArg ScopeId.mk hNew
    exact hAdded b hMem hGenerated

/-- A scope can be opened inside one that stands for a context, and stands for the same context. -/
theorem Mirrors.exists_openScope (hMirrors : Mirrors c p scope) (node : NodeId) :
    ∃ q, p.openScope node scope = .ok (⟨p.scopes.size⟩, q) ∧ Opens p q ∧
      Reflects c q ⟨p.scopes.size⟩ := by
  obtain ⟨store, hOpen, hSound, hSize, hTables, hOwned, -, hVisible, hOwner⟩ :=
    hMirrors.sound.exists_openInside hMirrors.known
  have hKnown := hMirrors.known
  have hOutside : ∀ environment, p.frame.environment = some environment →
      environment.index < p.scopes.size := by
    intro environment hEnvironment
    have := hMirrors.outside environment hEnvironment
    omega
  refine ⟨{ p with scopes := store, opened := p.opened.push (node, ⟨p.scopes.size⟩) }, ?_,
    ⟨hSize, hTables, rfl, rfl, rfl⟩, ?_⟩
  · simp only [Progress.openScope, hOpen]
    rfl
  · exact {
      sound := hSound
      known := by
        rw [hSize]
        exact Nat.lt_succ_self _
      fresh := by
        intro id b hMem hGenerated
        refine hMirrors.fresh_of_added hSize hTables (fun a hAdded => ?_) hMem hGenerated
        rw [hOwned] at hAdded
        cases hAdded
      nested := hMirrors.nested
      shows := forall₂_shows_congr hVisible hMirrors.shows
      owner := by
        intro name d hLookup
        rw [hOwner]
        exact hMirrors.owner name d hLookup
      next := hMirrors.next
      outside := fun environment hEnvironment => Nat.le_of_lt (hOutside environment hEnvironment)
      marks := by
        intro environment hEnvironment
        rw [Scope.Store.owned_congr (hTables environment (hOutside environment hEnvironment))]
        exact hMirrors.marks environment hEnvironment
      distinct := hMirrors.distinct
      slots := hMirrors.slots
      inside := fun hEnvironment => Nat.lt_irrefl _ (hOutside _ hEnvironment) }

/-- What is done in a scope opened inside the scope of the walk is done there too, apart from the
declarations. -/
theorem Reflects.advances_of_opens (hReflects : Reflects c p scope) (hOpens : Opens p q)
    {slots : List (NodeId × Nat)} {captures : List Capture} {layouts : List Layout} {next : Context}
    {r : Progress} (hInner : Advances ⟨p.scopes.size⟩ q slots captures layouts next r)
    (hInherited : next.inherited = c.inherited) :
    Advances scope p slots captures layouts { c with made := next.made } r := by
  have hKnown := hReflects.known
  have hSize := hOpens.size
  -- the opened scope has the next number, so it is none of those there were
  have hOld : ∀ id : ScopeId, id.index < p.scopes.size → id ≠ ⟨p.scopes.size⟩ := by
    rintro id hLt rfl
    exact Nat.lt_irrefl _ hLt
  have hStill : ∀ id : ScopeId, id.index < p.scopes.size → id.index < q.scopes.size := by
    intro id hLt
    omega
  have hViews : ∀ id : ScopeId, id.index < p.scopes.size →
      r.scopes.view id = p.scopes.view id := by
    intro id hLt
    rw [hInner.views id (hStill id hLt) (hOld id hLt)]
    exact Scope.Store.view_congr (hOpens.tables id hLt)
  have hLe : p.scopes.size ≤ r.scopes.size := by
    have := hInner.size_le
    omega
  have hEnvironment : r.frame.environment = p.frame.environment := by
    rw [hInner.environment, hOpens.frame]
  exact {
    reflects := by
      refine hReflects.transfer hInner.reflects.sound hLe hInner.reflects.fresh ?_ hEnvironment ?_
        hInner.reflects.marks hInner.reflects.distinct ?_
      · intro id hIndex
        exact hViews id (by omega)
      · rw [hInner.reflects.next, hInherited]
      · rw [← hInherited]
        exact hInner.reflects.slots
    size_le := hLe
    environment := hEnvironment
    tables := by
      intro id hLt _ hNot
      rw [hInner.tables id (hStill id hLt) (hOld id hLt) (by rwa [hOpens.frame])]
      exact hOpens.tables id hLt
    views := fun id hLt _ => hViews id hLt
    slots := by rw [hInner.slots, hOpens.slots]
    captured := by rw [hInner.captured, hOpens.frame]
    layouts := by
      have hLayouts := hInner.layouts
      rwa [hOpens.layouts] at hLayouts }

end LateBinding.Resolution
