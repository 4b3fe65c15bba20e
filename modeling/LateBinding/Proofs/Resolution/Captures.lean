import LateBinding.Proofs.Lexical.Enclosing
import LateBinding.Proofs.Lexical.FreeNames
import LateBinding.Proofs.Resolution.Recorded

/-!
# Captures are free names

The layout of a closure lists what it needs from the function around it: the names that are used
inside it for something visible where it stands.  Each of them comes from a declaration of the
function around the closure, or that function lists it as well, so that a value needed far inside is
passed on by every closure on the way.

* `IsResolved.captures_free_names` - for every function of every resolved module.
-/

namespace LateBinding.Resolution

open Lexical (Context Position)

namespace IsResolved

variable {options : Options} {f : Forest} {t : Tree} {r : Outcome}

/-- What the functions of a resolved module have from outside.  A function with a name has nothing.
A closure has the names that are used inside it for something visible where the closure stands, each
once, in the order of first use, and at the positions that they have among what is visible there.
There is a function directly around it, and each of its names means a declaration of that function
or is one that the function has from outside itself. -/
theorem captures_free_names (hResolved : IsResolved options f t r) {C : Position}
    (hC : C ∈ t.positions .outermost) (hFunction : C.construct.isFunction = true) :
    ∃ layout, r.layoutOf? C.id = some layout ∧
      (C.construct.isNamedFunction = true → layout.captured = []) ∧
      (C.construct.isClosureFunction = true →
        layout.captured =
          C.freeNames.eraseDups.map (fun name => ⟨name, C.context.position name⟩) ∧
        (layout.captured.map Capture.name).Nodup ∧
        (∃ G ∈ t.positions .outermost, G.construct.isFunction = true ∧ C ∈ G.own) ∧
        ∀ G ∈ t.positions .outermost, G.construct.isFunction = true → C ∈ G.own →
          ∃ outer, r.layoutOf? G.id = some outer ∧ ∀ k ∈ layout.captured,
            ∃ d, C.context.lookup? k.name = some d ∧ C.context.visible[k.slot]? = some d ∧
              (d ∈ G.declarations ∨ k.name ∈ outer.captured.map Capture.name)) := by
  obtain ⟨name, hLayout⟩ := hResolved.exists_layoutOf? hC hFunction
  have hNested := nested hC
  have hCaptures : (C.layout name).captured =
      C.freeNames.eraseDups.map fun name => ⟨name, C.context.position name⟩ :=
    Position.captures_eq hNested
  have hNames : (C.layout name).captured.map Capture.name = C.freeNames.eraseDups :=
    Position.map_name_captures hNested
  refine ⟨C.layout name, hLayout, ?_, fun hClosure => ⟨hCaptures, ?_, ?_, ?_⟩⟩
  · intro hNamed
    have hDeclared := hResolved.module.declared_of_isNamedFunction hC hNamed
    rw [hCaptures, Position.freeNames_eq_nil hDeclared]
    rfl
  · rw [hNames]
    exact Occurrence.nodup_eraseDups _
  · exact hResolved.module.exists_own_of_isClosureFunction hC hClosure
  · intro G hG hGFunction hOwn
    obtain ⟨outerName, hOuter⟩ := hResolved.exists_layoutOf? hG hGFunction
    have hNestedG := nested hG
    refine ⟨G.layout outerName, hOuter, fun k hK => ?_⟩
    have hOuterNames : (G.layout outerName).captured.map Capture.name = G.freeNames.eraseDups :=
      Position.map_name_captures hNestedG
    rw [hCaptures] at hK
    obtain ⟨free, hFree, rfl⟩ := List.mem_map.mp hK
    rw [List.mem_eraseDups] at hFree
    obtain ⟨q, -, -, d, -, hLookup⟩ := (Position.mem_freeNames hNested).mp hFree
    refine ⟨d, hLookup, by rw [Context.getElem?_position, hLookup], ?_⟩
    rw [hOuterNames, List.mem_eraseDups]
    refine (Position.mem_declarations_or_freeNames hNestedG hNested hOwn hFunction hFree).imp_left ?_
    rintro ⟨e, hE, hLookupE⟩
    rw [hLookup, Option.some.injEq] at hLookupE
    rw [hLookupE]
    exact hE

/-- The inner closure of the module with closures needs the parameter of the outer one, and through
the outer one a constant of the function around both. -/
theorem captures_free_names_nestedClosure :
    IsResolved ⟨[]⟩ nestedForest nestedTree nestedOutcome ∧
    nestedClosure ∈ nestedTree.positions .outermost ∧ nestedClosure.construct.isFunction = true ∧
    ∃ layout, nestedOutcome.layoutOf? nestedClosure.id = some layout ∧
      layout.captured = [⟨"z", 2⟩, ⟨"y", 1⟩] := by
  obtain ⟨layout, hLayout, -, hClosure⟩ :=
    nestedOutcome_isResolved.captures_free_names nestedClosure_mem nestedClosure_isFunction
  obtain ⟨hCaptured, -⟩ := hClosure (by decide +kernel)
  refine ⟨nestedOutcome_isResolved, nestedClosure_mem, nestedClosure_isFunction, layout, hLayout, ?_⟩
  rw [hCaptured]
  decide +kernel

end IsResolved

end LateBinding.Resolution
