import LateBinding.Proofs.Lexical.Ownership
import LateBinding.Proofs.Occurrence

/-!
# The free names of a function

What a function has from outside are the names that are used inside it, at any depth, for something
declared outside it.  Such a name belongs to the function directly around, or that function has it
from outside as well.  A function that stands in no other function has nothing from outside.

* `Context.position` - where a name stands among what is visible; `Context.getElem?_position`.
* `Position.freeNames` - the names that a function uses from outside, in the order of use.
* `Position.captures_eq` - what a function has from outside are its free names.
* `Position.mem_declarations_or_freeNames` - the free names of a function, seen from the one around
  it.
-/

namespace LateBinding

namespace Lexical

open Resolution (Capture)

/-- What stands at the position of a name is what the name means. -/
theorem Context.getElem?_position (c : Context) (name : String) :
    c.visible[c.position name]? = c.lookup? name := by
  rw [← find?_visible, position]
  induction c.visible with
  | nil => rfl
  | cons d rest ih =>
      by_cases hName : d.name = some name
      · simp [hName]
      · simp [hName, ih]

namespace Position

/-- The name that a position uses, if it means something that is visible where a function stands. -/
def useOf? (F q : Position) : Option String :=
  q.use?.filter fun name => (q.context.lookup? name).any (· ∈ F.context.visible)

/-- The names that are used inside a function for something visible where it stands, in the order of
use. -/
def freeNames (F : Position) : List String :=
  F.inside.filterMap F.useOf?

/-- A free name is used inside the function, for what it means where the function stands. -/
theorem mem_freeNames {F : Position} (hNested : F.context.Nested) {name : String} :
    name ∈ F.freeNames ↔ ∃ q ∈ F.inside, q.use? = some name ∧
      ∃ d, q.context.lookup? name = some d ∧ F.context.lookup? name = some d := by
  rw [freeNames, List.mem_filterMap]
  constructor
  · rintro ⟨q, hInside, hUse⟩
    rw [useOf?, Option.filter_eq_some_iff, Option.any_eq_true] at hUse
    obtain ⟨hUse, d, hLookup, hVisible⟩ := hUse
    have hBefore := hNested d (Context.mem_declared_of_mem_visible (of_decide_eq_true hVisible))
    refine ⟨q, hInside, hUse, d, hLookup, Tree.lookup?_of_mem_inside hInside hLookup ?_⟩
    exact Nat.lt_succ_of_le hBefore
  · rintro ⟨q, hInside, hUse, d, hLookup, hOutside⟩
    refine ⟨q, hInside, ?_⟩
    rw [useOf?, Option.filter_eq_some_iff, Option.any_eq_true]
    exact ⟨hUse, d, hLookup, decide_eq_true (Context.mem_visible_of_lookup? hOutside)⟩

/-- What is found inside a function is visible where the function stands exactly if it was declared
outside the function. -/
theorem mem_visible_iff {F q : Position} (hNested : F.context.Nested) (hInside : q ∈ F.inside)
    {name : String} {d : Declaration} (hLookup : q.context.lookup? name = some d) :
    d ∈ F.context.visible ↔ d.depth < F.context.enter.depth := by
  constructor
  · intro hVisible
    exact Nat.lt_succ_of_le (hNested d (Context.mem_declared_of_mem_visible hVisible))
  · intro hOutside
    exact Context.mem_visible_of_lookup? (Tree.lookup?_of_mem_inside hInside hLookup hOutside)

/-- What a function has from outside are its free names, each once, at their positions. -/
theorem captures_eq {F : Position} (hNested : F.context.Nested) :
    F.captures = F.freeNames.eraseDups.map fun name => ⟨name, F.context.position name⟩ := by
  have hInjective : Function.Injective fun name => (⟨name, F.context.position name⟩ : Capture) :=
    fun name other hSame => congrArg Capture.name hSame
  rw [← Occurrence.eraseDups_map hInjective, captures, freeNames, List.map_filterMap]
  congr 1
  refine List.filterMap_congr fun q hInside => ?_
  rw [capture?, useOf?]
  cases hUse : q.use? with
  | none => rfl
  | some name =>
      rw [Option.bind_some, Option.filter_some]
      cases hLookup : q.context.lookup? name with
      | none => rfl
      | some d =>
          -- both ask whether the use is of something declared outside
          have hVisible := mem_visible_iff hNested hInside hLookup
          rw [Option.bind_some, Option.any_some]
          by_cases hOutside : d.depth < F.context.enter.depth
          · rw [if_pos hOutside, if_pos (decide_eq_true (hVisible.mpr hOutside))]
            rfl
          · rw [if_neg hOutside, if_neg (by simpa [hVisible] using hOutside)]
            rfl

/-- The names that a function has from outside are its free names, each once. -/
theorem map_name_captures {F : Position} (hNested : F.context.Nested) :
    F.captures.map Capture.name = F.freeNames.eraseDups := by
  rw [captures_eq hNested, List.map_map]
  exact List.map_id _

/-- A function where nothing is declared has no free names. -/
theorem freeNames_eq_nil {F : Position} (hDeclared : F.context.declared = []) :
    F.freeNames = [] := by
  rw [freeNames, List.filterMap_eq_nil_iff]
  intro q _
  have hVisible : F.context.visible = [] := by
    rw [Context.visible, hDeclared, List.foldl_nil]
  simp [useOf?, hVisible]

/-- What is inside a function that is inside another is inside the other. -/
theorem mem_inside_trans {F G q : Position} (hFunction : F.construct.isFunction = true)
    (hInside : q ∈ F.inside) (hF : F ∈ G.inside) : q ∈ G.inside := by
  have hSublist := Tree.sublist_positionsAll hF
  rw [Tree.positions_of_isFunction F hFunction] at hSublist
  exact hSublist.subset (List.mem_cons_of_mem F hInside)

/-- A free name of a function means a declaration of the function directly around, or is a free name
of that function as well. -/
theorem mem_declarations_or_freeNames {F G : Position} (hNested : G.context.Nested)
    (hNestedF : F.context.Nested) (hOwn : F ∈ G.own) (hFunction : F.construct.isFunction = true)
    {name : String} (hName : name ∈ F.freeNames) :
    (∃ d ∈ G.declarations, F.context.lookup? name = some d) ∨ name ∈ G.freeNames := by
  obtain ⟨q, hInside, hUse, d, hLookup, hHere⟩ := (mem_freeNames hNestedF).mp hName
  rcases of_lookup? hNested hOwn hHere with ⟨-, hMem⟩ | ⟨-, hOutside⟩
  · exact Or.inl ⟨d, hMem, hHere⟩
  · right
    have hInsideG := mem_inside_trans hFunction hInside (List.mem_filter.mp hOwn).1
    exact (mem_freeNames hNested).mpr ⟨q, hInsideG, hUse, d, hLookup, hOutside⟩

end Position

end Lexical

end LateBinding
