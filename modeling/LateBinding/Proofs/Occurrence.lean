import Mathlib.Data.List.Induction

/-!
# First occurrences

A list without its repetitions keeps each element where it first stands.  It can be built from the
left, element by element; so what is collected in two lists one after the other may be freed of
repetitions at any time in between.

* `eraseDups_append_singleton` - one more element.
* `eraseDups_append_eraseDups_left`, `eraseDups_append_filterMap_eraseDups` - repetitions in a part
  do not matter.
* `eraseDups_map` - elements that are changed, but stay different.
* `nodup_eraseDups` - no element is left twice.
-/

namespace LateBinding.Occurrence

variable {α β : Type} [BEq α] [LawfulBEq α] [BEq β] [LawfulBEq β]

/-- One more element is kept if it is new. -/
theorem eraseDups_append_singleton (l : List α) (a : α) :
    (l ++ [a]).eraseDups = if l.contains a then l.eraseDups else l.eraseDups ++ [a] := by
  rw [List.eraseDups_append]
  by_cases hMem : a ∈ l <;> simp [List.removeAll, hMem, List.eraseDups_cons]

/-- An element that is there already adds nothing. -/
theorem eraseDups_append_of_mem {l : List α} {a : α} (hMem : a ∈ l) :
    (l ++ [a]).eraseDups = l.eraseDups := by
  rw [eraseDups_append_singleton, if_pos (by simpa using hMem)]

/-- A new element comes last. -/
theorem eraseDups_append_of_not_mem {l : List α} {a : α} (hNew : a ∉ l) :
    (l ++ [a]).eraseDups = l.eraseDups ++ [a] := by
  rw [eraseDups_append_singleton, if_neg (by simpa using hNew)]

/-- No element is left twice. -/
theorem nodup_eraseDups (l : List α) : l.eraseDups.Nodup := by
  induction l using List.reverseRec with
  | nil => simp
  | append_singleton rest a ih =>
      by_cases hMem : a ∈ rest
      · rw [eraseDups_append_of_mem hMem]
        exact ih
      · rw [eraseDups_append_of_not_mem hMem]
        refine List.nodup_append.mpr ⟨ih, by simp, ?_⟩
        intro b hB x hX
        rw [List.mem_singleton] at hX
        subst hX
        rintro rfl
        exact hMem (List.mem_eraseDups.mp hB)

/-- Repetitions in the first part do not matter. -/
theorem eraseDups_append_eraseDups_left (first second : List α) :
    (first.eraseDups ++ second).eraseDups = (first ++ second).eraseDups := by
  induction second using List.reverseRec with
  | nil =>
      rw [List.append_nil, List.append_nil]
      induction first using List.reverseRec with
      | nil => rfl
      | append_singleton rest a ih =>
          by_cases hMem : a ∈ rest
          · rw [eraseDups_append_of_mem hMem, ih]
          · rw [eraseDups_append_of_not_mem hMem, eraseDups_append_of_not_mem (by simpa using hMem),
              ih]
  | append_singleton rest a ih =>
      rw [← List.append_assoc, ← List.append_assoc]
      by_cases hMem : a ∈ first ++ rest
      · rw [eraseDups_append_of_mem hMem, eraseDups_append_of_mem (by simpa using hMem), ih]
      · rw [eraseDups_append_of_not_mem hMem, eraseDups_append_of_not_mem (by simpa using hMem), ih]

/-- Repetitions do not matter before elements are chosen and changed. -/
theorem eraseDups_append_filterMap_eraseDups (first : List β) (l : List α) (choose : α → Option β) :
    (first ++ l.eraseDups.filterMap choose).eraseDups =
      (first ++ l.filterMap choose).eraseDups := by
  induction l using List.reverseRec with
  | nil => rfl
  | append_singleton rest a ih =>
      rw [List.filterMap_append]
      by_cases hMem : a ∈ rest
      · rw [eraseDups_append_of_mem hMem, ih]
        cases hChoose : choose a with
        | none => simp [hChoose]
        | some b =>
            have hB : b ∈ first ++ rest.filterMap choose :=
              List.mem_append_right _ (List.mem_filterMap.mpr ⟨a, hMem, hChoose⟩)
            simp only [List.filterMap_cons, hChoose, List.filterMap_nil, ← List.append_assoc]
            rw [eraseDups_append_of_mem hB]
      · rw [eraseDups_append_of_not_mem hMem, List.filterMap_append, ← List.append_assoc,
          ← List.append_assoc, ← eraseDups_append_eraseDups_left, ih,
          eraseDups_append_eraseDups_left]

/-- Elements that stay different may be changed before repetitions are erased. -/
theorem eraseDups_map {change : α → β} (hInjective : Function.Injective change) (l : List α) :
    (l.map change).eraseDups = l.eraseDups.map change := by
  induction l using List.reverseRec with
  | nil => rfl
  | append_singleton rest a ih =>
      rw [List.map_append, List.map_singleton]
      by_cases hMem : a ∈ rest
      · rw [eraseDups_append_of_mem hMem, eraseDups_append_of_mem (List.mem_map_of_mem hMem), ih]
      · have hNew : change a ∉ rest.map change := by
          intro hMap
          obtain ⟨b, hB, hSame⟩ := List.mem_map.mp hMap
          exact hMem (hInjective hSame ▸ hB)
        rw [eraseDups_append_of_not_mem hMem, eraseDups_append_of_not_mem hNew, ih, List.map_append,
          List.map_singleton]

end LateBinding.Occurrence
