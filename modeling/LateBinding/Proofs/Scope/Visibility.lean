import Mathlib.Tactic.TFAE
import LateBinding.Proofs.Scope.Refinement

/-!
# What is visible is what is looked up

A lookup searches the scopes from the innermost one outwards, and stops at the first that declares
the name.  The visible bindings are gathered the other way round: from the outermost scope inwards,
where each declaration takes the place of an earlier one of that name.  Whatever was declared and
taken away before, both come to the same bindings.

* `Store.after` - the store that requests lead to; it is sound (`sound_after`).
* `exists_nearest_of_owner?` - the owner of a name is the nearest scope that declares it.
* `visibleNames_eq` - visible names stand where the scopes, from the outermost one, declare them
  first.
* `visible_agrees_lookup` - every way to ask for a name agrees with what is visible.
-/

namespace LateBinding.Scope

namespace Store

/-- The store that requests lead to from the one without scopes. -/
def after (requests : List Request) : Store :=
  (empty.run requests).2

/-- Requests lead to sound stores. -/
theorem sound_after (requests : List Request) : (after requests).Sound :=
  (mirrors_empty.run requests).2.sound

/-- The owner of a name comes first among the scopes that declare it. -/
theorem exists_nearest_of_owner? {s : Store} {id owner : ScopeId} {name : String}
    (hOwner : s.owner? id name = some owner) :
    ∃ nearer farther, s.chain id = nearer ++ owner :: farther ∧
      ∀ scope ∈ nearer, s.owned? scope name = none := by
  obtain ⟨-, nearer, farther, hChain, hNearer⟩ := List.find?_eq_some_iff_append.mp hOwner
  refine ⟨nearer, farther, hChain, ?_⟩
  intro scope hMem
  simpa using hNearer scope hMem

section Lookups

variable {s : Store} (hSound : s.Sound)

include hSound

/-- The names that a scope declares are those for which it has a binding. -/
theorem Sound.mem_ownedNames_iff {id : ScopeId} {name : String} :
    name ∈ s.ownedNames id ↔ ∃ b, s.owned? id name = some b := by
  rw [← Option.isSome_iff_exists, hSound.owned?_eq_find?]
  exact isSome_find?_iff.symm

/-- The binding that a scope has for a name is one that it declares. -/
theorem Sound.mem_owned_of_owned? {id : ScopeId} {name : String} {b : Binding}
    (hOwned : s.owned? id name = some b) : b ∈ s.owned id := by
  rw [hSound.owned?_eq_find?] at hOwned
  exact List.mem_of_find?_eq_some hOwned

/-- A lookup finds the visible binding of a name. -/
theorem Sound.lookup?_eq_some_iff {id : ScopeId} {name : String} {b : Binding} :
    s.lookup? id name = some b ↔ b ∈ s.visible id ∧ b.name = name := by
  rw [← hSound.find?_visible]
  exact find?_eq_some_iff_mem (nodup_visible s id)

/-- The visible binding of a name belongs to the nearest scope that declares the name. -/
theorem Sound.exists_owner?_of_mem_visible {id : ScopeId} {b : Binding}
    (hMem : b ∈ s.visible id) :
    ∃ owner nearer farther, s.owner? id b.name = some owner ∧
      s.chain id = nearer ++ owner :: farther ∧ s.owned? owner b.name = some b ∧
      b ∈ s.owned owner ∧ ∀ scope ∈ nearer, b.name ∉ s.ownedNames scope := by
  have hLookup := hSound.lookup?_eq_some_iff.mpr ⟨hMem, rfl⟩
  obtain ⟨owner, hOwner⟩ : ∃ owner, s.owner? id b.name = some owner := by
    rw [← Option.isSome_iff_exists, isSome_owner?, hLookup]
    rfl
  have hOwned := (owned?_of_owner?_eq_some hOwner).trans hLookup
  obtain ⟨nearer, farther, hChain, hNearer⟩ := exists_nearest_of_owner? hOwner
  refine ⟨owner, nearer, farther, hOwner, hChain, hOwned, hSound.mem_owned_of_owned? hOwned, ?_⟩
  intro scope hScope hDeclared
  obtain ⟨a, hA⟩ := hSound.mem_ownedNames_iff.mp hDeclared
  rw [hNearer scope hScope] at hA
  cases hA

/-- A name is visible if any of the questions about it finds something. -/
theorem Sound.visible_tfae (id : ScopeId) (name : String) :
    [∃ b ∈ s.visible id, b.name = name, (s.lookup? id name).isSome = true,
      s.isVisible id name = true, name ∈ s.visibleNames id,
      (s.owner? id name).isSome = true].TFAE := by
  tfae_have 1 ↔ 2 := by
    rw [Option.isSome_iff_exists]
    simp only [hSound.lookup?_eq_some_iff]
  tfae_have 2 ↔ 3 := Iff.rfl
  tfae_have 1 ↔ 4 := List.mem_map.symm
  tfae_have 2 ↔ 5 := by rw [isSome_owner?]
  tfae_finish

end Lookups

/-- Visible names stand in the order in which the scopes, the outermost one first, declare them. -/
theorem visibleNames_eq (s : Store) (id : ScopeId) :
    s.visibleNames id = ((s.chain id).reverse.flatMap s.ownedNames).eraseDups := by
  rw [visibleNames, visible, map_name_foldl_overlay_nil, List.map_flatMap]
  rfl

/-- In every store that requests lead to, no name is visible twice from a scope.  A name is visible
exactly if a lookup finds it, and if it has an owner; the visible binding is the one that the lookup
finds, and the one that the owner declares, which is the nearest scope that declares the name.
Visible names stand where they occur first when the scopes, from the outermost one inwards, name
what they declare. -/
theorem visible_agrees_lookup (requests : List Request) (id : ScopeId) (name : String) :
    ((after requests).visibleNames id).Nodup ∧
      [∃ b ∈ (after requests).visible id, b.name = name,
        ((after requests).lookup? id name).isSome = true,
        (after requests).isVisible id name = true, name ∈ (after requests).visibleNames id,
        ((after requests).owner? id name).isSome = true].TFAE ∧
      (∀ b ∈ (after requests).visible id, b.name = name →
        (after requests).lookup? id name = some b ∧
        ∃ owner nearer farther, (after requests).owner? id name = some owner ∧
          (after requests).chain id = nearer ++ owner :: farther ∧
          (after requests).owned? owner name = some b ∧ b ∈ (after requests).owned owner ∧
          ∀ scope ∈ nearer, name ∉ (after requests).ownedNames scope) ∧
      (after requests).visibleNames id =
        (((after requests).chain id).reverse.flatMap (after requests).ownedNames).eraseDups := by
  have hSound := sound_after requests
  refine ⟨nodup_visible _ id, hSound.visible_tfae id name, ?_, visibleNames_eq _ id⟩
  rintro b hMem rfl
  exact ⟨hSound.lookup?_eq_some_iff.mpr ⟨hMem, rfl⟩, hSound.exists_owner?_of_mem_visible hMem⟩

end Store

end LateBinding.Scope
