import LateBinding.Proofs.Scope.Change

/-!
# Which names a store has

A name gets into a store by being declared.  Opening scopes, marking bindings and taking snapshots
bring in no names that were not there.

* `Store.Declares` - some scope declares the name.
* `Declares.of_declare`, `Declares.of_openInside`, `Declares.of_snapshot`, `Declares.of_setCaptured`,
  `Declares.of_clearCaptured` - where a name comes from that is declared after a change.
-/

namespace LateBinding.Scope

/-! ### Tables -/

namespace Table

variable {t : Table} {name : String}

/-- A name of a table with one more binding was there, or is that of the binding. -/
theorem mem_names_insert {b : Binding} (hMem : name ∈ (t.insert b).names) :
    name ∈ t.names ∨ name = b.name := by
  obtain ⟨a, hA, rfl⟩ := List.mem_map.mp hMem
  rw [Array.mem_toList_iff] at hA
  unfold insert at hA
  split at hA
  · rcases Array.mem_or_eq_of_mem_setIfInBounds hA with hOld | rfl
    · exact .inl (List.mem_map_of_mem (Array.mem_toList_iff.mpr hOld))
    · exact .inr rfl
  · rcases Array.mem_push.mp hA with hOld | rfl
    · exact .inl (List.mem_map_of_mem (Array.mem_toList_iff.mpr hOld))
    · exact .inr rfl

/-- A change that keeps the name of a binding keeps the names of a table. -/
theorem names_update {other : String} {change : Binding → Binding}
    (hKeeps : ∀ b, (change b).name = b.name) : (t.update other change).names = t.names := by
  unfold update
  split
  · rfl
  · apply List.ext_getElem?
    intro j
    simp only [names, List.getElem?_map, Array.getElem?_toList, Array.getElem?_modify]
    split
    · cases t.bindings[j]? <;> simp [hKeeps]
    · rfl

/-- A change of all bindings that keeps their names keeps the names of a table. -/
theorem names_updateAll {change : Binding → Binding} (hKeeps : ∀ b, (change b).name = b.name) :
    (t.updateAll change).names = t.names := by
  simp [names, updateAll, Function.comp_def, hKeeps]

end Table

/-! ### Stores -/

namespace Store

/-- Some scope declares the name. -/
def Declares (s : Store) (name : String) : Prop :=
  ∃ id, name ∈ s.ownedNames id

/-- A name is declared exactly if it stands in some table. -/
theorem declares_iff {s : Store} {name : String} :
    s.Declares name ↔ ∃ id t, s.table? id = some t ∧ name ∈ t.names := by
  constructor
  · rintro ⟨id, hMem⟩
    cases hTable : s.table? id with
    | none => simp [ownedNames, owned, hTable] at hMem
    | some t =>
        rw [ownedNames, owned_eq_of_table? hTable] at hMem
        exact ⟨id, t, hTable, hMem⟩
  · rintro ⟨id, t, hTable, hMem⟩
    refine ⟨id, ?_⟩
    rw [ownedNames, owned_eq_of_table? hTable]
    exact hMem

namespace Declares

variable {s next : Store} {id : ScopeId} {name : String}

theorem of_push {t : Table} (hDeclares : (s.push t).2.Declares name) :
    s.Declares name ∨ name ∈ t.names := by
  obtain ⟨other, u, hTable, hMem⟩ := declares_iff.mp hDeclares
  rw [table?_push] at hTable
  split at hTable
  · cases hTable
    exact .inr hMem
  · exact .inl (declares_iff.mpr ⟨other, u, hTable, hMem⟩)

theorem of_modify {change : Table → Table} (hDeclares : (s.modify id change).Declares name) :
    s.Declares name ∨ ∃ t, s.table? id = some t ∧ name ∈ (change t).names := by
  obtain ⟨other, u, hTable, hMem⟩ := declares_iff.mp hDeclares
  rw [table?_modify] at hTable
  split at hTable
  · rename_i hSame
    subst hSame
    obtain ⟨t, hOld, rfl⟩ := Option.map_eq_some_iff.mp hTable
    exact .inr ⟨t, hOld, hMem⟩
  · exact .inl (declares_iff.mpr ⟨other, u, hTable, hMem⟩)

/-- A change of one table that keeps its names brings in no names. -/
theorem of_modify_keeps {change : Table → Table} (hKeeps : ∀ t, (change t).names = t.names)
    (hDeclares : (s.modify id change).Declares name) : s.Declares name := by
  rcases hDeclares.of_modify with hOld | ⟨t, hTable, hMem⟩
  · exact hOld
  · rw [hKeeps] at hMem
    exact declares_iff.mpr ⟨id, t, hTable, hMem⟩

/-- Declaring a binding brings in its name only. -/
theorem of_declare {b : Binding} (hOk : s.declare id b = .ok next)
    (hDeclares : next.Declares name) : s.Declares name ∨ name = b.name := by
  unfold declare at hOk
  split at hOk
  · cases hOk
  · split at hOk
    · cases hOk
    · cases hOk
      rcases hDeclares.of_modify with hOld | ⟨t, hTable, hMem⟩
      · exact .inl hOld
      · exact (Table.mem_names_insert hMem).imp_left fun hOld =>
          declares_iff.mpr ⟨id, t, hTable, hOld⟩

/-- Opening a scope brings in no names. -/
theorem of_openInside {inner : ScopeId} (hOk : s.openInside id = .ok (inner, next))
    (hDeclares : next.Declares name) : s.Declares name := by
  unfold openInside at hOk
  split at hOk
  · cases hOk
  · cases hOk
    rcases hDeclares.of_push with hOld | hMem
    · exact hOld
    · cases hMem

/-- A snapshot has names that were visible, so they were declared before. -/
theorem of_snapshot {copy : ScopeId} {keepsSlots : Bool}
    (hOk : s.snapshot id keepsSlots = .ok (copy, next)) (hDeclares : next.Declares name) :
    s.Declares name := by
  unfold snapshot at hOk
  split at hOk
  · cases hOk
  · cases hOk
    rcases hDeclares.of_push with hOld | hMem
    · exact hOld
    · rw [Table.names, (indexed_snapshotBindings s id keepsSlots).2.1,
        map_name_snapshotBindings] at hMem
      obtain ⟨b, hVisible, rfl⟩ := List.mem_map.mp hMem
      obtain ⟨owner, hOwned⟩ := exists_owned_of_mem_visible hVisible
      exact ⟨owner, List.mem_map_of_mem hOwned⟩

/-- Marking a binding brings in no names. -/
theorem of_setCaptured {other : String} {captured : Bool}
    (hDeclares : (s.setCaptured id other captured).Declares name) : s.Declares name := by
  apply of_modify_keeps _ hDeclares
  intro t
  exact Table.names_update fun _ => rfl

/-- Taking marks away brings in no names. -/
theorem of_clearCaptured (hDeclares : (s.clearCaptured id).Declares name) : s.Declares name := by
  apply of_modify_keeps _ hDeclares
  intro t
  exact Table.names_updateAll fun _ => rfl

end Declares

end Store

end LateBinding.Scope
