import LateBinding.Proofs.Scope.Store

/-!
# What changes to a store change

Opening a scope, declaring a binding, marking one as captured and taking a snapshot each touch one
table.  For each of them this file says that the store stays sound, what the touched scope shows
afterwards, and that the other tables are as before.

* `Store.view` - a table without its marks.  Scopes whose climbs agree in all views show the same
  bindings up to marks (`Sound.map_plain_visible_congr`) and have the same owners
  (`Sound.owner?_congr`).
* `exists_openInside`, `exists_declare`, `exists_snapshot` - the operations on known scopes.
* `view_setCaptured`, `owned_setCaptured` - marking.
-/

namespace LateBinding.Scope

namespace Store

/-! ### Views -/

/-- A table without its marks: the scope around it, and its bindings. -/
def view (s : Store) (id : ScopeId) : Option (Option ScopeId × List Binding) :=
  (s.table? id).map fun t => (t.parent, t.bindings.toList.map Binding.plain)

/-- Marks do not matter where bindings go. -/
theorem map_plain_overlay (bs : List Binding) (b : Binding) :
    (overlay bs b).map Binding.plain = overlay (bs.map Binding.plain) b.plain := by
  rw [overlay_eq_keyed]
  apply Keyed.map_overlay
  exact fun _ _ => Iff.rfl

theorem map_plain_foldl_overlay (acc bs : List Binding) :
    (bs.foldl overlay acc).map Binding.plain =
      (bs.map Binding.plain).foldl overlay (acc.map Binding.plain) := by
  rw [overlay_eq_keyed]
  apply Keyed.map_foldl_overlay
  exact fun _ _ => Iff.rfl

/-- Equal views have the same scope around them. -/
theorem parent?_congr {s other : Store} {id : ScopeId} (hView : other.view id = s.view id) :
    other.parent? id = s.parent? id := by
  unfold view at hView
  unfold parent?
  cases hS : s.table? id <;> cases hO : other.table? id <;> simp_all

/-- Equal views have the same bindings up to marks. -/
theorem map_plain_owned_congr {s other : Store} {id : ScopeId} (hView : other.view id = s.view id) :
    (other.owned id).map Binding.plain = (s.owned id).map Binding.plain := by
  unfold view at hView
  unfold owned
  cases hS : s.table? id <;> cases hO : other.table? id <;> simp_all

/-- Whether a scope declares a name can be seen from its view. -/
theorem isSome_owned?_congr {s other : Store} (hSound : s.Sound) (hOther : other.Sound)
    {id : ScopeId} (hView : other.view id = s.view id) (name : String) :
    (other.owned? id name).isSome = (s.owned? id name).isSome := by
  have hPlain : ∀ bs : List Binding,
      (bs.find? (·.name = name)).isSome =
        ((bs.map Binding.plain).find? (·.name = name)).isSome := by
    intro bs
    rw [List.find?_map, Option.isSome_map]
    rfl
  rw [hSound.owned?_eq_find?, hOther.owned?_eq_find?, hPlain, hPlain (s.owned id),
    map_plain_owned_congr hView]

section Agreement

variable {s other : Store} (hSound : s.Sound) (hOther : other.Sound) (hSize : s.size ≤ other.size)

include hSound hOther hSize

/-- If the views from a scope outwards agree, the same bindings are visible up to marks. -/
theorem Sound.map_plain_visible_congr {id : ScopeId} (hKnown : id.index < s.size)
    (hViews : ∀ outer : ScopeId, outer.index ≤ id.index → other.view outer = s.view outer) :
    (other.visible id).map Binding.plain = (s.visible id).map Binding.plain := by
  revert hViews
  refine hSound.climb_induction (motive := fun id =>
    (∀ outer : ScopeId, outer.index ≤ id.index → other.view outer = s.view outer) →
      (other.visible id).map Binding.plain = (s.visible id).map Binding.plain) ?_ hKnown
  intro id hKnown ih hViews
  have hView := hViews id (Nat.le_refl _)
  rw [hSound.visible_eq hKnown, hOther.visible_eq (Nat.lt_of_lt_of_le hKnown hSize),
    map_plain_foldl_overlay, map_plain_foldl_overlay, map_plain_owned_congr hView]
  congr 1
  unfold visibleAround
  rw [parent?_congr hView]
  cases hParent : s.parent? id with
  | none => rfl
  | some parent =>
      have hLt := hSound.parent?_lt hParent
      exact ih parent hParent (by omega) fun outer hLe => hViews outer (by omega)

/-- If the views from a scope outwards agree, names have the same owners. -/
theorem Sound.owner?_congr {id : ScopeId} (hKnown : id.index < s.size)
    (hViews : ∀ outer : ScopeId, outer.index ≤ id.index → other.view outer = s.view outer)
    (name : String) : other.owner? id name = s.owner? id name := by
  revert hViews
  refine hSound.climb_induction (motive := fun id =>
    (∀ outer : ScopeId, outer.index ≤ id.index → other.view outer = s.view outer) →
      other.owner? id name = s.owner? id name) ?_ hKnown
  intro id hKnown ih hViews
  have hView := hViews id (Nat.le_refl _)
  rw [hSound.owner?_eq hKnown, hOther.owner?_eq (Nat.lt_of_lt_of_le hKnown hSize),
    isSome_owned?_congr hSound hOther hView, parent?_congr hView]
  congr 1
  cases hParent : s.parent? id with
  | none => rfl
  | some parent =>
      have hLt := hSound.parent?_lt hParent
      exact ih parent hParent (by omega) fun outer hLe => hViews outer (by omega)

end Agreement

/-! ### Adding and changing tables -/

@[simp] theorem size_push (s : Store) (t : Table) : (s.push t).2.size = s.size + 1 := by
  simp [push, size]

@[simp] theorem size_modify (s : Store) (id : ScopeId) (change : Table → Table) :
    (s.modify id change).size = s.size := by
  simp [modify, size]

/-- Adding a table leaves the others as they are. -/
theorem table?_push_of_lt (s : Store) (t : Table) {id : ScopeId} (hKnown : id.index < s.size) :
    (s.push t).2.table? id = s.table? id := by
  rw [table?_push, if_neg (by omega)]

/-- Changing a table leaves the others as they are. -/
theorem table?_modify_of_ne (s : Store) {id other : ScopeId} (change : Table → Table)
    (hNe : other ≠ id) : (s.modify id change).table? other = s.table? other := by
  rw [table?_modify, if_neg hNe]

/-- A scope that an equal table is kept for looks the same. -/
theorem view_congr {s other : Store} {id : ScopeId} (hTable : other.table? id = s.table? id) :
    other.view id = s.view id := by
  rw [view, view, hTable]

/-- A scope that an equal table is kept for declares the same. -/
theorem owned_congr {s other : Store} {id : ScopeId} (hTable : other.table? id = s.table? id) :
    other.owned id = s.owned id := by
  rw [owned, owned, hTable]

/-- A table may be added inside known scopes. -/
theorem sound_push {s : Store} (hSound : s.Sound) {t : Table} (hIndexed : t.Indexed)
    (hParent : ∀ parent, t.parent = some parent → parent.index < s.size) :
    (s.push t).2.Sound where
  indexed := by
    intro id found hTable
    rw [table?_push] at hTable
    split at hTable
    · cases hTable
      exact hIndexed
    · exact hSound.indexed id found hTable
  parent_lt := by
    intro id found parent hTable hFound
    rw [table?_push] at hTable
    split at hTable
    · rename_i hIndex
      cases hTable
      rw [hIndex]
      exact hParent parent hFound
    · exact hSound.parent_lt id found parent hTable hFound

/-- A table may be changed if its index stays in step and the scope around it stays. -/
theorem sound_modify {s : Store} (hSound : s.Sound) {id : ScopeId} {change : Table → Table}
    (hIndexed : ∀ t, t.Indexed → (change t).Indexed)
    (hParent : ∀ t, (change t).parent = t.parent) : (s.modify id change).Sound where
  indexed := by
    intro other found hTable
    rw [table?_modify] at hTable
    split at hTable
    · obtain ⟨t, hOld, rfl⟩ := Option.map_eq_some_iff.mp hTable
      exact hIndexed t (hSound.indexed other t hOld)
    · exact hSound.indexed other found hTable
  parent_lt := by
    intro other found parent hTable hFound
    rw [table?_modify] at hTable
    split at hTable
    · obtain ⟨t, hOld, rfl⟩ := Option.map_eq_some_iff.mp hTable
      exact hSound.parent_lt other t parent hOld (by rw [← hParent t]; exact hFound)
    · exact hSound.parent_lt other found parent hTable hFound

/-- A store without scopes is sound. -/
theorem sound_empty : Sound empty where
  indexed := by
    intro id t hTable
    simp [table?, empty] at hTable
  parent_lt := by
    intro id t parent hTable
    simp [table?, empty] at hTable

/-! ### Opening a scope -/

/-- A scope can be opened inside a known one.  It shows what the scope around it shows. -/
theorem Sound.exists_openInside {s : Store} (hSound : s.Sound) {outer : ScopeId}
    (hKnown : outer.index < s.size) :
    ∃ next, s.openInside outer = .ok (⟨s.size⟩, next) ∧ next.Sound ∧ next.size = s.size + 1 ∧
      (∀ id : ScopeId, id.index < s.size → next.table? id = s.table? id) ∧
      next.owned ⟨s.size⟩ = [] ∧ next.parent? ⟨s.size⟩ = some outer ∧
      (next.visible ⟨s.size⟩).map Binding.plain = (s.visible outer).map Binding.plain ∧
      ∀ name, next.owner? ⟨s.size⟩ name = s.owner? outer name := by
  obtain ⟨t, hTable⟩ := exists_table? hKnown
  have hNext : (s.push (Table.empty (some outer))).2.Sound := by
    apply sound_push hSound (Table.indexed_empty _)
    intro parent hParent
    cases hParent
    exact hKnown
  have hSize := size_push s (Table.empty (some outer))
  have hNew : (s.push (Table.empty (some outer))).2.table? ⟨s.size⟩ =
      some (Table.empty (some outer)) := by
    rw [table?_push, if_pos rfl]
  have hOld : ∀ id : ScopeId, id.index < s.size →
      (s.push (Table.empty (some outer))).2.table? id = s.table? id :=
    fun id hLt => table?_push_of_lt s _ hLt
  have hOwned : (s.push (Table.empty (some outer))).2.owned ⟨s.size⟩ = [] := by
    rw [owned_eq_of_table? hNew]
    simp [Table.empty]
  have hParent : (s.push (Table.empty (some outer))).2.parent? ⟨s.size⟩ = some outer := by
    rw [parent?, hNew]
    rfl
  -- the scopes around the new one were there before
  have hViews : ∀ scope : ScopeId, scope.index ≤ outer.index →
      (s.push (Table.empty (some outer))).2.view scope = s.view scope :=
    fun scope hLe => view_congr (hOld scope (by omega))
  have hKnown' : (⟨s.size⟩ : ScopeId).index < (s.push (Table.empty (some outer))).2.size := by
    rw [hSize]
    exact Nat.lt_succ_self _
  refine ⟨_, by simp only [openInside, hTable]; rfl, hNext, hSize, hOld, hOwned, hParent, ?_, ?_⟩
  · rw [hNext.visible_eq hKnown', hOwned, visibleAround, hParent]
    exact hSound.map_plain_visible_congr hNext (by omega) hKnown hViews
  · intro name
    rw [hNext.owner?_eq hKnown', hNext.owned?_eq_find?, hOwned, hParent]
    exact hSound.owner?_congr hNext (by omega) hKnown hViews name

/-! ### Declaring a binding -/

/-- A binding with a name can be declared in a known scope.  It is overlaid on what the scope shows,
and the scope owns its name. -/
theorem Sound.exists_declare {s : Store} (hSound : s.Sound) {id : ScopeId}
    (hKnown : id.index < s.size) {b : Binding} (hName : b.name ≠ "") :
    ∃ next, s.declare id b = .ok next ∧ next.Sound ∧ next.size = s.size ∧
      (∀ other, other ≠ id → next.table? other = s.table? other) ∧
      next.owned id = overlay (s.owned id) b ∧
      (next.visible id).map Binding.plain = (overlay (s.visible id) b).map Binding.plain ∧
      ∀ name, next.owner? id name = if b.name = name then some id else s.owner? id name := by
  obtain ⟨t, hTable⟩ := exists_table? hKnown
  have hIndexed := hSound.indexed id t hTable
  have hNext : (s.modify id (·.insert b)).Sound := by
    apply sound_modify hSound
    · exact fun t hIndexed => hIndexed.insert b
    · exact fun t => t.parent_insert b
  have hOld : ∀ other, other ≠ id → (s.modify id (·.insert b)).table? other = s.table? other :=
    fun other hNe => table?_modify_of_ne s _ hNe
  have hNew : (s.modify id (·.insert b)).table? id = some (t.insert b) := by
    rw [table?_modify, if_pos rfl, hTable]
    rfl
  have hOwned : (s.modify id (·.insert b)).owned id = overlay (s.owned id) b := by
    rw [owned_eq_of_table? hNew, owned_eq_of_table? hTable]
    exact hIndexed.bindings_insert b
  have hParent : (s.modify id (·.insert b)).parent? id = s.parent? id := by
    simp only [parent?, hNew, hTable, Option.bind_some, Table.parent_insert]
  have hKnown' : id.index < (s.modify id (·.insert b)).size := by simpa using hKnown
  -- around the scope nothing changes: the scopes there have smaller numbers
  have hAround : ∀ parent, s.parent? id = some parent → ∀ outer : ScopeId,
      outer.index ≤ parent.index → (s.modify id (·.insert b)).view outer = s.view outer := by
    intro parent hSome outer hLe
    have hLt := hSound.parent?_lt hSome
    apply view_congr
    apply hOld
    rintro rfl
    omega
  have hParentKnown : ∀ parent, s.parent? id = some parent → parent.index < s.size := by
    intro parent hSome
    have hLt := hSound.parent?_lt hSome
    omega
  refine ⟨_, by simp only [declare, hTable, if_neg hName], hNext, size_modify s id _, hOld, hOwned,
    ?_, ?_⟩
  · rw [hNext.visible_eq hKnown', hSound.visible_eq hKnown, hOwned,
      foldl_overlay_overlay _ b (hSound.nodup_owned id), map_plain_overlay, map_plain_overlay,
      map_plain_foldl_overlay, map_plain_foldl_overlay]
    congr 2
    unfold visibleAround
    rw [hParent]
    cases hSome : s.parent? id with
    | none => rfl
    | some parent =>
        exact hSound.map_plain_visible_congr hNext (by simp) (hParentKnown parent hSome)
          (hAround parent hSome)
  · intro name
    rw [hNext.owner?_eq hKnown', hSound.owner?_eq hKnown, hNext.owned?_eq_find?,
      hSound.owned?_eq_find?, hOwned, find?_overlay, hParent]
    by_cases hSame : b.name = name
    · simp [hSame]
    · rw [if_neg hSame, if_neg hSame]
      congr 1
      cases hSome : s.parent? id with
      | none => rfl
      | some parent =>
          exact hSound.owner?_congr hNext (by simp) (hParentKnown parent hSome)
            (hAround parent hSome) name

/-- Declaring a binding leaves scopes inside those they are in. -/
theorem parent?_of_declare {s next : Store} {id : ScopeId} {b : Binding}
    (hDeclare : s.declare id b = .ok next) (other : ScopeId) :
    next.parent? other = s.parent? other := by
  unfold declare at hDeclare
  split at hDeclare
  · cases hDeclare
  · split at hDeclare
    · cases hDeclare
    · cases hDeclare
      rw [parent?, parent?, table?_modify]
      split
      · cases s.table? other <;> simp
      · rfl

/-! ### Marking bindings -/

/-- Marking a binding keeps a store sound. -/
theorem sound_setCaptured {s : Store} (hSound : s.Sound) (id : ScopeId) (name : String)
    (captured : Bool) : (s.setCaptured id name captured).Sound := by
  apply sound_modify hSound
  · exact fun t hIndexed => hIndexed.update name fun _ => rfl
  · exact fun t => t.parent_update name _

/-- Marking a binding marks the bindings of that name. -/
theorem Sound.owned_setCaptured {s : Store} (hSound : s.Sound) (id : ScopeId) (name : String)
    (captured : Bool) :
    (s.setCaptured id name captured).owned id =
      (s.owned id).map fun b => if b.name = name then { b with captured := captured } else b := by
  cases hTable : s.table? id with
  | none => simp [owned, setCaptured, table?_modify, hTable]
  | some t =>
      simp only [owned, setCaptured, table?_modify, hTable, if_true, Option.map_some,
        Option.getD_some]
      exact (hSound.indexed id t hTable).bindings_update name _

/-- Marking a binding changes nothing but marks. -/
theorem Sound.view_setCaptured {s : Store} (hSound : s.Sound) (id : ScopeId) (name : String)
    (captured : Bool) (other : ScopeId) :
    (s.setCaptured id name captured).view other = s.view other := by
  unfold view setCaptured
  rw [table?_modify]
  split
  · rename_i hSame
    subst hSame
    cases hTable : s.table? other with
    | none => rfl
    | some t =>
        -- a view has no marks to differ in
        simp only [Option.map_some, Table.parent_update, Option.some.injEq, Prod.mk.injEq, true_and]
        rw [(hSound.indexed other t hTable).bindings_update, List.map_map]
        apply List.map_congr_left
        intro b _
        simp only [Function.comp_apply]
        split <;> rfl
  · rfl

@[simp] theorem size_setCaptured (s : Store) (id : ScopeId) (name : String) (captured : Bool) :
    (s.setCaptured id name captured).size = s.size :=
  size_modify s id _

/-! ### Snapshots -/

/-- Declaring bindings with distinct names in an empty table gives these bindings. -/
theorem indexed_foldl_insert {t : Table} (hIndexed : t.Indexed) (bs : List Binding) :
    (bs.foldl Table.insert t).Indexed ∧
      (bs.foldl Table.insert t).bindings.toList = bs.foldl overlay t.bindings.toList ∧
      (bs.foldl Table.insert t).parent = t.parent := by
  induction bs generalizing t with
  | nil => exact ⟨hIndexed, rfl, rfl⟩
  | cons b rest ih =>
      obtain ⟨hRest, hBindings, -⟩ := ih (hIndexed.insert b)
      refine ⟨hRest, ?_, t.parent_foldl_insert (b :: rest)⟩
      rw [List.foldl_cons, hBindings, hIndexed.bindings_insert]
      rfl

/-- The bindings of a snapshot have the names of the visible ones. -/
theorem map_name_snapshotBindings (s : Store) (id : ScopeId) (keepsSlots : Bool) :
    (s.snapshotBindings id keepsSlots).map Binding.name = (s.visible id).map Binding.name := by
  cases keepsSlots with
  | true => rfl
  | false =>
      apply List.ext_getElem?
      intro i
      simp only [snapshotBindings, Bool.false_eq_true, if_false, List.getElem?_map,
        List.getElem?_mapIdx, Option.map_map]
      rfl

/-- The table of a snapshot owns the copied bindings in their order, and is inside no scope. -/
theorem indexed_snapshotBindings (s : Store) (id : ScopeId) (keepsSlots : Bool) :
    ((s.snapshotBindings id keepsSlots).foldl Table.insert (Table.empty none)).Indexed ∧
      ((s.snapshotBindings id keepsSlots).foldl Table.insert (Table.empty none)).bindings.toList =
        s.snapshotBindings id keepsSlots ∧
      ((s.snapshotBindings id keepsSlots).foldl Table.insert (Table.empty none)).parent = none := by
  obtain ⟨hIndexed, hBindings, hParent⟩ :=
    indexed_foldl_insert (Table.indexed_empty none) (s.snapshotBindings id keepsSlots)
  -- no name is visible twice, so inserting the copies one by one overlays nothing
  have hNodup : ((s.snapshotBindings id keepsSlots).map Binding.name).Nodup := by
    rw [map_name_snapshotBindings]
    exact nodup_visible s id
  exact ⟨hIndexed, hBindings.trans (foldl_overlay_nil hNodup), hParent⟩

/-- A renumbered snapshot of a known scope, without marks, owns what is visible there. -/
theorem Sound.exists_snapshot {s : Store} (hSound : s.Sound) {id : ScopeId}
    (hKnown : id.index < s.size) :
    ∃ next, s.snapshot id false = .ok (⟨s.size⟩, next) ∧ next.Sound ∧
      (next.clearCaptured ⟨s.size⟩).Sound ∧ (next.clearCaptured ⟨s.size⟩).size = s.size + 1 ∧
      (∀ other : ScopeId, other.index < s.size →
        (next.clearCaptured ⟨s.size⟩).table? other = s.table? other) ∧
      next.owned ⟨s.size⟩ = s.snapshotBindings id false ∧
      (next.clearCaptured ⟨s.size⟩).owned ⟨s.size⟩ =
        (s.snapshotBindings id false).map Binding.plain ∧
      (next.clearCaptured ⟨s.size⟩).parent? ⟨s.size⟩ = none := by
  obtain ⟨t, hTable⟩ := exists_table? hKnown
  obtain ⟨hIndexed, hBindings, hParent⟩ := indexed_snapshotBindings s id false
  generalize hCopy : (s.snapshotBindings id false).foldl Table.insert (Table.empty none) = copy at *
  have hNext : (s.push copy).2.Sound := by
    apply sound_push hSound hIndexed
    intro parent hSome
    rw [hParent] at hSome
    cases hSome
  have hNew : (s.push copy).2.table? ⟨s.size⟩ = some copy := by
    rw [table?_push, if_pos rfl]
  have hCleared : ((s.push copy).2.clearCaptured ⟨s.size⟩).table? ⟨s.size⟩ =
      some (copy.updateAll fun b => { b with captured := false }) := by
    rw [clearCaptured, table?_modify, if_pos rfl, hNew]
    rfl
  refine ⟨(s.push copy).2, by simp only [snapshot, hTable, hCopy]; rfl, hNext, ?_, ?_, ?_, ?_, ?_,
    ?_⟩
  · apply sound_modify hNext
    · exact fun t hIndexed => hIndexed.updateAll fun _ => rfl
    · exact fun t => rfl
  · rw [clearCaptured, size_modify, size_push]
  · intro other hLt
    rw [clearCaptured, table?_modify_of_ne, table?_push_of_lt s copy hLt]
    rintro rfl
    exact Nat.lt_irrefl _ hLt
  · rw [owned_eq_of_table? hNew]
    exact hBindings
  · rw [owned_eq_of_table? hCleared]
    simp only [Table.updateAll, Array.toList_map, hBindings]
    rfl
  · simp only [parent?, hCleared, Option.bind_some, Table.updateAll]
    exact hParent

end Store

end LateBinding.Scope
