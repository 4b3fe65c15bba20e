import LateBinding.Proofs.Scope.Table

/-!
# Lookups through nested scopes

What a name means in a scope is found by climbing from the scope to the ones around it.  In a sound
store the climb ends, each step of it is an equation, and the three questions of a resolution -
which binding, which scope owns it, what is visible at all - can be answered one scope at a time.

* `Store.Sound` - every table is indexed, and a scope is opened after the one around it.
* `chain_eq_cons`, `visible_eq`, `owner?_eq` - one step of the climb.
* `lookup?_eq_find?_visible` - the visible bindings are exactly what lookups find.
* `owned?_of_owner?_eq_some` - the owner of a name declares what a lookup finds.
-/

namespace LateBinding.Scope

/-- A binding without its mark. -/
def Binding.plain (b : Binding) : Binding :=
  { b with captured := false }

@[simp] theorem Binding.name_plain (b : Binding) : b.plain.name = b.name := rfl

namespace Store

/-- Every table is indexed, and a scope is opened after the one around it. -/
structure Sound (s : Store) : Prop where
  indexed : ∀ id t, s.table? id = some t → t.Indexed
  parent_lt : ∀ id t parent, s.table? id = some t → t.parent = some parent →
    parent.index < id.index

/-- A scope is known if its number has been given out. -/
theorem exists_table? {s : Store} {id : ScopeId} (hKnown : id.index < s.size) :
    ∃ t, s.table? id = some t := by
  cases hTable : s.table? id with
  | none =>
      have := (table?_eq_none_iff s id).mp hTable
      omega
  | some t => exact ⟨t, rfl⟩

/-- The numbers of known scopes have been given out. -/
theorem lt_size_of_table? {s : Store} {id : ScopeId} {t : Table} (hTable : s.table? id = some t) :
    id.index < s.size := by
  by_contra hNot
  have hNone := (table?_eq_none_iff s id).mpr (by omega)
  rw [hTable] at hNone
  cases hNone

theorem owned_eq_of_table? {s : Store} {id : ScopeId} {t : Table} (hTable : s.table? id = some t) :
    s.owned id = t.bindings.toList := by
  simp [owned, hTable]

/-- Only known scopes declare anything. -/
theorem lt_size_of_mem_owned {s : Store} {id : ScopeId} {b : Binding} (hMem : b ∈ s.owned id) :
    id.index < s.size := by
  cases hTable : s.table? id with
  | none => simp [owned, hTable] at hMem
  | some t => exact lt_size_of_table? hTable

/-! ### The climb -/

/-- The climb does not depend on the number of steps it is given, if that is enough. -/
theorem Sound.climb_congr {s : Store} (hSound : s.Sound) {m n : Nat} {id : ScopeId}
    (hM : id.index < m) (hN : id.index < n) : s.climb m id = s.climb n id := by
  induction m generalizing n id with
  | zero => omega
  | succ m ih =>
      cases n with
      | zero => omega
      | succ n =>
          simp only [climb]
          cases hTable : s.table? id with
          | none => rfl
          | some t =>
              cases hParent : t.parent with
              | none => simp only [hParent]
              | some parent =>
                  have hLt := hSound.parent_lt id t parent hTable hParent
                  simp only [hParent, List.cons.injEq, true_and]
                  exact ih (by omega) (by omega)

/-- The scopes from the one around a scope on. -/
def around (s : Store) (id : ScopeId) : List ScopeId :=
  match s.parent? id with
  | none => []
  | some parent => s.chain parent

/-- A known scope comes first among the scopes that are searched from it. -/
theorem Sound.chain_eq_cons {s : Store} (hSound : s.Sound) {id : ScopeId}
    (hKnown : id.index < s.size) : s.chain id = id :: s.around id := by
  obtain ⟨t, hTable⟩ := exists_table? hKnown
  have hParentEq : s.parent? id = t.parent := by simp [parent?, hTable]
  rw [chain, climb, around, hTable, hParentEq]
  cases hParent : t.parent with
  | none => simp only [hParent]
  | some parent =>
      have hLt := hSound.parent_lt id t parent hTable hParent
      simp only [hParent, List.cons.injEq, true_and]
      exact hSound.climb_congr (by omega) (by omega)

/-- Induction along the climb: from the scope around a scope to the scope. -/
theorem Sound.climb_induction {s : Store} (hSound : s.Sound) {motive : ScopeId → Prop}
    (known : ∀ id, id.index < s.size →
      (∀ parent, s.parent? id = some parent → parent.index < s.size → motive parent) → motive id)
    {id : ScopeId} (hKnown : id.index < s.size) : motive id := by
  -- the scope around a scope has a smaller number
  induction hIndex : id.index using Nat.strongRecOn generalizing id with
  | _ n ih =>
      subst hIndex
      apply known id hKnown
      intro parent hParent hBound
      obtain ⟨t, hTable⟩ := exists_table? hKnown
      have hParent' : t.parent = some parent := by simpa [parent?, hTable] using hParent
      exact ih parent.index (hSound.parent_lt id t parent hTable hParent') hBound rfl

/-- The scope around a known scope is known. -/
theorem Sound.parent?_lt {s : Store} (hSound : s.Sound) {id parent : ScopeId}
    (hParent : s.parent? id = some parent) : parent.index < id.index ∧ id.index < s.size := by
  cases hTable : s.table? id with
  | none => simp [parent?, hTable] at hParent
  | some t =>
      have hParent' : t.parent = some parent := by simpa [parent?, hTable] using hParent
      exact ⟨hSound.parent_lt id t parent hTable hParent', lt_size_of_table? hTable⟩

/-- What is visible around a scope. -/
def visibleAround (s : Store) (id : ScopeId) : List Binding :=
  match s.parent? id with
  | none => []
  | some parent => s.visible parent

/-- The bindings of a scope lie over those visible around it. -/
theorem Sound.visible_eq {s : Store} (hSound : s.Sound) {id : ScopeId} (hKnown : id.index < s.size) :
    s.visible id = (s.owned id).foldl overlay (s.visibleAround id) := by
  unfold visible
  rw [hSound.chain_eq_cons hKnown, List.reverse_cons, List.flatMap_append, List.foldl_append]
  have hAround : ((s.around id).reverse.flatMap s.owned).foldl overlay [] = s.visibleAround id := by
    unfold around visibleAround
    cases s.parent? id with
    | none => rfl
    | some parent => rfl
  simp [hAround]

/-- The owner of a name is the scope itself, if it declares the name, or else the owner around
it. -/
theorem Sound.owner?_eq {s : Store} (hSound : s.Sound) {id : ScopeId} (hKnown : id.index < s.size)
    (name : String) :
    s.owner? id name =
      if (s.owned? id name).isSome then some id else (s.parent? id).bind (s.owner? · name) := by
  unfold owner?
  rw [hSound.chain_eq_cons hKnown, List.find?_cons]
  have hAround : (s.around id).find? (fun scope => (s.owned? scope name).isSome) =
      (s.parent? id).bind fun parent =>
        (s.chain parent).find? fun scope => (s.owned? scope name).isSome := by
    unfold around
    cases s.parent? id with
    | none => rfl
    | some parent => rfl
  rw [hAround]
  cases (s.owned? id name).isSome <;> simp

/-- The binding of a name is the scope's own, if it declares the name, or else the one around it. -/
theorem Sound.lookup?_eq {s : Store} (hSound : s.Sound) {id : ScopeId} (hKnown : id.index < s.size)
    (name : String) :
    s.lookup? id name = (s.owned? id name).or ((s.parent? id).bind (s.lookup? · name)) := by
  unfold lookup?
  rw [hSound.chain_eq_cons hKnown, List.findSome?_cons]
  have hAround : (s.around id).findSome? (s.owned? · name) =
      (s.parent? id).bind fun parent => (s.chain parent).findSome? (s.owned? · name) := by
    unfold around
    cases s.parent? id with
    | none => rfl
    | some parent => rfl
  rw [hAround]
  cases s.owned? id name <;> rfl

/-- A scope declares a name if one of its bindings has it. -/
theorem Sound.owned?_eq_find? {s : Store} (hSound : s.Sound) (id : ScopeId) (name : String) :
    s.owned? id name = (s.owned id).find? (·.name = name) := by
  cases hTable : s.table? id with
  | none => simp [owned?, owned, hTable]
  | some t =>
      simp only [owned?, owned, hTable, Option.bind_some, Option.map_some, Option.getD_some]
      exact (hSound.indexed id t hTable).find?_eq name

/-- A scope declares every name once. -/
theorem Sound.nodup_owned {s : Store} (hSound : s.Sound) (id : ScopeId) :
    ((s.owned id).map Binding.name).Nodup := by
  cases hTable : s.table? id with
  | none => simp [owned, hTable]
  | some t =>
      rw [owned_eq_of_table? hTable]
      exact (hSound.indexed id t hTable).names_nodup

/-- Every name is visible once. -/
theorem nodup_visible (s : Store) (id : ScopeId) : ((s.visible id).map Binding.name).Nodup :=
  nodup_foldl_overlay _ List.nodup_nil

/-- What is visible is declared in some scope. -/
theorem exists_owned_of_mem_visible {s : Store} {id : ScopeId} {b : Binding}
    (hMem : b ∈ s.visible id) : ∃ owner, b ∈ s.owned owner := by
  rcases mem_foldl_overlay hMem with hB | hB
  · cases hB
  · obtain ⟨owner, -, hOwned⟩ := List.mem_flatMap.mp hB
    exact ⟨owner, hOwned⟩

/-- Looking a name up among overlaid bindings with distinct names. -/
theorem find?_foldl_overlay (acc : List Binding) {bs : List Binding}
    (hNodup : (bs.map Binding.name).Nodup) (name : String) :
    (bs.foldl overlay acc).find? (·.name = name) =
      (bs.find? (·.name = name)).or (acc.find? (·.name = name)) := by
  induction bs generalizing acc with
  | nil => rfl
  | cons b rest ih =>
      rw [List.map_cons, List.nodup_cons] at hNodup
      rw [List.foldl_cons, ih _ hNodup.2, find?_overlay, List.find?_cons]
      by_cases hName : b.name = name
      · have hNone : rest.find? (·.name = name) = none := by
          simp only [List.find?_eq_none, decide_eq_true_eq]
          intro a hMem hSame
          exact hNodup.1 (List.mem_map.mpr ⟨a, hMem, hSame.trans hName.symm⟩)
        simp [hName, hNone]
      · simp [hName]

/-- The visible bindings are exactly what lookups find. -/
theorem Sound.lookup?_eq_find?_visible {s : Store} (hSound : s.Sound) {id : ScopeId}
    (hKnown : id.index < s.size) (name : String) :
    s.lookup? id name = (s.visible id).find? (·.name = name) := by
  refine hSound.climb_induction
    (motive := fun id => s.lookup? id name = (s.visible id).find? (·.name = name)) ?_ hKnown
  intro id hKnown ih
  rw [hSound.lookup?_eq hKnown, hSound.visible_eq hKnown,
    find?_foldl_overlay _ (hSound.nodup_owned id), hSound.owned?_eq_find?]
  congr 1
  unfold visibleAround
  cases hParent : s.parent? id with
  | none => rfl
  | some parent =>
      have hLt := hSound.parent?_lt hParent
      exact ih parent hParent (by omega)

/-- Nothing is searched from an unknown scope. -/
theorem chain_of_unknown {s : Store} {id : ScopeId} (hUnknown : s.size ≤ id.index) :
    s.chain id = [] := by
  rw [chain, climb, (table?_eq_none_iff s id).mpr hUnknown]

/-- Searching what is visible is looking up, whether the scope is known or not. -/
theorem Sound.find?_visible {s : Store} (hSound : s.Sound) (id : ScopeId) (name : String) :
    (s.visible id).find? (·.name = name) = s.lookup? id name := by
  by_cases hKnown : id.index < s.size
  · exact (hSound.lookup?_eq_find?_visible hKnown name).symm
  · have hChain := chain_of_unknown (Nat.le_of_not_lt hKnown)
    simp [lookup?, visible, hChain]

/-- The owner of a name declares the binding that a lookup finds. -/
theorem owned?_of_owner?_eq_some {s : Store} {id owner : ScopeId} {name : String}
    (hOwner : s.owner? id name = some owner) : s.owned? owner name = s.lookup? id name := by
  unfold owner? at hOwner
  unfold lookup?
  generalize s.chain id = scopes at hOwner ⊢
  induction scopes with
  | nil => simp at hOwner
  | cons scope rest ih =>
      rw [List.find?_cons] at hOwner
      rw [List.findSome?_cons]
      cases hOwned : s.owned? scope name with
      | none =>
          simp only [hOwned, Option.isSome_none] at hOwner
          exact ih hOwner
      | some b =>
          simp only [hOwned, Option.isSome_some, Option.some.injEq] at hOwner
          subst hOwner
          exact hOwned

/-- A name has an owner if it has a binding. -/
theorem isSome_owner? (s : Store) (id : ScopeId) (name : String) :
    (s.owner? id name).isSome = (s.lookup? id name).isSome := by
  unfold owner? lookup?
  induction s.chain id with
  | nil => rfl
  | cons scope rest ih =>
      rw [List.find?_cons, List.findSome?_cons]
      cases hOwned : s.owned? scope name with
      | none => simpa [hOwned] using ih
      | some b => simp

end Store

end LateBinding.Scope
