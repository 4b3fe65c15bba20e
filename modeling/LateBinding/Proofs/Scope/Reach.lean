import LateBinding.Proofs.Scope.Snapshot

/-!
# How far a change is seen

Declaring a binding and taking one away change what one scope has for one name.  A lookup sees the
change if it comes to the scope: the scope is on its way, and no nearer scope declares the name.  All
other lookups find what they found before.

* `Table.Indexed.find?_insert`, `Table.Indexed.find?_erase` - what a table has after a change.
* `Store.ComesTo` - a lookup comes to a scope, and these scopes lie beyond it.
* `Store.Touches` - a change of what one scope has for one name, with what it does to lookups
  (`Touches.lookup?_of_comesTo`, `Touches.lookup?_of_not_comesTo`).
* `Table.Agrees`, `Indexed.agrees_erase_insert` - taking a new name away again restores a table.
* `changes_reach_unshadowed` - declaring and taking away, in every store that requests lead to.
-/

namespace LateBinding.Scope

/-- Two tables with the same bindings in the same order, whose indices map every name alike. -/
structure Table.Agrees (t other : Table) : Prop where
  parent : t.parent = other.parent
  bindings : t.bindings = other.bindings
  positions : ∀ name : String, t.positions[name]? = other.positions[name]?

namespace Table

variable {t : Table} (hIndexed : t.Indexed)

include hIndexed

/-- After a declaration, a table has the binding for its name, and for other names what it had. -/
theorem Indexed.find?_insert (b : Binding) (name : String) :
    (t.insert b).find? name = if b.name = name then some b else t.find? name := by
  rw [(hIndexed.insert b).find?_eq, hIndexed.bindings_insert, Store.find?_overlay,
    hIndexed.find?_eq]

/-- After a name is taken away, a table has nothing for it, and for other names what it had. -/
theorem Indexed.find?_erase (taken name : String) :
    (t.erase taken).2.find? name = if taken = name then none else t.find? name := by
  rw [(hIndexed.erase taken).find?_eq, hIndexed.bindings_erase, List.find?_filter,
    hIndexed.find?_eq]
  split
  · rename_i hSame
    subst hSame
    simp
  · rename_i hNe
    refine List.find?_congr fun b _ => ?_
    by_cases hName : b.name = name
    · simp [hName, Ne.symm hNe]
    · simp [hName]

/-- Where indices are in step, they are determined by the names in order. -/
theorem Indexed.positions_congr {other : Table} (hOther : other.Indexed)
    (hNames : t.names = other.names) (name : String) :
    t.positions[name]? = other.positions[name]? := by
  ext i
  rw [hIndexed name i, hOther name i, hNames]

/-- Taking a name away right after its first declaration restores the table. -/
theorem Indexed.agrees_erase_insert {b : Binding} (hNew : t.find? b.name = none) :
    ((t.insert b).erase b.name).2.Agrees t := by
  have hInserted := hIndexed.insert b
  have hOther : ∀ a ∈ t.bindings.toList, a.name ≠ b.name := by
    rw [hIndexed.find?_eq, List.find?_eq_none] at hNew
    simpa using hNew
  have hBindings : ((t.insert b).erase b.name).2.bindings = t.bindings := by
    apply Array.toList_inj.mp
    rw [hInserted.bindings_erase, hIndexed.bindings_insert, Store.overlay_eq_append hOther,
      List.filter_append, List.filter_eq_self.mpr (by simpa using hOther)]
    simp
  constructor
  · rw [parent_erase, parent_insert]
  · exact hBindings
  · apply (hInserted.erase b.name).positions_congr hIndexed
    rw [names, names, hBindings]

end Table

namespace Store

/-- A lookup of a name from `start` comes to a scope: the scope is searched, with `beyond` after it,
and no scope that is searched before it declares the name. -/
def ComesTo (s : Store) (start : ScopeId) (name : String) (scope : ScopeId)
    (beyond : List ScopeId) : Prop :=
  ∃ nearer, s.chain start = nearer ++ scope :: beyond ∧ ∀ id ∈ nearer, s.owned? id name = none

/-- A change of a store that touches nothing but what one scope has for one name. -/
structure Touches (s next : Store) (scope : ScopeId) (name : String) : Prop where
  chain : ∀ id, next.chain id = s.chain id
  owned? : ∀ id other, ¬(id = scope ∧ other = name) → next.owned? id other = s.owned? id other

/-! ### Lookups after a change -/

/-- Scopes are searched from the inside out, and no scope twice. -/
theorem Sound.nodup_chain {s : Store} (hSound : s.Sound) (id : ScopeId) : (s.chain id).Nodup := by
  by_cases hKnown : id.index < s.size
  · suffices hAll : (∀ outer ∈ s.chain id, outer.index ≤ id.index) ∧ (s.chain id).Nodup from hAll.2
    refine hSound.climb_induction (motive := fun id =>
      (∀ outer ∈ s.chain id, outer.index ≤ id.index) ∧ (s.chain id).Nodup) ?_ hKnown
    intro id hKnown ih
    rw [hSound.chain_eq_cons hKnown, around]
    cases hParent : s.parent? id with
    | none => simp
    | some parent =>
        have hLt := hSound.parent?_lt hParent
        obtain ⟨hOuter, hNodup⟩ := ih parent hParent (by omega)
        constructor
        · refine List.forall_mem_cons.mpr ⟨Nat.le_refl _, fun outer hMem => ?_⟩
          have hLe := hOuter outer hMem
          omega
        · refine List.nodup_cons.mpr ⟨fun hMem => ?_, hNodup⟩
          have hLe := hOuter id hMem
          omega
  · rw [chain_of_unknown (Nat.le_of_not_lt hKnown)]
    exact List.nodup_nil

/-- A lookup tries the scopes before a scope, then the scope, then those beyond it. -/
theorem lookup?_split {s : Store} {start scope : ScopeId} {nearer beyond : List ScopeId}
    (hChain : s.chain start = nearer ++ scope :: beyond) (name : String) :
    s.lookup? start name = (nearer.findSome? (s.owned? · name)).or
      ((s.owned? scope name).or (beyond.findSome? (s.owned? · name))) := by
  rw [lookup?, hChain, List.findSome?_append, List.findSome?_cons]
  cases s.owned? scope name <;> rfl

namespace Touches

variable {s next : Store} {scope : ScopeId} {name : String}

/-- If the scope has for the name what it had before, no lookup sees a change. -/
theorem lookup?_of_owned?_eq (hTouches : s.Touches next scope name)
    (hSame : next.owned? scope name = s.owned? scope name) (start : ScopeId) (other : String) :
    next.lookup? start other = s.lookup? start other := by
  rw [lookup?, lookup?, hTouches.chain]
  refine findSome?_owned?_congr fun id _ => ?_
  by_cases hHere : id = scope ∧ other = name
  · rw [hHere.1, hHere.2, hSame]
  · exact hTouches.owned? id other hHere

variable (hTouches : s.Touches next scope name) (hSound : s.Sound)

include hTouches hSound

/-- After the change, a lookup finds the same as before in the scopes other than the changed one. -/
theorem lookup?_split {start : ScopeId} {nearer beyond : List ScopeId}
    (hChain : s.chain start = nearer ++ scope :: beyond) (other : String) :
    next.lookup? start other = (nearer.findSome? (s.owned? · other)).or
      ((next.owned? scope other).or (beyond.findSome? (s.owned? · other))) := by
  have hOnce := hSound.nodup_chain start
  rw [hChain, List.nodup_middle] at hOnce
  have hElsewhere : ∀ id ∈ nearer ++ beyond, next.owned? id other = s.owned? id other := by
    intro id hMem
    apply hTouches.owned?
    rintro ⟨rfl, -⟩
    exact hOnce.notMem hMem
  rw [Store.lookup?_split ((hTouches.chain start).trans hChain),
    findSome?_owned?_congr fun id hMem => hElsewhere id (List.mem_append_left beyond hMem),
    findSome?_owned?_congr fun id hMem => hElsewhere id (List.mem_append_right nearer hMem)]

/-- A lookup that comes to the scope finds what the scope has now, or what lies beyond it. -/
theorem lookup?_of_comesTo {start : ScopeId} {beyond : List ScopeId}
    (hComes : s.ComesTo start name scope beyond) :
    next.lookup? start name =
      (next.owned? scope name).or (beyond.findSome? (s.owned? · name)) := by
  obtain ⟨nearer, hChain, hNearer⟩ := hComes
  rw [hTouches.lookup?_split hSound hChain, List.findSome?_eq_none_iff.mpr hNearer, Option.none_or]

/-- A lookup of another name, and one that does not come to the scope, finds what it found before. -/
theorem lookup?_of_not_comesTo {start : ScopeId} {other : String}
    (hNot : ¬(other = name ∧ ∃ beyond, s.ComesTo start other scope beyond)) :
    next.lookup? start other = s.lookup? start other := by
  by_cases hMem : scope ∈ s.chain start
  · obtain ⟨nearer, beyond, hChain⟩ := List.append_of_mem hMem
    rw [hTouches.lookup?_split hSound hChain, Store.lookup?_split hChain]
    by_cases hName : other = name
    · -- the name is found before the search comes to the scope
      have hFound : (nearer.findSome? (s.owned? · other)).isSome = true := by
        rw [Option.isSome_iff_ne_none]
        intro hNone
        exact hNot ⟨hName, beyond, nearer, hChain, List.findSome?_eq_none_iff.mp hNone⟩
      rw [Option.or_eq_left_of_isSome hFound, Option.or_eq_left_of_isSome hFound]
    · rw [hTouches.owned? scope other fun hHere => hName hHere.2]
  · rw [lookup?, lookup?, hTouches.chain]
    refine findSome?_owned?_congr fun id hId => hTouches.owned? id other ?_
    rintro ⟨rfl, -⟩
    exact hMem hId

end Touches

/-! ### Declaring and taking away -/

/-- A change of tables that leaves scopes inside those they are in changes no search. -/
theorem chain_modify (s : Store) (id : ScopeId) {change : Table → Table}
    (hParent : ∀ t, (change t).parent = t.parent) (start : ScopeId) :
    (s.modify id change).chain start = s.chain start := by
  unfold chain
  generalize start.index + 1 = steps
  induction steps generalizing start with
  | zero => rfl
  | succ steps ih =>
      rw [climb, climb]
      cases hTable : s.table? start with
      | none =>
          have hUnknown : (s.modify id change).table? start = none := by
            rw [table?_modify, hTable]
            split <;> rfl
          rw [hUnknown]
      | some t =>
          obtain ⟨u, hChanged, hOuter⟩ :
              ∃ u, (s.modify id change).table? start = some u ∧ u.parent = t.parent := by
            rw [table?_modify, hTable]
            split
            · exact ⟨change t, rfl, hParent t⟩
            · exact ⟨t, rfl, rfl⟩
          simp only [hChanged, hOuter, ih]

/-- What the scopes have after a change of one table. -/
theorem owned?_modify (s : Store) (id other : ScopeId) (change : Table → Table) (name : String) :
    (s.modify id change).owned? other name =
      if other = id then (s.table? other).bind fun t => (change t).find? name
      else s.owned? other name := by
  rw [owned?, owned?, table?_modify]
  split
  · exact Option.bind_map
  · rfl

/-- A binding can be declared in a known scope if it has a name. -/
theorem exists_declare_iff (s : Store) (id : ScopeId) (b : Binding) :
    (∃ next, s.declare id b = .ok next) ↔ id.index < s.size ∧ b.name ≠ "" := by
  rw [declare]
  cases hTable : s.table? id with
  | none =>
      have hUnknown := (table?_eq_none_iff s id).mp hTable
      constructor
      · rintro ⟨next, hNext⟩
        cases hNext
      · rintro ⟨hKnown, -⟩
        omega
  | some t =>
      by_cases hName : b.name = ""
      · simp [hName]
      · simp [hName, lt_size_of_table? hTable]

/-- A declaration changes the table of one known scope. -/
theorem declare_cases {s next : Store} {id : ScopeId} {b : Binding}
    (hDeclare : s.declare id b = .ok next) :
    ∃ t, s.table? id = some t ∧ next = s.modify id (·.insert b) := by
  unfold declare at hDeclare
  split at hDeclare
  · cases hDeclare
  · rename_i t hTable
    split at hDeclare
    · cases hDeclare
    · exact ⟨t, hTable, (Except.ok.inj hDeclare).symm⟩

/-- Taking a name away gives back what the scope has for it. -/
theorem fst_remove (s : Store) (id : ScopeId) (name : String) :
    (s.remove id name).1 = s.owned? id name := by
  rw [remove, owned?]
  cases s.table? id with
  | none => rfl
  | some t => exact t.fst_erase name

/-- Taking a name away changes the table of one scope, if the scope is known. -/
theorem snd_remove (s : Store) (id : ScopeId) (name : String) :
    (s.remove id name).2 = s.modify id fun t => (t.erase name).2 := by
  rw [remove]
  cases hTable : s.table? id with
  | none => exact (modify_of_unknown hTable _).symm
  | some t => rfl

section Changes

variable {s : Store} (hSound : s.Sound)

include hSound

/-- A declaration touches the name of the binding, for which the scope then has the binding. -/
theorem Sound.touches_declare {next : Store} {id : ScopeId} {b : Binding}
    (hDeclare : s.declare id b = .ok next) :
    s.Touches next id b.name ∧ next.owned? id b.name = some b := by
  obtain ⟨t, hTable, rfl⟩ := declare_cases hDeclare
  have hOwned : ∀ name, (s.modify id (·.insert b)).owned? id name =
      if b.name = name then some b else s.owned? id name := by
    intro name
    rw [owned?_modify, if_pos rfl, owned?, hTable]
    exact (hSound.indexed id t hTable).find?_insert b name
  refine ⟨⟨s.chain_modify id (Table.parent_insert · b), ?_⟩, ?_⟩
  · intro other name hNot
    by_cases hHere : other = id
    · subst hHere
      rw [hOwned, if_neg fun hName => hNot ⟨rfl, hName.symm⟩]
    · rw [owned?_modify, if_neg hHere]
  · rw [hOwned, if_pos rfl]

/-- Taking a name away touches the name, for which the scope then has nothing. -/
theorem Sound.touches_remove (id : ScopeId) (name : String) :
    s.Touches (s.remove id name).2 id name ∧ (s.remove id name).2.owned? id name = none := by
  have hOwned : ∀ other, (s.remove id name).2.owned? id other =
      if name = other then none else s.owned? id other := by
    intro other
    rw [snd_remove, owned?_modify, if_pos rfl, owned?]
    cases hTable : s.table? id with
    | none => simp
    | some t => exact (hSound.indexed id t hTable).find?_erase name other
  refine ⟨⟨?_, ?_⟩, ?_⟩
  · rw [snd_remove]
    exact s.chain_modify id (Table.parent_erase · name)
  · intro scope other hNot
    by_cases hHere : scope = id
    · subst hHere
      rw [hOwned, if_neg fun hName => hNot ⟨rfl, hName.symm⟩]
    · rw [snd_remove, owned?_modify, if_neg hHere]
  · rw [hOwned, if_pos rfl]

/-- Taking a name away right after its first declaration gives the binding back and restores every
table. -/
theorem Sound.agrees_remove_declare {next : Store} {id : ScopeId} {b : Binding}
    (hDeclare : s.declare id b = .ok next) (hNew : s.owned? id b.name = none) :
    (next.remove id b.name).1 = some b ∧ (next.remove id b.name).2.size = s.size ∧
      ∀ scope, Option.Rel Table.Agrees ((next.remove id b.name).2.table? scope) (s.table? scope) := by
  have hGiven := (hSound.touches_declare hDeclare).2
  obtain ⟨t, hTable, rfl⟩ := declare_cases hDeclare
  refine ⟨by rw [fst_remove, hGiven], by rw [snd_remove, size_modify, size_modify], ?_⟩
  intro scope
  rw [snd_remove, modify_modify, table?_modify]
  split
  · rename_i hHere
    subst hHere
    rw [owned?, hTable] at hNew
    rw [hTable]
    exact .some ((hSound.indexed scope t hTable).agrees_erase_insert hNew)
  · cases s.table? scope with
    | none => exact .none
    | some u => exact .some ⟨rfl, rfl, fun _ => rfl⟩

end Changes

/-- **A change is seen exactly where no nearer scope hides it.**  Take any store that requests lead
to, and any scope in it.

A binding with a name can be declared in the scope if the scope is known.  After that, a lookup of
its name from anywhere finds it if the lookup comes to the scope, and all other lookups find what
they found before.

Taking a name away gives back the binding that the scope itself had for it, if any.  After that, if
there was one, a lookup of the name that comes to the scope finds the binding of the nearest scope
beyond that declares the name, or none; and all other lookups find what they found before.

If the scope did not declare a name, declaring it and taking it away restores every table. -/
theorem changes_reach_unshadowed (requests : List Request) (id : ScopeId) :
    let s := after requests
    (∀ b : Binding, ((∃ next, s.declare id b = .ok next) ↔ id.index < s.size ∧ b.name ≠ "") ∧
      ∀ next, s.declare id b = .ok next →
        (∀ start beyond, s.ComesTo start b.name id beyond →
          next.lookup? start b.name = some b) ∧
        ∀ start name, ¬(name = b.name ∧ ∃ beyond, s.ComesTo start name id beyond) →
          next.lookup? start name = s.lookup? start name) ∧
    (∀ name, (s.remove id name).1 = s.owned? id name ∧
      (s.owned? id name ≠ none → ∀ start beyond, s.ComesTo start name id beyond →
        (s.remove id name).2.lookup? start name = beyond.findSome? (s.owned? · name)) ∧
      ∀ start other, ¬(other = name ∧ s.owned? id name ≠ none ∧
          ∃ beyond, s.ComesTo start other id beyond) →
        (s.remove id name).2.lookup? start other = s.lookup? start other) ∧
    ∀ b next, s.declare id b = .ok next → s.owned? id b.name = none →
      (next.remove id b.name).1 = some b ∧ (next.remove id b.name).2.size = s.size ∧
        ∀ scope, Option.Rel Table.Agrees ((next.remove id b.name).2.table? scope)
          (s.table? scope) := by
  intro s
  have hSound : s.Sound := sound_after requests
  refine ⟨fun b => ⟨s.exists_declare_iff id b, fun next hDeclare => ?_⟩, fun name => ?_,
    fun b next hDeclare hNew => hSound.agrees_remove_declare hDeclare hNew⟩
  · obtain ⟨hTouches, hGiven⟩ := hSound.touches_declare hDeclare
    refine ⟨fun start beyond hComes => ?_, fun start name hNot => ?_⟩
    · rw [hTouches.lookup?_of_comesTo hSound hComes, hGiven, Option.some_or]
    · exact hTouches.lookup?_of_not_comesTo hSound hNot
  · obtain ⟨hTouches, hGone⟩ := hSound.touches_remove id name
    refine ⟨s.fst_remove id name, fun _ start beyond hComes => ?_, fun start other hNot => ?_⟩
    · rw [hTouches.lookup?_of_comesTo hSound hComes, hGone, Option.none_or]
    · by_cases hOwned : s.owned? id name = none
      · exact hTouches.lookup?_of_owned?_eq (hGone.trans hOwned.symm) start other
      · exact hTouches.lookup?_of_not_comesTo hSound fun ⟨hName, hComes⟩ =>
          hNot ⟨hName, hOwned, hComes⟩

end Store

end LateBinding.Scope
