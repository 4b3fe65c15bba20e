import LateBinding.Proofs.Scope.Change
import LateBinding.Proofs.Scope.Ordered

/-!
# The indexed store is the plain one

Whatever is asked of an indexed store and a plain one, both give the same replies, and afterwards
they show the same.  The relation between them says that the indexed store is sound and that each
scope has the same scope around it and the same bindings in the same order; every operation keeps
it, and every question can be answered from it.

* `Store.Mirrors` - an indexed store shows what a plain one does.
* `Mirrors.answer_eq` - then both answer every question alike.
* `Mirrors.perform` - and every request keeps them alike; `Mirrors.run` for requests in a row.
* `Store.run_empty_refines` - from the store without scopes, any requests lead to stores that are
  alike, with an exact index and refusals that change nothing.
-/

namespace LateBinding.Scope

/-- What a table shows: the scope around it and its bindings in order. -/
def Table.content (t : Table) : Option ScopeId × List Binding :=
  (t.parent, t.bindings.toList)

/-- What a plain table shows. -/
def Ordered.Table.content (t : Ordered.Table) : Option ScopeId × List Binding :=
  (t.parent, t.bindings.list)

namespace Store

/-- An indexed store shows what a plain one does: it is sound, and scope by scope both have the
same scope around it and the same bindings in order. -/
structure Mirrors (s : Store) (p : Ordered.Store) : Prop where
  sound : s.Sound
  content : ∀ id, (s.table? id).map Table.content = (p.table? id).map Ordered.Table.content

/-- The stores without scopes are alike. -/
theorem mirrors_empty : Mirrors empty Ordered.Store.empty where
  sound := sound_empty
  content id := by simp [table?, empty, Ordered.Store.table?, Ordered.Store.empty]

namespace Mirrors

section Questions

variable {s : Store} {p : Ordered.Store} (hMirrors : s.Mirrors p)

include hMirrors

/-- A scope is unknown to both stores, or both show the same for it. -/
theorem table?_cases (id : ScopeId) :
    (s.table? id = none ∧ p.table? id = none) ∨
      ∃ t u, s.table? id = some t ∧ p.table? id = some u ∧ t.parent = u.parent ∧
        t.bindings.toList = u.bindings.list := by
  have hContent := hMirrors.content id
  cases hTable : s.table? id with
  | none =>
      rw [hTable, Option.map_none] at hContent
      exact Or.inl ⟨rfl, Option.map_eq_none_iff.mp hContent.symm⟩
  | some t =>
      rw [hTable, Option.map_some] at hContent
      obtain ⟨u, hPlain, hSame⟩ := Option.map_eq_some_iff.mp hContent.symm
      obtain ⟨hParent, hBindings⟩ := Prod.mk.inj hSame
      exact Or.inr ⟨t, u, rfl, hPlain, hParent.symm, hBindings.symm⟩

/-- Both stores know the same scopes. -/
theorem knows_iff (id : ScopeId) : p.Knows id ↔ id.index < s.size := by
  rw [Ordered.Store.knows_iff]
  rcases hMirrors.table?_cases id with ⟨hTable, hPlain⟩ | ⟨t, u, hTable, hPlain, -⟩
  · have hLe := (table?_eq_none_iff s id).mp hTable
    rw [hPlain]
    simpa using hLe
  · have hLt := lt_size_of_table? hTable
    rw [hPlain]
    simpa using hLt

/-- Both stores have the same number of scopes. -/
theorem size_eq : s.size = p.tables.length := by
  have hSame : ∀ i, i < p.tables.length ↔ i < s.size := fun i => hMirrors.knows_iff ⟨i⟩
  have hUp := hSame s.size
  have hDown := hSame p.tables.length
  omega

theorem next_eq : (⟨s.size⟩ : ScopeId) = p.next := by
  rw [hMirrors.size_eq]
  rfl

theorem parent?_eq (id : ScopeId) : s.parent? id = p.parent? id := by
  unfold parent? Ordered.Store.parent?
  rcases hMirrors.table?_cases id with ⟨hTable, hPlain⟩ | ⟨t, u, hTable, hPlain, hParent, -⟩
  · rw [hTable, hPlain]
    rfl
  · rw [hTable, hPlain]
    exact hParent

theorem owned_eq (id : ScopeId) : s.owned id = (p.bindings id).list := by
  unfold owned Ordered.Store.bindings
  rcases hMirrors.table?_cases id with ⟨hTable, hPlain⟩ | ⟨t, u, hTable, hPlain, -, hBindings⟩
  · rw [hTable, hPlain]
    rfl
  · rw [hTable, hPlain]
    exact hBindings

theorem owned?_eq (id : ScopeId) (name : String) : s.owned? id name = p.owned? id name := by
  rw [hMirrors.sound.owned?_eq_find?, hMirrors.owned_eq]
  rfl

/-- What taking a name away gives back is what the plain store finds. -/
theorem fst_erase_eq {id : ScopeId} {t : Table} (hTable : s.table? id = some t) (name : String) :
    (t.erase name).1 = p.owned? id name := by
  rw [t.fst_erase, ← hMirrors.owned?_eq, owned?, hTable]
  rfl

/-- Both stores search the same scopes. -/
theorem chain_eq (id : ScopeId) : s.chain id = p.chain id := by
  by_cases hKnown : id.index < s.size
  · refine hMirrors.sound.climb_induction (motive := fun id => s.chain id = p.chain id) ?_ hKnown
    intro id hKnown ih
    obtain ⟨hTable, -⟩ | ⟨t, u, hTable, hPlain, hParent, -⟩ := hMirrors.table?_cases id
    · have := (table?_eq_none_iff s id).mp hTable
      omega
    have hOuter : s.parent? id = u.parent := by
      rw [parent?, hTable, ← hParent]
      rfl
    rw [hMirrors.sound.chain_eq_cons hKnown, p.chain_eq, hPlain]
    simp only [around, hOuter, List.cons.injEq, true_and]
    cases hSome : u.parent with
    | none => rfl
    | some outer =>
        have hLt := hMirrors.sound.parent?_lt (hOuter.trans hSome)
        exact ih outer (hOuter.trans hSome) (by omega)
  · rcases hMirrors.table?_cases id with ⟨hTable, hPlain⟩ | ⟨t, u, hTable, -⟩
    · rw [chain, climb, hTable, p.chain_eq, hPlain]
    · exact absurd (lt_size_of_table? hTable) hKnown

theorem lookup?_eq (id : ScopeId) (name : String) : s.lookup? id name = p.lookup? id name := by
  unfold lookup? Ordered.Store.lookup?
  rw [hMirrors.chain_eq]
  congr 1
  funext scope
  exact hMirrors.owned?_eq scope name

theorem owner?_eq (id : ScopeId) (name : String) : s.owner? id name = p.owner? id name := by
  unfold owner? Ordered.Store.owner?
  rw [hMirrors.chain_eq]
  congr 1
  funext scope
  rw [hMirrors.owned?_eq]

/-- Both stores show the same names in the same order. -/
theorem map_name_visible_eq (id : ScopeId) :
    (s.visible id).map Binding.name = p.visibleNames id := by
  have hOwned : s.owned = fun scope => (p.bindings scope).list := funext hMirrors.owned_eq
  unfold visible Ordered.Store.visibleNames
  rw [map_name_foldl_overlay_nil, hMirrors.chain_eq, hOwned, List.map_flatMap]

/-- Both stores show the same bindings: for each visible name, overlaying leaves what a lookup
finds. -/
theorem visible_eq (id : ScopeId) : s.visible id = (p.visible id).list := by
  have hFind : ∀ name, p.lookup? id name = (s.visible id).find? (·.name = name) := by
    intro name
    rw [← hMirrors.lookup?_eq, hMirrors.sound.find?_visible]
  show _ = (p.visibleNames id).filterMap (p.lookup? id)
  rw [← hMirrors.map_name_visible_eq, funext hFind]
  exact (filterMap_find?_names (nodup_visible s id)).symm

/-- Both stores answer every question alike. -/
theorem answer_eq (q : Query) : s.answer q = p.answer q := by
  cases q with
  | lookup id name => exact congrArg Answer.binding (hMirrors.lookup?_eq id name)
  | owner id name => exact congrArg Answer.scope (hMirrors.owner?_eq id name)
  | owned id => exact congrArg Answer.bindings (hMirrors.owned_eq id)
  | visible id => exact congrArg Answer.bindings (hMirrors.visible_eq id)
  | parent id => exact congrArg Answer.scope (hMirrors.parent?_eq id)

/-- Both stores would take the same snapshots. -/
theorem snapshotBindings_eq (id : ScopeId) (keepsSlots : Bool) :
    s.snapshotBindings id keepsSlots = (p.snapshot id keepsSlots).list := by
  unfold snapshotBindings Ordered.Store.snapshot
  rw [hMirrors.visible_eq]
  cases keepsSlots <;> rfl

end Questions

end Mirrors

/-! ### Adding and changing a scope -/

theorem Mirrors.push {s : Store} {p : Ordered.Store} (hMirrors : s.Mirrors p) {t : Table}
    {u : Ordered.Table} (hIndexed : t.Indexed) (hContent : t.content = u.content)
    (hParent : ∀ outer, u.parent = some outer → p.Knows outer) :
    (s.push t).2.Mirrors (p.push u hParent) where
  sound := by
    apply sound_push hMirrors.sound hIndexed
    intro outer hOuter
    have hSame : t.parent = u.parent := (Prod.mk.inj hContent).1
    exact (hMirrors.knows_iff outer).mp (hParent outer (hSame ▸ hOuter))
  content id := by
    rw [table?_push, Ordered.Store.table?_push, hMirrors.size_eq]
    split
    · exact congrArg some hContent
    · exact hMirrors.content id

theorem Mirrors.modify {s : Store} {p : Ordered.Store} (hMirrors : s.Mirrors p) (id : ScopeId)
    {change : Table → Table} {plain : Ordered.Bindings → Ordered.Bindings}
    (hIndexed : ∀ t, t.Indexed → (change t).Indexed)
    (hParent : ∀ t, (change t).parent = t.parent)
    (hBindings : ∀ t own, t.Indexed → t.bindings.toList = own.list →
      (change t).bindings.toList = (plain own).list) :
    (s.modify id change).Mirrors (p.modify id plain) where
  sound := sound_modify hMirrors.sound hIndexed hParent
  content other := by
    rw [table?_modify, Ordered.Store.table?_modify]
    rcases hMirrors.table?_cases other with ⟨hTable, hPlain⟩ | ⟨t, u, hTable, hPlain, hOuter, hOwn⟩
    · rw [hTable, hPlain]
      split <;> rfl
    · rw [hTable, hPlain]
      split
      · have hOwn' := hBindings t u.bindings (hMirrors.sound.indexed other t hTable) hOwn
        simp only [Option.map_some, Table.content, Ordered.Table.content, hParent, hOuter, hOwn']
      · simp only [Option.map_some, Table.content, Ordered.Table.content, hOuter, hOwn]

theorem modify_of_unknown {s : Store} {id : ScopeId} (hUnknown : s.table? id = none)
    (change : Table → Table) : s.modify id change = s := by
  have hBound : s.tables.toList.length ≤ id.index := (table?_eq_none_iff s id).mp hUnknown
  have hSame : s.tables.modify id.index change = s.tables := by
    apply Array.toList_inj.mp
    rw [Array.toList_modify, List.modify_eq_self hBound]
  rw [modify, hSame]

theorem modify_id (s : Store) (id : ScopeId) : s.modify id (fun t => t) = s := by
  have hSame : s.tables.modify id.index (fun t => t) = s.tables := by
    apply Array.toList_inj.mp
    rw [Array.toList_modify]
    exact List.modify_id _ _
  rw [modify, hSame]

theorem modify_modify (s : Store) (id : ScopeId) (first second : Table → Table) :
    (s.modify id first).modify id second = s.modify id fun t => second (first t) := by
  have hSame : (s.tables.modify id.index first).modify id.index second =
      s.tables.modify id.index fun t => second (first t) := by
    apply Array.toList_inj.mp
    rw [Array.toList_modify, Array.toList_modify, Array.toList_modify, List.modify_modify_eq]
    rfl
  simp only [modify, hSame]

/-- In a known scope, the bindings before the first without a name are declared. -/
theorem declareAll_of_known {s : Store} {id : ScopeId} {t : Table} (hTable : s.table? id = some t)
    (bs : List Binding) :
    s.declareAll id bs =
      (if bs.all (·.name ≠ "") then none else some .namelessBinding,
        s.modify id fun t => (bs.takeWhile (·.name ≠ "")).foldl Table.insert t) := by
  induction bs generalizing s t with
  | nil =>
      simp only [declareAll, hTable]
      exact congrArg (Prod.mk none) (s.modify_id id).symm
  | cons b rest ih =>
      by_cases hName : b.name = ""
      · simp only [declareAll, declare, hTable, hName]
        simpa [hName] using (s.modify_id id).symm
      · have hNext : (s.modify id (·.insert b)).table? id = some (t.insert b) := by
          rw [table?_modify, if_pos rfl, hTable]
          rfl
        simp only [declareAll, declare, hTable, if_neg hName]
        rw [ih hNext, modify_modify]
        simp [hName]

/-- A request about an unknown scope changes nothing. -/
theorem perform_of_unknown {s : Store} {id : ScopeId} (hUnknown : s.table? id = none) {r : Request}
    (hScope : r.scope? = some id) : s.perform r = (r.unknownReply id, s) := by
  have hOwned : ∀ name, s.owned? id name = none := by
    intro name
    rw [owned?, hUnknown]
    rfl
  cases r with
  | openRoot => cases hScope
  | openInside outer =>
      cases hScope
      simp only [perform, openInside, hUnknown, Request.unknownReply]
  | declareAll scope bs =>
      cases hScope
      cases bs <;> simp [perform, declareAll, declare, hUnknown, Request.unknownReply]
  | remove scope name =>
      cases hScope
      simp only [perform, remove, hUnknown, Request.unknownReply]
  | removeKnown scope name =>
      cases hScope
      simp only [perform, removeKnown, hUnknown, Request.unknownReply]
  | setSlot scope name slot =>
      cases hScope
      simp only [perform, setSlot, modify_of_unknown hUnknown, hOwned, Request.unknownReply]
  | setCaptured scope name captured =>
      cases hScope
      simp only [perform, setCaptured, modify_of_unknown hUnknown, hOwned, Request.unknownReply]
  | snapshot scope keepsSlots =>
      cases hScope
      simp only [perform, snapshot, hUnknown, Request.unknownReply]

/-! ### Requests -/

namespace Mirrors

section Requests

variable {s : Store} {p : Ordered.Store} (hMirrors : s.Mirrors p)

include hMirrors

/-- Declaring bindings one by one keeps the stores alike. -/
theorem modify_putAll (id : ScopeId) (bs : List Binding) (hNamed : ∀ b ∈ bs, b.name ≠ "") :
    (s.modify id fun t => bs.foldl Table.insert t).Mirrors
      (p.modify id fun own => own.putAll bs hNamed) := by
  apply hMirrors.modify
  · exact fun t hIndexed => (indexed_foldl_insert hIndexed bs).1
  · exact fun t => t.parent_foldl_insert bs
  · intro t own hIndexed hOwn
    rw [(indexed_foldl_insert hIndexed bs).2.1, hOwn]
    rfl

/-- Taking a name away keeps the stores alike. -/
theorem modify_remove (id : ScopeId) (name : String) :
    (s.modify id fun t => (t.erase name).2).Mirrors (p.modify id (·.remove name)) := by
  apply hMirrors.modify
  · exact fun t hIndexed => hIndexed.erase name
  · exact fun t => t.parent_erase name
  · intro t own hIndexed hOwn
    rw [hIndexed.bindings_erase, hOwn]
    rfl

/-- Changing the binding of a name keeps the stores alike. -/
theorem modify_update (id : ScopeId) (name : String) (change : Binding → Binding)
    (hKeeps : ∀ b, (change b).name = b.name) :
    (s.modify id (·.update name change)).Mirrors (p.modify id (·.update name change hKeeps)) := by
  apply hMirrors.modify
  · exact fun t hIndexed => hIndexed.update name hKeeps
  · exact fun t => t.parent_update name change
  · intro t own hIndexed hOwn
    rw [hIndexed.bindings_update, hOwn]
    ext1 i
    rw [List.getElem?_map]
    symm
    exact List.getElem?_mapIdx

/-- Taking a snapshot keeps the stores alike. -/
theorem push_snapshot (id : ScopeId) (keepsSlots : Bool) :
    (s.push ((s.snapshotBindings id keepsSlots).foldl Table.insert (Table.empty none))).2.Mirrors
      (p.push ⟨none, p.snapshot id keepsSlots⟩ nofun) := by
  obtain ⟨hIndexed, hBindings, hParent⟩ := indexed_snapshotBindings s id keepsSlots
  apply hMirrors.push hIndexed
  refine Prod.ext hParent ?_
  exact hBindings.trans (hMirrors.snapshotBindings_eq id keepsSlots)

/-- A request about known scopes is answered alike and keeps the stores alike. -/
theorem perform_of_known {r : Request}
    (hKnown : ∀ id, r.scope? = some id → ∃ t, s.table? id = some t) :
    (s.perform r).1 = (p.perform r).1 ∧ (s.perform r).2.Mirrors (p.perform r).2 := by
  have hPlain : ∀ id, r.scope? = some id → p.Knows id := by
    intro id hScope
    obtain ⟨t, hTable⟩ := hKnown id hScope
    exact (hMirrors.knows_iff id).mpr (lt_size_of_table? hTable)
  cases r with
  | openRoot =>
      constructor
      · exact congrArg Reply.opened hMirrors.next_eq
      · exact hMirrors.push (Table.indexed_empty none) rfl (by simp)
  | openInside id =>
      obtain ⟨t, hTable⟩ := hKnown id rfl
      simp only [Store.perform, openInside, hTable, Ordered.Store.perform, dif_pos (hPlain id rfl)]
      constructor
      · exact congrArg Reply.opened hMirrors.next_eq
      · exact hMirrors.push (Table.indexed_empty (some id)) rfl _
  | declareAll id bs =>
      obtain ⟨t, hTable⟩ := hKnown id rfl
      simp only [Store.perform, declareAll_of_known hTable, Ordered.Store.perform,
        if_pos (hPlain id rfl)]
      have hDeclared := hMirrors.modify_putAll id (bs.takeWhile (·.name ≠ "")) fun _ hMem => by
        simpa using List.mem_takeWhile_imp hMem
      cases bs.all (·.name ≠ "") with
      | true => exact ⟨rfl, hDeclared⟩
      | false => exact ⟨rfl, hDeclared⟩
  | remove id name =>
      obtain ⟨t, hTable⟩ := hKnown id rfl
      have hFound := hMirrors.fst_erase_eq hTable name
      simp only [Store.perform, Store.remove, hTable, Ordered.Store.perform, hFound]
      exact ⟨trivial, hMirrors.modify_remove id name⟩
  | removeKnown id name =>
      obtain ⟨t, hTable⟩ := hKnown id rfl
      have hFound := hMirrors.fst_erase_eq hTable name
      simp only [Store.perform, Store.removeKnown, Store.remove, hTable, Ordered.Store.perform,
        hFound, if_pos (hPlain id rfl)]
      exact ⟨trivial, hMirrors.modify_remove id name⟩
  | setSlot id name slot =>
      constructor
      · exact congrArg Reply.binding (hMirrors.owned?_eq id name)
      · exact hMirrors.modify_update id name (fun b => { b with slot := some slot }) fun _ => rfl
  | setCaptured id name captured =>
      constructor
      · exact congrArg Reply.binding (hMirrors.owned?_eq id name)
      · exact hMirrors.modify_update id name (fun b => { b with captured := captured })
          fun _ => rfl
  | snapshot id keepsSlots =>
      obtain ⟨t, hTable⟩ := hKnown id rfl
      simp only [Store.perform, Store.snapshot, hTable, Ordered.Store.perform,
        if_pos (hPlain id rfl)]
      constructor
      · exact congrArg Reply.opened hMirrors.next_eq
      · exact hMirrors.push_snapshot id keepsSlots

/-- Every request is answered alike and keeps the stores alike. -/
theorem perform (r : Request) :
    (s.perform r).1 = (p.perform r).1 ∧ (s.perform r).2.Mirrors (p.perform r).2 := by
  by_cases hUnknown : ∃ id, r.scope? = some id ∧ s.table? id = none
  · obtain ⟨id, hScope, hTable⟩ := hUnknown
    have hPlain : ¬ p.Knows id := by
      rw [hMirrors.knows_iff]
      exact Nat.not_lt.mpr ((table?_eq_none_iff s id).mp hTable)
    rw [Store.perform_of_unknown hTable hScope, Ordered.Store.perform_of_unknown hPlain hScope]
    exact ⟨rfl, hMirrors⟩
  · apply hMirrors.perform_of_known
    intro id hScope
    exact Option.ne_none_iff_exists'.mp fun hTable => hUnknown ⟨id, hScope, hTable⟩

end Requests

/-- Requests in a row are answered alike and keep the stores alike. -/
theorem run {s : Store} {p : Ordered.Store} (hMirrors : s.Mirrors p) (requests : List Request) :
    (s.run requests).1 = (p.run requests).1 ∧ (s.run requests).2.Mirrors (p.run requests).2 := by
  induction requests generalizing s p with
  | nil => exact ⟨rfl, hMirrors⟩
  | cons r rest ih =>
      obtain ⟨hReply, hNext⟩ := hMirrors.perform r
      obtain ⟨hReplies, hLast⟩ := ih hNext
      refine ⟨?_, hLast⟩
      simp only [Store.run, Ordered.Store.run, hReply, hReplies]

/-- Every binding of a store that mirrors a plain one has a name. -/
theorem empty_not_mem_names {s : Store} {p : Ordered.Store} (hMirrors : s.Mirrors p) {id : ScopeId}
    {t : Table} (hTable : s.table? id = some t) : "" ∉ t.names := by
  intro hMem
  obtain ⟨b, hB, hName⟩ := List.mem_map.mp hMem
  rw [← owned_eq_of_table? hTable, hMirrors.owned_eq] at hB
  exact (p.bindings id).named b hB hName

end Mirrors

/-- A binding without a name is refused.  What was declared before it in the same request stays, and
nothing else changes. -/
theorem perform_declareAll_nameless {s : Store} {id : ScopeId} {t : Table}
    (hTable : s.table? id = some t) {bs rest : List Binding} {b : Binding}
    (hNamed : ∀ a ∈ bs, a.name ≠ "") (hNameless : b.name = "") :
    s.perform (.declareAll id (bs ++ b :: rest)) =
      (.refused .namelessBinding, (s.perform (.declareAll id bs)).2) := by
  have hAll : bs.all (·.name ≠ "") = true := by simpa using hNamed
  have hTake : bs.takeWhile (·.name ≠ "") = bs :=
    List.takeWhile_eq_self_iff.mpr (by simpa using hNamed)
  have hTakeMore : (bs ++ b :: rest).takeWhile (·.name ≠ "") = bs := by
    rw [List.takeWhile_append_of_pos (by simpa using hNamed)]
    simp [hNameless]
  have hNotAll : (bs ++ b :: rest).all (·.name ≠ "") = false := by simp [hNameless]
  simp only [perform, declareAll_of_known hTable, hAll, hNotAll, hTake, hTakeMore]
  rfl

/-- From the store without scopes, requests lead an indexed store and a plain one to the same
replies and the same contents.  Then they answer every question alike and search the same chains of
scopes, each older than the one before; the index of every table maps each name to its position and
nothing else, names are distinct and not empty, and the scope around a scope has a smaller number.
A request about an unknown scope changes nothing, and neither does a binding without a name. -/
theorem run_empty_refines (requests : List Request) :
    ∃ (replies : List Reply) (s : Store) (p : Ordered.Store), empty.run requests = (replies, s) ∧
      Ordered.Store.empty.run requests = (replies, p) ∧
      (∀ id, (s.table? id).map Table.content = (p.table? id).map Ordered.Table.content) ∧
      (∀ q, s.answer q = p.answer q) ∧
      (∀ id, s.chain id = p.chain id) ∧
      (∀ id, (s.chain id).Pairwise fun inner outer => outer.index < inner.index) ∧
      (∀ id t, s.table? id = some t →
        (∀ (name : String) (i : Nat), t.positions[name]? = some i ↔ t.names[i]? = some name) ∧
        t.names.Nodup ∧ "" ∉ t.names ∧
        ∀ outer, t.parent = some outer → outer.index < id.index) ∧
      (∀ r id, r.scope? = some id → s.table? id = none → s.perform r = (r.unknownReply id, s)) ∧
      ∀ id t bs b rest, s.table? id = some t → (∀ a ∈ bs, a.name ≠ "") → b.name = "" →
        s.perform (.declareAll id (bs ++ b :: rest)) =
          (.refused .namelessBinding, (s.perform (.declareAll id bs)).2) := by
  obtain ⟨hReplies, hMirrors⟩ := mirrors_empty.run requests
  refine ⟨(empty.run requests).1, (empty.run requests).2, (Ordered.Store.empty.run requests).2, rfl,
    ?_, hMirrors.content, hMirrors.answer_eq, hMirrors.chain_eq, ?_, ?_, ?_, ?_⟩
  · rw [hReplies]
  · intro id
    rw [hMirrors.chain_eq]
    exact (Ordered.Store.pairwise_chain _ id).2
  · intro id t hTable
    have hIndexed := hMirrors.sound.indexed id t hTable
    exact ⟨hIndexed, hIndexed.names_nodup, hMirrors.empty_not_mem_names hTable,
      fun outer hOuter => hMirrors.sound.parent_lt id t outer hTable hOuter⟩
  · exact fun r id hScope hTable => perform_of_unknown hTable hScope
  · exact fun id t bs b rest hTable hNamed hNameless =>
      perform_declareAll_nameless hTable hNamed hNameless

end Store

end LateBinding.Scope
