import Mathlib.Data.List.Induction
import Mathlib.Data.List.InsertIdx
import Mathlib.Data.List.Nodup
import LateBinding.Proofs.Keyed
import LateBinding.Proofs.Occurrence
import LateBinding.Scope.Store

/-!
# Tables as ordered lists of bindings

A table keeps its bindings in order, with an index from names to positions beside them.  The index
is there for speed only: while it is in step with the bindings, a table is a list of bindings with
distinct names, and the operations on it are those of `Store.overlay` and of the list library.

* `Table.Indexed` - the index is in step with the bindings.
* `names_nodup`, `find?_eq` - then names are distinct, and looking a name up finds its only binding.
* `bindings_insert`, `bindings_update`, `bindings_updateAll` - what the operations do to the list,
  and `Indexed.insert`, `Indexed.update`, `Indexed.updateAll` - that they keep the index in step.
* `bindings_erase`, `Indexed.erase` - the same for taking a binding away.
* `overlay_eq_append`, `find?_overlay`, `foldl_overlay_overlay`, `map_name_foldl_overlay_nil` - the
  algebra of `overlay`.
-/

namespace LateBinding.Scope

namespace Store

/-! ### Overlaying bindings -/

/-- A binding of a new name goes to the end. -/
theorem overlay_eq_append {bs : List Binding} {b : Binding} (hNew : ∀ a ∈ bs, a.name ≠ b.name) :
    overlay bs b = bs ++ [b] := by
  induction bs with
  | nil => rfl
  | cons a rest ih =>
      have hHead : a.name ≠ b.name := hNew a List.mem_cons_self
      have hRest := ih fun x hx => hNew x (List.mem_cons_of_mem a hx)
      simp [overlay, hHead, hRest]

/-- A binding of a known name goes to the place of that name. -/
theorem overlay_eq_set {bs : List Binding} {b a : Binding} {i : Nat} (hGet : bs[i]? = some a)
    (hName : a.name = b.name) (hNodup : (bs.map Binding.name).Nodup) :
    overlay bs b = bs.set i b := by
  induction bs generalizing i with
  | nil => simp at hGet
  | cons x rest ih =>
      rw [List.map_cons, List.nodup_cons] at hNodup
      cases i with
      | zero =>
          obtain rfl : x = a := by simpa using hGet
          simp [overlay, hName]
      | succ i =>
          have hRest : rest[i]? = some a := by simpa using hGet
          have hMem : a.name ∈ rest.map Binding.name :=
            List.mem_map_of_mem (List.mem_of_getElem? hRest)
          have hHead : x.name ≠ b.name := by
            intro hSame
            exact hNodup.1 (by rw [hSame, ← hName]; exact hMem)
          simp [overlay, hHead, ih hRest hNodup.2]

/-- Bindings are overlaid by their names. -/
theorem overlay_eq_keyed : overlay = Keyed.overlay fun b : Binding => some b.name := by
  funext bs b
  induction bs with
  | nil => rfl
  | cons a rest ih => simp [overlay, Keyed.overlay, ih]

/-- Overlaying adds one binding only. -/
theorem mem_overlay {bs : List Binding} {a b : Binding} (hMem : a ∈ overlay bs b) :
    a ∈ bs ∨ a = b := by
  rw [overlay_eq_keyed] at hMem
  exact Keyed.mem_overlay hMem

/-- Overlaying bindings one by one adds these bindings only. -/
theorem mem_foldl_overlay {acc bs : List Binding} {a : Binding}
    (hMem : a ∈ bs.foldl overlay acc) : a ∈ acc ∨ a ∈ bs := by
  rw [overlay_eq_keyed] at hMem
  exact Keyed.mem_foldl_overlay hMem

/-- Overlaying keeps the names of a list and adds the new one at the end if it is not there. -/
theorem map_name_overlay (bs : List Binding) (b : Binding) :
    (overlay bs b).map Binding.name =
      if b.name ∈ bs.map Binding.name then bs.map Binding.name
      else bs.map Binding.name ++ [b.name] := by
  have hInjective : Function.Injective (some : String → Option String) := fun _ _ => Option.some.inj
  have hKeys := Keyed.map_key_overlay (fun a : Binding => some a.name) bs b
  have hMem : (some b.name).isSome = true ∧ some b.name ∈ bs.map (fun a => some a.name) ↔
      b.name ∈ bs.map Binding.name := by simp
  rw [← overlay_eq_keyed, if_congr hMem rfl rfl] at hKeys
  apply List.map_injective_iff.mpr hInjective
  rw [apply_ite (List.map some), List.map_append, List.map_map, List.map_map]
  exact hKeys

/-- Overlaying keeps names distinct. -/
theorem nodup_overlay {bs : List Binding} (b : Binding) (hNodup : (bs.map Binding.name).Nodup) :
    ((overlay bs b).map Binding.name).Nodup := by
  rw [map_name_overlay]
  split
  · exact hNodup
  · rename_i hNew
    exact List.Nodup.append hNodup (List.nodup_singleton _) (by simpa using hNew)

/-- Whatever is overlaid, the names of the result are distinct. -/
theorem nodup_foldl_overlay {acc : List Binding} (bs : List Binding)
    (hNodup : (acc.map Binding.name).Nodup) :
    ((bs.foldl overlay acc).map Binding.name).Nodup := by
  induction bs generalizing acc with
  | nil => exact hNodup
  | cons b rest ih => exact ih (nodup_overlay b hNodup)

/-- After overlaying a binding, its name has this binding and any other name the one it had. -/
theorem find?_overlay (bs : List Binding) (b : Binding) (name : String) :
    (overlay bs b).find? (·.name = name) =
      if b.name = name then some b else bs.find? (·.name = name) := by
  have hFound := Keyed.find?_overlay (fun a : Binding => some a.name) bs b name
  rw [← overlay_eq_keyed] at hFound
  simpa using hFound

/-- Two bindings of different names may be overlaid in either order, if one name is known. -/
theorem overlay_comm_of_mem {acc : List Binding} {a b : Binding} (hNe : a.name ≠ b.name)
    (hMem : b.name ∈ acc.map Binding.name) :
    overlay (overlay acc a) b = overlay (overlay acc b) a := by
  induction acc with
  | nil => simp at hMem
  | cons x rest ih =>
      by_cases hA : x.name = a.name
      · have hB : x.name ≠ b.name := fun h => hNe (hA.symm.trans h)
        simp [overlay, hA, hNe]
      · by_cases hB : x.name = b.name
        · simp [overlay, hB, hNe.symm]
        · have hRest : b.name ∈ rest.map Binding.name := by
            rcases List.mem_cons.mp hMem with h | h
            · exact absurd h.symm hB
            · exact h
          simp [overlay, hA, hB, ih hRest]

/-- Overlaying one name twice leaves the second binding. -/
theorem overlay_overlay_self {acc : List Binding} {a b : Binding} (hName : a.name = b.name) :
    overlay (overlay acc a) b = overlay acc b := by
  induction acc with
  | nil => simp [overlay, hName]
  | cons x rest ih =>
      by_cases hA : x.name = b.name
      · simp [overlay, hA, hName]
      · simp [overlay, hA, hName, ih]

/-- A binding of a known name may be overlaid after bindings of other names instead of before. -/
theorem foldl_overlay_of_mem {acc bs : List Binding} {b : Binding}
    (hMem : b.name ∈ acc.map Binding.name) (hNew : b.name ∉ bs.map Binding.name) :
    bs.foldl overlay (overlay acc b) = overlay (bs.foldl overlay acc) b := by
  induction bs generalizing acc with
  | nil => rfl
  | cons a rest ih =>
      rw [List.map_cons, List.mem_cons, not_or] at hNew
      have hSwap : overlay (overlay acc b) a = overlay (overlay acc a) b :=
        (overlay_comm_of_mem (Ne.symm hNew.1) hMem).symm
      have hMem' : b.name ∈ (overlay acc a).map Binding.name := by
        rw [map_name_overlay]
        split
        · exact hMem
        · exact List.mem_append_left _ hMem
      rw [List.foldl_cons, List.foldl_cons, hSwap]
      exact ih hMem' hNew.2

/-- Overlaying a list into which a binding was overlaid is overlaying the list and then the
binding. -/
theorem foldl_overlay_overlay (acc : List Binding) {bs : List Binding} (b : Binding)
    (hNodup : (bs.map Binding.name).Nodup) :
    (overlay bs b).foldl overlay acc = overlay (bs.foldl overlay acc) b := by
  induction bs generalizing acc with
  | nil => rfl
  | cons a rest ih =>
      rw [List.map_cons, List.nodup_cons] at hNodup
      by_cases hSame : a.name = b.name
      · -- `b` stands in the place of `a` and is carried past what follows
        have hMem : b.name ∈ (overlay acc a).map Binding.name := by
          rw [map_name_overlay, hSame]
          split
          · assumption
          · simp
        have hNew : b.name ∉ rest.map Binding.name := hSame ▸ hNodup.1
        simp only [overlay, if_pos hSame, List.foldl_cons]
        rw [← foldl_overlay_of_mem hMem hNew, overlay_overlay_self hSame]
      · simp only [overlay, if_neg hSame, List.foldl_cons]
        exact ih _ hNodup.2

/-- Overlaying bindings with distinct names onto nothing gives them back. -/
theorem foldl_overlay_nil {bs : List Binding} (hNodup : (bs.map Binding.name).Nodup) :
    bs.foldl overlay [] = bs := by
  induction bs using List.reverseRec with
  | nil => rfl
  | append_singleton rest b ih =>
      rw [List.map_append, List.nodup_append'] at hNodup
      obtain ⟨hRest, -, hDisjoint⟩ := hNodup
      rw [List.foldl_append, ih hRest, List.foldl_cons, List.foldl_nil]
      apply overlay_eq_append
      intro a hMem hName
      exact hDisjoint (List.mem_map_of_mem hMem) (by simp [hName])

/-- The names of overlaid bindings stand where they occur first. -/
theorem map_name_foldl_overlay_nil (bs : List Binding) :
    (bs.foldl overlay []).map Binding.name = (bs.map Binding.name).eraseDups := by
  induction bs using List.reverseRec with
  | nil => rfl
  | append_singleton rest b ih =>
      rw [List.foldl_append, List.foldl_cons, List.foldl_nil, map_name_overlay, ih,
        List.map_append, List.map_singleton, Occurrence.eraseDups_append_singleton]
      simp

/-- Something is found for a name if a binding has it. -/
theorem isSome_find?_iff {bs : List Binding} {name : String} :
    (bs.find? (·.name = name)).isSome = true ↔ name ∈ bs.map Binding.name := by
  rw [List.find?_isSome]
  simp

/-- Where names are distinct, what is found for a name is the binding of that name. -/
theorem find?_eq_some_iff_mem {bs : List Binding} (hNodup : (bs.map Binding.name).Nodup)
    {name : String} {b : Binding} :
    bs.find? (·.name = name) = some b ↔ b ∈ bs ∧ b.name = name :=
  Keyed.find?_eq_some_iff_mem hNodup

/-- Where names are distinct, the bindings are what is found for their names. -/
theorem filterMap_find?_names {bs : List Binding} (hNodup : (bs.map Binding.name).Nodup) :
    (bs.map Binding.name).filterMap (fun name => bs.find? (·.name = name)) = bs := by
  have hFound : ∀ b ∈ bs, bs.find? (·.name = b.name) = some b :=
    fun b hMem => (find?_eq_some_iff_mem hNodup).mpr ⟨hMem, rfl⟩
  rw [List.filterMap_map]
  exact (List.filterMap_congr hFound).trans List.filterMap_some

end Store

namespace Table

/-! ### The scope around a scope -/

@[simp] theorem parent_insert (t : Table) (b : Binding) : (t.insert b).parent = t.parent := by
  unfold insert
  split <;> rfl

@[simp] theorem parent_erase (t : Table) (name : String) :
    (t.erase name).2.parent = t.parent := by
  unfold erase
  split <;> rfl

@[simp] theorem parent_update (t : Table) (name : String) (change : Binding → Binding) :
    (t.update name change).parent = t.parent := by
  unfold update
  split <;> rfl

/-- Declaring bindings leaves a scope where it is. -/
theorem parent_foldl_insert (t : Table) (bs : List Binding) :
    (bs.foldl insert t).parent = t.parent := by
  induction bs generalizing t with
  | nil => rfl
  | cons b rest ih => rw [List.foldl_cons, ih, parent_insert]

/-! ### The index of a table -/

/-- The names of a table in the order of its bindings. -/
def names (t : Table) : List String :=
  t.bindings.toList.map Binding.name

/-- The index maps every name to the position of its binding, and nothing else to anything. -/
def Indexed (t : Table) : Prop :=
  ∀ (name : String) (i : Nat), t.positions[name]? = some i ↔ t.names[i]? = some name

/-- The index of a table without bindings is in step. -/
theorem indexed_empty (parent : Option ScopeId) : (empty parent).Indexed := by
  intro name i
  simp [empty, names]

/-- Every name has one binding in a table. -/
theorem Indexed.names_nodup {t : Table} (hIndexed : t.Indexed) : t.names.Nodup := by
  rw [List.nodup_iff_getElem?_ne_getElem?]
  intro i j hLt hBound hSame
  obtain ⟨name, hName⟩ : ∃ name, t.names[j]? = some name :=
    ⟨_, List.getElem?_eq_getElem hBound⟩
  have hI : t.positions[name]? = some i := (hIndexed name i).mpr (hSame.trans hName)
  have hJ : t.positions[name]? = some j := (hIndexed name j).mpr hName
  rw [hI] at hJ
  have : i = j := Option.some.inj hJ
  omega

/-- A name that the index does not know has no binding. -/
theorem Indexed.not_mem_names {t : Table} (hIndexed : t.Indexed) {name : String}
    (hUnknown : t.positions[name]? = none) : name ∉ t.names := by
  intro hMem
  obtain ⟨i, hGet⟩ := List.getElem?_of_mem hMem
  rw [(hIndexed name i).mpr hGet] at hUnknown
  cases hUnknown

/-- A position in the index is that of a binding of the name. -/
theorem Indexed.exists_getElem? {t : Table} (hIndexed : t.Indexed) {name : String} {i : Nat}
    (hPosition : t.positions[name]? = some i) :
    ∃ b, t.bindings.toList[i]? = some b ∧ b.name = name := by
  have hName := (hIndexed name i).mp hPosition
  rw [names, List.getElem?_map] at hName
  exact Option.map_eq_some_iff.mp hName

/-- Looking a name up finds its binding in the list. -/
theorem Indexed.find?_eq {t : Table} (hIndexed : t.Indexed) (name : String) :
    t.find? name = t.bindings.toList.find? (·.name = name) := by
  unfold find?
  cases hPosition : t.positions[name]? with
  | none =>
      have hUnknown := hIndexed.not_mem_names hPosition
      symm
      simp only [Option.bind_none, List.find?_eq_none, decide_eq_true_eq]
      intro b hMem hName
      exact hUnknown (List.mem_map.mpr ⟨b, hMem, hName⟩)
  | some i =>
      obtain ⟨b, hGet, hName⟩ := hIndexed.exists_getElem? hPosition
      have hFound : t.bindings.toList.find? (·.name = name) = some b := by
        rw [List.find?_eq_some_iff_getElem]
        obtain ⟨hBound, hAt⟩ := List.getElem?_eq_some_iff.mp hGet
        refine ⟨by simpa using hName, i, hBound, hAt, ?_⟩
        intro j hLt
        have hNodup := hIndexed.names_nodup
        rw [List.nodup_iff_getElem?_ne_getElem?] at hNodup
        have hNe := hNodup j i hLt (by simpa [names] using hBound)
        simp only [names, List.getElem?_map, hGet, Option.map_some, hName] at hNe
        rw [List.getElem?_eq_getElem (Nat.lt_trans hLt hBound)] at hNe
        simpa using hNe
      rw [hFound]
      simpa using hGet

/-- The index depends on the names of the bindings only. -/
theorem Indexed.of_names_eq {t other : Table} (hIndexed : t.Indexed)
    (hPositions : other.positions = t.positions) (hNames : other.names = t.names) :
    other.Indexed := by
  intro name i
  rw [hPositions, hNames]
  exact hIndexed name i

/-- Declaring a binding overlays it. -/
theorem Indexed.bindings_insert {t : Table} (hIndexed : t.Indexed) (b : Binding) :
    (t.insert b).bindings.toList = Store.overlay t.bindings.toList b := by
  unfold insert
  cases hPosition : t.positions[b.name]? with
  | none =>
      have hUnknown := hIndexed.not_mem_names hPosition
      rw [Store.overlay_eq_append]
      · simp
      · intro a hMem hName
        exact hUnknown (List.mem_map.mpr ⟨a, hMem, hName⟩)
  | some i =>
      obtain ⟨a, hGet, hName⟩ := hIndexed.exists_getElem? hPosition
      rw [Store.overlay_eq_set hGet hName hIndexed.names_nodup]
      simp

/-- Declaring a binding keeps the index in step. -/
theorem Indexed.insert {t : Table} (hIndexed : t.Indexed) (b : Binding) :
    (t.insert b).Indexed := by
  have hNames : (t.insert b).names =
      if b.name ∈ t.names then t.names else t.names ++ [b.name] := by
    rw [names, hIndexed.bindings_insert]
    exact Store.map_name_overlay _ b
  cases hPosition : t.positions[b.name]? with
  | some i =>
      have hMem : b.name ∈ t.names := List.mem_of_getElem? ((hIndexed b.name i).mp hPosition)
      refine hIndexed.of_names_eq ?_ (hNames.trans (if_pos hMem))
      simp [Table.insert, hPosition]
  | none =>
      have hUnknown := hIndexed.not_mem_names hPosition
      have hPositions : (t.insert b).positions = t.positions.insert b.name t.names.length := by
        simp [Table.insert, hPosition, names]
      intro name i
      rw [hPositions, hNames, if_neg hUnknown, Std.TreeMap.getElem?_insert]
      simp only [Std.compare_eq_iff_eq]
      by_cases hName : b.name = name
      · subst hName
        rw [if_pos rfl, List.getElem?_append]
        split
        · rename_i hLt
          constructor
          · intro h
            cases h
            omega
          · intro h
            exact absurd (List.mem_of_getElem? h) hUnknown
        · rename_i hLe
          constructor
          · intro h
            cases h
            simp
          · intro h
            have hBound := (List.getElem?_eq_some_iff.mp h).1
            simp only [List.length_singleton] at hBound
            have : i = t.names.length := by omega
            rw [this]
      · rw [if_neg hName, hIndexed name i, List.getElem?_append]
        split
        · rfl
        · rename_i hLe
          have hNone : t.names[i]? = none := List.getElem?_eq_none (by omega)
          rw [hNone]
          constructor
          · intro h
            cases h
          · intro h
            have hMem := List.mem_of_getElem? h
            exact absurd (List.mem_singleton.mp hMem).symm hName

/-- Changing the binding of a name maps the change over the bindings of that name. -/
theorem Indexed.bindings_update {t : Table} (hIndexed : t.Indexed) (name : String)
    (change : Binding → Binding) :
    (t.update name change).bindings.toList =
      t.bindings.toList.map fun b => if b.name = name then change b else b := by
  unfold update
  cases hPosition : t.positions[name]? with
  | none =>
      have hUnknown := hIndexed.not_mem_names hPosition
      have hSame : ∀ b ∈ t.bindings.toList, (if b.name = name then change b else b) = b := by
        intro b hMem
        exact if_neg fun hName => hUnknown (List.mem_map.mpr ⟨b, hMem, hName⟩)
      rw [List.map_congr_left hSame, List.map_id']
  | some i =>
      have hAt : ∀ (j : Nat) (b : Binding), t.bindings.toList[j]? = some b →
          (b.name = name ↔ i = j) := by
        intro j b hGet
        have hName : t.names[j]? = some b.name := by simp [names, List.getElem?_map, hGet]
        constructor
        · rintro rfl
          rw [(hIndexed b.name j).mpr hName] at hPosition
          exact (Option.some.inj hPosition).symm
        · rintro rfl
          have hI := (hIndexed name i).mp hPosition
          rw [hName] at hI
          exact Option.some.inj hI
      apply List.ext_getElem?
      intro j
      rw [List.getElem?_map]
      cases hGet : t.bindings.toList[j]? with
      | none =>
          have hBound : t.bindings.size ≤ j := by simpa using hGet
          simpa using hBound
      | some b =>
          have hGet' : t.bindings[j]? = some b := by simpa using hGet
          by_cases hSame : i = j
          · have hName := (hAt j b hGet).mpr hSame
            simp [hGet', hSame, hName]
          · have hName : b.name ≠ name := fun h => hSame ((hAt j b hGet).mp h)
            simp [hGet', hSame, hName]

/-- A change that keeps names keeps the index in step. -/
theorem Indexed.update {t : Table} (hIndexed : t.Indexed) (name : String)
    {change : Binding → Binding} (hKeeps : ∀ b, (change b).name = b.name) :
    (t.update name change).Indexed := by
  apply hIndexed.of_names_eq
  · unfold Table.update
    split <;> rfl
  · rw [names, hIndexed.bindings_update, names, List.map_map]
    apply List.map_congr_left
    intro b _
    simp only [Function.comp_apply]
    split
    · exact hKeeps b
    · rfl

/-- A change of all bindings that keeps names keeps the index in step. -/
theorem Indexed.updateAll {t : Table} (hIndexed : t.Indexed) {change : Binding → Binding}
    (hKeeps : ∀ b, (change b).name = b.name) : (t.updateAll change).Indexed := by
  refine hIndexed.of_names_eq (rfl : (t.updateAll change).positions = t.positions) ?_
  simp [names, Table.updateAll, Function.comp_def, hKeeps]

/-! ### Taking a binding away -/

/-- Where names are distinct, taking the binding at a position away leaves those of other names. -/
theorem eraseIdx_eq_filter {bs : List Binding} {b : Binding} {i : Nat}
    (hGet : bs[i]? = some b) (hNodup : (bs.map Binding.name).Nodup) :
    bs.eraseIdx i = bs.filter (·.name ≠ b.name) := by
  induction bs generalizing i with
  | nil => simp at hGet
  | cons x rest ih =>
      rw [List.map_cons, List.nodup_cons] at hNodup
      cases i with
      | zero =>
          obtain rfl : x = b := by simpa using hGet
          have hOthers : ∀ a ∈ rest, decide (a.name ≠ x.name) = true := by
            intro a hMem
            simp only [decide_eq_true_eq]
            intro hSame
            exact hNodup.1 (List.mem_map.mpr ⟨a, hMem, hSame⟩)
          rw [List.eraseIdx_cons_zero, List.filter_cons_of_neg (by simp),
            List.filter_eq_self.mpr hOthers]
      | succ i =>
          have hRest : rest[i]? = some b := by simpa using hGet
          have hHead : x.name ≠ b.name := by
            intro hSame
            rw [hSame] at hNodup
            exact hNodup.1 (List.mem_map_of_mem (List.mem_of_getElem? hRest))
          rw [List.eraseIdx_cons_succ, List.filter_cons_of_pos (by simpa using hHead),
            ih hRest hNodup.2]

/-- Taking a name away gives back what looking it up finds. -/
theorem fst_erase (t : Table) (name : String) : (t.erase name).1 = t.find? name := by
  unfold erase find?
  cases t.positions[name]? <;> rfl

/-- Taking a name away keeps the bindings of other names, in their order. -/
theorem Indexed.bindings_erase {t : Table} (hIndexed : t.Indexed) (name : String) :
    (t.erase name).2.bindings.toList = t.bindings.toList.filter (·.name ≠ name) := by
  unfold erase
  cases hPosition : t.positions[name]? with
  | none =>
      have hUnknown := hIndexed.not_mem_names hPosition
      symm
      simp only [List.filter_eq_self, decide_eq_true_eq]
      intro b hMem hName
      exact hUnknown (List.mem_map.mpr ⟨b, hMem, hName⟩)
  | some i =>
      obtain ⟨b, hGet, rfl⟩ := hIndexed.exists_getElem? hPosition
      rw [← eraseIdx_eq_filter hGet hIndexed.names_nodup]
      exact Array.toList_eraseIdxIfInBounds

/-- Taking a name away moves the positions behind it up by one place, and so keeps the index in
step. -/
theorem Indexed.erase {t : Table} (hIndexed : t.Indexed) (name : String) :
    (t.erase name).2.Indexed := by
  cases hPosition : t.positions[name]? with
  | none =>
      have hSame : (t.erase name).2 = t := by simp [Table.erase, hPosition]
      rw [hSame]
      exact hIndexed
  | some i =>
      have hNames : (t.erase name).2.names = t.names.eraseIdx i := by
        simp [Table.erase, hPosition, names, List.eraseIdx_map]
      have hPositions : (t.erase name).2.positions =
          (t.positions.erase name).map fun _ j => if i < j then j - 1 else j := by
        simp [Table.erase, hPosition]
      have hAt : t.names[i]? = some name := (hIndexed name i).mp hPosition
      -- the only position of the name is `i`, so every other name is before it or behind it
      have hOnly : ∀ {other : String} {j : Nat}, t.names[j]? = some other →
          (other = name ↔ j = i) := by
        intro other j hGet
        constructor
        · rintro rfl
          have hJ := (hIndexed other j).mpr hGet
          rw [hPosition] at hJ
          exact (Option.some.inj hJ).symm
        · rintro rfl
          exact Option.some.inj (hGet.symm.trans hAt)
      intro other j
      rw [hPositions, hNames, Std.TreeMap.getElem?_map, Std.TreeMap.getElem?_erase,
        List.getElem?_eraseIdx]
      simp only [Std.compare_eq_iff_eq]
      constructor
      · intro hMoved
        obtain ⟨k, hK, hShift⟩ := Option.map_eq_some_iff.mp hMoved
        split at hK
        · cases hK
        · rename_i hNe
          have hGet := (hIndexed other k).mp hK
          have hOther : k ≠ i := fun h => hNe ((hOnly hGet).mpr h).symm
          split at hShift
          · rename_i hBehind
            have hBack : j + 1 = k := by omega
            rw [if_neg (by omega), hBack]
            exact hGet
          · subst hShift
            rw [if_pos (by omega)]
            exact hGet
      · intro hGet
        rw [Option.map_eq_some_iff]
        split at hGet
        · rename_i hBefore
          have hNe : ¬ name = other := fun h => by
            have := (hOnly hGet).mp h.symm
            omega
          refine ⟨j, ?_, if_neg (by omega)⟩
          rw [if_neg hNe]
          exact (hIndexed other j).mpr hGet
        · rename_i hBehind
          have hNe : ¬ name = other := fun h => by
            have := (hOnly hGet).mp h.symm
            omega
          refine ⟨j + 1, ?_, by rw [if_pos (by omega)]; omega⟩
          rw [if_neg hNe]
          exact (hIndexed other (j + 1)).mpr hGet

end Table

end LateBinding.Scope
