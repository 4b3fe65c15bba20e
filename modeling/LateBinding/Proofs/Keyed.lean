import Mathlib.Data.List.Forall2
import Mathlib.Data.List.Nodup

/-!
# Lists of entries with keys

Several lists of a program take one more entry in the same way: it replaces the one of its key,
where that stands, and goes to the end if there is none.  Entries may be without a key; such an
entry goes to the end always.  Where no key is given twice, an entry is found under its key.

* `filter_eq_singleton`, `find?_eq_some_iff_mem` - lists in which no key is given twice.
* `overlay` - the list with one more entry.
* `mem_overlay`, `mem_foldl_overlay` - only this entry is added.
* `find?_overlay` - what is found for a key afterwards.
* `map_key_overlay` - the keys afterwards.
* `forall₂_overlay`, `map_overlay` - overlaying depends on nothing but which keys are equal.
-/

namespace LateBinding.Keyed

/-! ### Different keys -/

section Distinct

variable {α κ : Type} [DecidableEq κ] {key : α → κ} {as : List α}

/-- With different keys, an entry is the only one of its key. -/
theorem filter_eq_singleton (hDistinct : (as.map key).Nodup) {a : α} (hMem : a ∈ as) :
    as.filter (key · = key a) = [a] := by
  induction as with
  | nil => cases hMem
  | cons b rest ih =>
      rw [List.map_cons, List.nodup_cons] at hDistinct
      rcases List.mem_cons.mp hMem with rfl | hMem
      · have hOthers : rest.filter (key · = key a) = [] := by
          rw [List.filter_eq_nil_iff]
          intro c hC hKey
          exact hDistinct.1 (List.mem_map.mpr ⟨c, hC, of_decide_eq_true hKey⟩)
        rw [List.filter_cons_of_pos (by simp), hOthers]
      · have hOther : key b ≠ key a := by
          intro hKey
          exact hDistinct.1 (List.mem_map.mpr ⟨a, hMem, hKey.symm⟩)
        rw [List.filter_cons_of_neg (by simpa using hOther), ih hDistinct.2 hMem]

/-- With different keys, an entry is found under a key exactly if it has this key. -/
theorem find?_eq_some_iff_mem (hDistinct : (as.map key).Nodup) {a : α} {k : κ} :
    as.find? (key · = k) = some a ↔ a ∈ as ∧ key a = k := by
  constructor
  · intro hFound
    exact ⟨List.mem_of_find?_eq_some hFound, by simpa using List.find?_some hFound⟩
  · rintro ⟨hMem, rfl⟩
    rw [← List.head?_filter, filter_eq_singleton hDistinct hMem]
    rfl

end Distinct

/-! ### One more entry -/

variable {α β κ ν : Type} [DecidableEq κ] [DecidableEq ν] {key : α → Option κ} {key' : β → Option ν}

/-- A list with one more entry: in the place of the first one of that key, or else at the end. -/
def overlay (key : α → Option κ) : List α → α → List α
  | [], b => [b]
  | a :: rest, b =>
      if (key b).isSome = true ∧ key a = key b then b :: rest else a :: overlay key rest b

/-- Overlaying adds one entry only. -/
theorem mem_overlay {as : List α} {a b : α} (hMem : a ∈ overlay key as b) : a ∈ as ∨ a = b := by
  induction as with
  | nil => exact Or.inr (List.mem_singleton.mp hMem)
  | cons x rest ih =>
      rw [overlay] at hMem
      split at hMem
      · rcases List.mem_cons.mp hMem with rfl | hMem
        · exact Or.inr rfl
        · exact Or.inl (List.mem_cons_of_mem x hMem)
      · rcases List.mem_cons.mp hMem with rfl | hMem
        · exact Or.inl List.mem_cons_self
        · exact (ih hMem).imp (List.mem_cons_of_mem x) id

/-- Overlaying entries one by one adds these entries only. -/
theorem mem_foldl_overlay {acc as : List α} {a : α} (hMem : a ∈ as.foldl (overlay key) acc) :
    a ∈ acc ∨ a ∈ as := by
  induction as generalizing acc with
  | nil => exact Or.inl hMem
  | cons b rest ih =>
      rcases ih hMem with hMem | hMem
      · rcases mem_overlay hMem with hMem | rfl
        · exact Or.inl hMem
        · exact Or.inr List.mem_cons_self
      · exact Or.inr (List.mem_cons_of_mem b hMem)

variable (key) in
/-- After overlaying an entry, its key has this entry and any other key the one it had. -/
theorem find?_overlay (as : List α) (b : α) (k : κ) :
    (overlay key as b).find? (key · = some k) =
      if key b = some k then some b else as.find? (key · = some k) := by
  induction as with
  | nil => by_cases hKey : key b = some k <;> simp [overlay, hKey]
  | cons a rest ih =>
      by_cases hSame : (key b).isSome = true ∧ key a = key b
      · rw [overlay, if_pos hSame]
        by_cases hKey : key b = some k
        · simp [hKey]
        · simp [hSame.2, hKey]
      · rw [overlay, if_neg hSame]
        by_cases hHead : key a = some k
        · have hKey : key b ≠ some k := by
            intro h
            exact hSame ⟨by simp [h], hHead.trans h.symm⟩
          simp [hHead, hKey]
        · simp [hHead, ih]

variable (key) in
/-- Overlaying keeps the keys of a list, and adds that of the entry at the end unless it is
there. -/
theorem map_key_overlay (as : List α) (b : α) :
    (overlay key as b).map key =
      if (key b).isSome = true ∧ key b ∈ as.map key then as.map key
      else as.map key ++ [key b] := by
  induction as with
  | nil => simp [overlay]
  | cons a rest ih =>
      rw [overlay]
      by_cases hSame : (key b).isSome = true ∧ key a = key b
      · have hHead : key b ∈ (a :: rest).map key := by
          rw [List.map_cons, hSame.2]
          exact List.mem_cons_self
        rw [if_pos hSame, if_pos ⟨hSame.1, hHead⟩, List.map_cons, List.map_cons, hSame.2]
      · rw [if_neg hSame, List.map_cons, ih, List.map_cons]
        have hMem : (key b).isSome = true ∧ key b ∈ key a :: rest.map key ↔
            (key b).isSome = true ∧ key b ∈ rest.map key := by
          constructor
          · rintro ⟨hKeyed, hMem⟩
            rcases List.mem_cons.mp hMem with hHead | hMem
            · exact absurd ⟨hKeyed, hHead.symm⟩ hSame
            · exact ⟨hKeyed, hMem⟩
          · exact fun hKeyed => ⟨hKeyed.1, List.mem_cons_of_mem _ hKeyed.2⟩
        by_cases hLater : (key b).isSome = true ∧ key b ∈ rest.map key
        · rw [if_pos hLater, if_pos (hMem.mpr hLater)]
        · rw [if_neg hLater, if_neg fun h => hLater (hMem.mp h), List.cons_append]

/-- Lists that are related entry by entry stay so, if the entries overlaid are related, and have the
keys of related entries or not together. -/
theorem forall₂_overlay {R : α → β → Prop} {as : List α} {bs : List β} {a : α} {b : β}
    (hAll : List.Forall₂ R as bs) (hNew : R a b)
    (hSame : ∀ x ∈ as, ∀ y, R x y →
      ((key a).isSome = true ∧ key x = key a ↔ (key' b).isSome = true ∧ key' y = key' b)) :
    List.Forall₂ R (overlay key as a) (overlay key' bs b) := by
  induction hAll with
  | nil => exact List.Forall₂.cons hNew List.Forall₂.nil
  | @cons x y as bs hHead hTail ih =>
      have hRest := ih fun z hMem => hSame z (List.mem_cons_of_mem x hMem)
      have hKeys := hSame x List.mem_cons_self y hHead
      by_cases hKey : (key a).isSome = true ∧ key x = key a
      · rw [overlay, if_pos hKey, overlay, if_pos (hKeys.mp hKey)]
        exact List.Forall₂.cons hNew hTail
      · rw [overlay, if_neg hKey, overlay, if_neg (hKeys.not.mp hKey)]
        exact List.Forall₂.cons hHead hRest

/-- A change of entries that leaves equal what was equal may be made before or after. -/
theorem map_overlay {change : α → β}
    (hSame : ∀ a b, (key a).isSome = true ∧ key b = key a ↔
      (key' (change a)).isSome = true ∧ key' (change b) = key' (change a)) (as : List α) (a : α) :
    (overlay key as a).map change = overlay key' (as.map change) (change a) := by
  have hAll : List.Forall₂ (fun x y => change x = y) (overlay key as a)
      (overlay key' (as.map change) (change a)) := by
    refine forall₂_overlay ?_ rfl ?_
    · exact List.forall₂_map_right_iff.mpr (List.forall₂_same.mpr fun _ _ => rfl)
    · rintro x - y rfl
      exact hSame a x
  rw [← List.forall₂_eq_eq_eq, List.forall₂_map_left_iff]
  exact hAll

/-- The same for entries overlaid one by one. -/
theorem map_foldl_overlay {change : α → β}
    (hSame : ∀ a b, (key a).isSome = true ∧ key b = key a ↔
      (key' (change a)).isSome = true ∧ key' (change b) = key' (change a)) (acc as : List α) :
    (as.foldl (overlay key) acc).map change =
      (as.map change).foldl (overlay key') (acc.map change) := by
  induction as generalizing acc with
  | nil => rfl
  | cons a rest ih => rw [List.foldl_cons, ih, map_overlay hSame, List.map_cons, List.foldl_cons]

end LateBinding.Keyed
