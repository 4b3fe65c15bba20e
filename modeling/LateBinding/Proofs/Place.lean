import Mathlib.Data.List.Nodup
import Mathlib.Logic.Function.Iterate

/-!
# Places in a list

Where the entries of a list stand, one after the other.

* `idxOf?_eq_some_iff` - in a list without repetitions an entry is found at its one place.
* `iterate_bind_getElem?` - steps from each entry to the next one go through the list and then end.
* `exists_getElem?_succ_iff` - two entries side by side.
-/

namespace LateBinding.Place

variable {α : Type}

/-- In a list without repetitions an entry is found at a place exactly if it stands there. -/
theorem idxOf?_eq_some_iff [BEq α] [LawfulBEq α] {l : List α} (hNodup : l.Nodup) (a : α) (i : Nat) :
    l.idxOf? a = some i ↔ l[i]? = some a := by
  rw [List.idxOf?_eq_some_iff, List.getElem?_eq_some_iff]
  refine exists_congr fun hI => and_iff_left_of_imp ?_
  rintro hAt j hJ hSame
  have hEq := hNodup.getElem_inj_iff.mp (hSame.trans hAt.symm)
  omega

/-- Steps that lead from each entry of a list to the next one, and from the last one nowhere, lead from
the first one to all of them in order, and end behind the last one. -/
theorem iterate_bind_getElem? {l : List α} {next : α → Option α}
    (hNext : ∀ i a, l[i]? = some a → next a = l[i + 1]?) (i : Nat) :
    (fun link : Option α => link.bind next)^[i] l[0]? = l[i]? := by
  induction i with
  | zero => rfl
  | succ i ih =>
      rw [Function.iterate_succ_apply', ih]
      cases hAt : l[i]? with
      | none =>
          have hLength := List.getElem?_eq_none_iff.mp hAt
          exact (List.getElem?_eq_none (by omega)).symm
      | some a => exact hNext i a hAt

/-- Two entries have consecutive places exactly if they stand side by side. -/
theorem exists_getElem?_succ_iff (l : List α) (a b : α) :
    (∃ i, l[i]? = some a ∧ l[i + 1]? = some b) ↔
      ∃ before after, l = before ++ a :: b :: after := by
  constructor
  · rintro ⟨i, hA, hB⟩
    obtain ⟨hI, rfl⟩ := List.getElem?_eq_some_iff.mp hA
    obtain ⟨hNext, rfl⟩ := List.getElem?_eq_some_iff.mp hB
    refine ⟨l.take i, l.drop (i + 2), ?_⟩
    rw [← List.drop_eq_getElem_cons hNext, ← List.drop_eq_getElem_cons hI, List.take_append_drop]
  · rintro ⟨before, after, rfl⟩
    exact ⟨before.length, by simp, by simp⟩

end LateBinding.Place
