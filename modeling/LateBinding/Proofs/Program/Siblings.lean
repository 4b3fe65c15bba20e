import LateBinding.Program.Traversal
import LateBinding.Proofs.Place
import LateBinding.Proofs.Program.Links

/-!
# Siblings

A node finds its siblings by looking for itself among the children of its parent.  In a linked forest
it stands there, and only once, so its place in that list tells its position and both its siblings.

* `Linked.position?_of_getElem?`, `Linked.next?_of_getElem?`, `Linked.previous?_of_getElem?_succ` -
  what the place of a child tells.
* `Linked.next?_eq_some_iff`, `Linked.previous?_eq_some_iff` - siblings have consecutive places.
* `siblings_are_adjacent` - the two directions agree, and either leads through all children.
-/

namespace LateBinding

namespace Forest

variable {f : Forest}

/-! ### Places of children -/

section Places

variable (hLinked : f.Linked) {parent child : NodeId} {i : Nat}

include hLinked

/-- A node with a parent has a place among the children of the parent. -/
theorem Linked.exists_getElem?_children (hParent : f.parent? child = some parent) :
    ∃ i : Nat, (f.children parent)[i]? = some child :=
  List.getElem?_of_mem ((hLinked.mem_children_iff parent child).mpr hParent)

/-- The child at a place has the parent. -/
theorem Linked.parent?_of_getElem? (hAt : (f.children parent)[i]? = some child) :
    f.parent? child = some parent :=
  (hLinked.mem_children_iff parent child).mp (List.mem_of_getElem? hAt)

/-- The position of a child is its place. -/
theorem Linked.position?_of_getElem? (hAt : (f.children parent)[i]? = some child) :
    f.position? child = some i := by
  rw [position?, hLinked.parent?_of_getElem? hAt, Option.bind_some]
  exact (Place.idxOf?_eq_some_iff (hLinked.nodup_children parent) child i).mpr hAt

/-- The next sibling of a child is the child at the next place, if there is one. -/
theorem Linked.next?_of_getElem? (hAt : (f.children parent)[i]? = some child) :
    f.next? child = (f.children parent)[i + 1]? := by
  rw [next?, hLinked.parent?_of_getElem? hAt, hLinked.position?_of_getElem? hAt]
  rfl

/-- The first child has no previous sibling. -/
theorem Linked.previous?_of_getElem?_zero (hAt : (f.children parent)[0]? = some child) :
    f.previous? child = none := by
  rw [previous?, hLinked.parent?_of_getElem? hAt, hLinked.position?_of_getElem? hAt]

/-- The previous sibling of any other child is the child at the place before. -/
theorem Linked.previous?_of_getElem?_succ (hAt : (f.children parent)[i + 1]? = some child) :
    f.previous? child = (f.children parent)[i]? := by
  rw [previous?, hLinked.parent?_of_getElem? hAt, hLinked.position?_of_getElem? hAt]
  rfl

end Places

/-- A node without a parent has no position and no siblings. -/
theorem siblings_of_parent?_eq_none {id : NodeId} (hFree : f.parent? id = none) :
    f.position? id = none ∧ f.next? id = none ∧ f.previous? id = none := by
  simp [position?, next?, previous?, hFree]

/-! ### Both directions -/

/-- The next sibling of a node has the place after that of the node. -/
theorem Linked.next?_eq_some_iff (hLinked : f.Linked) (x y : NodeId) :
    f.next? x = some y ↔
      ∃ (parent : NodeId) (i : Nat),
        (f.children parent)[i]? = some x ∧ (f.children parent)[i + 1]? = some y := by
  constructor
  · intro hNext
    cases hParent : f.parent? x with
    | none =>
        rw [(siblings_of_parent?_eq_none hParent).2.1] at hNext
        cases hNext
    | some parent =>
        obtain ⟨i, hAt⟩ := hLinked.exists_getElem?_children hParent
        rw [hLinked.next?_of_getElem? hAt] at hNext
        exact ⟨parent, i, hAt, hNext⟩
  · rintro ⟨parent, i, hX, hY⟩
    rw [hLinked.next?_of_getElem? hX, hY]

/-- The previous sibling of a node has the place before that of the node. -/
theorem Linked.previous?_eq_some_iff (hLinked : f.Linked) (x y : NodeId) :
    f.previous? y = some x ↔
      ∃ (parent : NodeId) (i : Nat),
        (f.children parent)[i]? = some x ∧ (f.children parent)[i + 1]? = some y := by
  constructor
  · intro hPrevious
    cases hParent : f.parent? y with
    | none =>
        rw [(siblings_of_parent?_eq_none hParent).2.2] at hPrevious
        cases hPrevious
    | some parent =>
        obtain ⟨i, hAt⟩ := hLinked.exists_getElem?_children hParent
        cases i with
        | zero =>
            rw [hLinked.previous?_of_getElem?_zero hAt] at hPrevious
            cases hPrevious
        | succ i =>
            rw [hLinked.previous?_of_getElem?_succ hAt] at hPrevious
            exact ⟨parent, i, hPrevious, hAt⟩
  · rintro ⟨parent, i, hX, hY⟩
    rw [hLinked.previous?_of_getElem?_succ hY, hX]

/-- Backwards, the sibling after a child is the one at the next place from the end. -/
theorem Linked.previous?_of_getElem?_reverse (hLinked : f.Linked) {parent child : NodeId} {i : Nat}
    (hAt : (f.children parent).reverse[i]? = some child) :
    f.previous? child = (f.children parent).reverse[i + 1]? := by
  have hI : i < (f.children parent).length := by
    simpa using (List.getElem?_eq_some_iff.mp hAt).1
  -- the same place counted from the front, where the last one from the end is the first
  rw [List.getElem?_reverse hI] at hAt
  by_cases hLast : i + 1 < (f.children parent).length
  · obtain ⟨j, hJ⟩ : ∃ j, (f.children parent).length - 1 - i = j + 1 :=
      ⟨(f.children parent).length - 1 - (i + 1), by omega⟩
    rw [hJ] at hAt
    rw [List.getElem?_reverse hLast, hLinked.previous?_of_getElem?_succ hAt]
    congr 1
    omega
  · rw [show (f.children parent).length - 1 - i = 0 by omega] at hAt
    rw [hLinked.previous?_of_getElem?_zero hAt, List.getElem?_eq_none (by simp; omega)]

/-- **Siblings are neighbours among the children of their parent.**  In every forest that edits lead
to, `y` is the next sibling of `x` exactly if `x` is the previous sibling of `y`, and exactly if they
stand side by side, in this order, among the children of some node.  The child at a place has the
place as its position.  Going from sibling to sibling leads from the first child of a node to all its
children in order, and then to none, and likewise backwards from the last one.  A node without a
parent has no position and no siblings. -/
theorem siblings_are_adjacent (origin : Option String) (edits : List Edit) :
    let f := (initial origin).after edits
    (∀ x y, f.next? x = some y ↔ f.previous? y = some x) ∧
    (∀ x y, f.next? x = some y ↔
      ∃ parent before after, f.children parent = before ++ x :: y :: after) ∧
    (∀ parent i child, f.child? parent i = some child → f.position? child = some i) ∧
    (∀ parent i, (fun link : Option NodeId => link.bind f.next?)^[i] (f.child? parent 0) =
      f.child? parent i) ∧
    (∀ parent i,
      (fun link : Option NodeId => link.bind f.previous?)^[i] (f.children parent).getLast? =
        (f.children parent).reverse[i]?) ∧
    ∀ id, f.parent? id = none →
      f.position? id = none ∧ f.next? id = none ∧ f.previous? id = none := by
  intro f
  have hLinked : f.Linked := linked_after origin edits
  refine ⟨?_, ?_, ?_, ?_, ?_, fun _ hFree => siblings_of_parent?_eq_none hFree⟩
  · intro x y
    rw [hLinked.next?_eq_some_iff, hLinked.previous?_eq_some_iff]
  · intro x y
    rw [hLinked.next?_eq_some_iff]
    exact exists_congr fun parent => Place.exists_getElem?_succ_iff (f.children parent) x y
  · exact fun _ _ _ hAt => hLinked.position?_of_getElem? hAt
  · intro parent i
    exact Place.iterate_bind_getElem? (fun _ _ hAt => hLinked.next?_of_getElem? hAt) i
  · intro parent i
    rw [← List.head?_reverse, List.head?_eq_getElem?]
    exact Place.iterate_bind_getElem? (fun _ _ hAt => hLinked.previous?_of_getElem?_reverse hAt) i

end Forest

end LateBinding
