import LateBinding.Class.Registry
import LateBinding.Proofs.Value.Widening

/-!
# Equality and identity

Three relations say that two values are the same, and four operators ask for two of them.  On values
of one type the three are one relation.  On values of different types only equality can hold, and
only between numbers, which it compares after widening them.

* `identical_eq_equal`, `looselyEqual_of_tag_eq`, `looselyEqual_of_widen?` - the three relations, said
  by the first.
* `equal_comm`, `looselyEqual_comm`, `equal_self_iff` - symmetry, and reflexivity away from what is no
  number.
* `Blueprint`, `objectsFrom` - the objects that a program makes, from the classes of any registries;
  `equal_of_getElem?` says that each equals itself only.
* `Value.IsAtHand`, `tag_eq_of_equal` - values whose objects have been made are equal only if they
  have one type.
* `evaluate_equality` - the laws of the four operators.
-/

namespace LateBinding

open LateBinding.Class (Registry)

/-- A word compares as equal to itself exactly if it stands for a number. -/
theorem Binary.Format.compare?_self_iff (fmt : Format) (word : Nat) :
    fmt.compare? word word = some .eq ↔ fmt.isNaN word = false := by
  rw [← Bool.not_eq_true, ← place?_eq_none_iff]
  unfold compare?
  cases fmt.place? word <;> simp

namespace Value

variable {a b : Value} {w : Width}

/-! ### Equality of values -/

/-- A value that is no number, although its type is numeric. -/
def IsNaN : Value → Prop
  | float x => Binary.single.isNaN x.toBits.toNat = true
  | double x => Binary.double.isNaN x.toBits.toNat = true
  | _ => False

/-- Values are equal to themselves, unless they are no numbers. -/
theorem equal_self_iff (a : Value) : a.equal a = true ↔ ¬a.IsNaN := by
  cases a with
  | float x => simp [equal, IsNaN, compareFloat32?, Binary.Format.compare?_self_iff]
  | double x => simp [equal, IsNaN, compareFloat?, Binary.Format.compare?_self_iff]
  | _ => simp [equal, IsNaN]

/-- Equal values have one type, or are objects with one serial number. -/
theorem tag_eq_or_objects_of_equal (hEqual : a.equal b = true) :
    a.tag = b.tag ∨ ∃ serial cls cls' name name' fields fields',
      a = .object serial cls name fields ∧ b = .object serial cls' name' fields' := by
  unfold equal at hEqual
  split at hEqual
  case h_8 serial cls name fields serial' cls' name' fields' =>
    obtain rfl : serial = serial' := of_decide_eq_true hEqual
    exact Or.inr ⟨_, _, _, _, _, _, _, rfl, rfl⟩
  case h_9 => cases hEqual
  all_goals exact Or.inl rfl

/-- Two comparisons that reverse each other agree on equality. -/
theorem decide_eq_some_eq_of_swap {x y : Option Ordering} (hSwap : y = x.map Ordering.swap) :
    decide (x = some .eq) = decide (y = some .eq) := by
  rw [hSwap]
  rcases x with _ | _ | _ | _ <;> rfl

theorem equal_comm (a b : Value) : a.equal b = b.equal a := by
  cases a with
  | null | bool _ | int _ | long _ | text _ | object _ _ _ _ =>
      cases b <;> simp [equal, eq_comm]
  | float x =>
      cases b with
      | float y => exact decide_eq_some_eq_of_swap (Binary.Format.compare?_swap _ _ _)
      | _ => rfl
  | double x =>
      cases b with
      | double y => exact decide_eq_some_eq_of_swap (Binary.Format.compare?_swap _ _ _)
      | _ => rfl

/-! ### Identity -/

/-- Values are identical exactly if they are equal. -/
theorem identical_eq_equal (a b : Value) : a.identical b = a.equal b := by
  unfold identical
  split <;> rfl

/-! ### Equality across types -/

/-- Values that are not both numbers are equal as values. -/
theorem looselyEqual_of_commonWidth?_eq_none (hCommon : a.tag.commonWidth? b.tag = none) :
    a.looselyEqual b = a.equal b := by
  rw [looselyEqual, hCommon]
  rfl

/-- Values of one type are equal as values. -/
theorem looselyEqual_of_tag_eq (hTag : a.tag = b.tag) : a.looselyEqual b = a.equal b := by
  cases a with
  | null | bool _ | text _ | object _ _ _ _ => exact looselyEqual_of_commonWidth?_eq_none rfl
  | int i =>
      obtain ⟨j, rfl⟩ := exists_of_tag_int hTag.symm
      show decide (some (compare i.toInt64.toInt j.toInt64.toInt) = some .eq) = decide (i = j)
      rw [decide_eq_decide, Option.some.injEq, Int.compare_eq_eq, Int32.toInt_toInt64,
        Int32.toInt_toInt64, Int32.toInt_inj]
  | long i =>
      cases b with
      | long j =>
          show decide (some (compare i.toInt j.toInt) = some .eq) = decide (i = j)
          rw [decide_eq_decide, Option.some.injEq, Int.compare_eq_eq, Int64.toInt_inj]
      | _ => cases hTag
  | float x =>
      cases b with
      | float y => rfl
      | _ => cases hTag
  | double x =>
      cases b with
      | double y => rfl
      | _ => cases hTag

/-- Two numbers are equal if they are equal as values once both have been widened. -/
theorem looselyEqual_of_widen? {wideA wideB : Value} (hCommon : a.tag.commonWidth? b.tag = some w)
    (hA : a.widen? w = some wideA) (hB : b.widen? w = some wideB) :
    a.looselyEqual b = wideA.equal wideB := by
  obtain ⟨order, hOrder⟩ := exists_order?_of_commonWidth? hCommon
  have hWide : wideA.order? wideB = some order := by
    rw [order?_of_widen? hCommon hA hB, hOrder]
  have hTag : wideA.tag = wideB.tag := (tag_of_widen? hA).trans (tag_of_widen? hB).symm
  rw [← looselyEqual_of_tag_eq hTag, looselyEqual_of_order? hOrder, looselyEqual_of_order? hWide]

theorem looselyEqual_comm (a b : Value) : a.looselyEqual b = b.looselyEqual a := by
  cases hCommon : a.tag.commonWidth? b.tag with
  | none =>
      rw [looselyEqual_of_commonWidth?_eq_none hCommon, equal_comm]
      rw [Tag.commonWidth?_comm] at hCommon
      rw [looselyEqual_of_commonWidth?_eq_none hCommon]
  | some w =>
      obtain ⟨order, hOrder⟩ := exists_order?_of_commonWidth? hCommon
      rw [looselyEqual_of_order? hOrder, looselyEqual_of_order? (order?_swap hOrder)]
      exact decide_eq_some_eq_of_swap rfl

/-- What is equal as values is equal. -/
theorem looselyEqual_of_equal (hEqual : a.equal b = true) : a.looselyEqual b = true := by
  rcases tag_eq_or_objects_of_equal hEqual with hTag | ⟨_, _, _, _, _, _, _, rfl, rfl⟩
  · rw [looselyEqual_of_tag_eq hTag, hEqual]
  · rw [looselyEqual_of_commonWidth?_eq_none rfl, hEqual]

end Value

/-! ### Objects -/

/-- What an object is made from: the classes there are, its own class, and its fields. -/
structure Blueprint where
  registry : Registry
  cls : ClassId
  fields : List Value

/-- The objects that are made one after the other, numbered from a number on.  No object is made of
a class that is not registered. -/
def objectsFrom (serial : Nat) : List Blueprint → List Value
  | [] => []
  | plan :: rest =>
      match plan.registry.instantiate serial plan.cls plan.fields with
      | .ok made => made :: objectsFrom (serial + 1) rest
      | .error _ => objectsFrom serial rest

/-- An object that is made has the number that it is given. -/
theorem Class.Registry.instantiate_eq_ok {r : Registry} {serial : Nat} {cls : ClassId}
    {fields : List Value} {made : Value} (hMade : r.instantiate serial cls fields = .ok made) :
    ∃ name, made = .object serial cls name fields := by
  unfold instantiate at hMade
  split at hMade
  · cases hMade
  · exact ⟨_, (Except.ok.inj hMade).symm⟩

/-- Objects are numbered in the order in which they are made. -/
theorem exists_object_of_getElem? {serial i : Nat} {plans : List Blueprint} {made : Value}
    (hAt : (objectsFrom serial plans)[i]? = some made) :
    ∃ cls name fields, made = .object (serial + i) cls name fields := by
  induction plans generalizing serial i with
  | nil => cases hAt
  | cons plan rest ih =>
      rw [objectsFrom] at hAt
      cases hMade : plan.registry.instantiate serial plan.cls plan.fields with
      | error e =>
          rw [hMade] at hAt
          exact ih hAt
      | ok first =>
          rw [hMade] at hAt
          cases i with
          | zero =>
              obtain ⟨name, hFirst⟩ := Class.Registry.instantiate_eq_ok hMade
              exact ⟨plan.cls, name, plan.fields, (Option.some.inj hAt).symm.trans hFirst⟩
          | succ i =>
              obtain ⟨cls, name, fields, hLater⟩ := ih hAt
              exact ⟨cls, name, fields, by rw [hLater, Nat.succ_add_eq_add_succ]⟩

namespace Value

variable {a b : Value} {plans : List Blueprint}

/-- Two objects that have been made are equal exactly if they are one. -/
theorem equal_of_getElem? {serial i j : Nat} (hA : (objectsFrom serial plans)[i]? = some a)
    (hB : (objectsFrom serial plans)[j]? = some b) : a.equal b = decide (i = j) := by
  obtain ⟨cls, name, fields, rfl⟩ := exists_object_of_getElem? hA
  obtain ⟨cls', name', fields', rfl⟩ := exists_object_of_getElem? hB
  show decide (serial + i = serial + j) = decide (i = j)
  rw [decide_eq_decide, Nat.add_left_cancel_iff]

/-- A value is at hand if it is one of the objects that have been made, or no object. -/
def IsAtHand (objects : List Value) (v : Value) : Prop :=
  ∀ cls, v.tag = .object cls → v ∈ objects

/-- Values at hand are equal only if they have one type: there is one object of each number. -/
theorem tag_eq_of_equal {serial : Nat} (hA : a.IsAtHand (objectsFrom serial plans))
    (hB : b.IsAtHand (objectsFrom serial plans)) (hEqual : a.equal b = true) : a.tag = b.tag := by
  rcases tag_eq_or_objects_of_equal hEqual with hTag | ⟨_, _, _, _, _, _, _, hObjectA, hObjectB⟩
  · exact hTag
  · obtain ⟨i, hI⟩ := List.mem_iff_getElem?.mp (hA _ (by rw [hObjectA]; rfl))
    obtain ⟨j, hJ⟩ := List.mem_iff_getElem?.mp (hB _ (by rw [hObjectB]; rfl))
    rw [equal_of_getElem? hI hJ, decide_eq_true_eq] at hEqual
    obtain rfl := hEqual
    rw [Option.some.inj (hI.symm.trans hJ)]

/-- Values at hand of different types are equal exactly if both are numbers and are equal as values
of their common type. -/
theorem looselyEqual_iff_of_tag_ne {serial : Nat} (hA : a.IsAtHand (objectsFrom serial plans))
    (hB : b.IsAtHand (objectsFrom serial plans)) (hTag : a.tag ≠ b.tag) :
    a.looselyEqual b = true ↔ ∃ w wideA wideB, a.tag.promote? b.tag = some (.ofWidth w) ∧
      a.widen? w = some wideA ∧ b.widen? w = some wideB ∧ wideA.equal wideB = true := by
  constructor
  · intro hEqual
    cases hCommon : a.tag.commonWidth? b.tag with
    | none =>
        rw [looselyEqual_of_commonWidth?_eq_none hCommon] at hEqual
        exact absurd (tag_eq_of_equal hA hB hEqual) hTag
    | some w =>
        obtain ⟨hReadA, hReadB⟩ := readable_of_commonWidth? hCommon
        obtain ⟨wideA, hWideA⟩ := exists_widen? hReadA
        obtain ⟨wideB, hWideB⟩ := exists_widen? hReadB
        rw [looselyEqual_of_widen? hCommon hWideA hWideB] at hEqual
        exact ⟨w, wideA, wideB, Tag.promote?_of_commonWidth? hCommon, hWideA, hWideB, hEqual⟩
  · rintro ⟨w, wideA, wideB, hPromote, hWideA, hWideB, hEqual⟩
    obtain ⟨v, hCommon, hSame⟩ := Option.map_eq_some_iff.mp hPromote
    obtain rfl : v = w := by simpa using congrArg Tag.width? hSame
    rw [looselyEqual_of_widen? hCommon hWideA hWideB, hEqual]

end Value

/-! ### The operators -/

namespace Operator

open Value

theorem evaluate_is (a b : Value) : is.evaluate [a, b] = .ok (.bool (a.equal b)) := by
  rw [evaluate_eq (p := .identity false) rfl rfl, Bool.bne_false, identical_eq_equal]

theorem evaluate_isnt (a b : Value) : isnt.evaluate [a, b] = .ok (.bool !a.equal b) := by
  rw [evaluate_eq (p := .identity true) rfl rfl, Bool.bne_true, identical_eq_equal]

/-- Neither relation depends on the order of the operands. -/
theorem evaluate_swap {op : Operator} (hOp : op ∈ [equals, notEquals, is, isnt]) (a b : Value) :
    op.evaluate [b, a] = op.evaluate [a, b] := by
  simp only [List.mem_cons, List.not_mem_nil, or_false] at hOp
  rcases hOp with rfl | rfl | rfl | rfl
  · rw [evaluate_equals, evaluate_equals, looselyEqual_comm]
  · rw [evaluate_notEquals, evaluate_notEquals, looselyEqual_comm]
  · rw [evaluate_is, evaluate_is, equal_comm]
  · rw [evaluate_isnt, evaluate_isnt, equal_comm]

/-- **Equality and identity agree on values of one type.**  Whatever objects have been made, from the
classes of whatever registries, and for any two values at hand: both relations and their negations
have an answer, which does not depend on the order of the operands, and what is identical is equal.
Values of one type are identical exactly if they are equal, and exactly if they are equal as values.
Values of different types are never identical, and equal exactly if both are numbers that are equal
once widened to their common type.  Each value is identical and equal to itself unless it is no
number, and two objects made apart are neither. -/
theorem evaluate_equality {plans : List Blueprint} {a b : Value}
    (hA : a.IsAtHand (objectsFrom 0 plans)) (hB : b.IsAtHand (objectsFrom 0 plans)) :
    ∃ eq same : Bool,
    (∀ op ∈ [equals, notEquals, is, isnt],
      (∃ p, op.primitive? (tags [a, b]) = some p) ∧ op.evaluate [b, a] = op.evaluate [a, b]) ∧
    (equals.evaluate [a, b] = .ok (.bool eq) ∧ notEquals.evaluate [a, b] = .ok (.bool !eq) ∧
      is.evaluate [a, b] = .ok (.bool same) ∧ isnt.evaluate [a, b] = .ok (.bool !same)) ∧
    (same = true → eq = true) ∧
    (a.tag = b.tag → same = eq ∧ eq = a.equal b) ∧
    (a.tag ≠ b.tag → same = false ∧
      (eq = true ↔ ∃ w wideA wideB, a.tag.promote? b.tag = some (.ofWidth w) ∧
        a.widen? w = some wideA ∧ b.widen? w = some wideB ∧ wideA.equal wideB = true)) ∧
    (a = b → (same = true ↔ ¬a.IsNaN) ∧ (eq = true ↔ ¬a.IsNaN)) ∧
    ∀ i j : Nat, (objectsFrom 0 plans)[i]? = some a → (objectsFrom 0 plans)[j]? = some b → i ≠ j →
      same = false ∧ eq = false := by
  refine ⟨a.looselyEqual b, a.equal b, ?_,
    ⟨evaluate_equals a b, evaluate_notEquals a b, evaluate_is a b, evaluate_isnt a b⟩,
    looselyEqual_of_equal, ?_, ?_, ?_, ?_⟩
  · intro op hOp
    refine ⟨?_, evaluate_swap hOp a b⟩
    simp only [List.mem_cons, List.not_mem_nil, or_false] at hOp
    rcases hOp with rfl | rfl | rfl | rfl <;> exact ⟨_, rfl⟩
  · intro hTag
    exact ⟨(looselyEqual_of_tag_eq hTag).symm, looselyEqual_of_tag_eq hTag⟩
  · intro hTag
    refine ⟨?_, looselyEqual_iff_of_tag_ne hA hB hTag⟩
    rw [← Bool.not_eq_true]
    exact fun hEqual => hTag (tag_eq_of_equal hA hB hEqual)
  · rintro rfl
    rw [looselyEqual_of_tag_eq rfl]
    exact ⟨equal_self_iff a, equal_self_iff a⟩
  · intro i j hI hJ hNe
    have hApart : a.equal b = false := by
      rw [equal_of_getElem? hI hJ, decide_eq_false_iff_not]
      exact hNe
    obtain ⟨cls, name, fields, rfl⟩ := exists_object_of_getElem? hI
    exact ⟨hApart, (looselyEqual_of_commonWidth?_eq_none rfl).trans hApart⟩

/-- Two objects with the same fields are different, although their classes, from two registries,
have the same number. -/
theorem evaluate_equality_objects :
    equals.evaluate [.object 0 ⟨0⟩ "Point" [.int 1], .object 1 ⟨0⟩ "Pair" [.int 1]] =
        .ok (.bool false) ∧
      isnt.evaluate [.object 0 ⟨0⟩ "Point" [.int 1], .object 1 ⟨0⟩ "Pair" [.int 1]] =
        .ok (.bool true) := by
  obtain ⟨eq, same, -, ⟨hEquals, -, -, hIsnt⟩, -, -, -, -, hApart⟩ :=
    @evaluate_equality
      [⟨⟨#[⟨⟨0⟩, "Point", none⟩], []⟩, ⟨0⟩, [.int 1]⟩, ⟨⟨#[⟨⟨0⟩, "Pair", none⟩], []⟩, ⟨0⟩, [.int 1]⟩]
      (.object 0 ⟨0⟩ "Point" [.int 1]) (.object 1 ⟨0⟩ "Pair" [.int 1])
      (fun _ _ => List.mem_cons_self) (fun _ _ => List.mem_cons_of_mem _ List.mem_cons_self)
  obtain ⟨rfl, rfl⟩ := hApart 0 1 rfl rfl (by decide)
  exact ⟨hEquals, hIsnt⟩

end Operator

end LateBinding
