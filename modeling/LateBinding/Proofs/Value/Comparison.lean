import LateBinding.Proofs.Value.Evaluation

/-!
# One order behind all comparisons

Six operators compare values, and three different primitives answer for them: numbers are put in
order, texts are put in order, and equality compares values of any two types.  On operands that can
be put in order at all, the six agree: each of them reads off one and the same order.

* `Value.order?` - the order of two numbers in their common type, or of two texts.
* `order?_swap` - swapping the operands reverses the order; all that is used of the comparison of
  binary numbers is that it reverses, too.
* `Value.IsUnordered`, `order?_eq_some_none_iff` - only what is no number is out of order.
* `exists_primitive?_iff`, `exists_order?` - which values can be put in order.
* `evaluate_of_order?`, `evaluate_equals_of_order?` - the operators, said with the order.
* `evaluate_converse` - an ordering operator is its converse with the operands swapped.
* `evaluate_comparisons` - the laws between the operators.
-/

namespace LateBinding

namespace Value

variable {a b : Value} {w : Width} {order : Option Ordering}

/-! ### The order of two values -/

/-- The order of two values, if both are texts or both are numbers; the inner answer is `none` when
one of two numbers is no number. -/
def order? : Value → Value → Option (Option Ordering)
  | text s, text t => some (some (compare s t))
  | a, b => (a.tag.commonWidth? b.tag).bind fun w => a.compareAs? w b

/-- Two numbers have the order of their common type. -/
theorem order?_of_commonWidth? (hCommon : a.tag.commonWidth? b.tag = some w) :
    a.order? b = a.compareAs? w b := by
  unfold order?
  split
  · cases hCommon
  · rw [hCommon, Option.bind_some]

theorem exists_order?_of_commonWidth? (hCommon : a.tag.commonWidth? b.tag = some w) :
    ∃ order, a.order? b = some order := by
  rw [order?_of_commonWidth? hCommon]
  exact Primitive.exists_compareAs? hCommon

/-- Values that have an order are two texts, or numbers with a common type. -/
theorem order?_cases (hOrder : a.order? b = some order) :
    (∃ s t, a = text s ∧ b = text t ∧ order = some (compare s t)) ∨
    ∃ w, a.tag.commonWidth? b.tag = some w ∧ a.compareAs? w b = some order := by
  unfold order? at hOrder
  split at hOrder
  · rename_i s t
    exact Or.inl ⟨s, t, rfl, rfl, (Option.some.inj hOrder).symm⟩
  · exact Or.inr (Option.bind_eq_some_iff.mp hOrder)

/-! ### Swapping the operands -/

/-- Swapping two numbers reverses how they compare in a type. -/
theorem compareAs?_swap (w : Width) (a b : Value) :
    b.compareAs? w a = (a.compareAs? w b).map fun order => order.map Ordering.swap := by
  cases w with
  | int | long =>
      unfold compareAs?
      cases a.toInt64? <;> cases b.toInt64? <;> simp [Int.compare_swap]
  | float =>
      unfold compareAs?
      cases a.toFloat32? with
      | none => cases b.toFloat32? <;> rfl
      | some x =>
          cases b.toFloat32? with
          | none => rfl
          | some y => exact congrArg some (Binary.Format.compare?_swap _ _ _)
  | double =>
      unfold compareAs?
      cases a.toFloat? with
      | none => cases b.toFloat? <;> rfl
      | some x =>
          cases b.toFloat? with
          | none => rfl
          | some y => exact congrArg some (Binary.Format.compare?_swap _ _ _)

/-- Swapping two values reverses their order. -/
theorem order?_swap (hOrder : a.order? b = some order) :
    b.order? a = some (order.map Ordering.swap) := by
  rcases order?_cases hOrder with ⟨s, t, rfl, rfl, rfl⟩ | ⟨w, hCommon, hCompare⟩
  · show some (some (compare t s)) = _
    rw [Std.OrientedOrd.eq_swap (a := t)]
    rfl
  · rw [Tag.commonWidth?_comm] at hCommon
    rw [order?_of_commonWidth? hCommon, compareAs?_swap, hCompare, Option.map_some]

/-! ### What is out of order -/

/-- A value is no number when it is read in a numeric type with a fraction. -/
def IsNaNAs (w : Width) (v : Value) : Prop :=
  match w with
  | .int | .long => False
  | .float => ∃ x, v.toFloat32? = some x ∧ Binary.single.isNaN x.toBits.toNat = true
  | .double => ∃ x, v.toFloat? = some x ∧ Binary.double.isNaN x.toBits.toNat = true

/-- One of two values with a common numeric type is no number in it. -/
def IsUnordered (a b : Value) : Prop :=
  ∃ w, a.tag.commonWidth? b.tag = some w ∧ (a.IsNaNAs w ∨ b.IsNaNAs w)

theorem compareAs?_eq_some_none_iff (hCommon : a.tag.commonWidth? b.tag = some w) :
    a.compareAs? w b = some none ↔ a.IsNaNAs w ∨ b.IsNaNAs w := by
  obtain ⟨hReadA, hReadB⟩ := readable_of_commonWidth? hCommon
  cases w with
  | int | long =>
      unfold compareAs?
      cases a.toInt64? <;> cases b.toInt64? <;> simp [IsNaNAs]
  | float =>
      obtain ⟨x, hA⟩ := hReadA
      obtain ⟨y, hB⟩ := hReadB
      simp [compareAs?, IsNaNAs, compareFloat32?, Binary.Format.compare?_eq_none_iff, hA, hB]
  | double =>
      obtain ⟨x, hA⟩ := hReadA
      obtain ⟨y, hB⟩ := hReadB
      simp [compareAs?, IsNaNAs, compareFloat?, Binary.Format.compare?_eq_none_iff, hA, hB]

/-- Values are out of order exactly if one of them is no number. -/
theorem order?_eq_some_none_iff (a b : Value) : a.order? b = some none ↔ a.IsUnordered b := by
  constructor
  · intro hOrder
    rcases order?_cases hOrder with ⟨s, t, -, -, hSome⟩ | ⟨w, hCommon, hCompare⟩
    · cases hSome
    · exact ⟨w, hCommon, (compareAs?_eq_some_none_iff hCommon).mp hCompare⟩
  · rintro ⟨w, hCommon, hNaN⟩
    rw [order?_of_commonWidth? hCommon]
    exact (compareAs?_eq_some_none_iff hCommon).mpr hNaN

/-! ### Equality -/

/-- Values that have an order are equal if it says so. -/
theorem looselyEqual_of_order? (hOrder : a.order? b = some order) :
    a.looselyEqual b = decide (order = some .eq) := by
  rcases order?_cases hOrder with ⟨s, t, rfl, rfl, rfl⟩ | ⟨w, hCommon, hCompare⟩
  · show decide (s = t) = _
    rw [decide_eq_decide, Option.some.injEq, Std.LawfulEqOrd.compare_eq_iff_eq]
  · rw [looselyEqual, hCommon, Option.bind_some, hCompare]

end Value

/-! ### The operators -/

namespace Operator

open Value

variable {a b : Value} {op : Operator} {order : Option Ordering}

/-- An ordering operator has a primitive for two texts and for two numbers of any types. -/
theorem exists_primitive?_iff (hOp : op.isOrdering = true) (left right : Tag) :
    (∃ p, op.primitive? [left, right] = some p) ↔
      (left = .text ∧ right = .text) ∨ ∃ w, left.commonWidth? right = some w := by
  rw [primitive?_of_isOrdering hOp, orderPrimitive?]
  by_cases hTexts : left = .text ∧ right = .text
  · simp [hTexts]
  · cases left.commonWidth? right <;> simp [hTexts]

/-- Operands for which an ordering operator has a primitive have an order. -/
theorem exists_order? {p : Primitive} (hOp : op.isOrdering = true)
    (hChosen : op.primitive? (Value.tags [a, b]) = some p) : ∃ order, a.order? b = some order := by
  rcases (exists_primitive?_iff hOp a.tag b.tag).mp ⟨p, hChosen⟩ with ⟨hA, hB⟩ | ⟨w, hCommon⟩
  · obtain ⟨s, rfl⟩ := exists_of_tag_text hA
    obtain ⟨t, rfl⟩ := exists_of_tag_text hB
    exact ⟨some (compare s t), rfl⟩
  · exact exists_order?_of_commonWidth? hCommon

/-- An ordering operator tells whether the order of its operands is of a certain kind. -/
theorem evaluate_of_order? (hOp : op.isOrdering = true) (hOrder : a.order? b = some order) :
    op.evaluate [a, b] = .ok (.bool (op.holds order)) := by
  rcases order?_cases hOrder with ⟨s, t, rfl, rfl, rfl⟩ | ⟨w, hCommon, hCompare⟩
  · exact evaluate_texts hOp s t
  · exact evaluate_of_isOrdering hOp hCommon hCompare

theorem evaluate_equals_of_order? (hOrder : a.order? b = some order) :
    equals.evaluate [a, b] = .ok (.bool (order = some .eq)) := by
  rw [evaluate_equals, looselyEqual_of_order? hOrder]

theorem evaluate_notEquals_of_order? (hOrder : a.order? b = some order) :
    notEquals.evaluate [a, b] = .ok (.bool !decide (order = some .eq)) := by
  rw [evaluate_notEquals, looselyEqual_of_order? hOrder]

/-- The operator that asks the same of swapped operands. -/
def converse : Operator → Operator
  | less => more
  | lessOrEquals => moreOrEquals
  | more => less
  | moreOrEquals => lessOrEquals
  | op => op

theorem isOrdering_converse (hOp : op.isOrdering = true) : op.converse.isOrdering = true := by
  cases op with
  | less | lessOrEquals | more | moreOrEquals => rfl
  | _ => cases hOp

theorem holds_converse (op : Operator) (order : Option Ordering) :
    op.converse.holds (order.map Ordering.swap) = op.holds order := by
  rcases order with _ | _ | _ | _ <;> cases op <;> rfl

/-- An ordering operator evaluates to what its converse does on swapped operands. -/
theorem evaluate_converse (hOp : op.isOrdering = true) (hOrder : a.order? b = some order) :
    op.converse.evaluate [b, a] = op.evaluate [a, b] := by
  rw [evaluate_of_order? (isOrdering_converse hOp) (order?_swap hOrder), holds_converse,
    evaluate_of_order? hOp hOrder]

/-- **The comparisons agree with each other.**  Where one value can be asked to be less than another,
all six comparisons have an answer.  Not equal is the negation of equal; less than, and at most, are
greater than, and at least, with the operands swapped; at most is less or equal, and at least is
greater or equal.  If one of the values is no number, then the first is neither less than, equal to
nor greater than the second; otherwise it is exactly one of these. -/
theorem evaluate_comparisons {p : Primitive} (hLess : less.primitive? (Value.tags [a, b]) = some p) :
    ∃ lt le gt ge eq : Bool,
    (less.evaluate [a, b] = .ok (.bool lt) ∧ lessOrEquals.evaluate [a, b] = .ok (.bool le) ∧
      more.evaluate [a, b] = .ok (.bool gt) ∧ moreOrEquals.evaluate [a, b] = .ok (.bool ge) ∧
      equals.evaluate [a, b] = .ok (.bool eq) ∧ notEquals.evaluate [a, b] = .ok (.bool !eq)) ∧
    (more.evaluate [b, a] = .ok (.bool lt) ∧ moreOrEquals.evaluate [b, a] = .ok (.bool le) ∧
      less.evaluate [b, a] = .ok (.bool gt) ∧ lessOrEquals.evaluate [b, a] = .ok (.bool ge)) ∧
    le = (lt || eq) ∧ ge = (gt || eq) ∧
    (a.IsUnordered b → lt = false ∧ eq = false ∧ gt = false) ∧
    (¬a.IsUnordered b → [lt, eq, gt].count true = 1) := by
  obtain ⟨order, hOrder⟩ := exists_order? rfl hLess
  have hEvaluate : ∀ op : Operator, op.isOrdering = true →
      op.evaluate [a, b] = .ok (.bool (op.holds order)) ∧
        op.converse.evaluate [b, a] = .ok (.bool (op.holds order)) := by
    intro op hOp
    rw [evaluate_converse hOp hOrder]
    exact ⟨evaluate_of_order? hOp hOrder, evaluate_of_order? hOp hOrder⟩
  refine ⟨less.holds order, lessOrEquals.holds order, more.holds order, moreOrEquals.holds order,
    decide (order = some .eq), ⟨(hEvaluate less rfl).1, (hEvaluate lessOrEquals rfl).1,
      (hEvaluate more rfl).1, (hEvaluate moreOrEquals rfl).1, evaluate_equals_of_order? hOrder,
      evaluate_notEquals_of_order? hOrder⟩,
    ⟨(hEvaluate less rfl).2, (hEvaluate lessOrEquals rfl).2, (hEvaluate more rfl).2,
      (hEvaluate moreOrEquals rfl).2⟩, ?_⟩
  rw [← order?_eq_some_none_iff, hOrder, Option.some.injEq]
  -- what remains is about the four answers that an order can be
  rcases order with _ | _ | _ | _ <;> decide

/-- What is no number is not less than an `int`, nor the other way round, and not equal to it. -/
theorem evaluate_comparisons_nan :
    less.evaluate [.int 1, .double (0.0 / 0.0)] = .ok (.bool false) ∧
      more.evaluate [.int 1, .double (0.0 / 0.0)] = .ok (.bool false) ∧
      notEquals.evaluate [.int 1, .double (0.0 / 0.0)] = .ok (.bool true) := by
  obtain ⟨lt, le, gt, ge, eq, ⟨hLess, -, hMore, -, -, hNotEquals⟩, -, -, -, hNaN, -⟩ :=
    evaluate_comparisons (a := .int 1) (b := .double (0.0 / 0.0)) rfl
  obtain ⟨rfl, rfl, rfl⟩ := hNaN ⟨.double, rfl, Or.inr ⟨_, rfl, by decide⟩⟩
  exact ⟨hLess, hMore, hNotEquals⟩

end Operator

end LateBinding
