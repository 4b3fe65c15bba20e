import LateBinding.Proofs.Value.Comparison

/-!
# Widening the operands first

An operator on two numbers of different types works in the wider of the types, and reads each
operand as a number of that type when it comes to it.  Nothing but these numbers counts: the operands
can as well be replaced by values of the wider type beforehand.

* `Value.widen?` - the value of a numeric type that another value is read as.
* `arithmetic?_of_widen?`, `order?_of_widen?` - widened operands give the same result, and have the
  same order.
* `evaluate_widened` - all operators on numbers, by the families of operators.
-/

namespace LateBinding

open Dispatch (DispatchError)

namespace Tag

@[simp] theorem commonWidth?_ofWidth_self (w : Width) :
    (ofWidth w).commonWidth? (ofWidth w) = some w := by
  cases w <;> rfl

/-- The common type of two numbers is the type that both are promoted to. -/
theorem promote?_of_commonWidth? {a b : Tag} {w : Width} (hCommon : a.commonWidth? b = some w) :
    a.promote? b = some (ofWidth w) := by
  rw [promote?, hCommon, Option.map_some]

end Tag

namespace Value

/-- A value brought to a numeric type, if it can be read as a number of that type. -/
def widen? (w : Width) (v : Value) : Option Value :=
  match w with
  | .int => v.toInt32?.map int
  | .long => v.toInt64?.map long
  | .float => v.toFloat32?.map float
  | .double => v.toFloat?.map double

variable {a b v wide wideA wideB : Value} {w : Width}

/-- Widening does not fail on a number that can be read in the type. -/
theorem exists_widen? (hRead : v.Readable w) : ∃ wide, v.widen? w = some wide := by
  cases w <;> obtain ⟨x, hX⟩ := hRead <;> exact ⟨_, by rw [widen?, hX, Option.map_some]⟩

theorem tag_of_widen? (hWide : v.widen? w = some wide) : wide.tag = .ofWidth w := by
  cases w <;> obtain ⟨x, -, rfl⟩ := Option.map_eq_some_iff.mp hWide <;> rfl

/-- An `int` is only widened from itself. -/
theorem eq_of_widen?_int (hWide : v.widen? .int = some wide) : wide = v := by
  cases v with
  | int i => exact (Option.some.inj hWide).symm
  | _ => cases hWide

/-- Widened operands have their type in common. -/
theorem commonWidth?_of_widen? (hA : a.widen? w = some wideA) (hB : b.widen? w = some wideB) :
    wideA.tag.commonWidth? wideB.tag = some w := by
  rw [tag_of_widen? hA, tag_of_widen? hB, Tag.commonWidth?_ofWidth_self]

end Value

namespace Primitive

open Value

variable {a b c wideA wideB : Value} {w : Width} {op : Operator}

/-- Arithmetic gives the same result on widened operands. -/
theorem arithmetic?_of_widen? (hA : a.widen? w = some wideA) (hB : b.widen? w = some wideB) :
    arithmetic? op w wideA wideB = arithmetic? op w a b := by
  cases w with
  | int => rw [eq_of_widen?_int hA, eq_of_widen?_int hB]
  | long | float | double =>
      obtain ⟨x, hX, rfl⟩ := Option.map_eq_some_iff.mp hA
      obtain ⟨y, hY, rfl⟩ := Option.map_eq_some_iff.mp hB
      unfold arithmetic?
      rw [onNumbers?_eq _ _ hX hY]
      rfl

/-- What is computed from two numbers is made from a number. -/
theorem exists_of_onNumbers?_eq_ok {α : Type} {read : Value → Option α} {make : α → Value}
    {run : α → α → Option (Except DispatchError α)}
    (hResult : onNumbers? read make run a b = some (.ok c)) : ∃ z, c = make z := by
  unfold onNumbers? at hResult
  split at hResult
  · obtain ⟨result, -, hMade⟩ := Option.map_eq_some_iff.mp hResult
    cases result with
    | ok z => exact ⟨z, (Except.ok.inj hMade).symm⟩
    | error e => cases hMade
  · cases hResult

/-- The result of arithmetic has the type that it is computed in. -/
theorem tag_of_arithmetic? (hResult : arithmetic? op w a b = some (.ok c)) :
    c.tag = .ofWidth w := by
  cases w <;> obtain ⟨z, rfl⟩ := exists_of_onNumbers?_eq_ok hResult <;> rfl

end Primitive

namespace Value

variable {a b wideA wideB : Value} {w : Width}

/-- Widened values compare in the same way. -/
theorem compareAs?_of_widen? (hA : a.widen? w = some wideA) (hB : b.widen? w = some wideB) :
    wideA.compareAs? w wideB = a.compareAs? w b := by
  cases w with
  | int => rw [eq_of_widen?_int hA, eq_of_widen?_int hB]
  | long | float | double =>
      obtain ⟨x, hX, rfl⟩ := Option.map_eq_some_iff.mp hA
      obtain ⟨y, hY, rfl⟩ := Option.map_eq_some_iff.mp hB
      unfold compareAs?
      rw [hX, hY]
      rfl

/-- Two numbers have the order of the values they are widened to. -/
theorem order?_of_widen? (hCommon : a.tag.commonWidth? b.tag = some w)
    (hA : a.widen? w = some wideA) (hB : b.widen? w = some wideB) :
    wideA.order? wideB = a.order? b := by
  rw [order?_of_commonWidth? (commonWidth?_of_widen? hA hB), compareAs?_of_widen? hA hB,
    order?_of_commonWidth? hCommon]

end Value

namespace Operator

open Value

variable {a b wideA wideB : Value} {w : Width} {op : Operator}

/-- An arithmetic operator evaluates to the same on widened operands: to a value of their type,
unless a whole number is divided by zero. -/
theorem evaluate_of_isArithmetic_widened (hOp : op.isArithmetic = true)
    (hCommon : a.tag.commonWidth? b.tag = some w) (hA : a.widen? w = some wideA)
    (hB : b.widen? w = some wideB) :
    op.evaluate [wideA, wideB] = op.evaluate [a, b] ∧
      ((∃ c, op.evaluate [a, b] = .ok c ∧ c.tag = .ofWidth w) ∨
        op.evaluate [a, b] = .error (.divisionByZero op)) := by
  have hSame : ∀ outcome, Primitive.arithmetic? op w a b = some outcome →
      op.evaluate [a, b] = outcome ∧ op.evaluate [wideA, wideB] = outcome := by
    intro outcome hRun
    refine ⟨evaluate_of_isArithmetic hOp hCommon hRun, ?_⟩
    rw [← Primitive.arithmetic?_of_widen? hA hB] at hRun
    exact evaluate_of_isArithmetic hOp (commonWidth?_of_widen? hA hB) hRun
  rcases Primitive.arithmetic?_cases hOp hCommon with ⟨-, c, hRun⟩ | ⟨-, hRun⟩
  · obtain ⟨hOutcome, hWide⟩ := hSame _ hRun
    exact ⟨hWide.trans hOutcome.symm, Or.inl ⟨c, hOutcome, Primitive.tag_of_arithmetic? hRun⟩⟩
  · obtain ⟨hOutcome, hWide⟩ := hSame _ hRun
    exact ⟨hWide.trans hOutcome.symm, Or.inr hOutcome⟩

/-- **Numbers can be widened before an operator is evaluated.**  Two numbers are promoted to the same
type, whichever comes first, and both can be brought to it.  Arithmetic, orders and equality evaluate
to the same, or fail in the same way, on the numbers as they are and on the widened ones; and the
result of arithmetic, which fails only on a zero divisor, has the type of the promotion. -/
theorem evaluate_widened {u v : Width} (hA : a.tag.width? = some u) (hB : b.tag.width? = some v) :
    ∃ k wideA wideB,
    a.tag.promote? b.tag = some (.ofWidth k) ∧ b.tag.promote? a.tag = some (.ofWidth k) ∧
    (a.widen? k = some wideA ∧ wideA.tag = .ofWidth k) ∧
    (b.widen? k = some wideB ∧ wideB.tag = .ofWidth k) ∧
    (∀ op : Operator,
      op.isArithmetic = true ∨ op.isOrdering = true ∨ op = equals ∨ op = notEquals →
      op.evaluate [a, b] = op.evaluate [wideA, wideB]) ∧
    ∀ op : Operator, op.isArithmetic = true →
      (∃ c, op.evaluate [a, b] = .ok c ∧ c.tag = .ofWidth k) ∨
        op.evaluate [a, b] = .error (.divisionByZero op) := by
  have hCommon : a.tag.commonWidth? b.tag = some (u.wider v) := by
    rw [Tag.commonWidth?, hA, hB]
  obtain ⟨hReadA, hReadB⟩ := readable_of_commonWidth? hCommon
  obtain ⟨wideA, hWideA⟩ := exists_widen? hReadA
  obtain ⟨wideB, hWideB⟩ := exists_widen? hReadB
  refine ⟨u.wider v, wideA, wideB, Tag.promote?_of_commonWidth? hCommon,
    Tag.promote?_of_commonWidth? (by rw [Tag.commonWidth?_comm, hCommon]),
    ⟨hWideA, tag_of_widen? hWideA⟩, ⟨hWideB, tag_of_widen? hWideB⟩, ?_,
    fun op hOp => (evaluate_of_isArithmetic_widened hOp hCommon hWideA hWideB).2⟩
  obtain ⟨order, hOrder⟩ := exists_order?_of_commonWidth? hCommon
  have hWide : wideA.order? wideB = some order := by
    rw [order?_of_widen? hCommon hWideA hWideB, hOrder]
  rintro op (hOp | hOp | rfl | rfl)
  · exact (evaluate_of_isArithmetic_widened hOp hCommon hWideA hWideB).1.symm
  · rw [evaluate_of_order? hOp hOrder, evaluate_of_order? hOp hWide]
  · rw [evaluate_equals_of_order? hOrder, evaluate_equals_of_order? hWide]
  · rw [evaluate_notEquals_of_order? hOrder, evaluate_notEquals_of_order? hWide]

/-- A number of type `long` that no `float` stands for is rounded before it is compared with one. -/
theorem evaluate_widened_rounded :
    equals.evaluate [.long 16777217, .float 16777216.0] =
      equals.evaluate [.float (16777217 : Int64).toFloat32, .float 16777216.0] := by
  obtain ⟨k, wideA, wideB, hPromote, -, ⟨hA, -⟩, ⟨hB, -⟩, hSame, -⟩ :=
    evaluate_widened (a := .long 16777217) (b := .float 16777216.0) rfl rfl
  obtain rfl : k = .float := by
    cases k with
    | float => rfl
    | _ => cases hPromote
  cases hA
  cases hB
  exact hSame equals (Or.inr (Or.inr (Or.inl rfl)))

end Operator

end LateBinding
