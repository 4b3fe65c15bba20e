import LateBinding.Dispatch.Runtime
import LateBinding.Proofs.Value.Primitive

/-!
# Evaluating operators

To evaluate an operator is to choose a primitive for the types of the operands and to run it on them.
Here the choice and the run are put together once, so that the laws of operators can be stated about
operands and outcomes alone.

* `Operator.evaluate` - the outcome of an operator; it is what every runtime looks up and runs for
  the operator (`Runtime.resolve_invoke_operator`).
* `evaluate_of_isArithmetic`, `evaluate_of_isOrdering`, `evaluate_texts`, `evaluate_equals`,
  `evaluate_notEquals`, `evaluate_negate` - what each family of operators does on its operands.
-/

namespace LateBinding

open Dispatch (DispatchError Runtime)

namespace Tag

/-- A text has no numeric type in common with anything. -/
theorem ne_text_of_commonWidth? {a b : Tag} {w : Width} (hCommon : a.commonWidth? b = some w) :
    a ≠ .text := by
  rintro rfl
  cases hCommon

end Tag

namespace Operator

/-- The outcome of an operator: the primitive for the types of the operands is chosen and run. -/
def evaluate (op : Operator) (operands : List Value) : Except DispatchError Value :=
  match op.primitive? (Value.tags operands) with
  | some p => p.apply operands
  | none => .error (op.undefinedOn operands)

/-! ### The choice -/

theorem primitive?_of_isArithmetic {op : Operator} (hOp : op.isArithmetic = true)
    (left right : Tag) : op.primitive? [left, right] = op.arithmeticPrimitive? left right := by
  cases op with
  | plus | minus | times | divide | modulo => rfl
  | _ => cases hOp

theorem primitive?_of_isOrdering {op : Operator} (hOp : op.isOrdering = true) (left right : Tag) :
    op.primitive? [left, right] = op.orderPrimitive? left right := by
  cases op with
  | less | lessOrEquals | more | moreOrEquals => rfl
  | _ => cases hOp

/-! ### The outcome -/

/-- The outcome of an operator is the answer of the primitive that is chosen for it. -/
theorem evaluate_eq {op : Operator} {operands : List Value} {p : Primitive}
    {outcome : Except DispatchError Value} (hChosen : op.primitive? (Value.tags operands) = some p)
    (hRun : p.run? operands = some outcome) : op.evaluate operands = outcome := by
  rw [evaluate, hChosen]
  show (p.run? operands).getD _ = outcome
  rw [hRun, Option.getD_some]

/-- Two numbers are computed with in their common type. -/
theorem evaluate_of_isArithmetic {op : Operator} {a b : Value} {w : Width}
    {outcome : Except DispatchError Value} (hOp : op.isArithmetic = true)
    (hCommon : a.tag.commonWidth? b.tag = some w)
    (hRun : Primitive.arithmetic? op w a b = some outcome) : op.evaluate [a, b] = outcome := by
  refine evaluate_eq (p := .arithmetic op w) ?_ hRun
  show op.primitive? [a.tag, b.tag] = _
  rw [primitive?_of_isArithmetic hOp, arithmeticPrimitive?, hCommon]

/-- Two numbers are put in order in their common type. -/
theorem evaluate_of_isOrdering {op : Operator} {a b : Value} {w : Width} {order : Option Ordering}
    (hOp : op.isOrdering = true) (hCommon : a.tag.commonWidth? b.tag = some w)
    (hCompare : a.compareAs? w b = some order) :
    op.evaluate [a, b] = .ok (.bool (op.holds order)) := by
  refine evaluate_eq (p := .numberOrder op w) ?_ ?_
  · show op.primitive? [a.tag, b.tag] = _
    rw [primitive?_of_isOrdering hOp, orderPrimitive?, hCommon]
    simp [Tag.ne_text_of_commonWidth? hCommon]
  · rw [Primitive.run?, hCompare, Option.map_some]

/-- Two texts are put in order character by character. -/
theorem evaluate_texts {op : Operator} (hOp : op.isOrdering = true) (s t : String) :
    op.evaluate [.text s, .text t] = .ok (.bool (op.holds (some (compare s t)))) := by
  refine evaluate_eq (p := .textOrder op) ?_ rfl
  show op.primitive? [.text, .text] = _
  rw [primitive?_of_isOrdering hOp]
  rfl

theorem evaluate_equals (a b : Value) :
    equals.evaluate [a, b] = .ok (.bool (a.looselyEqual b)) := by
  rw [evaluate_eq (p := .equality false) rfl rfl, Bool.bne_false]

theorem evaluate_notEquals (a b : Value) :
    notEquals.evaluate [a, b] = .ok (.bool !a.looselyEqual b) := by
  rw [evaluate_eq (p := .equality true) rfl rfl, Bool.bne_true]

/-- A number is negated in its own type. -/
theorem evaluate_negate {a v : Value} {w : Width} (hWidth : a.tag.width? = some w)
    (hNegated : Primitive.negated? a = some v) : negate.evaluate [a] = .ok v := by
  refine evaluate_eq (p := .negation w) ?_ ?_
  · show a.tag.width?.map Primitive.negation = _
    rw [hWidth, Option.map_some]
  · rw [Primitive.run?, hNegated, Option.map_some]

end Operator

/-- Every runtime looks up and runs for an operator what the operator evaluates to. -/
theorem Dispatch.Runtime.resolve_invoke_operator (rt : Runtime) (op : Operator)
    (operands : List Value) :
    (rt.resolve (.operator op) operands >>= fun target => target.invoke operands) =
      op.evaluate operands := by
  rw [resolve, Operator.evaluate]
  cases op.primitive? (Value.tags operands) <;> rfl

end LateBinding
