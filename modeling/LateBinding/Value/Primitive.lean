import LateBinding.Binary.Remainder
import LateBinding.Dispatch.Error
import LateBinding.Text.Repeated
import LateBinding.Value.Comparison

/-!
# What operators do

The types of the operands choose a primitive for an operator, and the primitive is then run on the
operands.  Numbers are brought to the wider of their types first; whole numbers wrap around, and
numbers with a fraction follow the binary formats.  Text joins with anything, and is repeated by a
whole number.
-/

namespace LateBinding

open Dispatch (DispatchError)

/-- What an operator does with operands of certain types. -/
inductive Primitive where
  | arithmetic (op : Operator) (width : Width)
  | concatenation
  | repetition
  | numberOrder (op : Operator) (width : Width)
  | textOrder (op : Operator)
  | equality (negated : Bool)
  | identity (negated : Bool)
  | orIfNull
  | not
  | negation (width : Width)
deriving DecidableEq, Repr

/-- The largest size of a repeated text, in bytes. -/
def repeatLimit : Nat := Nat.pow 2 24

namespace Operator

/-- The primitive of an operation that computes with two operands. -/
def arithmeticPrimitive? (op : Operator) (left right : Tag) : Option Primitive :=
  match left.commonWidth? right with
  | some w => some (.arithmetic op w)
  | none =>
      if op.isAdditive && (left = .text || right = .text) then some .concatenation
      else if op = .times && left = .text && right = .int then some .repetition
      else none

/-- The primitive of an operation that asks which of two operands comes first. -/
def orderPrimitive? (op : Operator) (left right : Tag) : Option Primitive :=
  if left = .text && right = .text then some (.textOrder op)
  else (left.commonWidth? right).map (.numberOrder op)

/-- The primitive of an operator for operands of given types, if the operator is defined on them. -/
def primitive? (op : Operator) (operands : List Tag) : Option Primitive :=
  match op, operands with
  | not, [.bool] => some .not
  | negate, [operand] => operand.width?.map .negation
  | equals, [_, _] => some (.equality false)
  | notEquals, [_, _] => some (.equality true)
  | is, [_, _] => some (.identity false)
  | isnt, [_, _] => some (.identity true)
  | orIfNull, [_, _] => some .orIfNull
  | op, [left, right] =>
      if op.isArithmetic then op.arithmeticPrimitive? left right
      else if op.isOrdering then op.orderPrimitive? left right
      else none
  | _, _ => none

/-- Whether an ordering operator holds of operands that compare in a certain way; operands that do
not compare satisfy none. -/
def holds (op : Operator) : Option Ordering → Bool
  | none => false
  | some order =>
      match op with
      | less => order = .lt
      | lessOrEquals => order ≠ .gt
      | more => order = .gt
      | moreOrEquals => order ≠ .lt
      | _ => false

/-- The failure of an operator that is not defined on its operands. -/
def undefinedOn (op : Operator) : List Value → DispatchError
  | [operand] => .undefinedUnary op operand.typeName
  | [left, right] => .undefinedBinary op left.typeName right.typeName
  | operands => .wrongArity op.symbol op.arity operands.length

end Operator

namespace Primitive

/-- Arithmetic on whole numbers of a fixed width.  The quotient is rounded towards zero and the
remainder has the sign of the dividend; only a zero divisor fails. -/
def integerArithmetic? {α : Type} [Add α] [Sub α] [Mul α] [Div α] [Mod α] [OfNat α 0] [DecidableEq α]
    (op : Operator) (a b : α) : Option (Except DispatchError α) :=
  match op with
  | .plus => some (.ok (a + b))
  | .minus => some (.ok (a - b))
  | .times => some (.ok (a * b))
  | .divide => some (if b = 0 then .error (.divisionByZero op) else .ok (a / b))
  | .modulo => some (if b = 0 then .error (.divisionByZero op) else .ok (a % b))
  | _ => none

/-- Arithmetic on numbers with a fraction, which never fails. -/
def fractionArithmetic? {α : Type} [Add α] [Sub α] [Mul α] [Div α] (remainder : α → α → α)
    (op : Operator) (a b : α) : Option (Except DispatchError α) :=
  match op with
  | .plus => some (.ok (a + b))
  | .minus => some (.ok (a - b))
  | .times => some (.ok (a * b))
  | .divide => some (.ok (a / b))
  | .modulo => some (.ok (remainder a b))
  | _ => none

/-- The remainder of two single-width numbers. -/
def remainderFloat32 (x y : Float32) : Float32 :=
  Float32.ofBits (Binary.single.remainder x.toBits.toNat y.toBits.toNat).toUInt32

/-- The remainder of two double-width numbers. -/
def remainderFloat (x y : Float) : Float :=
  Float.ofBits (Binary.double.remainder x.toBits.toNat y.toBits.toNat).toUInt64

/-- Runs an operation on two operands that are first read as numbers of one type, and makes its
result a value of that type. -/
def onNumbers? {α : Type} (read : Value → Option α) (make : α → Value)
    (run : α → α → Option (Except DispatchError α)) (a b : Value) :
    Option (Except DispatchError Value) :=
  match read a, read b with
  | some x, some y => (run x y).map fun result => result.map make
  | _, _ => none

/-- Arithmetic in a numeric type. -/
def arithmetic? (op : Operator) (w : Width) (a b : Value) : Option (Except DispatchError Value) :=
  match w with
  | .int => onNumbers? Value.toInt32? .int (integerArithmetic? op) a b
  | .long => onNumbers? Value.toInt64? .long (integerArithmetic? op) a b
  | .float => onNumbers? Value.toFloat32? .float (fractionArithmetic? remainderFloat32 op) a b
  | .double => onNumbers? Value.toFloat? .double (fractionArithmetic? remainderFloat op) a b

/-- A text repeated a number of times, a negative number counting as none, unless the result would
be too large. -/
def repeatText (s : String) (count : Int32) : Except DispatchError Value :=
  let times := count.toInt.toNat
  if s.utf8ByteSize * times ≤ repeatLimit then .ok (.text (Text.repeated s times))
  else .error (.repeatTooLarge s.utf8ByteSize count repeatLimit)

/-- The negative of a number, in the number's own type. -/
def negated? : Value → Option Value
  | .int i => some (.int (-i))
  | .long i => some (.long (-i))
  | .float x => some (.float (-x))
  | .double x => some (.double (-x))
  | _ => none

/-- The operator that a primitive belongs to. -/
def operator : Primitive → Operator
  | arithmetic op _ | numberOrder op _ | textOrder op => op
  | concatenation => .plus
  | repetition => .times
  | equality negated => if negated then .notEquals else .equals
  | identity negated => if negated then .isnt else .is
  | orIfNull => .orIfNull
  | not => .not
  | negation _ => .negate

/-- Runs a primitive; there is no answer when the operands are not what it works on. -/
def run? : Primitive → List Value → Option (Except DispatchError Value)
  | arithmetic op w, [a, b] => arithmetic? op w a b
  | concatenation, [a, b] => some (.ok (.text (a.toText ++ b.toText)))
  | repetition, [.text s, .int count] => some (repeatText s count)
  | numberOrder op w, [a, b] => (a.compareAs? w b).map fun order => .ok (.bool (op.holds order))
  | textOrder op, [.text s, .text t] => some (.ok (.bool (op.holds (some (compare s t)))))
  | equality negated, [a, b] => some (.ok (.bool (a.looselyEqual b != negated)))
  | identity negated, [a, b] => some (.ok (.bool (a.identical b != negated)))
  | orIfNull, [a, b] => some (.ok (if a.isNull then b else a))
  | not, [.bool b] => some (.ok (.bool !b))
  | negation _, [a] => (negated? a).map .ok
  | _, _ => none

/-- Runs a primitive on any operands. -/
def apply (p : Primitive) (operands : List Value) : Except DispatchError Value :=
  (p.run? operands).getD (.error (p.operator.undefinedOn operands))

end Primitive

end LateBinding
