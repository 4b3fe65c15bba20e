import LateBinding.Value.Basic

/-!
# Comparing values

Three relations tell whether two values are the same.  `Value.equal` compares values of one type,
`Value.identical` asks in addition that objects be the same object, and `Value.looselyEqual` compares
two numbers of different types in the wider of them.  Numbers are compared by their place in the
order of their type, in which what is no number has no place.
-/

namespace LateBinding.Value

/-- How two single-width numbers compare. -/
def compareFloat32? (x y : Float32) : Option Ordering :=
  Binary.single.compare? x.toBits.toNat y.toBits.toNat

/-- How two double-width numbers compare. -/
def compareFloat? (x y : Float) : Option Ordering :=
  Binary.double.compare? x.toBits.toNat y.toBits.toNat

/-- Whether two values of one type are equal; values of different types never are. -/
def equal : Value → Value → Bool
  | null, null => true
  | bool a, bool b => a = b
  | int a, int b => a = b
  | long a, long b => a = b
  | float a, float b => compareFloat32? a b = some .eq
  | double a, double b => compareFloat? a b = some .eq
  | text a, text b => a = b
  | object a _ _ _, object b _ _ _ => a = b
  | _, _ => false

instance : BEq Value := ⟨equal⟩

/-- Whether two values are the same object, or equal values of one type. -/
def identical : Value → Value → Bool
  | object a _ _ _, object b _ _ _ => a = b
  | text a, text b => a = b
  | a, b => a == b

/-- How two values compare in a numeric type, if both are numbers of at most that type; the inner
answer is `none` when one of them is no number. -/
def compareAs? (w : Width) (a b : Value) : Option (Option Ordering) :=
  match w with
  | .int | .long =>
      match a.toInt64?, b.toInt64? with
      | some x, some y => some (some (compare x.toInt y.toInt))
      | _, _ => none
  | .float =>
      match a.toFloat32?, b.toFloat32? with
      | some x, some y => some (compareFloat32? x y)
      | _, _ => none
  | .double =>
      match a.toFloat?, b.toFloat? with
      | some x, some y => some (compareFloat? x y)
      | _, _ => none

/-- Whether two values are equal, numbers of different types being compared in the wider one. -/
def looselyEqual (a b : Value) : Bool :=
  match (a.tag.commonWidth? b.tag).bind fun w => compareAs? w a b with
  | some order => order = some .eq
  | none => a == b

end LateBinding.Value
