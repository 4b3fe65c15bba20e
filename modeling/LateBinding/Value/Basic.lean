import LateBinding.Decimal.Layout
import LateBinding.Value.Tag

/-!
# Values

The values that a program computes with.  An object is one of a kind: it equals itself and nothing
else, and its serial number tells it apart from objects with the same class and fields.
-/

namespace LateBinding

/-- A value of a running program. -/
inductive Value where
  | null
  | bool (b : Bool)
  | int (i : Int32)
  | long (i : Int64)
  | float (x : Float32)
  | double (x : Float)
  | text (s : String)
  | object (serial : Nat) (cls : ClassId) (className : String) (fields : List Value)

namespace Value

/-- The type of a value. -/
def tag : Value → Tag
  | null => .null
  | bool _ => .bool
  | int _ => .int
  | long _ => .long
  | float _ => .float
  | double _ => .double
  | text _ => .text
  | object _ cls _ _ => .object cls

/-- The types of several values, in order. -/
def tags (vs : List Value) : List Tag :=
  vs.map tag

/-- The name of a value's type as messages show it. -/
def typeName : Value → String
  | object _ _ className _ => className
  | v => v.tag.name

/-- Whether a value is null. -/
def isNull : Value → Bool
  | null => true
  | _ => false

/-- A field of an object; no other value has fields. -/
def field? : Value → Nat → Option Value
  | object _ _ _ fields, i => fields[i]?
  | _, _ => none

/-- The number of an `int`. -/
def toInt32? : Value → Option Int32
  | int i => some i
  | _ => none

/-- The number of a whole-number value, as a `long`. -/
def toInt64? : Value → Option Int64
  | int i => some i.toInt64
  | long i => some i
  | _ => none

/-- The number of any numeric value but a `double`, rounded to a `float`. -/
def toFloat32? : Value → Option Float32
  | int i => some i.toFloat32
  | long i => some i.toFloat32
  | float x => some x
  | _ => none

/-- The number of any numeric value, rounded to a `double`. -/
def toFloat? : Value → Option Float
  | int i => some i.toFloat
  | long i => some i.toFloat
  | float x => some x.toFloat
  | double x => some x
  | _ => none

/-- The text of a text value. -/
def toText? : Value → Option String
  | text s => some s
  | _ => none

/-- Computed numbers have a fraction digit, and a power of ten below 0.0001 and from 10 ^ 16 on. -/
def numberLayout : Decimal.Layout where
  isPositional := fun e => -4 ≤ e && e < 16
  keepsFraction := true

mutual

/-- The text that a value turns into where text is wanted; an object shows its class and, if it has
any, its fields. -/
def toText : Value → String
  | null => "null"
  | bool b => if b then "true" else "false"
  | int i => toString i.toInt
  | long i => toString i.toInt
  | float x => numberLayout.text Binary.single x.toBits.toNat
  | double x => numberLayout.text Binary.double x.toBits.toNat
  | text s => s
  | object _ _ className fields =>
      match fields with
      | [] => className
      | v :: rest => className ++ "(" ++ v.toText ++ restText rest ++ ")"

/-- The texts of the fields after the first, a comma before each. -/
def restText : List Value → String
  | [] => ""
  | v :: rest => ", " ++ v.toText ++ restText rest

end

@[simp] theorem tag_int (i : Int32) : (int i).tag = .int := rfl

@[simp] theorem tag_long (i : Int64) : (long i).tag = .long := rfl

@[simp] theorem tag_float (x : Float32) : (float x).tag = .float := rfl

@[simp] theorem tag_double (x : Float) : (double x).tag = .double := rfl

@[simp] theorem tag_text (s : String) : (text s).tag = .text := rfl

@[simp] theorem tags_length (vs : List Value) : (tags vs).length = vs.length := by
  simp [tags]

end Value

end LateBinding
