/-!
# Types of values

Every value carries a tag that tells its type when the program runs.  Four of the types are numeric,
from the narrowest to the widest, and an operation on two numbers is done in the wider of their
types.
-/

namespace LateBinding

/-- The number of a class. -/
structure ClassId where
  index : Nat
deriving DecidableEq, Repr

/-- A class number as it is written in messages. -/
def ClassId.text (id : ClassId) : String :=
  "#" ++ toString id.index

/-- A numeric type. -/
inductive Width where
  | int
  | long
  | float
  | double
deriving DecidableEq, Repr

namespace Width

/-- The place of a numeric type in the order of widening. -/
def rank : Width → Nat
  | int => 0
  | long => 1
  | float => 2
  | double => 3

/-- The wider of two numeric types. -/
def wider (v w : Width) : Width :=
  if w.rank ≤ v.rank then v else w

/-- The name, which tells all numeric types apart. -/
def name : Width → String
  | int => "Int"
  | long => "Long"
  | float => "Float"
  | double => "Double"

theorem rank_injective {v w : Width} (h : v.rank = w.rank) : v = w := by
  cases v <;> cases w <;> simp_all [rank]

theorem wider_comm (v w : Width) : v.wider w = w.wider v := by
  cases v <;> cases w <;> rfl

@[simp] theorem wider_self (w : Width) : w.wider w = w := by
  cases w <;> rfl

end Width

/-- The type of a value. -/
inductive Tag where
  | null
  | bool
  | int
  | long
  | float
  | double
  | text
  | object (cls : ClassId)
deriving DecidableEq, Repr

namespace Tag

/-- The numeric type that a tag stands for, if it does. -/
def width? : Tag → Option Width
  | int => some .int
  | long => some .long
  | float => some .float
  | double => some .double
  | _ => none

/-- The tag of a numeric type. -/
def ofWidth : Width → Tag
  | .int => int
  | .long => long
  | .float => float
  | .double => double

/-- The numeric type in which an operation on two numbers is done. -/
def commonWidth? (a b : Tag) : Option Width :=
  match a.width?, b.width? with
  | some v, some w => some (v.wider w)
  | _, _ => none

/-- The wider of two numeric types, as a tag. -/
def promote? (a b : Tag) : Option Tag :=
  (a.commonWidth? b).map ofWidth

/-- The name of a type; a class shows only its number. -/
def name : Tag → String
  | null => "null"
  | bool => "bool"
  | int => "int"
  | long => "long"
  | float => "float"
  | double => "double"
  | text => "string"
  | object cls => "object " ++ cls.text

@[simp] theorem width?_ofWidth (w : Width) : (ofWidth w).width? = some w := by
  cases w <;> rfl

theorem width?_eq_some_iff (t : Tag) (w : Width) : t.width? = some w ↔ t = ofWidth w := by
  cases t <;> cases w <;> simp [width?, ofWidth]

theorem commonWidth?_comm (a b : Tag) : a.commonWidth? b = b.commonWidth? a := by
  unfold commonWidth?
  cases a.width? <;> cases b.width? <;> simp [Width.wider_comm]

end Tag

end LateBinding
