import LateBinding.Decimal.Layout
import LateBinding.Text.Quoted

/-!
# Literals

The constants that a program can spell out, and how they are spelled.
-/

namespace LateBinding

/-- A constant of the program text. -/
inductive Literal where
  | null
  | bool (value : Bool)
  | int (value : Int32)
  | long (value : Int64)
  | float (value : Float32)
  | double (value : Float)
  | text (value : String)
deriving DecidableEq

namespace Literal

/-- Numbers of the program text never use a power of ten, and whole ones have no fraction digit. -/
def numberLayout : Decimal.Layout where
  isPositional := fun _ => true
  keepsFraction := false

/-- The spelling of a literal: `L` marks a long integer and `F` a single-width number, and text is
quoted. -/
def spelling : Literal → String
  | null => "null"
  | bool b => if b then "true" else "false"
  | int i => toString i.toInt
  | long i => toString i.toInt ++ "L"
  | float x => numberLayout.text Binary.single x.toBits.toNat ++ "F"
  | double x => numberLayout.text Binary.double x.toBits.toNat
  | text s => Text.quote s

end Literal

end LateBinding
