import LateBinding.Decimal.Shortest

/-!
# Layouts of decimal numbers

A layout says how a number that is stored in binary is written: which sizes are written with a
decimal point and which with a power of ten, and whether a whole number keeps a fraction digit.
-/

namespace LateBinding.Decimal

/-- How numbers are written. -/
structure Layout where
  /-- Whether a number whose leading digit is worth `10 ^ e` is written without a power of ten. -/
  isPositional : Int → Bool
  /-- Whether a whole number that is written without a power of ten ends in `.0`. -/
  keepsFraction : Bool

/-- The digits of a natural number. -/
def digitsOf (n : Nat) : List Char :=
  Nat.toDigits 10 n

/-- A decimal in positional form. -/
def positional (d : Decimal) (keepsFraction : Bool) : String :=
  let digits := digitsOf d.digits
  let fraction (cs : List Char) : List Char :=
    if cs.isEmpty then (if keepsFraction then ['.', '0'] else []) else '.' :: cs
  if 0 ≤ d.exponent then
    String.ofList (digits ++ List.replicate d.exponent.toNat '0' ++ fraction [])
  else
    let places := (-d.exponent).toNat
    let padded := List.replicate (places + 1 - digits.length) '0' ++ digits
    let whole := padded.length - places
    String.ofList (padded.take whole ++ fraction (padded.drop whole))

/-- The exponent of the leading digit of a decimal. -/
def leadingExponent (d : Decimal) : Int :=
  d.exponent + (digitsOf d.digits).length - 1

/-- A decimal as one digit, the others after a point, and a power of ten. -/
def scientific (d : Decimal) : String :=
  let exponent := toString d.leadingExponent
  match digitsOf d.digits with
  | [] => ""
  | [c] => String.ofList [c, 'e'] ++ exponent
  | c :: cs => String.ofList (c :: '.' :: cs) ++ "e" ++ exponent

/-- The text of a number that is not negative, given by its shortest decimal. -/
def Layout.magnitude (layout : Layout) (d : Decimal) : String :=
  if d.digits = 0 || layout.isPositional d.leadingExponent then d.positional layout.keepsFraction
  else d.scientific

/-- The text of the number that a word of a binary format stands for. -/
def Layout.text (layout : Layout) (fmt : Binary.Format) (word : Nat) : String :=
  let sign (negative : Bool) : String := if negative then "-" else ""
  match fmt.decode word with
  | .nan => "NaN"
  | .infinite negative => sign negative ++ "inf"
  | .finite negative significand exponent =>
      let d := if significand = 0 then ⟨0, 0⟩ else shortest fmt significand exponent
      sign negative ++ layout.magnitude d

end LateBinding.Decimal
