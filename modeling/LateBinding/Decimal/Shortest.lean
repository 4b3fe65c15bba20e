import LateBinding.Binary.Format

/-!
# The shortest decimal of a binary number

Every decimal of the interval around `significand * 2 ^ exponent` that rounds to it reads back as
that number.  The shortest of them lies on the coarsest grid `10 ^ e` that has a point in the
interval; of the points on that grid the nearest is taken, and the larger of two equally near ones.
-/

namespace LateBinding

/-- The decimal number `digits * 10 ^ exponent`. -/
structure Decimal where
  digits : Nat
  exponent : Int
deriving DecidableEq

namespace Decimal

/-- The interval of the reals that round to a binary number, in quarters of its unit: the number is
`4 * significand`, and the ends belong to the interval exactly when the significand is even. -/
structure Interval where
  significand : Nat
  exponent : Int
  below : Nat
  above : Nat

namespace Interval

/-- The interval of a positive number of a format.  The gap below a power of two is half as wide as
the gap above it, unless the number is among the smallest. -/
def ofNumber (fmt : Binary.Format) (significand : Nat) (exponent : Int) : Interval where
  significand := significand
  exponent := exponent
  below := if significand = Nat.pow 2 fmt.fractionBits ∧ fmt.leastExponent < exponent then 1 else 2
  above := 2

/-- Whether `point` units of the grid lie in the interval, everything scaled to whole numbers:
`unit` is one step of the grid and `quarter` a quarter of the binary unit. -/
def contains (i : Interval) (unit quarter point : Nat) : Bool :=
  let low := (4 * i.significand - i.below) * quarter
  let high := (4 * i.significand + i.above) * quarter
  let value := point * unit
  if i.significand % 2 = 0 then low ≤ value && value ≤ high else low < value && value < high

/-- The nearest point of the grid `10 ^ e` inside the interval, if there is one. -/
def nearest? (i : Interval) (e : Int) : Option Nat :=
  let unit := Nat.pow 10 e.toNat * Nat.pow 2 (2 - i.exponent).toNat
  let quarter := Nat.pow 10 (-e).toNat * Nat.pow 2 (i.exponent - 2).toNat
  let value := 4 * i.significand * quarter
  let point := value / unit
  let rest := value % unit
  let lower := i.contains unit quarter point
  let upper := i.contains unit quarter (point + 1)
  if upper && (!lower || unit ≤ 2 * rest) then some (point + 1)
  else if lower then some point
  else none

/-- Tries `steps` grids, each ten times as fine as the one before, from `10 ^ e` on. -/
def search (i : Interval) : Nat → Int → Decimal
  | 0, e => ⟨0, e⟩
  | steps + 1, e =>
      match i.nearest? e with
      | some point => ⟨point, e⟩
      | none => i.search steps (e - 1)

/-- An exponent of ten above every point of the interval: a bit is worth less than 0.30103 decimal
digits. -/
def topExponent (i : Interval) : Int :=
  (i.significand.log2 + i.exponent + 2) * 30103 / 100000 + 1

end Interval

/-- The shortest decimal that reads back as the positive number `significand * 2 ^ exponent` of a
format.  A grid as fine as the binary unit has a point in the interval, and one step of the search
is worth more than a bit, so the search ends before its steps do. -/
def shortest (fmt : Binary.Format) (significand : Nat) (exponent : Int) : Decimal :=
  let interval := Interval.ofNumber fmt significand exponent
  interval.search (significand.log2 + 8) interval.topExponent

end Decimal

end LateBinding
