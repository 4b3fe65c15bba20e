/-!
# Binary interchange formats

A floating-point number of a binary format is stored as a word: a sign bit, a biased exponent and a
fraction.  `Format.decode` reads a word as an exact number `significand * 2 ^ exponent`, and
`Format.encode` writes such a number back.  The order of numbers is read off the words themselves:
without its sign bit a word grows with the size of the number it stands for.
-/

namespace LateBinding.Binary

/-- A binary format, given by the widths of its two fields after the sign bit. -/
structure Format where
  exponentBits : Nat
  fractionBits : Nat

/-- The format of 32-bit numbers. -/
def single : Format := ⟨8, 23⟩

/-- The format of 64-bit numbers. -/
def double : Format := ⟨11, 52⟩

/-- What a word stands for; a finite number is `significand * 2 ^ exponent`, with a sign. -/
inductive Number where
  | nan
  | infinite (negative : Bool)
  | finite (negative : Bool) (significand : Nat) (exponent : Int)
deriving DecidableEq

namespace Format

/-- The exponent of the smallest positive number, which all subnormal numbers share. -/
def leastExponent (fmt : Format) : Int :=
  2 - Nat.pow 2 (fmt.exponentBits - 1) - fmt.fractionBits

/-- The word of positive infinity: its exponent field holds ones and its fraction is zero. -/
def infinity (fmt : Format) : Nat :=
  (Nat.pow 2 fmt.exponentBits - 1) * Nat.pow 2 fmt.fractionBits

/-- The value of the sign bit. -/
def signBit (fmt : Format) : Nat :=
  Nat.pow 2 (fmt.exponentBits + fmt.fractionBits)

/-- The word without its sign bit. -/
def magnitude (fmt : Format) (word : Nat) : Nat :=
  word % fmt.signBit

/-- Whether the sign bit of the word is set. -/
def isNegative (fmt : Format) (word : Nat) : Bool :=
  fmt.signBit ≤ word

/-- Whether the word stands for no number. -/
def isNaN (fmt : Format) (word : Nat) : Bool :=
  fmt.infinity < fmt.magnitude word

/-- The exact number that a word stands for. -/
def decode (fmt : Format) (word : Nat) : Number :=
  let negative := fmt.isNegative word
  let fraction := word % Nat.pow 2 fmt.fractionBits
  let biased := fmt.magnitude word / Nat.pow 2 fmt.fractionBits
  if fmt.isNaN word then .nan
  else if fmt.magnitude word = fmt.infinity then .infinite negative
  else if biased = 0 then .finite negative fraction fmt.leastExponent
  else .finite negative (Nat.pow 2 fmt.fractionBits + fraction) (fmt.leastExponent + biased - 1)

/-- The word of `significand * 2 ^ exponent`, for a significand that fits the format and an exponent
not below the least one. -/
def encode (fmt : Format) (negative : Bool) (significand : Nat) (exponent : Int) : Nat :=
  let room := fmt.fractionBits - significand.log2
  let shift := min room (exponent - fmt.leastExponent).toNat
  let scaled := significand * Nat.pow 2 shift
  let biased := (exponent - shift - fmt.leastExponent).toNat
  let size := if significand = 0 then 0 else biased * Nat.pow 2 fmt.fractionBits + scaled
  if negative then fmt.signBit + size else size

/-- The place of a word in the order of numbers: its magnitude with its sign.  Both zeros have place
0, and a word that stands for no number has no place. -/
def place? (fmt : Format) (word : Nat) : Option Int :=
  if fmt.isNaN word then none
  else if fmt.isNegative word then some (-(fmt.magnitude word : Int))
  else some (fmt.magnitude word)

/-- How two words compare as numbers; words without a place do not compare. -/
def compare? (fmt : Format) (a b : Nat) : Option Ordering :=
  match fmt.place? a, fmt.place? b with
  | some x, some y => some (compare x y)
  | _, _ => none

theorem place?_eq_none_iff (fmt : Format) (word : Nat) :
    fmt.place? word = none ↔ fmt.isNaN word = true := by
  unfold place?
  split
  · simp_all
  · split <;> simp_all

theorem compare?_swap (fmt : Format) (a b : Nat) :
    fmt.compare? b a = (fmt.compare? a b).map Ordering.swap := by
  unfold compare?
  cases fmt.place? a <;> cases fmt.place? b <;> simp [Int.compare_swap]

theorem compare?_eq_none_iff (fmt : Format) (a b : Nat) :
    fmt.compare? a b = none ↔ fmt.isNaN a = true ∨ fmt.isNaN b = true := by
  rw [← place?_eq_none_iff, ← place?_eq_none_iff]
  unfold compare?
  cases fmt.place? a <;> cases fmt.place? b <;> simp

end Format

end LateBinding.Binary
