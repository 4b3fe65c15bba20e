import LateBinding.Binary.Format

/-!
# The remainder of a division

The remainder of two finite numbers is exact: both are whole multiples of one power of two, and the
remainder of the two multiples is the answer, with the sign of the dividend.
-/

namespace LateBinding.Binary.Format

/-- The word of the remainder of `a` divided by `b`, for the quotient rounded towards zero.  A zero
divisor and an infinite dividend leave no number; an infinite divisor leaves the dividend. -/
def remainder (fmt : Format) (a b : Nat) : Nat :=
  match fmt.decode a, fmt.decode b with
  | .finite negative m p, .finite _ n q =>
      if n = 0 then fmt.infinity + 1
      else
        let exponent := min p q
        let multiple := m * Nat.pow 2 (p - exponent).toNat
        let divisor := n * Nat.pow 2 (q - exponent).toNat
        fmt.encode negative (multiple % divisor) exponent
  | .finite _ _ _, .infinite _ => a
  | _, _ => fmt.infinity + 1

end LateBinding.Binary.Format
