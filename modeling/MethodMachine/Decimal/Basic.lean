/-
# Decimals

The exact numbers between jemu's `parse_slot` and `write_float` and the binary formats.

A decimal is `coefficient · 10 ^ exponent`, exactly.  It is what a numeral denotes before it is
rounded to a binary format, and what a binary number is written as.

A positive decimal lies in `[10 ^ (top - 1), 10 ^ top)`.  Rounding looks at `top` first, because a
numeral may carry any exponent: from `10 ^ k ≥ 2 ^ k` it follows that a magnitude with
`2 ^ (w - 1) < top` overflows, and from `10 ^ k ≤ 2 ^ k` for `k ≤ 0` that one with `top < least` is
below half of the smallest magnitude.  Between the two the powers of ten are small and the quotient
is rounded exactly.
-/

import MethodMachine.Floating.Rounding

namespace MethodMachine

/-- The number `coefficient · 10 ^ exponent`. -/
structure Decimal where
  coefficient : Nat
  exponent : Int
deriving DecidableEq

namespace Decimal

/-- How many decimal digits a natural number is written with. -/
def digitCount (n : Nat) : Nat := (Nat.toDigits 10 n).length

/-- The power of ten just above a positive decimal. -/
def top (d : Decimal) : Int := digitCount d.coefficient + d.exponent

/-- The numerator of the decimal as a quotient of naturals. -/
def num (d : Decimal) : Nat := d.coefficient * Nat.pow 10 d.exponent.toNat

/-- The denominator of the decimal as a quotient of naturals. -/
def den (d : Decimal) : Nat := Nat.pow 10 (-d.exponent).toNat

theorem den_pos (d : Decimal) : 0 < d.den := Nat.pow_pos (by decide)

end Decimal

namespace Floating

/-- The number of the format nearest to `± d`, a tie to the even code. -/
def ofDecimal (fmt : Format) (negative : Bool) (d : Decimal) : Floating fmt :=
  if d.coefficient = 0 then zero fmt negative
  else if (1 <<< (fmt.exponentBits - 1) : Nat) < d.top then infinity fmt negative
  else if d.top < fmt.leastExponent then zero fmt negative
  else ofRatio fmt negative d.num d.den

end Floating

end MethodMachine
