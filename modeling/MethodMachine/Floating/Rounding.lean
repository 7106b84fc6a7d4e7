/-
# Rounding an exact quotient to a format

The rounding of every operation of jemu on floats and doubles.

Every inexact operation of this library computes its result exactly, as a quotient of naturals, and
rounds once: to the nearest number of the format, a tie to the one with the even code.

With `2 ^ e` the last place of the result, the nearest multiple `m · 2 ^ e` has the code
`(e - least) · 2 ^ p + m`.  The sum needs no case distinction: a subnormal `m` has `e = least`, and
an `m` that rounds up to `2 ^ (p + 1)` carries into the exponent field by itself.
-/

import MethodMachine.Floating.Format

namespace MethodMachine

/-- The integer nearest to `num / den`, a tie to the even one. -/
def nearestEven (num den : Nat) : Nat :=
  let quotient := num / den
  let twice := 2 * (num % den)
  if twice < den then quotient
  else if den < twice then quotient + 1
  else quotient + quotient % 2

/-- The `e` with `2 ^ e ≤ num / den < 2 ^ (e + 1)`, for positive `num` and `den`. -/
def binade (num den : Nat) : Int :=
  let e : Int := num.log2 - den.log2
  if den <<< e.toNat ≤ num <<< (-e).toNat then e else e - 1

namespace Floating

/-- The number of the format nearest to `± num / den`, a tie to the even code. -/
def ofRatio (fmt : Format) (negative : Bool) (num den : Nat) : Floating fmt :=
  if num = 0 then zero fmt negative
  else
    let e := max fmt.leastExponent (binade num den - fmt.fractionBits)
    let m := nearestEven (num <<< (-e).toNat) (den <<< e.toNat)
    ofCode fmt negative
      (min fmt.infinityCode ((e - fmt.leastExponent).toNat <<< fmt.fractionBits + m))

/-- The number of the format nearest to `± m · 2 ^ e`. -/
def ofDyadic (fmt : Format) (negative : Bool) (m : Nat) (e : Int) : Floating fmt :=
  ofRatio fmt negative (m <<< e.toNat) (1 <<< (-e).toNat)

/-- The number of the format nearest to an integer. -/
def ofInt (fmt : Format) (n : Int) : Floating fmt := ofRatio fmt (n < 0) n.natAbs 1

end Floating

end MethodMachine
