/-
# The shortest decimal that reads back

The digits that jemu's `write_float` and `write_list` start from.

A finite magnitude `v` with `10 ^ (k - 1) ≤ v < 10 ^ k` is written with the fewest digits from which
rounding gives it back.  For `n = 1, 2, …` digits the two neighbours of `v` on the grid of multiples
of `10 ^ (k - n)` are tried; the first grid on which one of them reads back is taken.  If both do,
the nearer one is the answer, and the upper one when `v` lies in the middle.

Seventeen digits suffice for the formats in use.  A value that no grid served would be written
exactly, so that every answer reads back, whatever the format.
-/

import MethodMachine.Decimal.Basic

namespace MethodMachine

namespace Floating

variable {fmt : Format}

/-- The numerator of a finite magnitude as a quotient of naturals. -/
def num (x : Floating fmt) : Nat := x.significand <<< x.exponent.toNat

/-- The denominator of a finite magnitude as a quotient of naturals. -/
def den (x : Floating fmt) : Nat := 1 <<< (-x.exponent).toNat

/-- The `k` with `10 ^ (k - 1) ≤ v < 10 ^ k`, for a positive finite magnitude `v`. -/
def decimalTop (x : Floating fmt) : Int :=
  let k : Int := Decimal.digitCount x.num - Decimal.digitCount x.den
  if x.num * Nat.pow 10 (-k).toNat < x.den * Nat.pow 10 k.toNat then k else k + 1

/-- Whether rounding the decimal gives the magnitude of `x`. -/
def readsBack (x : Floating fmt) (d : Decimal) : Bool := (ofDecimal fmt false d).code = x.code

/-- The better neighbour of `x` with `n` digits, if one of them reads back. -/
def neighbour? (x : Floating fmt) (n : Nat) : Option Decimal :=
  let place := x.decimalTop - n
  let num := x.num * Nat.pow 10 (-place).toNat
  let den := x.den * Nat.pow 10 place.toNat
  let below : Decimal := ⟨num / den, place⟩
  let above : Decimal := ⟨num / den + 1, place⟩
  match x.readsBack below, x.readsBack above with
  | true, true => some (if 2 * (num % den) < den then below else above)
  | true, false => some below
  | false, true => some above
  | false, false => none

/-- The magnitude written exactly: `m · 2 ^ e` is `m · 5 ^ (-e) · 10 ^ e` for negative `e`. -/
def exactDecimal (x : Floating fmt) : Decimal :=
  ⟨x.num * Nat.pow 5 (-x.exponent).toNat, -(-x.exponent).toNat⟩

/-- The decimal a finite magnitude is written as. -/
def shortest (x : Floating fmt) : Decimal :=
  ((List.range 17).findSome? fun n => x.neighbour? (n + 1)).getD x.exactDecimal

end Floating

end MethodMachine
