/-
# How numbers are written

jemu's `write_float` for slots and `write_list` for the elements of an array.

Integers are written in decimal with a minus sign in front of negative ones.  Floating-point
numbers are written from the digits `d₁ d₂ …` of their shortest decimal, without trailing zeros, and
the place of the point, so that the magnitude is `0.d₁d₂… · 10 ^ point`.

| magnitude | slot layout | element layout |
| --- | --- | --- |
| whole, small | `4.0` | `4` |
| `[10⁻³, 10⁷)` | `0.001`, `12.5` | `0.001`, `12.5` |
| outside that range | `1.0E20`, `2.5E-4` | plain, with all its zeros |
| infinity | `Infinity` | `inf` |

Both layouts write `NaN`, put a minus sign in front of negative numbers and of the negative zero,
and write a zero as a whole number.
-/

import MethodMachine.Decimal.Shortest

namespace MethodMachine

/-- An integer in decimal. -/
def integerText (n : Int) : String := (if n < 0 then "-" else "") ++ n.natAbs.repr

/-- The decisions of a layout for floating-point numbers. -/
structure Layout where
  /-- the word for a positive infinity -/
  infinity : String
  /-- whether a whole number is given a fraction of one zero -/
  wholeFraction : Bool
  /-- whether magnitudes outside `[10⁻³, 10⁷)` are written with an exponent -/
  exponents : Bool

namespace Layout

/-- The layout of a number that stands alone (`write_float`). -/
def slot : Layout := ⟨"Infinity", true, true⟩

/-- The layout of a number inside an array (`write_list`). -/
def element : Layout := ⟨"inf", false, false⟩

/-- The digits of a decimal from the first one on, without trailing zeros. -/
def significantDigits (d : Decimal) : List Char :=
  ((Nat.toDigits 10 d.coefficient).reverse.dropWhile (· = '0')).reverse

/-- `0.d₁d₂… · 10 ^ point` without an exponent. -/
def plain (wholeFraction : Bool) (digits : List Char) (point : Int) : List Char :=
  if point ≤ 0 then ['0', '.'] ++ List.replicate (-point).toNat '0' ++ digits
  else if digits.length ≤ point then
    digits ++ List.replicate (point - digits.length).toNat '0' ++
      if wholeFraction then ['.', '0'] else []
  else digits.take point.toNat ++ ['.'] ++ digits.drop point.toNat

/-- `0.d₁d₂… · 10 ^ point` as `d₁.d₂…E` and an exponent. -/
def scientific (digits : List Char) (point : Int) : List Char :=
  digits.take 1 ++ ['.'] ++ (if digits.length ≤ 1 then ['0'] else digits.drop 1) ++
    ['E'] ++ (integerText (point - 1)).toList

/-- Whether `10⁻³ ≤ num / den < 10⁷`. -/
def inPlainRange (num den : Nat) : Bool := den ≤ 1000 * num && num < 10000000 * den

variable {fmt : Format}

/-- A finite magnitude. -/
def magnitude (layout : Layout) (x : Floating fmt) : List Char :=
  if x.significand = 0 then plain layout.wholeFraction ['0'] 1
  else
    let d := x.shortest
    if layout.exponents && !inPlainRange x.num x.den then scientific (significantDigits d) d.top
    else plain layout.wholeFraction (significantDigits d) d.top

/-- A floating-point number. -/
def text (layout : Layout) (x : Floating fmt) : String :=
  match x.datum with
  | .nan => "NaN"
  | .infinite s => (if s then "-" else "") ++ layout.infinity
  | .finite s _ _ => (if s then "-" else "") ++ String.ofList (layout.magnitude x)

end Layout

end MethodMachine
