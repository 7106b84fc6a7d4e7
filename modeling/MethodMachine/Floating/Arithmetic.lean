/-
# Floating-point operations

The operations behind jemu's `float_arith`, `convert` and `percentile`.

Each operation is given on the data its operands stand for: finite operands are combined exactly
and rounded once, the other combinations by the table of the format's rules.

| operation | not a number when |
| --- | --- |
| `x + y` | infinities of opposite signs |
| `x * y` | zero times infinity |
| `x / y` | zero by zero, infinity by infinity |
| `x % y` | `x` infinite or `y` zero |

and whenever an operand is not a number.  The sign of an exact zero sum is negative only if both
operands are negative; a remainder has the sign of its dividend.
-/

import MethodMachine.Floating.Rounding

namespace MethodMachine

/-- An integer given by sign and magnitude. -/
def signed (negative : Bool) (magnitude : Nat) : Int := if negative then -magnitude else magnitude

namespace Floating

variable {fmt : Format}

/-- Flips the sign bit. -/
def neg (x : Floating fmt) : Floating fmt := ofCode fmt (!x.negative) x.code

/-- The exact sum, rounded. -/
def add (x y : Floating fmt) : Floating fmt :=
  match x.datum, y.datum with
  | .nan, _ => nan fmt
  | _, .nan => nan fmt
  | .infinite s, .infinite t => if s = t then infinity fmt s else nan fmt
  | .infinite s, .finite .. => infinity fmt s
  | .finite .., .infinite t => infinity fmt t
  | .finite s m e, .finite t n k =>
    let low := min e k
    let sum := signed s (m <<< (e - low).toNat) + signed t (n <<< (k - low).toNat)
    if sum = 0 then zero fmt (s && t) else ofDyadic fmt (sum < 0) sum.natAbs low

/-- The exact product, rounded. -/
def mul (x y : Floating fmt) : Floating fmt :=
  match x.datum, y.datum with
  | .nan, _ => nan fmt
  | _, .nan => nan fmt
  | .infinite s, .infinite t => infinity fmt (s != t)
  | .infinite s, .finite t n _ => if n = 0 then nan fmt else infinity fmt (s != t)
  | .finite s m _, .infinite t => if m = 0 then nan fmt else infinity fmt (s != t)
  | .finite s m e, .finite t n k => ofDyadic fmt (s != t) (m * n) (e + k)

/-- The exact quotient, rounded. -/
def div (x y : Floating fmt) : Floating fmt :=
  match x.datum, y.datum with
  | .nan, _ => nan fmt
  | _, .nan => nan fmt
  | .infinite _, .infinite _ => nan fmt
  | .infinite s, .finite t _ _ => infinity fmt (s != t)
  | .finite s _ _, .infinite t => zero fmt (s != t)
  | .finite s m e, .finite t n k =>
    if n = 0 then if m = 0 then nan fmt else infinity fmt (s != t)
    else ofRatio fmt (s != t) (m <<< (e - k).toNat) (n <<< (k - e).toNat)

/-- The remainder of the division truncated toward zero, which is exact. -/
def rem (x y : Floating fmt) : Floating fmt :=
  match x.datum, y.datum with
  | .nan, _ => nan fmt
  | _, .nan => nan fmt
  | .infinite _, _ => nan fmt
  | .finite .., .infinite _ => x
  | .finite s m e, .finite _ n k =>
    if n = 0 then nan fmt
    else
      let low := min e k
      ofDyadic fmt s (m <<< (e - low).toNat % n <<< (k - low).toNat) low

instance : Neg (Floating fmt) := ⟨neg⟩
instance : Add (Floating fmt) := ⟨add⟩
instance : Sub (Floating fmt) := ⟨fun x y => add x (neg y)⟩
instance : Mul (Floating fmt) := ⟨mul⟩
instance : Div (Floating fmt) := ⟨div⟩
instance : Mod (Floating fmt) := ⟨rem⟩

/-- The code with the sign applied: numbers stand in the order of their keys, both zeros at `0`. -/
def key (x : Floating fmt) : Int := signed x.negative x.code

/-- The order of two numbers; none when either is not a number. -/
def compare (x y : Floating fmt) : Option Ordering :=
  if x.isNaN || y.isNaN then none else some (Ord.compare x.key y.key)

/-- Equality of values: a zero equals the zero of the other sign, and what is not a number equals
nothing. -/
def sameValue (x y : Floating fmt) : Bool := x.compare y = some .eq

/-- The same value in another format, rounded. -/
def convert (target : Format) (x : Floating fmt) : Floating target :=
  match x.datum with
  | .nan => nan target
  | .infinite s => infinity target s
  | .finite s m e => ofDyadic target s m e

/-- `n` moved into `[low, high]`. -/
def clamp (low high n : Int) : Int := max low (min high n)

/-- The integer toward zero, moved into `[low, high]`; `0` for what is not a number. -/
def truncate (low high : Int) (x : Floating fmt) : Int :=
  match x.datum with
  | .nan => 0
  | .infinite s => if s then low else high
  | .finite s m e => clamp low high (signed s (m <<< e.toNat >>> (-e).toNat))

/-- The least integer not below the value, moved into `[low, high]`; `0` for what is not a
number. -/
def ceiling (low high : Int) (x : Floating fmt) : Int :=
  match x.datum with
  | .nan => 0
  | .infinite s => if s then low else high
  | .finite s m e => clamp low high (-(-signed s (m <<< e.toNat) / (1 <<< (-e).toNat : Nat)))

/-- The nearest integer, a half away from zero; the sign of the operand stays. -/
def roundHalfAway (x : Floating fmt) : Floating fmt :=
  match x.datum with
  | .finite s m e =>
    let den := 1 <<< (-e).toNat
    ofDyadic fmt s ((2 * m <<< e.toNat + den) / (2 * den)) 0
  | _ => x

/-- The square root of a number that is not negative, rounded.  One bit below the integer root
tells an exact root from an inexact one, and no tie is possible. -/
def sqrt (x : Floating fmt) : Floating fmt :=
  match x.datum with
  | .nan => nan fmt
  | .infinite s => if s then nan fmt else x
  | .finite s m e =>
    if m = 0 then x
    else if s then nan fmt
    else
      let scale := fmt.fractionBits + 2 + (e % 2).toNat
      let wide := m <<< (2 * scale + (e % 2).toNat)
      let root := integerRoot wide.log2 wide
      let sticky := if root * root = wide then 0 else 1
      ofDyadic fmt false (2 * root + sticky) (e / 2 - scale - 1)
where
  /-- The integer square root of `n`, its bits found from bit `k` down. -/
  integerRoot (k n : Nat) : Nat :=
    (List.range (k + 1)).foldr
      (fun i root =>
        let next := root + 1 <<< i
        if next * next ≤ n then next else root)
      0

end Floating

end MethodMachine
