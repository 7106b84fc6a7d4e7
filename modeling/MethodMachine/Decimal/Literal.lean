/-
# Reading numbers

The numbers that jemu's `parse_slot` and `Args` read.

| kind | accepted |
| --- | --- |
| integer | an optional `+` or `-`, then one or more digits |
| floating-point | an optional sign, then `inf`, `infinity` or `nan` in any case, or a numeral |
| numeral | one or more digits with at most one `.` among them, then an optional exponent |
| exponent | `e` or `E`, an optional sign, then one or more digits |
| truth value | `true` or `false` |

An integer is read from left to right.  The first digit that takes it out of range is reported as
such, and so is the first character that is no digit: whichever comes first.  A numeral is rounded
to the nearest number of its format; an exponent of more than five digits keeps the leading ones,
which is enough to make the result an infinity or a zero.
-/

import MethodMachine.Decimal.Basic

namespace MethodMachine

/-- Why a text is not a value of the kind asked for. -/
inductive LiteralError where
  | emptyInteger
  | invalidDigit
  | tooLarge
  | tooSmall
  | emptyFloating
  | invalidFloating
  | notTruthValue
deriving DecidableEq

namespace LiteralError

/-- The reason in words. -/
def message : LiteralError → String
  | emptyInteger => "cannot parse integer from empty string"
  | invalidDigit => "invalid digit found in string"
  | tooLarge => "number too large to fit in target type"
  | tooSmall => "number too small to fit in target type"
  | emptyFloating => "cannot parse float from empty string"
  | invalidFloating => "invalid float literal"
  | notTruthValue => "provided string was not `true` or `false`"

end LiteralError

namespace Literal

/-- The value of a digit character. -/
def digitValue (c : Char) : Nat := c.toNat - '0'.toNat

/-- Reads digits on top of the value read so far, up to a limit. -/
def readDigits (limit : Nat) (beyond : LiteralError) : Nat → List Char → Except LiteralError Nat
  | value, [] => .ok value
  | value, c :: rest =>
    if !c.isDigit then .error .invalidDigit
    else
      let next := 10 * value + digitValue c
      if next ≤ limit then readDigits limit beyond next rest else .error beyond

/-- Reads one or more digits after a sign. -/
def readMagnitude (limit : Nat) (beyond : LiteralError) : List Char → Except LiteralError Nat
  | [] => .error .invalidDigit
  | digits => readDigits limit beyond 0 digits

/-- Reads an integer between `-low` and `high`. -/
def readInteger (low high : Nat) : List Char → Except LiteralError Int
  | [] => .error .emptyInteger
  | '-' :: rest => (readMagnitude low .tooSmall rest).map fun n => -(n : Int)
  | '+' :: rest => (readMagnitude high .tooLarge rest).map fun n => (n : Int)
  | digits => (readMagnitude high .tooLarge digits).map fun n => (n : Int)

/-- Reads an unsigned integer up to `high`: there are no negative ones, so a minus sign is no
digit. -/
def readNatural (high : Nat) : List Char → Except LiteralError Nat
  | [] => .error .emptyInteger
  | '+' :: rest => readMagnitude high .tooLarge rest
  | digits => readMagnitude high .tooLarge digits

/-- Reads a 32-bit integer. -/
def readInt (text : String) : Except LiteralError Int32 :=
  (readInteger (Int32.size / 2) (Int32.size / 2 - 1) text.toList).map Int32.ofInt

/-- Reads a 64-bit integer. -/
def readLong (text : String) : Except LiteralError Int64 :=
  (readInteger (Int64.size / 2) (Int64.size / 2 - 1) text.toList).map Int64.ofInt

/-- The number that a run of digits denotes. -/
def digitsValue (digits : List Char) : Nat := Nat.ofDigitChars 10 digits 0

/-- The number that exponent digits denote.  Digits after the value has reached `65536` are
dropped. -/
def exponentValue (digits : List Char) : Nat :=
  digits.foldl (fun e c => if e < 65536 then 10 * e + digitValue c else e) 0

/-- Reads the digits of an exponent, all of the text. -/
def readExponentDigits? (text : List Char) : Option Nat :=
  if text.isEmpty || !text.all Char.isDigit then none else some (exponentValue text)

/-- Reads what follows the digits of a numeral: nothing, or an exponent. -/
def readExponent? : List Char → Option Int
  | [] => some 0
  | c :: rest =>
    if c = 'e' || c = 'E' then
      match rest with
      | '-' :: digits => (readExponentDigits? digits).map fun e => -(e : Int)
      | '+' :: digits => (readExponentDigits? digits).map fun e => (e : Int)
      | digits => (readExponentDigits? digits).map fun e => (e : Int)
    else none

/-- The digits after a point, and what follows them. -/
def fractionPart : List Char → List Char × List Char
  | '.' :: rest => (rest.takeWhile Char.isDigit, rest.dropWhile Char.isDigit)
  | rest => ([], rest)

/-- Reads a numeral. -/
def readNumeral? (text : List Char) : Option Decimal :=
  let whole := text.takeWhile Char.isDigit
  let (fraction, rest) := fractionPart (text.dropWhile Char.isDigit)
  if whole.isEmpty && fraction.isEmpty then none
  else (readExponent? rest).map fun e => ⟨digitsValue (whole ++ fraction), e - fraction.length⟩

/-- Reads a floating-point number after its sign. -/
def readUnsigned (fmt : Format) (negative : Bool) (text : List Char) :
    Except LiteralError (Floating fmt) :=
  match readNumeral? text with
  | some d => .ok (.ofDecimal fmt negative d)
  | none =>
    let word := text.map Char.toLower
    if word = "inf".toList || word = "infinity".toList then .ok (.infinity fmt negative)
    else if word = "nan".toList then .ok (.nan fmt)
    else .error .invalidFloating

/-- Reads a floating-point number. -/
def readFloating (fmt : Format) (text : String) : Except LiteralError (Floating fmt) :=
  match text.toList with
  | [] => .error .emptyFloating
  | '-' :: rest => readUnsigned fmt true rest
  | '+' :: rest => readUnsigned fmt false rest
  | rest => readUnsigned fmt false rest

/-- Reads a truth value. -/
def readTruthValue (text : String) : Except LiteralError Bool :=
  if text = "true" then .ok true
  else if text = "false" then .ok false
  else .error .notTruthValue

end Literal

end MethodMachine
