/-
# Hexadecimal text

jemu's `parse_hex` (specification, 9).

Bytes are written as pairs of hexadecimal digits.  Layout is free: blanks are dropped wherever they
stand, and a `#` starts a comment that runs to the end of the line.  What is left is read in pairs;
in a pair, a plus sign may stand for the leading zero.
-/

import MethodMachine.Text.Blank

namespace MethodMachine

/-- Why a text is not hexadecimal. -/
inductive HexError where
  | oddDigits
  | invalidByte (first second : Char)
deriving DecidableEq

namespace HexError

/-- The error in words. -/
def message : HexError → String
  | oddDigits => "odd number of hex digits"
  | invalidByte first second => "invalid hex byte '" ++ String.ofList [first, second] ++ "'"

end HexError

namespace Hex

/-- The text without its comments; `inside` tells whether it starts in one. -/
def withoutComments (inside : Bool) : List Char → List Char
  | [] => []
  | c :: rest =>
    if c = '\n' then c :: withoutComments false rest
    else if inside || c = '#' then withoutComments true rest
    else c :: withoutComments false rest

/-- The characters that count. -/
def significant (text : List Char) : List Char :=
  (withoutComments false text).filter fun c => !Text.isBlank c

/-- The value of a hexadecimal digit of either case. -/
def digit? (c : Char) : Option Nat :=
  if '0' ≤ c ∧ c ≤ '9' then some (c.toNat - 48)
  else if 'a' ≤ c ∧ c ≤ 'f' then some (c.toNat - 87)
  else if 'A' ≤ c ∧ c ≤ 'F' then some (c.toNat - 55)
  else none

/-- The byte that a pair of characters stands for. -/
def byte? (first second : Char) : Option UInt8 :=
  if first = '+' then (digit? second).map UInt8.ofNat
  else do
    let high ← digit? first
    let low ← digit? second
    return UInt8.ofNat (16 * high + low)

/-- The bytes of a text without layout. -/
def readPairs : List Char → Except HexError (List UInt8)
  | [] => .ok []
  | [_] => .error .oddDigits
  | first :: second :: rest =>
    match byte? first second with
    | none => .error (.invalidByte first second)
    | some byte => (readPairs rest).map (byte :: ·)

/-- The bytes of a text (`parse_hex`).  An odd number of characters is refused before any pair is
looked at. -/
def read (text : String) : Except HexError (List UInt8) :=
  let digits := significant text.toList
  if digits.length % 2 = 1 then .error .oddDigits else readPairs digits

end Hex

end MethodMachine
