/-
# Arguments of a method

jemu's `parse_slot` (specification, 9).

An argument is written `KIND:VALUE`, or `null` for the null reference.

| kind | value |
| --- | --- |
| `int`, `long` | an integer |
| `float`, `double` | a floating-point number |
| `bool` | `true` or `false` |
| `str` | any text |
-/

import MethodMachine.Decimal.Literal
import MethodMachine.HostValue

namespace MethodMachine

/-- Why a text is not an argument. -/
inductive ArgumentError where
  | noKind (argument : String)
  | invalidValue (kind value : String) (reason : LiteralError)
  | unknownKind (kind : String)
deriving DecidableEq

namespace ArgumentError

/-- The error in words. -/
def message : ArgumentError → String
  | noKind argument => "expected KIND:VALUE, got '" ++ argument ++ "'"
  | invalidValue kind value reason =>
    "invalid " ++ kind ++ " value '" ++ value ++ "': " ++ reason.message
  | unknownKind kind => "unknown argument kind '" ++ kind ++ "'"

end ArgumentError

namespace Argument

/-- The texts before and after the first colon. -/
def splitKind? (text : String) : Option (String × String) :=
  match text.toList.dropWhile (· ≠ ':') with
  | [] => none
  | _ :: value => some (String.ofList (text.toList.takeWhile (· ≠ ':')), String.ofList value)

/-- Reads an argument of a kind. -/
def readKind (kind value : String) : Except ArgumentError HostValue :=
  let check {α : Type} (read : Except LiteralError α) (make : α → HostValue) :
      Except ArgumentError HostValue :=
    match read with
    | .ok a => .ok (make a)
    | .error reason => .error (.invalidValue kind value reason)
  if kind = "int" then check (Literal.readInt value) .int
  else if kind = "long" then check (Literal.readLong value) .long
  else if kind = "float" then check (Literal.readFloating .single value) .float
  else if kind = "double" then check (Literal.readFloating .double value) .double
  else if kind = "bool" then check (Literal.readTruthValue value) .boolean
  else if kind = "str" then .ok (.text value)
  else .error (.unknownKind kind)

/-- Reads an argument (`parse_slot`). -/
def read (text : String) : Except ArgumentError HostValue :=
  if text = "null" then .ok (.nullable none)
  else
    match splitKind? text with
    | none => .error (.noKind text)
    | some (kind, value) => readKind kind value

end Argument

end MethodMachine
