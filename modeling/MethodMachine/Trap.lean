/-
# Traps

jemu's `Trap`, `ErrorKind`, `SlotKind` and `OpName` (specification, 7).

A trap is the reason an operation of the machine cannot be carried out.  Traps fall into five
categories: something outside its bounds, a value of the wrong type, an operation that the state of
the machine forbids, an opcode that the machine does not execute, and arithmetic.
-/

import MethodMachine.ElementType
import MethodMachine.Decimal.Layout

namespace MethodMachine

/-- What a slot can hold. -/
inductive SlotKind where
  | empty
  | boolean
  | int
  | long
  | float
  | double
  | reference
deriving DecidableEq

namespace SlotKind

/-- The name of the kind. -/
def name : SlotKind → String
  | empty => "empty"
  | boolean => "boolean"
  | int => "int"
  | long => "long"
  | float => "float"
  | double => "double"
  | reference => "reference"

end SlotKind

/-- Why an operation cannot be carried out. -/
inductive Trap where
  | stackUnderflow
  | localIndexOutOfBounds (index : Nat)
  | arrayIndexOutOfBounds (index : Int32) (length : Nat)
  | negativeArraySize (length : Int32)
  | codeOutOfBounds (pc : Nat)
  | branchOutOfBounds (origin : Nat) (target : Int64)
  | typeMismatch (expected found : SlotKind)
  | arrayTypeMismatch (opcode : Opcode) (element : ElementType)
  | notAnArray (opcode : Opcode)
  | nullReference (opcode : Opcode)
  | unknownArrayType (code : UInt8)
  | notAReturnAddress (index : Nat)
  | unsupportedObject
  | stackNotEmpty (count : Nat)
  | nestedSlot
  | wideOperand (opcode : Opcode)
  | alreadyReturned
  | unknownOpcode (opcode : Opcode)
  | reservedOpcode (opcode : Opcode)
  | divideByZero
deriving DecidableEq

/-- The families of traps (`ErrorKind`). -/
inductive TrapCategory where
  | bounds
  | typeMismatch
  | invalidState
  | unknownOpcode
  | arithmetic
deriving DecidableEq

namespace TrapCategory

/-- The name of the category. -/
def name : TrapCategory → String
  | bounds => "bounds"
  | typeMismatch => "type mismatch"
  | invalidState => "invalid state"
  | unknownOpcode => "unknown opcode"
  | arithmetic => "arithmetic"

end TrapCategory

namespace Trap

/-- The category of a trap. -/
def category : Trap → TrapCategory
  | stackUnderflow => .bounds
  | localIndexOutOfBounds _ => .bounds
  | arrayIndexOutOfBounds .. => .bounds
  | negativeArraySize _ => .bounds
  | codeOutOfBounds _ => .bounds
  | branchOutOfBounds .. => .bounds
  | typeMismatch .. => .typeMismatch
  | arrayTypeMismatch .. => .typeMismatch
  | notAnArray _ => .typeMismatch
  | nullReference _ => .typeMismatch
  | unknownArrayType _ => .typeMismatch
  | notAReturnAddress _ => .typeMismatch
  | unsupportedObject => .typeMismatch
  | stackNotEmpty _ => .invalidState
  | nestedSlot => .invalidState
  | wideOperand _ => .invalidState
  | alreadyReturned => .invalidState
  | unknownOpcode _ => .unknownOpcode
  | reservedOpcode _ => .unknownOpcode
  | divideByZero => .arithmetic

/-- The trap in words. -/
def message : Trap → String
  | stackUnderflow => "stack underflow"
  | localIndexOutOfBounds index => "local index out of bounds: " ++ index.repr
  | arrayIndexOutOfBounds index length =>
    "array index " ++ integerText index.toInt ++ " out of bounds for length " ++ length.repr
  | negativeArraySize length => "negative array size: " ++ integerText length.toInt
  | codeOutOfBounds pc => "code out of bounds at pc " ++ pc.repr
  | branchOutOfBounds origin target =>
    "branch from pc " ++ origin.repr ++ " to " ++ integerText target.toInt ++ " is out of bounds"
  | typeMismatch expected found =>
    "type mismatch: expected " ++ expected.name ++ ", found " ++ found.name
  | arrayTypeMismatch opcode element =>
    opcode.text ++ " cannot access a " ++ element.name ++ " array"
  | notAnArray opcode => opcode.text ++ " operand is not an array"
  | nullReference opcode => "null reference in " ++ opcode.text
  | unknownArrayType code => "unknown array type: " ++ code.toNat.repr
  | notAReturnAddress index => "local " ++ index.repr ++ " does not hold a return address"
  | unsupportedObject => "value cannot be held in a slot"
  | stackNotEmpty count => "stack not empty on return: " ++ count.repr ++ " slots"
  | nestedSlot => "a slot cannot hold another slot"
  | wideOperand opcode => opcode.text ++ " cannot operate on a wide value here"
  | alreadyReturned => "frame has already returned"
  | unknownOpcode opcode => "unknown opcode: " ++ opcode.text
  | reservedOpcode opcode => "reserved opcode: " ++ opcode.text
  | divideByZero => "divide by zero"

end Trap

end MethodMachine
