/-
# Element types of primitive arrays

jemu's `ElementType` and `from_atype` (specification, 3).

| type | code | letter | loaded by | stored by |
| --- | ---: | --- | --- | --- |
| boolean | 4 | `Z` | `baload` | `bastore` |
| char | 5 | `C` | `caload` | `castore` |
| float | 6 | `F` | `faload` | `fastore` |
| double | 7 | `D` | `daload` | `dastore` |
| byte | 8 | `B` | `baload` | `bastore` |
| short | 9 | `S` | `saload` | `sastore` |
| int | 10 | `I` | `iaload` | `iastore` |
| long | 11 | `J` or `L` | `laload` | `lastore` |
-/

import MethodMachine.Floating.Format
import MethodMachine.Opcode

namespace MethodMachine

/-- The type of the elements of a primitive array. -/
inductive ElementType where
  | boolean
  | byte
  | char
  | short
  | int
  | long
  | float
  | double
deriving DecidableEq

namespace ElementType

/-- The name of the type. -/
def name : ElementType → String
  | boolean => "boolean"
  | byte => "byte"
  | char => "char"
  | short => "short"
  | int => "int"
  | long => "long"
  | float => "float"
  | double => "double"

/-- The type that an operand of `newarray` names, by its code or by its letter (`from_atype`). -/
def ofCode? (code : UInt8) : Option ElementType :=
  match code.toNat with
  | 4 | 90 => some boolean
  | 5 | 67 => some char
  | 6 | 70 => some float
  | 7 | 68 => some double
  | 8 | 66 => some byte
  | 9 | 83 => some short
  | 10 | 73 => some int
  | 11 | 74 | 76 => some long
  | _ => none

/-- The opcode that loads elements of the type. -/
def loadOpcode : ElementType → Opcode
  | int => 0x2E
  | long => 0x2F
  | float => 0x30
  | double => 0x31
  | boolean => 0x33
  | byte => 0x33
  | char => 0x34
  | short => 0x35

/-- The opcode that stores elements of the type. -/
def storeOpcode : ElementType → Opcode
  | int => 0x4F
  | long => 0x50
  | float => 0x51
  | double => 0x52
  | boolean => 0x54
  | byte => 0x54
  | char => 0x55
  | short => 0x56

/-- The values an array of the type holds. -/
abbrev Value : ElementType → Type
  | boolean => Bool
  | byte => Int8
  | char => UInt16
  | short => Int16
  | int => Int32
  | long => Int64
  | float => Single
  | double => Double

instance (t : ElementType) : DecidableEq t.Value :=
  match t with
  | boolean => inferInstanceAs (DecidableEq Bool)
  | byte => inferInstanceAs (DecidableEq Int8)
  | char => inferInstanceAs (DecidableEq UInt16)
  | short => inferInstanceAs (DecidableEq Int16)
  | int => inferInstanceAs (DecidableEq Int32)
  | long => inferInstanceAs (DecidableEq Int64)
  | float => inferInstanceAs (DecidableEq Single)
  | double => inferInstanceAs (DecidableEq Double)

/-- What a new array is filled with. -/
def zero : (t : ElementType) → t.Value
  | boolean => false
  | byte => (0 : Int8)
  | char => (0 : UInt16)
  | short => (0 : Int16)
  | int => (0 : Int32)
  | long => (0 : Int64)
  | float => Floating.zero .single false
  | double => Floating.zero .double false

end ElementType

end MethodMachine
