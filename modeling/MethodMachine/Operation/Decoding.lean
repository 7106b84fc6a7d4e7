/-
# Decoding an operation

jemu's `decode` of an `Insn`, with `Operands` and `implicit` (specification, 12).

The opcode alone tells the family of an operation and how its immediate operands are encoded; the
bytes after it fill them in.

| encoding | bytes after the opcode |
| --- | --- |
| plain | none |
| constant byte, constant short | a signed byte, a signed 16-bit number |
| indexed | the index of a local, one byte |
| increment | the index of a local and a signed byte |
| array type | a code of an element type |
| branch, wide branch | a signed 16-bit or 32-bit distance from the opcode |
| widened | an opcode, a 16-bit index and, for an increment, a signed 16-bit number |

An operand that the code ends before is a trap, and so is an opcode that the machine does not carry
out.  The operands are read before the traps that depend on them.
-/

import MethodMachine.Code
import MethodMachine.Operation.Basic

namespace MethodMachine

/-- Operations on a local that take its index as an operand. -/
inductive LocalAccess where
  | load (kind : Kind)
  | store (kind : Kind)
  | returnFromSubroutine
deriving DecidableEq

namespace LocalAccess

/-- The operation on the local with an index. -/
def operation : LocalAccess → Nat → Operation
  | load kind, index => .load kind index
  | store kind, index => .store kind index
  | returnFromSubroutine, index => .returnFromSubroutine index

end LocalAccess

/-- What an opcode announces. -/
inductive Encoding where
  | plain (operation : Operation)
  | constantByte
  | constantShort
  | indexed (access : LocalAccess)
  | increment
  | arrayType
  | branch (branch : Branch)
  | wideBranch (branch : Branch)
  | widened
  | reserved
  | unsupported
deriving DecidableEq

namespace Encoding

/-- The kinds in the order of opcodes. -/
def kind : Nat → Kind
  | 0 => .int
  | 1 => .long
  | 2 => .float
  | 3 => .double
  | _ => .reference

/-- The numeric kinds in the order of opcodes. -/
def numericKind : Nat → NumericKind
  | 0 => .int
  | 1 => .long
  | 2 => .float
  | _ => .double

/-- The word kinds in the order of opcodes. -/
def wordKind : Nat → WordKind
  | 0 => .int
  | _ => .long

/-- The shuffles in the order of opcodes. -/
def shuffle : Nat → Shuffle
  | 0 => .pop
  | 1 => .pop2
  | 2 => .dup
  | 3 => .dupX1
  | 4 => .dupX2
  | 5 => .dup2
  | 6 => .dup2X1
  | 7 => .dup2X2
  | _ => .swap

/-- The arithmetic operators in the order of opcodes. -/
def arithmetic : Nat → Arithmetic
  | 0 => .add
  | 1 => .sub
  | 2 => .mul
  | 3 => .div
  | _ => .rem

/-- The shifts in the order of opcodes. -/
def shift : Nat → Shift
  | 0 => .left
  | 1 => .right
  | _ => .unsignedRight

/-- The bitwise operators in the order of opcodes. -/
def bitwise : Nat → Bitwise
  | 0 => .and
  | 1 => .or
  | _ => .xor

/-- The conversions in the order of opcodes: from each kind to the other three. -/
def conversion (n : Nat) : Operation :=
  let source := n / 3
  let target := if n % 3 < source then n % 3 else n % 3 + 1
  .convert (numericKind source) (numericKind target)

/-- The narrowings in the order of opcodes. -/
def narrowing : Nat → Narrowing
  | 0 => .byte
  | 1 => .char
  | _ => .short

/-- The comparisons in the order of opcodes. -/
def comparison : Nat → Comparison
  | 0 => .long
  | 1 => .float (-1)
  | 2 => .float 1
  | 3 => .double (-1)
  | _ => .double 1

/-- The conditions in the order of opcodes. -/
def condition : Nat → Condition
  | 0 => .eq
  | 1 => .ne
  | 2 => .lt
  | 3 => .ge
  | 4 => .gt
  | _ => .le

/-- What an opcode announces.  The tests run through the opcodes in increasing order, so that each
line speaks of the opcodes that no line above it has taken. -/
def ofOpcode (op : Opcode) : Encoding :=
  let n := op.toNat
  if n = 0x00 then plain .nop
  else if n = 0x01 then plain (.push .null)
  else if n < 0x09 then plain (.push (.int (Int32.ofInt (n - 0x03))))
  else if n < 0x0B then plain (.push (.long (Int64.ofNat (n - 0x09))))
  else if n < 0x0E then plain (.push (.float (.ofInt .single (n - 0x0B))))
  else if n < 0x10 then plain (.push (.double (.ofInt .double (n - 0x0E))))
  else if n = 0x10 then constantByte
  else if n = 0x11 then constantShort
  else if n < 0x15 then unsupported
  else if n < 0x1A then indexed (.load (kind (n - 0x15)))
  else if n < 0x2E then plain (.load (kind ((n - 0x1A) / 4)) ((n - 0x1A) % 4))
  else if n < 0x36 then plain (.arrayLoad op)
  else if n < 0x3B then indexed (.store (kind (n - 0x36)))
  else if n < 0x4F then plain (.store (kind ((n - 0x3B) / 4)) ((n - 0x3B) % 4))
  else if n < 0x57 then plain (.arrayStore op)
  else if n < 0x60 then plain (.shuffle (shuffle (n - 0x57)))
  else if n < 0x74 then
    plain (.arithmetic (numericKind ((n - 0x60) % 4)) (arithmetic ((n - 0x60) / 4)))
  else if n < 0x78 then plain (.negate (numericKind (n - 0x74)))
  else if n < 0x7E then plain (.shift (wordKind ((n - 0x78) % 2)) (shift ((n - 0x78) / 2)))
  else if n < 0x84 then plain (.bitwise (wordKind ((n - 0x7E) % 2)) (bitwise ((n - 0x7E) / 2)))
  else if n = 0x84 then increment
  else if n < 0x91 then plain (conversion (n - 0x85))
  else if n < 0x94 then plain (.narrow (narrowing (n - 0x91)))
  else if n < 0x99 then plain (.compare (comparison (n - 0x94)))
  else if n < 0x9F then branch (.onInt (condition (n - 0x99)))
  else if n < 0xA5 then branch (.onIntPair (condition (n - 0x9F)))
  else if n < 0xA7 then branch (.onReferencePair (n = 0xA5))
  else if n = 0xA7 then branch .always
  else if n = 0xA8 then branch .subroutine
  else if n = 0xA9 then indexed .returnFromSubroutine
  else if n < 0xAC then unsupported
  else if n < 0xB1 then plain (.complete (some (kind (n - 0xAC))))
  else if n = 0xB1 then plain (.complete none)
  else if n = 0xBC then arrayType
  else if n = 0xBE then plain .arrayLength
  else if n = 0xC4 then widened
  else if n = 0xC6 ∨ n = 0xC7 then branch (.onNull (n = 0xC6))
  else if n = 0xC8 then wideBranch .always
  else if n = 0xC9 then wideBranch .subroutine
  else if op.isReserved then reserved
  else unsupported

end Encoding

namespace Operation

/-- Reads an operand, if the code is long enough. -/
@[inline] def operand (code : Code) (start count : Nat) : Except Trap Nat :=
  if start + count ≤ code.size then .ok (code.unsigned start count)
  else .error (.codeOutOfBounds code.size)

/-- Reads a signed operand, if the code is long enough. -/
@[inline] def signedOperand (code : Code) (start count : Nat) : Except Trap Int :=
  if start + count ≤ code.size then .ok (code.signed start count)
  else .error (.codeOutOfBounds code.size)

/-- Decodes what follows a `wide` opcode. -/
def decodeWidened (code : Code) (address : Nat) : Except Trap (Operation × Nat) := do
  let inner ← operand code (address + 1) 1
  let index ← operand code (address + 2) 2
  let opcode : Opcode := UInt8.ofNat inner
  match Encoding.ofOpcode opcode with
  | .indexed access => return (access.operation index, address + 4)
  | .increment =>
    let delta ← signedOperand code (address + 4) 2
    return (.increment index (Int32.ofInt delta), address + 6)
  | _ => .error (.unknownOpcode opcode)

/-- The operation that an encoding stands for at an address, and the address after it. -/
@[inline] def decodeAs (code : Code) (address : Nat) (opcode : Opcode) :
    Encoding → Except Trap (Operation × Nat)
  | .plain operation => .ok (operation, address + 1)
  | .constantByte => do
    let value ← signedOperand code (address + 1) 1
    return (.push (.int (Int32.ofInt value)), address + 2)
  | .constantShort => do
    let value ← signedOperand code (address + 1) 2
    return (.push (.int (Int32.ofInt value)), address + 3)
  | .indexed access => do
    let index ← operand code (address + 1) 1
    return (access.operation index, address + 2)
  | .increment => do
    let index ← operand code (address + 1) 1
    let delta ← signedOperand code (address + 2) 1
    return (.increment index (Int32.ofInt delta), address + 3)
  | .arrayType => do
    let type := UInt8.ofNat (← operand code (address + 1) 1)
    match ElementType.ofCode? type with
    | some element => return (.newArray element, address + 2)
    | none => .error (.unknownArrayType type)
  | .branch b => do
    let distance ← signedOperand code (address + 1) 2
    return (.branch b (address + distance), address + 3)
  | .wideBranch b => do
    let distance ← signedOperand code (address + 1) 4
    return (.branch b (address + distance), address + 5)
  | .widened => decodeWidened code address
  | .reserved => .error (.reservedOpcode opcode)
  | .unsupported => .error (.unknownOpcode opcode)

/-- The operation at an address, and the address after it. -/
@[inline] def decode (code : Code) (address : Nat) : Except Trap (Operation × Nat) :=
  match code[address]? with
  | none => .error (.codeOutOfBounds address)
  | some opcode => decodeAs code address opcode (Encoding.ofOpcode opcode)

end Operation

end MethodMachine
