/-
# Disassembly

jemu's disassembler: `Instruction` with `branch_target`, `DecodeError`, `operand_length`,
`switch_length` and `decode` (specification, 6).

An instruction is an opcode at an offset with the operand bytes after it.  How many there are is
told by the layout of the opcode; a `wide` or a switch is measured by what the code holds there.

With `base` the first multiple of four after a switch opcode:

| switch | words from `base` on |
| --- | --- |
| `tableswitch` | default, `low`, `high`, then `high - low + 1` targets |
| `lookupswitch` | default, `pairs`, then `pairs` pairs of a key and a target |

A negative count stands for an empty table.
-/

import MethodMachine.Code
import MethodMachine.Opcode

namespace MethodMachine

/-- Why code has no instruction at an offset (`DecodeError`). -/
inductive DisassemblyError where
  /-- the byte is not a defined opcode -/
  | unknownOpcode (offset : Nat) (opcode : Opcode)
  /-- the code ends before the operands do -/
  | truncated (offset : Nat) (opcode : Opcode)
deriving DecidableEq

namespace DisassemblyError

/-- The offset the error speaks of. -/
def offset : DisassemblyError → Nat
  | unknownOpcode offset _ => offset
  | truncated offset _ => offset

/-- The error in words. -/
def message : DisassemblyError → String
  | unknownOpcode offset opcode =>
    "unknown opcode " ++ opcode.hexText ++ " at offset " ++ offset.repr
  | truncated offset opcode =>
    "truncated " ++ opcode.name?.getD "?" ++ " instruction at offset " ++ offset.repr

end DisassemblyError

/-- An instruction as it stands in code. -/
structure Instruction where
  offset : Nat
  opcode : Opcode
  operands : List UInt8
deriving DecidableEq

namespace Instruction

/-- The mnemonic. -/
def name (i : Instruction) : String := i.opcode.name?.getD "?"

/-- The bytes of the instruction. -/
def bytes (i : Instruction) : List UInt8 := i.opcode :: i.operands

/-- The number of bytes, the opcode included. -/
def size (i : Instruction) : Nat := 1 + i.operands.length

@[simp] theorem length_bytes (i : Instruction) : i.bytes.length = i.size := by
  simp [bytes, size, Nat.add_comm]

/-- The absolute target of a branch, unless it lies before the code (`branch_target`). -/
def target? (i : Instruction) : Option Nat :=
  if i.opcode.isBranch && (i.operands.length = 2 || i.operands.length = 4) then
    let target := i.offset + signedWord i.operands
    if 0 ≤ target then some target.toNat else none
  else none

end Instruction

namespace Code

/-- Bytes between a switch opcode and the next multiple of four. -/
def switchPadding (offset : Nat) : Nat := (4 - (offset + 1) % 4) % 4

/-- The signed word of four bytes at an address. -/
def word? (code : Code) (start : Nat) : Option Int := (code.slice? start 4).map signedWord

/-- The number of operand bytes that a layout prescribes at an offset, if the code tells; for the
switches this is `switch_length`. -/
def measure? (code : Code) (offset : Nat) : OperandLayout → Option Nat
  | .fixed count => some count
  | .widened => code[offset + 1]?.map fun inner => if inner = 0x84 then 5 else 3
  | .tableSwitch => do
    let base := offset + 1 + switchPadding offset
    let low ← code.word? (base + 4)
    let high ← code.word? (base + 8)
    some (switchPadding offset + 4 * (3 + (high - low + 1).toNat))
  | .lookupSwitch => do
    let base := offset + 1 + switchPadding offset
    let pairs ← code.word? (base + 4)
    some (switchPadding offset + 4 * (2 + 2 * pairs.toNat))

/-- The number of operand bytes of the instruction at an offset (`operand_length`).  There is none
past the end of the code, which is reported as a truncated `nop`. -/
def operandCount (code : Code) (offset : Nat) : Except DisassemblyError Nat :=
  match code[offset]? with
  | none => .error (.truncated offset 0x00)
  | some opcode =>
    match Opcode.layout? opcode with
    | none => .error (.unknownOpcode offset opcode)
    | some layout =>
      match code.measure? offset layout with
      | none => .error (.truncated offset opcode)
      | some count =>
        if offset + 1 + count ≤ code.size then .ok count else .error (.truncated offset opcode)

/-- The instructions from an offset to the end of the code. -/
def disassembleFrom (code : Code) (offset : Nat) : Except DisassemblyError (List Instruction) :=
  if h : offset < code.size then
    match code.operandCount offset with
    | .error e => .error e
    | .ok count =>
      let next := offset + 1 + count
      let instruction := ⟨offset, code[offset], (code.extract (offset + 1) next).toList⟩
      (code.disassembleFrom next).map (instruction :: ·)
  else .ok []
termination_by code.size - offset

/-- The instructions of the code (`decode`). -/
def disassemble (code : Code) : Except DisassemblyError (List Instruction) := code.disassembleFrom 0

end Code

end MethodMachine
