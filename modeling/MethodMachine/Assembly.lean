/-
# Assembly

jemu's `CodeBuilder` with `Label`, `Fixup` and `BuildError` (specification, 6).

Method code is written by a builder (`CodeBuilder`), one call after the other; a program is the list
of the calls (`Directive`).  A builder holds the bytes so far, the addresses of the labels that are
bound, a note (`Fixup`) of every branch whose distance is still to be written, and the first error:

| call | bytes | and |
| --- | --- | --- |
| `op`, `op_u8`, `op_i8`, `op_i16`, `iinc` | the opcode and its operands | |
| `bytes` | as they are | |
| `bind` | none | the label gets the address reached so far; an error if it had one |
| `branch` | the opcode, and zeros in place of the distance | a note for the distance |

A branch may come before its label is bound, so distances are filled in at the end (`build`).  The
error comes first, if there is one.  Then the notes are gone through in order: the distance from the
opcode to the label's address is written over the zeros after the opcode, in four bytes for `goto_w`
and `jsr_w` and in two for every other opcode.  The first note whose label is not bound, or whose
distance does not fit, is an error.
-/

import MethodMachine.Code
import MethodMachine.Opcode

namespace MethodMachine

/-- A name for an address. -/
abbrev Label := UInt16

/-- A call to a builder, by the method of `CodeBuilder` that it calls. -/
inductive Directive where
  /-- an opcode alone -/
  | op (opcode : Opcode)
  /-- an opcode and an unsigned byte -/
  | opByte (opcode : Opcode) (operand : UInt8)
  /-- an opcode and a signed byte -/
  | opSignedByte (opcode : Opcode) (operand : Int8)
  /-- an opcode and a signed 16-bit number -/
  | opShort (opcode : Opcode) (operand : Int16)
  /-- an increment of a local -/
  | increment (index : UInt8) (delta : Int8)
  /-- bytes as they are -/
  | raw (bytes : List UInt8)
  /-- the address of a label -/
  | bind (label : Label)
  /-- an opcode and the distance to a label -/
  | branch (opcode : Opcode) (label : Label)
deriving DecidableEq

/-- The calls made to a builder, in order. -/
abbrev Program := List Directive

/-- Why a program cannot be assembled (`BuildError`). -/
inductive AssemblyError where
  | unboundLabel (label : Label)
  | duplicateLabel (label : Label)
  | distanceOutOfRange (origin target : Nat)
deriving DecidableEq

namespace AssemblyError

/-- The error in words. -/
def message : AssemblyError → String
  | unboundLabel label => "label " ++ label.toNat.repr ++ " is never bound"
  | duplicateLabel label => "label " ++ label.toNat.repr ++ " is bound more than once"
  | distanceOutOfRange origin target =>
    "branch from " ++ origin.repr ++ " to " ++ target.repr ++ " does not fit the offset operand"

end AssemblyError

namespace Code

/-- Writes bytes over those that stand at an address and after it. -/
def overwrite (code : Code) (address : Nat) : List UInt8 → Code
  | [] => code
  | b :: rest => overwrite (code.setIfInBounds address b) (address + 1) rest

end Code

/-- A note that a distance is still to be written. -/
structure Fixup where
  /-- the address of the branch opcode, from which the distance is counted -/
  origin : Nat
  label : Label
  wide : Bool
deriving DecidableEq

namespace Fixup

/-- The number of bytes that the distance takes. -/
def width (fixup : Fixup) : Nat := if fixup.wide then 4 else 2

end Fixup

/-- Labels with the addresses they are bound to.  The latest entry stands first and is the one that
is found, so binding a label again replaces its address. -/
abbrev LabelTable := List (Label × Nat)

/-- The state of a builder (`CodeBuilder`). -/
structure Builder where
  /-- the bytes so far, with zeros where a distance is still to be written -/
  code : Code
  labels : LabelTable
  /-- the branches so far, in order -/
  fixups : Array Fixup
  /-- the first error -/
  error : Option AssemblyError

namespace Builder

/-- A builder to which no call has been made. -/
def new : Builder := ⟨#[], [], #[], none⟩

/-- Appends bytes. -/
def append (b : Builder) (bytes : List UInt8) : Builder := { b with code := b.code ++ bytes }

/-- Gives a label the address reached so far.  Only the first label that had an address before is
remembered as an error. -/
def bind (b : Builder) (label : Label) : Builder :=
  let again := (b.labels.lookup label).isSome
  { b with
    labels := (label, b.code.size) :: b.labels
    error := if again && b.error.isNone then some (.duplicateLabel label) else b.error }

/-- Appends a branch, with zeros in place of the distance. -/
def branch (b : Builder) (opcode : Opcode) (label : Label) : Builder :=
  let fixup : Fixup := ⟨b.code.size, label, opcode.isWideBranch⟩
  { b with
    fixups := b.fixups.push fixup
    code := b.code.push opcode ++ Array.replicate fixup.width 0 }

/-- The call that a directive is. -/
def call (b : Builder) : Directive → Builder
  | .op opcode => b.append [opcode]
  | .opByte opcode operand => b.append [opcode, operand]
  | .opSignedByte opcode operand => b.append [opcode, operand.toUInt8]
  | .opShort opcode operand => b.append (opcode :: bigEndian 2 operand.toInt)
  | .increment index delta => b.append [0x84, index, delta.toUInt8]
  | .raw bytes => b.append bytes
  | .bind label => b.bind label
  | .branch opcode label => b.branch opcode label

/-- The calls of a program, one after the other. -/
def calls (b : Builder) (program : Program) : Builder := program.foldl call b

/-- Writes the distance of a branch over its zeros. -/
def patch (labels : LabelTable) (code : Code) (fixup : Fixup) : Except AssemblyError Code :=
  match labels.lookup fixup.label with
  | none => .error (.unboundLabel fixup.label)
  | some target =>
    let distance : Int := target - fixup.origin
    if -(wordCount fixup.width) ≤ 2 * distance ∧ 2 * distance < wordCount fixup.width then
      .ok (code.overwrite (fixup.origin + 1) (bigEndian fixup.width distance))
    else .error (.distanceOutOfRange fixup.origin target)

/-- The finished code. -/
def build (b : Builder) : Except AssemblyError Code :=
  match b.error with
  | some e => .error e
  | none => b.fixups.foldlM (patch b.labels) b.code

end Builder

namespace Program

/-- The code that a builder gives for the calls of a program. -/
def assemble (program : Program) : Except AssemblyError Code := (Builder.new.calls program).build

end Program

end MethodMachine
