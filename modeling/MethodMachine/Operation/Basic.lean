/-
# Operations

jemu's `Insn` with `Num`, `Width`, `Arith`, `Bits`, `Narrow`, `Cmp` and `Cond` (specification, 12).

An operation is an instruction as the machine carries it out: the family of its opcode, with the
implicit index of `iload_2`, the kind of `lstore` and the absolute target of a branch filled in.
Many opcodes share a family, and many families share a small vocabulary of kinds, arithmetic,
comparisons and conditions.
-/

import MethodMachine.OperandStack

namespace MethodMachine

/-- The numeric kinds, in the order in which opcode families run through them (`Num`). -/
inductive NumericKind where
  | int
  | long
  | float
  | double
deriving DecidableEq

/-- The two kinds that bits can be shifted and combined in (`Width`). -/
inductive WordKind where
  | int
  | long
deriving DecidableEq

/-- Binary arithmetic (`Arith`). -/
inductive Arithmetic where
  | add
  | sub
  | mul
  | div
  | rem
deriving DecidableEq

/-- Shifts. -/
inductive Shift where
  | left
  /-- copies of the sign come in -/
  | right
  /-- zeros come in -/
  | unsignedRight
deriving DecidableEq

/-- Bitwise combinations. -/
inductive Bitwise where
  | and
  | or
  | xor
deriving DecidableEq

/-- Types narrower than an int (`Narrow`). -/
inductive Narrowing where
  | byte
  | char
  | short
deriving DecidableEq

/-- Three-way comparisons (`Cmp`).  A floating-point one has a result for operands that are not
ordered. -/
inductive Comparison where
  | long
  | float (unordered : Int32)
  | double (unordered : Int32)
deriving DecidableEq

/-- Conditions on the order of two ints (`Cond`). -/
inductive Condition where
  | eq
  | ne
  | lt
  | ge
  | gt
  | le
deriving DecidableEq

namespace Condition

/-- Whether an order meets the condition. -/
def holds : Condition → Ordering → Bool
  | eq, o => o = .eq
  | ne, o => o ≠ .eq
  | lt, o => o = .lt
  | ge, o => o ≠ .lt
  | gt, o => o = .gt
  | le, o => o ≠ .gt

end Condition

/-- What decides whether a branch is taken. -/
inductive Branch where
  /-- always taken -/
  | always
  /-- always taken, after the return address has been pushed -/
  | subroutine
  /-- an int compared with zero -/
  | onInt (condition : Condition)
  /-- two ints compared -/
  | onIntPair (condition : Condition)
  /-- two references, the same one or not -/
  | onReferencePair (same : Bool)
  /-- a reference, null or not -/
  | onNull (null : Bool)
deriving DecidableEq

/-- An instruction as it is carried out (`Insn`).  Targets are absolute and need not lie in the
code. -/
inductive Operation where
  | nop
  | push (slot : Slot)
  | load (kind : Kind) (index : Nat)
  | store (kind : Kind) (index : Nat)
  | increment (index : Nat) (delta : Int32)
  | arrayLoad (opcode : Opcode)
  | arrayStore (opcode : Opcode)
  | newArray (element : ElementType)
  | arrayLength
  | shuffle (shuffle : Shuffle)
  | arithmetic (kind : NumericKind) (operator : Arithmetic)
  | negate (kind : NumericKind)
  | shift (kind : WordKind) (shift : Shift)
  | bitwise (kind : WordKind) (operator : Bitwise)
  | convert (source target : NumericKind)
  | narrow (target : Narrowing)
  | compare (comparison : Comparison)
  | branch (branch : Branch) (target : Int)
  | returnFromSubroutine (index : Nat)
  /-- completes the frame; without a kind, without a value -/
  | complete (kind : Option Kind)
deriving DecidableEq

end MethodMachine
