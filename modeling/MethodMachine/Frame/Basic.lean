/-
# Frames

jemu's `Frame` with `new`, `set_local`, `is_returned` and `return_value` (specification, 3 and 4.3).

A frame is the state of one invocation of a method: its code, the address of the next instruction,
the operand stack, the local variables, and the heap that its references point into.  It counts the
instructions it has carried out and remembers how it ended.
-/

import MethodMachine.Code
import MethodMachine.Heap
import MethodMachine.Locals
import MethodMachine.OperandStack

namespace MethodMachine

/-- Whether a frame has returned, and with what.  `Frame` keeps a flag (`returned`) and a slot
(`result`) for this; the slot is set only where the flag is, so one value stands for both, and a
running frame has no slot by its type. -/
inductive Status where
  | running
  /-- completed, with a value unless the method returns none -/
  | returned (value : Option Slot)
deriving DecidableEq

/-- The state of one invocation. -/
structure Frame where
  code : Code
  pc : Nat
  stack : OperandStack
  locals : Locals
  heap : Heap
  status : Status
  /-- the instructions carried out; the counter has 64 bits, and `2 ^ 64` instructions are out of
  reach of any run -/
  steps : Nat

namespace Frame

/-- A frame at the start of the code, with empty locals and a given heap. -/
def new (code : Code) (locals : Nat) (heap : Heap) : Frame where
  code := code
  pc := 0
  stack := []
  locals := Locals.new locals
  heap := heap
  status := .running
  steps := 0

/-- Puts a slot into a local, usually an argument (`set_local`). -/
def setLocal (f : Frame) (index : Nat) (s : Slot) : Except Trap Frame :=
  (f.locals.store index s).map fun locals => { f with locals := locals }

/-- Whether the frame has completed (`is_returned`). -/
def isReturned (f : Frame) : Bool := f.status ≠ .running

/-- The value that the frame returned, if it did and has one (`return_value`). -/
def value? (f : Frame) : Option Slot :=
  match f.status with
  | .running => none
  | .returned value => value

end Frame

end MethodMachine
