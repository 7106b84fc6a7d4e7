/-
# The operand stack

jemu's `OperandStack` with `peek`, `widths`, `insert_copies`, `pop1` and the shuffles from `pop2` to
`swap` (specification, 3 and 4.2).

The stack is a list of slots, the top first.  A failing operation leaves it as it was.

The shuffles move whole slots where the instruction set speaks of words.  With narrow slots `a`,
`b`, `c`, `d` and wide slots `v`, `w`, tops on the left:

| shuffle | on | gives |
| --- | --- | --- |
| `pop` | `a` | nothing |
| `pop2` | `a b`, `v` | nothing |
| `dup` | `a` | `a a` |
| `dup_x1` | `a b` | `a b a` |
| `dup_x2` | `a b c`, `a v` | `a b c a`, `a v a` |
| `dup2` | `a b`, `v` | `a b a b`, `v v` |
| `dup2_x1` | `a b c`, `v a` | `a b c a b`, `v a v` |
| `dup2_x2` | `a b c d`, `a b v`, `v a b`, `v w` | `a b c d a b`, `a b v a b`, `v a b v`, `v w v` |
| `swap` | `a b` | `b a` |

A shuffle first asks for the slots it has to look at, and underflows if they are missing; slots that
do not fit any of its forms are wide where they should not be.
-/

import MethodMachine.Slot

namespace MethodMachine

/-- The operands of a frame, the top first. -/
abbrev OperandStack := List Slot

/-- A rearrangement of the top of the stack. -/
inductive Shuffle where
  | pop
  | pop2
  | dup
  | dupX1
  | dupX2
  | dup2
  | dup2X1
  | dup2X2
  | swap
deriving DecidableEq

namespace Shuffle

/-- The opcode of a shuffle. -/
def opcode : Shuffle → Opcode
  | pop => 0x57
  | pop2 => 0x58
  | dup => 0x59
  | dupX1 => 0x5A
  | dupX2 => 0x5B
  | dup2 => 0x5C
  | dup2X1 => 0x5D
  | dup2X2 => 0x5E
  | swap => 0x5F

end Shuffle

namespace OperandStack

/-- The top slot. -/
@[simp] def peek : OperandStack → Except Trap Slot
  | [] => .error .stackUnderflow
  | s :: _ => .ok s

/-- The top slot, and the stack without it. -/
@[inline] def pop : OperandStack → Except Trap (Slot × OperandStack)
  | [] => .error .stackUnderflow
  | s :: rest => .ok (s, rest)

/-- The top slot as it is read, and the stack without it. -/
@[inline] def popAs {α : Type} (read : Slot → Except Trap α) :
    OperandStack → Except Trap (α × OperandStack)
  | [] => .error .stackUnderflow
  | s :: rest => (read s).map fun a => (a, rest)

/-- Removes one narrow slot (`pop1`). -/
def popNarrow : OperandStack → Except Trap (Slot × OperandStack)
  | [] => .error .stackUnderflow
  | a :: rest => if a.isWide then .error (.wideOperand Shuffle.pop.opcode) else .ok (a, rest)

@[simp] theorem ok_bind {α β : Type} (a : α) (k : α → Except Trap β) : (.ok a >>= k) = k a := rfl

@[simp] theorem error_bind {α β : Type} (t : Trap) (k : α → Except Trap β) :
    (.error t >>= k) = .error t := rfl

/-- Whether the first `count` slots are wide, the top first (`widths`). -/
@[simp] def widths : OperandStack → (count : Nat) → Except Trap (List Bool)
  | _, 0 => .ok []
  | [], _ + 1 => .error .stackUnderflow
  | s :: rest, count + 1 =>
    match widths rest count with
    | .ok wide => .ok (s.isWide :: wide)
    | .error t => .error t

/-- Puts copies of the first `count` slots below the first `below` (`insert_copies`). -/
@[simp] def insertCopies (stack : OperandStack) (count below : Nat) : OperandStack :=
  stack.take below ++ stack.take count ++ stack.drop below

/-- Copies slots if the widths are those of a form. -/
@[simp] def copyIf (stack : OperandStack) (s : Shuffle) (form : List Bool) (count below : Nat) :
    Except Trap OperandStack := do
  if (← stack.widths form.length) = form then .ok (stack.insertCopies count below)
  else .error (.wideOperand s.opcode)

/-- Removes two words. -/
def pop2 (stack : OperandStack) : Except Trap OperandStack := do
  if (← stack.peek).isWide then .ok (stack.drop 1)
  else do
    if (← stack.widths 2) = [false, false] then .ok (stack.drop 2)
    else .error (.wideOperand Shuffle.pop2.opcode)

/-- Copies one word. -/
def dup (stack : OperandStack) : Except Trap OperandStack := stack.copyIf .dup [false] 1 0

/-- Copies one word below the next. -/
def dupX1 (stack : OperandStack) : Except Trap OperandStack :=
  stack.copyIf .dupX1 [false, false] 1 2

/-- Copies one word below the next two. -/
def dupX2 (stack : OperandStack) : Except Trap OperandStack := do
  let wide ← stack.widths 2
  if wide = [false, true] then .ok (stack.insertCopies 1 2)
  else if wide = [false, false] then stack.copyIf .dupX2 [false, false, false] 1 3
  else .error (.wideOperand Shuffle.dupX2.opcode)

/-- Copies two words. -/
def dup2 (stack : OperandStack) : Except Trap OperandStack := do
  if (← stack.peek).isWide then .ok (stack.insertCopies 1 0)
  else stack.copyIf .dup2 [false, false] 2 0

/-- Copies two words below the next. -/
def dup2X1 (stack : OperandStack) : Except Trap OperandStack := do
  if (← stack.peek).isWide then stack.copyIf .dup2X1 [true, false] 1 2
  else stack.copyIf .dup2X1 [false, false, false] 2 3

/-- Copies two words below the next two. -/
def dup2X2 (stack : OperandStack) : Except Trap OperandStack := do
  if (← stack.peek).isWide then do
    if (← stack.widths 2) = [true, true] then .ok (stack.insertCopies 1 2)
    else stack.copyIf .dup2X2 [true, false, false] 1 3
  else do
    let wide ← stack.widths 3
    if wide = [false, false, true] then .ok (stack.insertCopies 2 3)
    else if wide = [false, false, false] then stack.copyIf .dup2X2 [false, false, false, false] 2 4
    else .error (.wideOperand Shuffle.dup2X2.opcode)

/-- The stack with its first two slots exchanged. -/
@[simp] def exchange : OperandStack → OperandStack
  | a :: b :: rest => b :: a :: rest
  | stack => stack

/-- Exchanges two words. -/
def swap (stack : OperandStack) : Except Trap OperandStack := do
  if (← stack.widths 2) = [false, false] then .ok stack.exchange
  else .error (.wideOperand Shuffle.swap.opcode)

/-- A shuffle of the stack. -/
def shuffle (stack : OperandStack) : Shuffle → Except Trap OperandStack
  | .pop => stack.popNarrow.map Prod.snd
  | .pop2 => stack.pop2
  | .dup => stack.dup
  | .dupX1 => stack.dupX1
  | .dupX2 => stack.dupX2
  | .dup2 => stack.dup2
  | .dup2X1 => stack.dup2X1
  | .dup2X2 => stack.dup2X2
  | .swap => stack.swap

end OperandStack

end MethodMachine
