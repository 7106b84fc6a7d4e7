/-
# Carrying out an operation

jemu's `execute` with `jump`, `pop_array`, `pop_number`, `arith`, `bits`, `check_divisor`,
`float_arith` and `convert` (specification, 4.3).

Operations act on a frame and either succeed or trap.  A trap keeps what the operation has changed
up to that point, so an operation is a sequence of effects in a fixed order: operands are taken off
the stack one by one, the top first, and only then is the result pushed or the branch taken.

The top of the stack is the left operand of arithmetic, of comparisons and of branches on two
values; a shift takes its amount from the top and the value from below.
-/

import MethodMachine.Frame.Basic
import MethodMachine.Operation.Decoding

namespace MethodMachine

/-- An effect on a frame: a value or a trap, and the frame it leaves. -/
abbrev Execution (α : Type) := EStateM Trap Frame α

namespace Execution

/-- Stops with a trap, or goes on with a value. -/
@[inline] def ofExcept {α : Type} : Except Trap α → Execution α
  | .ok a => pure a
  | .error t => throw t

/-- Runs an operation of the operand stack. -/
@[inline] def onStack {α : Type} (action : OperandStack → Except Trap (α × OperandStack)) :
    Execution α :=
  fun f =>
    match action f.stack with
    | .ok (a, stack) => .ok a { f with stack := stack }
    | .error t => .error t f

/-- Pushes a slot. -/
@[inline] def push (s : Slot) : Execution Unit := modify fun f => { f with stack := s :: f.stack }

/-- Takes the top slot. -/
@[inline] def pop : Execution Slot := onStack OperandStack.pop

/-- Takes an int. -/
@[inline] def popInt : Execution Int32 := onStack (OperandStack.popAs Slot.asInt)

/-- Takes a long. -/
@[inline] def popLong : Execution Int64 := onStack (OperandStack.popAs Slot.asLong)

/-- Takes a float. -/
def popFloat : Execution Single := onStack (OperandStack.popAs Slot.asFloat)

/-- Takes a double. -/
def popDouble : Execution Double := onStack (OperandStack.popAs Slot.asDouble)

/-- Takes a reference, which may be null. -/
def popReference : Execution (Option Reference) := onStack (OperandStack.popAs Slot.asReference)

/-- Takes a slot of a kind, as it is. -/
def popOfKind (kind : Kind) : Execution Slot :=
  onStack (OperandStack.popAs fun s => (kind.check s).map fun _ => s)

/-- Takes a reference to an array, on behalf of an opcode (`pop_array`). -/
def popArray (op : Opcode) : Execution (Nat × PrimitiveArray) := do
  match ← popReference with
  | none => throw (.nullReference op)
  | some r =>
    match (← get).heap.array? r with
    | some found => pure found
    | none => throw (.notAnArray op)

/-- Reads a local. -/
@[inline] def loadLocal (index : Nat) : Execution Slot := do ofExcept ((← get).locals.load index)

/-- Writes a local. -/
@[inline] def storeLocal (index : Nat) (s : Slot) : Execution Unit := fun f =>
  if index < f.locals.size then .ok () { f with locals := f.locals.setIfInBounds index s }
  else .error (.localIndexOutOfBounds index) f

/-- Writing a local is storing into the table of locals. -/
theorem storeLocal_eq (index : Nat) (s : Slot) (f : Frame) :
    storeLocal index s f =
      match f.locals.store index s with
      | .ok locals => .ok () { f with locals := locals }
      | .error t => .error t f := by
  unfold storeLocal Locals.store
  split <;> rfl

/-- Adds an object to the heap. -/
def allocate (o : HeapObject) : Execution Reference := modifyGet fun f =>
  let (r, heap) := f.heap.allocate o
  (r, { f with heap := heap })

/-- Goes to an address of the code.  Any other target is reported as a 64-bit number. -/
@[inline] def jump (origin : Nat) (target : Int) : Execution Unit := do
  if 0 ≤ target ∧ target < (← get).code.size then modify fun f => { f with pc := target.toNat }
  else throw (.branchOutOfBounds origin (Int64.ofInt target))

/-- Goes to an address if a condition holds. -/
@[inline] def jumpIf (condition : Bool) (origin : Nat) (target : Int) : Execution Unit :=
  if condition then jump origin target else pure ()

end Execution

namespace Arithmetic

/-- Arithmetic on ints, modulo `2 ^ 32`; a quotient is truncated toward zero. -/
def onInt : Arithmetic → Int32 → Int32 → Except Trap Int32
  | add, a, b => .ok (a + b)
  | sub, a, b => .ok (a - b)
  | mul, a, b => .ok (a * b)
  | div, a, b => if b = 0 then .error .divideByZero else .ok (a / b)
  | rem, a, b => if b = 0 then .error .divideByZero else .ok (a % b)

/-- Arithmetic on longs, modulo `2 ^ 64`; a quotient is truncated toward zero. -/
def onLong : Arithmetic → Int64 → Int64 → Except Trap Int64
  | add, a, b => .ok (a + b)
  | sub, a, b => .ok (a - b)
  | mul, a, b => .ok (a * b)
  | div, a, b => if b = 0 then .error .divideByZero else .ok (a / b)
  | rem, a, b => if b = 0 then .error .divideByZero else .ok (a % b)

/-- Arithmetic on floating-point numbers. -/
def onFloating {fmt : Format} : Arithmetic → Floating fmt → Floating fmt → Floating fmt
  | add, a, b => a + b
  | sub, a, b => a - b
  | mul, a, b => a * b
  | div, a, b => a / b
  | rem, a, b => a % b

end Arithmetic

namespace Shift

/-- A shift of an int; the amount counts modulo 32. -/
def onInt : Shift → Int32 → Int32 → Int32
  | left, v, amount => v <<< amount
  | right, v, amount => v >>> amount
  | unsignedRight, v, amount => (v.toUInt32 >>> amount.toUInt32).toInt32

/-- A shift of a long; the amount counts modulo 64. -/
def onLong : Shift → Int64 → Int32 → Int64
  | left, v, amount => v <<< amount.toInt64
  | right, v, amount => v >>> amount.toInt64
  | unsignedRight, v, amount => (v.toUInt64 >>> amount.toInt64.toUInt64).toInt64

end Shift

namespace Bitwise

/-- A combination of ints. -/
def onInt : Bitwise → Int32 → Int32 → Int32
  | and, a, b => a &&& b
  | or, a, b => a ||| b
  | xor, a, b => a ^^^ b

/-- A combination of longs. -/
def onLong : Bitwise → Int64 → Int64 → Int64
  | and, a, b => a &&& b
  | or, a, b => a ||| b
  | xor, a, b => a ^^^ b

end Bitwise

namespace Narrowing

/-- The low bits of an int, extended again as the narrow type asks. -/
def onInt : Narrowing → Int32 → Int32
  | byte, v => v.toInt8.toInt32
  | char, v => v.toUInt32.toUInt16.toUInt32.toInt32
  | short, v => v.toInt16.toInt32

end Narrowing

/-- A number of some kind. -/
inductive Number where
  | int (value : Int32)
  | long (value : Int64)
  | float (value : Single)
  | double (value : Double)
deriving DecidableEq

namespace Number

/-- The number as an int: a long loses its high bits, a floating-point number is truncated and moved
into range. -/
def toInt : Number → Int32
  | int v => v
  | long v => v.toInt32
  | float v => Int32.ofInt (v.truncate Int32.minValue.toInt Int32.maxValue.toInt)
  | double v => Int32.ofInt (v.truncate Int32.minValue.toInt Int32.maxValue.toInt)

/-- The number as a long: a floating-point number is truncated and moved into range. -/
def toLong : Number → Int64
  | int v => v.toInt64
  | long v => v
  | float v => Int64.ofInt (v.truncate Int64.minValue.toInt Int64.maxValue.toInt)
  | double v => Int64.ofInt (v.truncate Int64.minValue.toInt Int64.maxValue.toInt)

/-- The nearest float. -/
def toFloat : Number → Single
  | int v => .ofInt .single v.toInt
  | long v => .ofInt .single v.toInt
  | float v => v
  | double v => v.convert .single

/-- The nearest double. -/
def toDouble : Number → Double
  | int v => .ofInt .double v.toInt
  | long v => .ofInt .double v.toInt
  | float v => v.convert .double
  | double v => v

/-- The number converted to a kind. -/
def toSlot (n : Number) : NumericKind → Slot
  | .int => .int n.toInt
  | .long => .long n.toLong
  | .float => .float n.toFloat
  | .double => .double n.toDouble

end Number

/-- An order as the int `-1`, `0` or `1`. -/
def orderingInt : Ordering → Int32
  | .lt => -1
  | .eq => 0
  | .gt => 1

namespace Execution

/-- Takes a number of a kind (`pop_number`). -/
def popNumber : NumericKind → Execution Number
  | .int => return .int (← popInt)
  | .long => return .long (← popLong)
  | .float => return .float (← popFloat)
  | .double => return .double (← popDouble)

/-- Binary arithmetic (`arith`). -/
def arithmetic (operator : Arithmetic) : NumericKind → Execution Unit
  | .int => do
    let left ← popInt
    let right ← popInt
    push (.int (← ofExcept (operator.onInt left right)))
  | .long => do
    let left ← popLong
    let right ← popLong
    push (.long (← ofExcept (operator.onLong left right)))
  | .float => do
    let left ← popFloat
    let right ← popFloat
    push (.float (operator.onFloating left right))
  | .double => do
    let left ← popDouble
    let right ← popDouble
    push (.double (operator.onFloating left right))

/-- Change of sign. -/
def negate : NumericKind → Execution Unit
  | .int => do push (.int (-(← popInt)))
  | .long => do push (.long (-(← popLong)))
  | .float => do push (.float (-(← popFloat)))
  | .double => do push (.double (-(← popDouble)))

/-- A shift. -/
def shift (s : Shift) : WordKind → Execution Unit
  | .int => do
    let amount ← popInt
    let value ← popInt
    push (.int (s.onInt value amount))
  | .long => do
    let amount ← popInt
    let value ← popLong
    push (.long (s.onLong value amount))

/-- A bitwise combination. -/
def bitwise (operator : Bitwise) : WordKind → Execution Unit
  | .int => do
    let left ← popInt
    let right ← popInt
    push (.int (operator.onInt left right))
  | .long => do
    let left ← popLong
    let right ← popLong
    push (.long (operator.onLong left right))

/-- A three-way comparison. -/
def compare : Comparison → Execution Unit
  | .long => do
    let left ← popLong
    let right ← popLong
    push (.int (orderingInt (Ord.compare left.toInt right.toInt)))
  | .float unordered => do
    let left ← popFloat
    let right ← popFloat
    push (.int (((left.compare right).map orderingInt).getD unordered))
  | .double unordered => do
    let left ← popDouble
    let right ← popDouble
    push (.int (((left.compare right).map orderingInt).getD unordered))

/-- A branch from the opcode at `origin`. -/
def branch (origin : Nat) (target : Int) : Branch → Execution Unit
  | .always => jump origin target
  | .subroutine => do
    push (.ofReference (.returnAddress (← get).pc))
    jump origin target
  | .onInt condition => do
    let value ← popInt
    jumpIf (condition.holds (Ord.compare value.toInt 0)) origin target
  | .onIntPair condition => do
    let left ← popInt
    let right ← popInt
    jumpIf (condition.holds (Ord.compare left.toInt right.toInt)) origin target
  | .onReferencePair same => do
    let left ← popReference
    let right ← popReference
    jumpIf ((left == right) == same) origin target
  | .onNull null => do
    let r ← popReference
    jumpIf (r.isNone == null) origin target

/-- Goes to the address that a local holds. -/
def returnFromSubroutine (origin index : Nat) : Execution Unit := do
  match ← loadLocal index with
  | .reference (some (.returnAddress pc)) => jump origin pc
  | _ => throw (.notAReturnAddress index)

/-- Completes the frame. -/
def complete : Option Kind → Execution Unit
  | none => modify fun f => { f with status := .returned none }
  | some kind => do
    let value ← popOfKind kind
    modify fun f => { f with status := .returned (some value) }

/-- Reads an element of an array. -/
def arrayLoad (op : Opcode) : Execution Unit := do
  let index ← popInt
  let (_, a) ← popArray op
  push (← ofExcept (a.load op index))

/-- Writes an element of an array. -/
def arrayStore (op : Opcode) : Execution Unit := do
  let value ← pop
  let index ← popInt
  let (id, a) ← popArray op
  let stored ← ofExcept (a.store op index value)
  modify fun f => { f with heap := f.heap.replace id stored }

/-- Makes an array. -/
def newArray (element : ElementType) : Execution Unit := do
  let length ← popInt
  if length < 0 then throw (.negativeArraySize length)
  else
    push (.ofReference (← allocate (.array (.new element length.toInt.toNat))))

/-- The opcode that asks for the length of an array. -/
def arrayLengthOpcode : Opcode := 0xBE

/-- Carries out an operation whose opcode stands at `origin`. -/
def execute (origin : Nat) : Operation → Execution Unit
  | .nop => pure ()
  | .push s => push s
  | .load kind index => do
    let s ← loadLocal index
    ofExcept (kind.check s)
    push s
  | .store kind index => do
    let s ← popOfKind kind
    storeLocal index s
  | .increment index delta => do
    let value ← ofExcept (← loadLocal index).asInt
    storeLocal index (.int (value + delta))
  | .arrayLoad op => arrayLoad op
  | .arrayStore op => arrayStore op
  | .newArray element => newArray element
  | .arrayLength => do
    let (_, a) ← popArray arrayLengthOpcode
    push (.int (Int32.ofNat a.size))
  | .shuffle s => onStack fun stack => (stack.shuffle s).map fun stack => ((), stack)
  | .arithmetic kind operator => arithmetic operator kind
  | .negate kind => negate kind
  | .shift kind s => shift s kind
  | .bitwise kind operator => bitwise operator kind
  | .convert source target => do push ((← popNumber source).toSlot target)
  | .narrow target => do push (.int (target.onInt (← popInt)))
  | .compare comparison => compare comparison
  | .branch b target => branch origin target b
  | .returnFromSubroutine index => returnFromSubroutine origin index
  | .complete kind => complete kind

end Execution

end MethodMachine
