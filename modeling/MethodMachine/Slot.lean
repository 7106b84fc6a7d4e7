/-
# Slots

jemu's `Slot` and `Reference`, with `is_wide`, the accessors from `int_value` to `reference_value`,
`to_object`, and `check` of `Kind` (specification, 3 and 4.1).

A slot is one tagged value: an entry of the operand stack or of the local table.  A long or a double
is *wide* and counts as two words, every other slot as one.

Booleans and ints form one family: where an int is asked for, a boolean is `0` or `1`, and where a
boolean is asked for, an int is true when it is not zero.  Everything else is read only as what it
is.
-/

import MethodMachine.Floating.Arithmetic
import MethodMachine.Trap

namespace MethodMachine

/-- A reference that is not null: an object of the heap, or the address after a subroutine call. -/
inductive Reference where
  | object (id : Nat)
  | returnAddress (pc : Nat)
deriving DecidableEq

/-- One tagged value.  The reference `none` is null. -/
inductive Slot where
  | empty
  | boolean (value : Bool)
  | int (value : Int32)
  | long (value : Int64)
  | float (value : Single)
  | double (value : Double)
  | reference (value : Option Reference)
deriving DecidableEq

namespace Slot

/-- The null reference. -/
def null : Slot := reference none

/-- A reference that is not null. -/
def ofReference (r : Reference) : Slot := reference (some r)

/-- What the slot holds. -/
def kind : Slot → SlotKind
  | empty => .empty
  | boolean _ => .boolean
  | int _ => .int
  | long _ => .long
  | float _ => .float
  | double _ => .double
  | reference _ => .reference

/-- Whether the slot counts as two words. -/
def isWide : Slot → Bool
  | long _ => true
  | double _ => true
  | _ => false

/-- A truth value as an int. -/
def ofTruth (b : Bool) : Int32 := if b then 1 else 0

/-- The slot read as a boolean (`boolean_value`). -/
def asBoolean : Slot → Except Trap Bool
  | boolean v => .ok v
  | int v => .ok (v != 0)
  | s => .error (.typeMismatch .boolean s.kind)

/-- The slot read as an int. -/
@[inline] def asInt : Slot → Except Trap Int32
  | int v => .ok v
  | boolean v => .ok (ofTruth v)
  | s => .error (.typeMismatch .int s.kind)

/-- The slot read as a long. -/
@[inline] def asLong : Slot → Except Trap Int64
  | long v => .ok v
  | s => .error (.typeMismatch .long s.kind)

/-- The slot read as a float. -/
@[inline] def asFloat : Slot → Except Trap Single
  | float v => .ok v
  | s => .error (.typeMismatch .float s.kind)

/-- The slot read as a double. -/
@[inline] def asDouble : Slot → Except Trap Double
  | double v => .ok v
  | s => .error (.typeMismatch .double s.kind)

/-- The slot read as a reference, which may be null. -/
@[inline] def asReference : Slot → Except Trap (Option Reference)
  | reference v => .ok v
  | s => .error (.typeMismatch .reference s.kind)

/-- Whether two slots hold the same value.  Their kinds must agree; floating-point numbers are
compared as numbers and references by identity. -/
def sameValue : Slot → Slot → Bool
  | empty, empty => true
  | boolean a, boolean b => a = b
  | int a, int b => a = b
  | long a, long b => a = b
  | float a, float b => a.sameValue b
  | double a, double b => a.sameValue b
  | reference a, reference b => a = b
  | _, _ => false

/-- A value taken out of a slot (`Object`). -/
inductive Boxed where
  | int (value : Int32)
  | long (value : Int64)
  | float (value : Single)
  | double (value : Double)
  | reference (value : Reference)
deriving DecidableEq

/-- The value of a slot (`to_object`).  An empty slot and null have none, and a boolean is an
int. -/
def boxed? : Slot → Option Boxed
  | empty => none
  | boolean v => some (.int (ofTruth v))
  | int v => some (.int v)
  | long v => some (.long v)
  | float v => some (.float v)
  | double v => some (.double v)
  | reference v => v.map .reference

end Slot

/-- What an opcode asks of a slot that it moves. -/
inductive Kind where
  | int
  | long
  | float
  | double
  | reference
deriving DecidableEq

namespace Kind

/-- Fails unless the slot can be read as the kind. -/
def check : Kind → Slot → Except Trap Unit
  | int, s => s.asInt.map fun _ => ()
  | long, s => s.asLong.map fun _ => ()
  | float, s => s.asFloat.map fun _ => ()
  | double, s => s.asDouble.map fun _ => ()
  | reference, s => s.asReference.map fun _ => ()

end Kind

end MethodMachine
