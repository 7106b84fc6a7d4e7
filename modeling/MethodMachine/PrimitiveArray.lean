/-
# Primitive arrays

jemu's `PrimitiveArray` with `new`, `check_index`, `load` and `store` (specification, 3).

An array has an element type and a fixed number of values.  Loading turns a value into a slot,
storing turns a slot into a value:

| element type | value of the slot `s` stored | slot loaded |
| --- | --- | --- |
| boolean | whether the int `s` is not zero | the int `0` or `1` |
| byte, short | the low bits of the int `s` | the int with the same value, sign-extended |
| char | the low bits of the int `s` | the int with the same value, not negative |
| int, long, float, double | `s`, of exactly that kind | the same |

An access is refused for the first of these reasons that applies: the opcode does not belong to the
element type, the index is out of bounds, the slot is of the wrong kind.
-/

import MethodMachine.Slot
import Std.Data.TreeMap

namespace MethodMachine

namespace ElementType

/-- The slot that a value is loaded as. -/
def toSlot : (t : ElementType) → t.Value → Slot
  | boolean, v => .int (Slot.ofTruth v)
  | byte, v => .int (Int8.toInt32 v)
  | char, v => .int (UInt16.toUInt32 v).toInt32
  | short, v => .int (Int16.toInt32 v)
  | int, v => .int v
  | long, v => .long v
  | float, v => .float v
  | double, v => .double v

/-- The value that a slot is stored as. -/
def ofSlot : (t : ElementType) → Slot → Except Trap t.Value
  | boolean, s => s.asInt.map fun v => v != 0
  | byte, s => s.asInt.map Int32.toInt8
  | char, s => s.asInt.map fun v => v.toUInt32.toUInt16
  | short, s => s.asInt.map Int32.toInt16
  | int, s => s.asInt
  | long, s => s.asLong
  | float, s => s.asFloat
  | double, s => s.asDouble

/-- A value inside the text of an array. -/
def valueText : (t : ElementType) → t.Value → String
  | boolean, v => if (v : Bool) then "true" else "false"
  | byte, v => integerText (Int8.toInt v)
  | char, v => (UInt16.toNat v).repr
  | short, v => integerText (Int16.toInt v)
  | int, v => integerText (Int32.toInt v)
  | long, v => integerText (Int64.toInt v)
  | float, v => Layout.element.text (v : Single)
  | double, v => Layout.element.text (v : Double)

end ElementType

/-- An array of primitive values.  Only what has been written is kept, so an array of any length can
be made at once. -/
structure PrimitiveArray where
  element : ElementType
  /-- the number of values -/
  size : Nat
  /-- the values written so far, by position; every other value is zero -/
  written : Std.TreeMap Nat element.Value

namespace PrimitiveArray

/-- A new array, filled with zeros. -/
def new (element : ElementType) (length : Nat) : PrimitiveArray := ⟨element, length, ∅⟩

/-- The array of given values. -/
def ofList (element : ElementType) (values : List element.Value) : PrimitiveArray :=
  ⟨element, values.length, .ofList (values.zipIdx.map fun (v, i) => (i, v))⟩

/-- The value at a position. -/
def get (a : PrimitiveArray) (i : Nat) : a.element.Value := a.written.getD i a.element.zero

/-- The array with a value put at a position. -/
def set (a : PrimitiveArray) (i : Nat) (v : a.element.Value) : PrimitiveArray :=
  { a with written := a.written.insert i v }

/-- The values in order. -/
def toList (a : PrimitiveArray) : List a.element.Value := (List.range a.size).map a.get

@[simp] theorem get_new (element : ElementType) (length i : Nat) :
    (new element length).get i = element.zero := by
  simp [get, new]

/-- Putting a value at a position changes that position only. -/
theorem get_set (a : PrimitiveArray) (i j : Nat) (v : a.element.Value) :
    (a.set i v).get j = if i = j then v else a.get j := by
  simp [get, set, Std.TreeMap.getD_insert]

@[simp] theorem length_toList (a : PrimitiveArray) : a.toList.length = a.size := by
  simp [toList]

/-- The position that an index denotes, if it is in bounds (`check_index`). -/
def position (a : PrimitiveArray) (index : Int32) : Except Trap Nat :=
  if 0 ≤ index.toInt ∧ index.toInt < a.size then .ok index.toInt.toNat
  else .error (.arrayIndexOutOfBounds index a.size)

/-- The slot at an index, for a load opcode. -/
def load (a : PrimitiveArray) (op : Opcode) (index : Int32) : Except Trap Slot :=
  if op = a.element.loadOpcode then do
    let i ← a.position index
    return a.element.toSlot (a.get i)
  else .error (.arrayTypeMismatch op a.element)

/-- The array with a slot stored at an index, for a store opcode. -/
def store (a : PrimitiveArray) (op : Opcode) (index : Int32) (s : Slot) :
    Except Trap PrimitiveArray :=
  if op = a.element.storeOpcode then do
    let i ← a.position index
    let v ← a.element.ofSlot s
    return a.set i v
  else .error (.arrayTypeMismatch op a.element)

/-- The values of the array in brackets (`write_list`). -/
def text (a : PrimitiveArray) : String :=
  "[" ++ ", ".intercalate (a.toList.map a.element.valueText) ++ "]"

end PrimitiveArray

end MethodMachine
