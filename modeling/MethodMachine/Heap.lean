/-
# The heap

The objects behind jemu's `Reference` and `ArrayRef` (specification, 3).

Arrays and host strings are objects, known by their position in the heap.  An object is never
removed, so a new one gets a position that no reference has held before; two objects with the same
contents are still two.
-/

import MethodMachine.PrimitiveArray

namespace MethodMachine

/-- Something a reference can denote. -/
inductive HeapObject where
  | array (a : PrimitiveArray)
  | string (s : String)

namespace HeapObject

/-- The text of an object: the values of an array, a string itself. -/
def text : HeapObject → String
  | array a => a.text
  | string s => s

end HeapObject

/-- The objects, by position. -/
abbrev Heap := Array HeapObject

namespace Heap

/-- Adds an object; the reference is new. -/
def allocate (heap : Heap) (o : HeapObject) : Reference × Heap := (.object heap.size, heap.push o)

/-- The array that a reference denotes, with its position. -/
def array? (heap : Heap) : Reference → Option (Nat × PrimitiveArray)
  | .returnAddress _ => none
  | .object id =>
    match heap[id]? with
    | some (.array a) => some (id, a)
    | _ => none

/-- Puts an array in the place of another. -/
def replace (heap : Heap) (id : Nat) (a : PrimitiveArray) : Heap :=
  heap.setIfInBounds id (.array a)

/-- The text of a reference. -/
def referenceText (heap : Heap) : Reference → String
  | .returnAddress pc => "returnAddress(" ++ pc.repr ++ ")"
  | .object id => (heap[id]?.map HeapObject.text).getD ""

/-- The text of a slot. -/
def slotText (heap : Heap) : Slot → String
  | .empty => "---"
  | .boolean v => integerText (Slot.ofTruth v).toInt
  | .int v => integerText v.toInt
  | .long v => integerText v.toInt
  | .float v => Layout.slot.text v
  | .double v => Layout.slot.text v
  | .reference none => "null"
  | .reference (some r) => heap.referenceText r

end Heap

end MethodMachine
