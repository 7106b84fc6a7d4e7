/-
# Values from outside the machine

jemu's `try_from_any` and the conversions into a `Slot` (specification, 3).

A host value becomes a slot when the machine has a kind for it.  A text becomes a new string of the
heap; a slot does not nest in a slot.
-/

import MethodMachine.Heap

namespace MethodMachine

/-- A value offered to the machine. -/
inductive HostValue where
  | boolean (value : Bool)
  | int (value : Int32)
  | long (value : Int64)
  | float (value : Single)
  | double (value : Double)
  /-- a reference that is not null -/
  | reference (value : Reference)
  /-- a reference that may be null -/
  | nullable (value : Option Reference)
  /-- an array of the heap -/
  | array (id : Nat)
  /-- a string of the heap -/
  | string (id : Nat)
  /-- a text that is not in the heap yet -/
  | text (value : String)
  /-- a slot -/
  | slot (value : Slot)
  /-- a value of any other type -/
  | other
deriving DecidableEq

namespace HostValue

/-- The slot of a host value, with the heap that holds its object (`try_from_any`). -/
def toSlot (heap : Heap) : HostValue → Except Trap (Slot × Heap)
  | boolean v => .ok (.boolean v, heap)
  | int v => .ok (.int v, heap)
  | long v => .ok (.long v, heap)
  | float v => .ok (.float v, heap)
  | double v => .ok (.double v, heap)
  | reference r => .ok (.ofReference r, heap)
  | nullable r => .ok (.reference r, heap)
  | array id => .ok (.ofReference (.object id), heap)
  | string id => .ok (.ofReference (.object id), heap)
  | text s =>
    let (r, heap) := heap.allocate (.string s)
    .ok (.ofReference r, heap)
  | slot _ => .error .nestedSlot
  | other => .error .unsupportedObject

/-- The slot of a host value whose type alone decides its kind. -/
def direct? : HostValue → Option Slot
  | boolean v => some (.boolean v)
  | int v => some (.int v)
  | long v => some (.long v)
  | float v => some (.float v)
  | double v => some (.double v)
  | reference r => some (.ofReference r)
  | array id => some (.ofReference (.object id))
  | _ => none

end HostValue

end MethodMachine
