/-
# Local variables

jemu's `LocalTable` (specification, 3).

A frame has a fixed number of local variables, all empty at first.  Each holds one slot, a wide one
too.
-/

import MethodMachine.Slot

namespace MethodMachine

/-- The local variables of a frame (`LocalTable`). -/
abbrev Locals := Array Slot

namespace Locals

/-- A table of empty slots. -/
def new (count : Nat) : Locals := Array.replicate count .empty

/-- The slot at an index. -/
@[inline] def load (locals : Locals) (index : Nat) : Except Trap Slot :=
  match locals[index]? with
  | some s => .ok s
  | none => .error (.localIndexOutOfBounds index)

/-- The table with a slot put at an index. -/
def store (locals : Locals) (index : Nat) (s : Slot) : Except Trap Locals :=
  if index < locals.size then .ok (locals.setIfInBounds index s)
  else .error (.localIndexOutOfBounds index)

end Locals

end MethodMachine
