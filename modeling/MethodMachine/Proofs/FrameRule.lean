/-
# Operands and locals that are not used

An instruction touches only the operands it takes and the local it names.  So slots below the stack
and locals after those of a frame are inert: `Frame.extend` adds them, and a step of the extended
frame is the step of the frame, with the same slots added to what it leaves (`frame_rule`).

A step can tell the two frames apart in one way only.  Where it runs out of operands or names a
local that is missing (`Trap.isMissing`), the extended frame may have one.
-/

import MethodMachine.Proofs.ViewedSteps

namespace MethodMachine

/-- Whether the trap is for an operand or a local that is missing. -/
def Trap.isMissing : Trap → Bool
  | stackUnderflow => true
  | localIndexOutOfBounds _ => true
  | _ => false

namespace Frame

variable {f : Frame} {t : Trap}

/-- The frame with more slots below its stack and more locals after its own. -/
def extend (f : Frame) (below : OperandStack) (beyond : Locals) : Frame :=
  { f with stack := f.stack ++ below, locals := f.locals ++ beyond }

/-- The view that adds slots to the stack and to the locals. -/
def extension (below : OperandStack) (beyond : Locals) : View where
  below := below
  beyond := beyond

variable (below : OperandStack) (beyond : Locals)

theorem frame_extension (f : Frame) :
    (extension below beyond).frame f = f.extend below beyond := by
  have hslot : (extension below beyond).slot = id := funext (View.slot_eq_self rfl rfl)
  have hstatus : (extension below beyond).status f.status = f.status := by
    cases f.status with
    | running => rfl
    | returned value => rw [View.status, hslot, Option.map_id, id]
  rw [View.frame, View.code, View.stack, View.locals, hslot, hstatus]
  simp [extension, extend]

theorem lifts_extension (h : t.isMissing = false) : (extension below beyond).lifts t = false := by
  cases t with
  | stackUnderflow | localIndexOutOfBounds => cases h
  | _ => rfl

/-- **Operands and locals that are not used are inert.**  Unless a step traps for an operand or a
local that is missing, it does in the extended frame what it does in the frame: it succeeds or
raises the same trap, and leaves the same frame, extended by the same slots.  So do any number of
steps. -/
theorem frame_rule (f : Frame) :
    (∀ u g, step f = .ok u g →
      step (f.extend below beyond) = .ok u (g.extend below beyond)) ∧
    (∀ t g, step f = .error t g → t.isMissing = false →
      step (f.extend below beyond) = .error t (g.extend below beyond)) ∧
    ∀ n, (∀ i < n, ∀ t ∈ (f.after i).trap?, t.isMissing = false) →
      (f.extend below beyond).after n = (f.after n).extend below beyond ∧
      ∀ i < n, ((f.extend below beyond).after i).trap? = (f.after i).trap? := by
  have htrap : (extension below beyond).trap = id := funext (View.trap_of_not_intsOnly rfl)
  simp only [← frame_extension]
  refine ⟨fun u g hstep => ?_, fun t g hstep hmissing => ?_, fun n hsteps => ?_⟩
  · exact View.step_frame_of_ok hstep
  · rw [View.step_frame_of_error hstep (lifts_extension below beyond hmissing), htrap, id]
  · have hlifts : ∀ i < n, ∀ t ∈ (f.after i).trap?, (extension below beyond).lifts t = false :=
      fun i hi t ht => lifts_extension below beyond (hsteps i hi t ht)
    refine ⟨View.after_frame hlifts, fun i hi => ?_⟩
    rw [View.trap?_after_frame hlifts hi, htrap, Option.map_id, id]

end Frame

end MethodMachine
