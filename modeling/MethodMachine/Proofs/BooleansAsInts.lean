/-
# Booleans are ints

A boolean is read as the int `0` or `1` where an int is asked for, and both are refused where
anything else is.  So no instruction tells a boolean from that int.  `normalize` puts the int in the
place of every boolean on the stack, in the locals and in the value of a frame, and a step of the
normalized frame is the step of the frame, normalized.  Only a type mismatch shows the difference,
since it says what it has found:

| trap | of the normalized frame |
| --- | --- |
| `typeMismatch expected boolean` | `typeMismatch expected int` |
| any other | the same |

So a run with booleans for arguments goes through the same instructions as the run with ints and
ends as it does, and the text of its value is the same.
-/

import MethodMachine.Proofs.ViewedSteps

namespace MethodMachine

/-- A slot with an int in the place of a boolean. -/
def Slot.normalize : Slot → Slot
  | boolean b => int (ofTruth b)
  | s => s

/-- A trap that has found an int where it has found a boolean. -/
def Trap.normalize : Trap → Trap
  | typeMismatch expected .boolean => typeMismatch expected .int
  | t => t

/-- A fault with its trap normalized. -/
def Fault.normalize (fault : Fault) : Fault := { fault with trap := fault.trap.normalize }

/-- An outcome with its value normalized. -/
def Outcome.normalize : Outcome → Outcome
  | returned value => returned (value.map Slot.normalize)
  | interrupted steps => interrupted steps

/-- A status with its value normalized. -/
def Status.normalize : Status → Status
  | running => running
  | returned value => returned (value.map Slot.normalize)

/-- A frame with an int in the place of every boolean. -/
def Frame.normalize (f : Frame) : Frame :=
  { f with
    stack := f.stack.map Slot.normalize
    locals := f.locals.map Slot.normalize
    status := f.status.normalize }

/-- The text of a slot does not show whether it is a boolean or an int. -/
theorem Heap.slotText_normalize (heap : Heap) (s : Slot) :
    heap.slotText s.normalize = heap.slotText s := by
  cases s <;> rfl

namespace Frame

/-- The view with ints for booleans. -/
def onlyInts : View where
  intsOnly := true

/-- The view that has only ints shows a slot as its normal form. -/
theorem slot_onlyInts (s : Slot) : onlyInts.slot s = s.normalize := by
  cases s with
  | reference r =>
    cases r with
    | none => rfl
    | some r => rw [View.slot, Option.map_some, View.reference_of_front rfl]; rfl
  | _ => rfl

/-- So it shows a trap. -/
theorem trap_onlyInts (t : Trap) : onlyInts.trap t = t.normalize := by
  cases t with
  | typeMismatch expected found => cases found <;> rfl
  | _ => rfl

/-- It has nothing that the frame misses. -/
theorem lifts_onlyInts (t : Trap) : onlyInts.lifts t = false := by
  cases t <;> rfl

/-- So it shows a frame. -/
theorem frame_onlyInts (f : Frame) : onlyInts.frame f = f.normalize := by
  have hslot : onlyInts.slot = Slot.normalize := funext slot_onlyInts
  have hstatus : onlyInts.status f.status = f.status.normalize := by
    cases f.status with
    | running => rfl
    | returned value => rw [View.status, hslot]; rfl
  rw [View.frame, View.stack, View.locals, hslot, hstatus]
  simp [onlyInts, normalize, View.code]

variable {f g : Frame} {t : Trap} {u : Unit}

/-- A step that succeeds does so on the normal form, and leaves the normal form. -/
theorem step_normalize_of_ok (h : step f = .ok u g) : step f.normalize = .ok u g.normalize := by
  rw [← frame_onlyInts, ← frame_onlyInts]
  exact View.step_frame_of_ok h

/-- A step that traps does so on the normal form too. -/
theorem step_normalize_of_error (h : step f = .error t g) :
    step f.normalize = .error t.normalize g.normalize := by
  rw [← frame_onlyInts, ← frame_onlyInts, ← trap_onlyInts]
  exact View.step_frame_of_error h (lifts_onlyInts t)

/-- So do many steps. -/
theorem after_normalize (f : Frame) (n : Nat) : f.normalize.after n = (f.after n).normalize := by
  rw [← frame_onlyInts, ← frame_onlyInts]
  exact View.after_frame fun i _ t _ => lifts_onlyInts t

/-- Arguments may be brought to normal form before they are set or after. -/
theorem setLocals_normalize (f : Frame) (args : List (Nat × Slot)) :
    f.normalize.setLocals (args.map fun arg => (arg.1, arg.2.normalize)) =
      (f.setLocals args).normalize := by
  have hargs := View.setLocals_frame (v := onlyInts) rfl f args
  simpa only [frame_onlyInts, slot_onlyInts] using hargs

/-- A new frame holds no boolean. -/
theorem normalize_new (code : Code) (locals : Nat) (heap : Heap) :
    (new code locals heap).normalize = new code locals heap := by
  simp [normalize, new, Locals.new, Status.normalize, Slot.normalize]

/-- What a frame gives at its end, brought to normal form. -/
theorem finish_normalize (f : Frame) (value : Option Slot) :
    f.normalize.finish (value.map Slot.normalize) =
      match f.finish value with
      | .ok value => .ok (value.map Slot.normalize)
      | .error t => .error t.normalize := by
  cases hstack : f.stack with
  | nil => simp [finish, normalize, hstack]
  | cons s rest => simp [finish, normalize, hstack, Trap.normalize]

/-- The result of a run, normalized. -/
def normalizeRun : EStateM.Result Trap Frame (Option Slot) → EStateM.Result Trap Frame (Option Slot)
  | .ok value g => .ok (value.map Slot.normalize) g.normalize
  | .error t g => .error t.normalize g.normalize

/-- The result of a limited run, normalized. -/
def normalizeLimitedRun : EStateM.Result Fault Frame Outcome → EStateM.Result Fault Frame Outcome
  | .ok outcome g => .ok outcome.normalize g.normalize
  | .error fault g => .error fault.normalize g.normalize

/-- The status of the normal form. -/
@[simp] theorem status_normalize (f : Frame) : f.normalize.status = f.status.normalize := rfl

/-- A run of the normal form comes to the normal form of the run. -/
theorem run_normalize (fuel : Nat) (f : Frame) :
    run fuel f.normalize = (run fuel f).map normalizeRun := by
  induction fuel generalizing f with
  | zero => rfl
  | succ fuel ih =>
    cases hstep : step f with
    | error t g =>
      simp only [run, hstep, step_normalize_of_error hstep]
      rfl
    | ok u g =>
      cases hstatus : g.status with
      | running =>
        simp only [run, hstep, step_normalize_of_ok hstep, status_normalize, hstatus,
          Status.normalize]
        exact ih g
      | returned value =>
        simp only [run, hstep, step_normalize_of_ok hstep, status_normalize, hstatus,
          Status.normalize, finish_normalize]
        cases g.finish value <;> rfl

/-- So does a limited run, with the same limits and the same stops. -/
theorem runLimitedFrom_normalize (start : Nat) (limit : Option Nat) (stop : StopSignal) (fuel : Nat)
    (f : Frame) :
    runLimitedFrom start limit stop fuel f.normalize =
      (runLimitedFrom start limit stop fuel f).map normalizeLimitedRun := by
  induction fuel generalizing f with
  | zero => rfl
  | succ fuel ih =>
    have hsteps : f.normalize.steps = f.steps := rfl
    cases hend : interrupts limit stop (f.steps - start) with
    | true =>
      simp only [runLimitedFrom, hsteps, hend, if_true]
      rfl
    | false =>
      cases hstep : step f with
      | error t g =>
        simp only [runLimitedFrom, hsteps, hend, hstep, step_normalize_of_error hstep,
          Bool.false_eq_true, if_false]
        rfl
      | ok u g =>
        cases hstatus : g.status with
        | running =>
          simp only [runLimitedFrom, hsteps, hend, hstep, step_normalize_of_ok hstep,
            status_normalize, hstatus, Status.normalize, Bool.false_eq_true, if_false]
          exact ih g
        | returned value =>
          simp only [runLimitedFrom, hsteps, hend, hstep, step_normalize_of_ok hstep,
            status_normalize, hstatus, Status.normalize, finish_normalize, Bool.false_eq_true,
            if_false]
          cases g.finish value <;> rfl

/-- The trace of a run shows opcodes and depths, and no booleans. -/
theorem traceOnto_normalize (entries : List TraceEntry) (count : Nat) (f : Frame) :
    traceOnto entries count f.normalize = traceOnto entries count f := by
  induction count generalizing entries f with
  | zero => rfl
  | succ count ih =>
    have hlength : f.normalize.stack.length = f.stack.length := List.length_map _
    have hcode : f.normalize.code[f.normalize.pc]? = f.code[f.pc]? := rfl
    rw [traceOnto, traceOnto, hcode]
    cases f.code[f.pc]? with
    | none => rfl
    | some opcode =>
      dsimp only
      rw [hlength]
      cases hstep : step f with
      | error t g =>
        rw [step_normalize_of_error hstep]
        rfl
      | ok u g =>
        rw [step_normalize_of_ok hstep]
        exact ih _ g

/-- **Booleans are ints.**  A step of a normalized frame is the step of the frame, normalized, and
so are any number of steps.  Hence a run with ints for the booleans among its arguments goes through
the same instructions, with as many operands, and ends as the run with the booleans does,
normalized; and no text shows which of the two it was. -/
theorem booleans_are_ints :
    (∀ f u g, step f = .ok u g → step f.normalize = .ok u g.normalize) ∧
    (∀ f t g, step f = .error t g → step f.normalize = .error t.normalize g.normalize) ∧
    (∀ (f : Frame) n, f.normalize.after n = (f.after n).normalize) ∧
    (∀ code locals heap args,
      let f := (new code locals heap).setLocals args
      let g := (new code locals heap).setLocals (args.map fun arg => (arg.1, arg.2.normalize))
      g = f.normalize ∧ (∀ count, trace count g = trace count f) ∧
      (∀ fuel, run fuel g = (run fuel f).map normalizeRun) ∧
      ∀ limit stop fuel,
        runLimited limit stop fuel g = (runLimited limit stop fuel f).map normalizeLimitedRun) ∧
    ∀ (heap : Heap) s, heap.slotText s.normalize = heap.slotText s := by
  refine ⟨fun _ _ _ => step_normalize_of_ok, fun _ _ _ => step_normalize_of_error,
    after_normalize, fun code locals heap args => ?_, Heap.slotText_normalize⟩
  intro f g
  have hg : g = f.normalize := by
    rw [← setLocals_normalize, normalize_new]
  refine ⟨hg, fun count => ?_, fun fuel => ?_, fun limit stop fuel => ?_⟩
  · rw [hg, trace, trace, traceOnto_normalize]
  · rw [hg, run_normalize]
  · rw [hg]
    exact runLimitedFrom_normalize f.steps limit stop fuel f

end Frame

end MethodMachine
