/-
# Steps and runs

jemu's `step`, `finish`, `run`, `fault` and `run_bounded`, with `Outcome`, `FaultContext` and
`StopHandle` (specification, 4.3 to 4.5).

A step carries out the instruction at the program counter.  A trap while the instruction is decoded
leaves the frame untouched; afterwards the program counter has moved past the instruction, the step
has been counted, and a trap keeps what the operation did.

A run (`run`) repeats steps until the frame returns or traps.  A limited run (`run_bounded`) also
ends when a stop is requested or when it has made a given number of steps; both are looked at before
every step.  A stop may be requested from outside while the run goes on, so the run is given what it
will find each time it looks (`StopSignal`).  A run need not end, so it is given fuel, one unit for
each turn of the loop, and has no result when the fuel is spent first.
-/

import MethodMachine.Frame.Execution

namespace MethodMachine

/-- A trap with the address of its instruction and the opcode there (`FaultContext`). -/
structure Fault where
  trap : Trap
  pc : Nat
  opcode : Option Opcode
deriving DecidableEq

namespace Fault

/-- The fault in words. -/
def message (fault : Fault) : String :=
  match fault.opcode with
  | some opcode =>
    fault.trap.message ++ " (pc " ++ fault.pc.repr ++ ", opcode " ++ Opcode.text opcode ++ ")"
  | none => fault.trap.message ++ " (pc " ++ fault.pc.repr ++ ")"

end Fault

/-- How a limited run ended without a fault. -/
inductive Outcome where
  /-- the frame returned, with a value unless the method returns none -/
  | returned (value : Option Slot)
  /-- a stop was requested or the limit was reached, after so many steps -/
  | interrupted (steps : Nat)
deriving DecidableEq

/-- What a limited run finds when it looks whether a stop is requested (`StopHandle`), by the number
of steps that it has made. -/
abbrev StopSignal := Nat → Bool

/-- No stop is requested during the run. -/
def StopSignal.never : StopSignal := fun _ => false

namespace Frame

/-- Carries out the instruction at the program counter. -/
def step : Execution Unit := fun f =>
  match f.status with
  | .returned _ => .error .alreadyReturned f
  | .running =>
    match Operation.decode f.code f.pc with
    | .error t => .error t f
    | .ok (operation, next) =>
      Execution.execute f.pc operation { f with pc := next, steps := f.steps + 1 }

/-- What a frame that has just returned gives: its value, if nothing is left on the stack. -/
def finish (f : Frame) (value : Option Slot) : Except Trap (Option Slot) :=
  if f.stack.isEmpty then .ok value else .error (.stackNotEmpty f.stack.length)

/-- Repeats steps until the frame returns. -/
def run : (fuel : Nat) → Frame → Option (EStateM.Result Trap Frame (Option Slot))
  | 0, _ => none
  | fuel + 1, f =>
    match step f with
    | .error t f => some (.error t f)
    | .ok _ f =>
      match f.status with
      | .running => run fuel f
      | .returned value =>
        match f.finish value with
        | .ok value => some (.ok value f)
        | .error t => some (.error t f)

/-- A trap at an address of the code. -/
def fault (f : Frame) (trap : Trap) (pc : Nat) : Fault := ⟨trap, pc, f.code[pc]?⟩

/-- Whether a number of steps reaches a limit. -/
@[inline] def reaches (limit : Option Nat) (steps : Nat) : Bool :=
  match limit with
  | some most => most ≤ steps
  | none => false

/-- Whether a limited run is interrupted when it has made so many steps. -/
@[inline] def interrupts (limit : Option Nat) (stop : StopSignal) (steps : Nat) : Bool :=
  stop steps || reaches limit steps

/-- Repeats steps within limits; `start` is the step count at which the run began. -/
def runLimitedFrom (start : Nat) (limit : Option Nat) (stop : StopSignal) :
    (fuel : Nat) → Frame → Option (EStateM.Result Fault Frame Outcome)
  | 0, _ => none
  | fuel + 1, f =>
    let done := f.steps - start
    if interrupts limit stop done then some (.ok (.interrupted done) f)
    else
      let pc := f.pc
      match step f with
      | .error t f => some (.error (f.fault t pc) f)
      | .ok _ f =>
        match f.status with
        | .running => runLimitedFrom start limit stop fuel f
        | .returned value =>
          match f.finish value with
          | .ok value => some (.ok (.returned value) f)
          | .error t => some (.error (f.fault t pc) f)

/-- Repeats steps until the frame returns, a stop is requested, or `limit` steps have been made
(`run_bounded`). -/
def runLimited (limit : Option Nat) (stop : StopSignal) (fuel : Nat) (f : Frame) :
    Option (EStateM.Result Fault Frame Outcome) :=
  runLimitedFrom f.steps limit stop fuel f

/-- The fuel of a run: one turn more than the limit, or without a limit more turns than any run is
waited for. -/
def fuelFor : Option Nat → Nat
  | some most => most + 1
  | none => 0x4000000000000000

/-- What a trace shows of a step: where it is, its opcode, and how many operands there are. -/
structure TraceEntry where
  pc : Nat
  opcode : Opcode
  depth : Nat
deriving DecidableEq

/-- The trace of the next `count` steps that decode, the latest first, in front of earlier
entries. -/
def traceOnto (entries : List TraceEntry) : (count : Nat) → Frame → List TraceEntry
  | 0, _ => entries
  | count + 1, f =>
    match f.code[f.pc]? with
    | none => entries
    | some opcode =>
      let entries := ⟨f.pc, opcode, f.stack.length⟩ :: entries
      match step f with
      | .error _ _ => entries
      | .ok _ f => traceOnto entries count f

/-- The trace of the next `count` steps that decode. -/
def trace (count : Nat) (f : Frame) : List TraceEntry := (traceOnto [] count f).reverse

end Frame

end MethodMachine
