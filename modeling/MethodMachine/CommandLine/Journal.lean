/-
# The journal

jemu's `configure` and `level_for`, and the events that `Frame` and the commands report
(specification, 8).

Events are reported at five levels.  How many of them are shown depends on the verbosity:

| verbosity | shown |
| --- | --- |
| 0 | errors |
| 1 | and warnings: a run that was cut short |
| 2 | and information: the same, for the user |
| 3 | and debugging: frames made, frames returned |
| 4 | and traces: every instruction carried out |

A line of the journal gives the level, the part of the program, the time and the message.
-/

import MethodMachine.Frame.Run

namespace MethodMachine

/-- The levels, the most urgent first. -/
inductive LogLevel where
  | error
  | warn
  | info
  | debug
  | trace
deriving DecidableEq

namespace LogLevel

/-- The name of a level. -/
def name : LogLevel → String
  | error => "ERROR"
  | warn => "WARN"
  | info => "INFO"
  | debug => "DEBUG"
  | trace => "TRACE"

/-- How far down a level stands. -/
def rank : LogLevel → Nat
  | error => 0
  | warn => 1
  | info => 2
  | debug => 3
  | trace => 4

/-- The last level shown at a verbosity (`level_for`). -/
def ofVerbosity? : Nat → Option LogLevel
  | 0 => some error
  | 1 => some warn
  | 2 => some info
  | 3 => some debug
  | 4 => some trace
  | _ => none

end LogLevel

/-- An event. -/
structure LogEntry where
  level : LogLevel
  part : String
  message : String
deriving DecidableEq

namespace LogEntry

/-- The line of an event at a time. -/
def line (clock : String) (e : LogEntry) : String :=
  "[" ++ e.level.name ++ " " ++ e.part ++ " " ++ clock ++ "] " ++ e.message ++ "\n"

end LogEntry

namespace Journal

/-- The part of the program that runs frames. -/
def framePart : String := "jemu_vm::frame"

/-- The part of the program that serves the command line. -/
def commandPart : String := "jemu::cli"

/-- The lines of the events that are shown. -/
def lines (shown : LogLevel) (clock : String) (entries : List LogEntry) : String :=
  String.join ((entries.filter fun e => e.level.rank ≤ shown.rank).map (LogEntry.line clock))

/-- A frame has been made. -/
def created (f : Frame) : LogEntry :=
  ⟨.debug, framePart, "New frame with " ++ f.code.size.repr ++ " bytes of code and " ++
    f.locals.size.repr ++ " locals"⟩

/-- An instruction is about to be carried out. -/
def traced (e : Frame.TraceEntry) : LogEntry :=
  ⟨.trace, framePart, "pc=" ++ e.pc.repr ++ " " ++ e.opcode.text ++ " depth=" ++ e.depth.repr⟩

/-- The end of a run, unless it was a fault. -/
def ended : EStateM.Result Fault Frame Outcome → List LogEntry
  | .error _ _ => []
  | .ok (.interrupted steps) f =>
    [⟨.warn, framePart, "Step limit reached after " ++ steps.repr ++ " steps at pc " ++
      f.pc.repr⟩]
  | .ok (.returned value) f =>
    [⟨.debug, framePart, "Frame returned " ++ (value.map f.heap.slotText).getD "void" ++
      " after " ++ f.steps.repr ++ " steps"⟩]

/-- The frame that a run leaves. -/
def final : EStateM.Result Fault Frame Outcome → Frame
  | .error _ f => f
  | .ok _ f => f

/-- The events of a run from a frame.  The instructions are listed only where traces are shown. -/
def ofRun (shown : LogLevel) (f : Frame) (result : EStateM.Result Fault Frame Outcome) :
    List LogEntry :=
  let instructions :=
    if shown = .trace then f.trace ((final result).steps - f.steps) else []
  instructions.map traced ++ ended result

/-- A run was cut short. -/
def stopped (steps pc : Nat) : LogEntry :=
  ⟨.info, commandPart, "Stopped after " ++ steps.repr ++ " steps at pc " ++ pc.repr⟩

end Journal

end MethodMachine
