/-
# Sessions

jemu's commands `run`, `disassemble` and `benchmark`, with `load_code`, `new_frame` and
`dump_locals_to` (specification, 9).

A session carries out an invocation on a file store.  It prints to the standard output, reports to
the journal, which goes to the standard error or to a file, and may end with an error, which is
quoted on the standard error.

| command | effect |
| --- | --- |
| `run` | runs a method, writes its locals to a file if asked, prints the value returned |
| `disassemble` | prints the instructions of a method |
| `benchmark` | runs a method many times and prints statistics |
| `version` | prints the version |

A journal file is made before anything else is done; that it cannot be written is not reported.  A
dump of the locals is written after the run, whatever its end.
-/

import MethodMachine.CommandLine.FileStore
import MethodMachine.CommandLine.Invocation
import MethodMachine.CommandLine.Journal
import MethodMachine.CommandLine.Statistics
import MethodMachine.Instruction
import MethodMachine.Text.Hex
import MethodMachine.Text.Json
import MethodMachine.Text.Quoted

namespace MethodMachine

/-- What a session has written so far, and where its journal goes. -/
structure Console where
  store : FileStore
  stdout : String
  stderr : String
  /-- the time, as the journal shows it -/
  clock : String
  /-- the last level shown -/
  level : LogLevel
  /-- where the journal goes -/
  journal : Target
  /-- the position reached in the journal -/
  position : Nat

namespace Console

/-- A console on which nothing has been written.  The journal goes to the standard error and shows
errors only. -/
def start (store : FileStore) (clock : String) : Console where
  store := store
  stdout := ""
  stderr := ""
  clock := clock
  level := .error
  journal := .device .standardError
  position := 0

/-- Writes text to a target, in a file from a position on. -/
def write (c : Console) (target : Target) (position : Nat) (text : String) :
    Except FileError Console :=
  match target with
  | .file name => .ok { c with store := c.store.writeAt name position text.toUTF8 }
  | .device .standardOutput => .ok { c with stdout := c.stdout ++ text }
  | .device .standardError => .ok { c with stderr := c.stderr ++ text }
  | .device .full => if text.isEmpty then .ok c else .error .noSpace
  | .device _ => .ok c

end Console

/-- An effect on a console, which may end with a message. -/
abbrev Session (α : Type) := EStateM String Console α

namespace Session

/-- Stops with a message, or goes on with a value. -/
def orFail {α ε : Type} (message : ε → String) : Except ε α → Session α
  | .ok a => pure a
  | .error e => throw (message e)

/-- Prints a line. -/
def printLine (text : String) : Session Unit :=
  modify fun c => { c with stdout := c.stdout ++ text ++ "\n" }

/-- Adds text to the journal, if it can be written. -/
def writeJournal (text : String) : Session Unit := modify fun c =>
  match c.write c.journal c.position text with
  | .ok d => { d with position := d.position + text.utf8ByteSize }
  | .error _ => c

/-- Reports events. -/
def report (entries : List LogEntry) : Session Unit := do
  let c ← get
  writeJournal (Journal.lines c.level c.clock entries)

/-- Makes an empty file and returns it. -/
def create (message : FileError → String) (path : String) : Session Target := do
  let (target, store) ← orFail message ((← get).store.create path)
  modify fun c => { c with store := store }
  return target

/-- Opens the journal (`configure`).  One that nobody sees shows no more than errors, of which there
are none. -/
def openJournal (verbosity : Nat) (file : Option String) : Session Unit := do
  match LogLevel.ofVerbosity? verbosity with
  | none => throw "Verbosity is limited to -vvvv"
  | some level => modify fun c => { c with level := level }
  match file with
  | none => pure ()
  | some path =>
    let target ← create (fun e => "Unable to create log file " ++ path ++ ". " ++ e.message) path
    modify fun c => { c with
      journal := target
      level := if target.isSeen then c.level else .error }

end Session

/-- Reads the code of a method (`load_code`): hexadecimal text from a `.hex` file, bytes from any
other. -/
def FileStore.readCode (store : FileStore) (path : String) : Except String Code :=
  let unopened (e : FileError) : String := "Unable to open " ++ path ++ ": " ++ e.message
  if Path.hasExtension path "hex" then
    match store.readText path with
    | .error e => .error (unopened e)
    | .ok text =>
      match Hex.read text with
      | .error e => .error ("Unable to read " ++ path ++ ": " ++ e.message)
      | .ok bytes => .ok bytes.toArray
  else
    match store.read path with
    | .error e => .error (unopened e)
    | .ok bytes => .ok bytes.data

namespace Frame

/-- Puts an argument into a local. -/
def setArgument (f : Frame) (index : Nat) (argument : HostValue) : Except Trap Frame := do
  let (s, heap) ← argument.toSlot f.heap
  { f with heap := heap }.setLocal index s

/-- Puts arguments into the locals from an index on.  A trap comes with its index. -/
def setArguments (f : Frame) (index : Nat) : List HostValue → Except (Nat × Trap) Frame
  | [] => .ok f
  | argument :: rest =>
    match f.setArgument index argument with
    | .error t => .error (index, t)
    | .ok g => g.setArguments (index + 1) rest

/-- A frame for a method with its arguments in the first locals, of which there are enough. -/
def ofArguments (code : Code) (locals : Nat) (arguments : List HostValue) :
    Except (Nat × Trap) Frame :=
  (new code (max locals arguments.length) #[]).setArguments 0 arguments

end Frame

namespace Session

/-- A frame for a method and its arguments (`new_frame`). -/
def makeFrame (code : Code) (locals : Nat) (arguments : List HostValue) : Session Frame :=
  orFail (fun (i, t) => "Unable to set argument " ++ i.repr ++ ": " ++ t.message)
    (Frame.ofArguments code locals arguments)

/-- The locals of a frame, one on a line. -/
def localsText (f : Frame) : String :=
  String.join ((f.locals.toList.zipIdx).map fun (s, i) =>
    "local[" ++ i.repr ++ "]: " ++ f.heap.slotText s ++ "\n")

/-- Writes the locals of a frame to a file (`dump_locals_to`). -/
def dumpLocals (f : Frame) (path : String) : Session Unit := do
  let target ← create (fun e => "Unable to create dump file " ++ path ++ ": " ++ e.message) path
  set (← orFail (fun e => "Unable to write dump file: " ++ e.message)
    ((← get).write target 0 (localsText f)))

/-- Runs a method. -/
def run (file : String) (locals : Nat) (arguments : List HostValue) (limit : Option Nat)
    (dump : Option String) : Session Unit := do
  let code ← orFail id ((← get).store.readCode file)
  let f ← makeFrame code locals arguments
  report [Journal.created f]
  match f.runLimited limit .never (Frame.fuelFor limit) with
  | none => pure ()
  | some result =>
    report (Journal.ofRun (← get).level f result)
    match dump with
    | none => pure ()
    | some path => dumpLocals (Journal.final result) path
    match result with
    | .ok (.returned (some value)) f => printLine (f.heap.slotText value)
    | .ok (.returned none) _ => pure ()
    | .ok (.interrupted steps) f => report [Journal.stopped steps f.pc]
    | .error fault _ => throw ("VM trap: " ++ fault.message)

/-- An instruction in a listing. -/
def listingEntry (i : Instruction) : Json :=
  let reserved := if i.opcode.isReserved then [("reserved", Json.bool true)] else []
  let target := match i.target? with
    | some t => [("target", Json.nat t)]
    | none => []
  .object ([("name", .string i.name), ("offset", .nat i.offset), ("opcode", .nat i.opcode.toNat),
    ("operands", .list (i.operands.map fun b => .nat b.toNat))] ++ reserved ++ target)

/-- Prints the instructions of a method. -/
def disassemble (file : String) : Session Unit := do
  let code ← orFail id ((← get).store.readCode file)
  let undecoded (e : DisassemblyError) := "Unable to decode " ++ file ++ ": " ++ e.message
  let instructions ← orFail undecoded code.disassemble
  printLine (Json.pretty (.object
    [("instructions", .list (instructions.map listingEntry)), ("length", .nat code.size)]))

/-- What a run of a benchmark gives: its step count, or why it failed. -/
def benchmarkSteps : EStateM.Result Fault Frame Outcome → Except String Nat
  | .ok (.returned _) f => .ok f.steps
  | .ok (.interrupted steps) f =>
    .error ("run interrupted after " ++ steps.repr ++ " steps at pc " ++ f.pc.repr)
  | .error fault _ => .error fault.message

/-- The layout of a measured time. -/
def timeLayout : Layout := ⟨"null", true, false⟩

/-- The measured times in a report, or nulls when nothing was measured. -/
def timesJson : Option Statistics.Summary → Json
  | none => .object [("max", .null), ("mean", .null), ("p99", .null), ("stddev", .null)]
  | some s =>
    let time (x : Double) : Json := .number (timeLayout.text x)
    .object [("max", time s.max), ("mean", time s.mean), ("p99", time s.percentile99),
      ("stddev", time s.deviation)]

/-- Prints the report of a benchmark. -/
def printBenchmark (times : Option Statistics.Summary) (file : String) (cycles warmup steps : Nat) :
    Session Unit :=
  printLine (Json.pretty (.object [("cycles", .nat cycles),
    ("program", .string ((Path.fileName? file).getD "")), ("run_us", timesJson times),
    ("steps_per_run", .nat steps), ("warmup", .nat warmup)]))

/-- Runs a method `warmup` times and then `cycles` times.  Every run starts from the same frame, so
one run tells the end of all of them, and the journal repeats its events. -/
def benchmark (times : Option Statistics.Summary) (file : String) (locals : Nat)
    (arguments : List HostValue) (cycles warmup : Nat) (limit : Option Nat) : Session Unit := do
  let code ← orFail id ((← get).store.readCode file)
  if warmup + cycles = 0 then printBenchmark times file cycles warmup 0
  else
    let f ← makeFrame code locals arguments
    match f.runLimited limit .never (Frame.fuelFor limit) with
    | none => pure ()
    | some result =>
      let c ← get
      let events := Journal.created f :: Journal.ofRun c.level f result
      let lines := Journal.lines c.level c.clock events
      match benchmarkSteps result with
      | .error e =>
        writeJournal lines
        let phase := if 0 < warmup then "Benchmark failed during warmup: " else "Benchmark failed: "
        throw (phase ++ e)
      | .ok steps =>
        if !lines.isEmpty then
          writeJournal (String.join (List.replicate (warmup + cycles) lines))
        printBenchmark times file cycles warmup (if 0 < cycles then steps else 0)

/-- The version of the program. -/
def versionText : String := "jemu version 0.1.0"

/-- Carries out an invocation. -/
def perform (times : Option Statistics.Summary) (invocation : Invocation) : Session Unit := do
  openJournal invocation.verbosity invocation.logFile
  match invocation.action with
  | .run file locals arguments limit dump => run file locals arguments limit dump
  | .disassemble file => disassemble file
  | .benchmark file locals arguments cycles warmup limit =>
    benchmark times file locals arguments cycles warmup limit
  | .version => printLine versionText

end Session

/-- What a session leaves. -/
structure Report where
  exitCode : Nat
  stdout : String
  stderr : String
  store : FileStore

namespace Report

/-- How to call the program. -/
def usage : String :=
  "Usage: jemu [-v]... [-l PATH] run|disassemble|benchmark|version [FILE] [OPTIONS]\n"

/-- Carries out a command line on a store.  A command line that is refused leaves the store as it
is. -/
def ofWords (times : Option Statistics.Summary) (clock : String) (store : FileStore)
    (words : List String) : Report :=
  match Invocation.read words with
  | .error .usage => ⟨2, "", usage, store⟩
  | .error .help => ⟨0, usage, "", store⟩
  | .ok invocation =>
    match Session.perform times invocation (.start store clock) with
    | .ok _ c => ⟨0, c.stdout, c.stderr, c.store⟩
    | .error message c =>
      ⟨1, c.stdout, c.stderr ++ "Error: " ++ Text.quoted message ++ "\n", c.store⟩

end Report

end MethodMachine
