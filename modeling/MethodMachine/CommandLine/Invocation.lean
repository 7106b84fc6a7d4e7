/-
# Invocations

jemu's `Args` and `Action` (specification, 9).

A command line is `[-v]... [-l PATH]` followed by one of

    run FILE [--locals N] [--arg ARG]... [--max-steps N] [--dump-locals PATH]
    disassemble FILE
    benchmark FILE [--locals N] [--arg ARG]... [--cycles N] [--warmup N] [--max-steps N]
    version
    help [COMMAND]

| word | meaning |
| --- | --- |
| `--name`, `-n` | a switch; short ones may be run together |
| `--name=value`, `-nvalue`, `-n=value` | a switch with its value |
| `--name value`, `-n value` | the same, if the next word does not look like a switch |
| `--` | what follows are operands |
| `-` and anything else | an operand |

Switches before the name of the command belong to the program, those after it to the command.
Anything that does not fit is refused.

Words are read from left to right, and the first reason to refuse the line wins; a request for help,
`--help` or `-h`, is one of them.  A value that is a word of its own, and an operand too, is
interpreted only when the next switch or operand of the same part is met, or its end.  A value that
is the last word before the command is thus interpreted after all words of the command.
-/

import MethodMachine.CommandLine.Argument

namespace MethodMachine

/-- Why a command line is not carried out. -/
inductive Refusal where
  /-- it does not follow the rules -/
  | usage
  /-- it asks for help -/
  | help
deriving DecidableEq

namespace CommandLine

/-- The value of a switch. -/
inductive Value where
  | path (text : String)
  | number (n : Nat)
  | argument (value : HostValue)
deriving DecidableEq

/-- What values a switch takes. -/
inductive ValueKind where
  | path
  | number
  | argument
deriving DecidableEq

namespace ValueKind

/-- Interprets a value.  A path is not empty and a number is at most `2 ^ 64 - 1`. -/
def read? : ValueKind → String → Option Value
  | path, text => if text = "" then none else some (.path text)
  | number, text => (Literal.readNatural (UInt64.size - 1) text.toList).toOption.map .number
  | argument, text => (Argument.read text).toOption.map .argument

/-- Whether a switch with such values may be given more than once. -/
def repeats : ValueKind → Bool
  | argument => true
  | _ => false

end ValueKind

/-- What a switch looks like. -/
structure Switch where
  long : String
  short : Option Char
  /-- the values it takes; a flag takes none -/
  value? : Option ValueKind
deriving DecidableEq

/-- What a part of a command line may hold. -/
structure Form where
  switches : List Switch
  /-- whether there is an operand, the path of a file -/
  takesFile : Bool
deriving DecidableEq

/-- Something given on a command line. -/
inductive Item where
  | flag (name : String)
  | value (name : String) (value : Value)
  | file (path : String)
deriving DecidableEq

/-- Something given on a command line and not interpreted yet. -/
inductive Given where
  | value (name : String) (kind : ValueKind) (text : String)
  | operand (text : String)
deriving DecidableEq

namespace Item

/-- Whether an item is a value of a switch. -/
def isValueOf (name : String) : Item → Bool
  | value other _ => other = name
  | _ => false

/-- Whether an item is the file. -/
def isFile : Item → Bool
  | file _ => true
  | _ => false

end Item

namespace Given

/-- Interprets what is given, after other items. -/
def interpret (items : List Item) : Given → Except Refusal Item
  | value name kind text =>
    if !kind.repeats && items.any (Item.isValueOf name) then .error .usage
    else
      match kind.read? text with
      | some v => .ok (.value name v)
      | none => .error .usage
  | operand text => if text = "" then .error .usage else .ok (.file text)

end Given

/-- How far a part of a command line has been read. -/
structure Reading where
  /-- what has been interpreted, the latest first -/
  items : List Item
  /-- what comes next and is still to be interpreted -/
  pending : Option Given
deriving DecidableEq

namespace Reading

/-- Nothing has been read. -/
def start : Reading := ⟨[], none⟩

/-- Interprets what is pending. -/
def settle (r : Reading) : Except Refusal Reading :=
  match r.pending with
  | none => .ok r
  | some given => do return ⟨(← given.interpret r.items) :: r.items, none⟩

/-- Adds a flag. -/
def addFlag (r : Reading) (name : String) : Except Refusal Reading := do
  let r ← r.settle
  return { r with items := .flag name :: r.items }

/-- Adds something to be interpreted later. -/
def hold (r : Reading) (given : Given) : Except Refusal Reading := do
  return { ← r.settle with pending := some given }

/-- Adds something and interprets it. -/
def add (r : Reading) (given : Given) : Except Refusal Reading := do (← r.hold given).settle

/-- Adds an operand.  There is at most one, and only if the form has one. -/
def addOperand (form : Form) (r : Reading) (text : String) : Except Refusal Reading := do
  let r ← r.settle
  if form.takesFile && !r.items.any Item.isFile then r.hold (.operand text) else .error .usage

/-- Ends with a request for help. -/
def help {α : Type} (r : Reading) : Except Refusal α := do
  let _ ← r.settle
  .error .help

end Reading

/-- Whether a word is taken for a switch. -/
def looksLikeSwitch (word : String) : Bool :=
  match word.toList with
  | '-' :: _ :: _ => true
  | _ => false

/-- The text after an equals sign that may separate a value. -/
def withoutEquals : List Char → String
  | '=' :: rest => String.ofList rest
  | rest => String.ofList rest

/-- A reading, and the switch whose value is the next word. -/
abbrev SwitchReading := Reading × Option (String × ValueKind)

/-- Reads the letters of a short switch word. -/
def readShort (form : Form) (r : Reading) : List Char → Except Refusal SwitchReading
  | [] => .ok (r, none)
  | c :: rest =>
    match form.switches.find? fun s => s.short = some c with
    | none => if c = 'h' then r.help else .error .usage
    | some ⟨long, _, none⟩ => do readShort form (← r.addFlag long) rest
    | some ⟨long, _, some kind⟩ =>
      if rest.isEmpty then do return (← r.settle, some (long, kind))
      else do return (← r.add (.value long kind (withoutEquals rest)), none)

/-- Reads a long switch word, given without its dashes. -/
def readLong (form : Form) (r : Reading) (word : List Char) : Except Refusal SwitchReading :=
  let name := String.ofList (word.takeWhile (· ≠ '='))
  let attached := word.dropWhile (· ≠ '=')
  match form.switches.find? fun s => s.long = name with
  | none => if name = "help" && attached.isEmpty then r.help else .error .usage
  | some ⟨long, _, none⟩ =>
    if attached.isEmpty then do return (← r.addFlag long, none) else .error .usage
  | some ⟨long, _, some kind⟩ =>
    if attached.isEmpty then do return (← r.settle, some (long, kind))
    else do return (← r.add (.value long kind (withoutEquals attached)), none)

/-- Reads a word that is taken for a switch. -/
def readSwitch (form : Form) (r : Reading) (word : String) : Except Refusal SwitchReading :=
  match word.toList with
  | '-' :: '-' :: name => readLong form r name
  | '-' :: letters => readShort form r letters
  | _ => .error .usage

/-- Reads words that are operands whatever they look like. -/
def readOperands (form : Form) (r : Reading) : List String → Except Refusal Reading
  | [] => .ok r
  | word :: rest => do readOperands form (← r.addOperand form word) rest

/-- Reads the words of a command. -/
def readWords (form : Form) (r : Reading) : List String → Except Refusal Reading
  | [] => .ok r
  | word :: rest =>
    if word = "--" then readOperands form r rest
    else if looksLikeSwitch word then
      match readSwitch form r word with
      | .error e => .error e
      | .ok (r, none) => readWords form r rest
      | .ok (r, some (name, kind)) =>
        match rest with
        | [] => .error .usage
        | value :: rest =>
          if looksLikeSwitch value then .error .usage
          else do readWords form (← r.hold (.value name kind value)) rest
    else do readWords form (← r.addOperand form word) rest

/-- Reads the words in front of a command; the command and its words are left. -/
def readLeading (form : Form) (r : Reading) :
    List String → Except Refusal (Reading × String × List String)
  | [] => .error .usage
  | word :: rest =>
    if looksLikeSwitch word then
      match readSwitch form r word with
      | .error e => .error e
      | .ok (r, none) => readLeading form r rest
      | .ok (r, some (name, kind)) =>
        match rest with
        | [] => .error .usage
        | value :: rest =>
          if looksLikeSwitch value then .error .usage
          else do readLeading form (← r.hold (.value name kind value)) rest
    else .ok (r, word, rest)

/-- How often a flag was given. -/
def countFlag (name : String) (items : List Item) : Nat := items.count (.flag name)

/-- The values given to a switch. -/
def values (name : String) (items : List Item) : List Value :=
  items.filterMap fun
    | .value other v => if other = name then some v else none
    | _ => none

/-- The path given to a switch. -/
def path? (name : String) (items : List Item) : Option String :=
  (values name items).findSome? fun
    | .path text => some text
    | _ => none

/-- The number given to a switch. -/
def number? (name : String) (items : List Item) : Option Nat :=
  (values name items).findSome? fun
    | .number n => some n
    | _ => none

/-- The arguments for the method. -/
def arguments (items : List Item) : List HostValue :=
  (values "arg" items).filterMap fun
    | .argument v => some v
    | _ => none

/-- The file that a command works on. -/
def file (items : List Item) : Except Refusal String :=
  match items.findSome? fun | .file path => some path | _ => none with
  | some path => .ok path
  | none => .error .usage

end CommandLine

/-- What to do. -/
inductive Action where
  | run (file : String) (locals : Nat) (arguments : List HostValue) (limit : Option Nat)
    (dump : Option String)
  | disassemble (file : String)
  | benchmark (file : String) (locals : Nat) (arguments : List HostValue) (cycles warmup : Nat)
    (limit : Option Nat)
  | version
deriving DecidableEq

namespace Action

/-- The file that the action reads. -/
def file? : Action → Option String
  | run file .. => some file
  | disassemble file => some file
  | benchmark file .. => some file
  | version => none

end Action

/-- A command line that is carried out (`Args`). -/
structure Invocation where
  verbosity : Nat
  logFile : Option String
  action : Action
deriving DecidableEq

namespace Invocation

open CommandLine

/-- What may stand before the command. -/
def programForm : Form :=
  ⟨[⟨"verbose", some 'v', none⟩, ⟨"log-file", some 'l', some .path⟩], false⟩

/-- What `run` takes. -/
def runForm : Form :=
  ⟨[⟨"locals", none, some .number⟩, ⟨"arg", none, some .argument⟩,
    ⟨"max-steps", none, some .number⟩, ⟨"dump-locals", none, some .path⟩], true⟩

/-- What `disassemble` takes. -/
def disassembleForm : Form := ⟨[], true⟩

/-- What `benchmark` takes. -/
def benchmarkForm : Form :=
  ⟨[⟨"locals", none, some .number⟩, ⟨"arg", none, some .argument⟩, ⟨"cycles", none, some .number⟩,
    ⟨"warmup", none, some .number⟩, ⟨"max-steps", none, some .number⟩], true⟩

/-- What `version` takes. -/
def versionForm : Form := ⟨[], false⟩

/-- The items in the words of a command, in order. -/
def itemsOf (form : Form) (words : List String) : Except Refusal (List Item) := do
  return (← (← readWords form .start words).settle).items.reverse

/-- The number of locals when none is given. -/
def defaultLocals : Nat := 16

/-- Interprets the words after `run`. -/
def readRun (words : List String) : Except Refusal Action := do
  let items ← itemsOf runForm words
  return .run (← file items) ((number? "locals" items).getD defaultLocals) (arguments items)
    (number? "max-steps" items) (path? "dump-locals" items)

/-- Interprets the words after `benchmark`. -/
def readBenchmark (words : List String) : Except Refusal Action := do
  let items ← itemsOf benchmarkForm words
  return .benchmark (← file items) ((number? "locals" items).getD defaultLocals) (arguments items)
    ((number? "cycles" items).getD 10000) ((number? "warmup" items).getD 1000)
    (number? "max-steps" items)

/-- The names of the commands. -/
def commands : List String := ["run", "disassemble", "benchmark", "version", "help"]

/-- Interprets the words after `help`: at most the name of a command. -/
def readHelp : List String → Refusal
  | [] => .help
  | [command] => if command ∈ commands then .help else .usage
  | _ => .usage

/-- Interprets a command and its words. -/
def readAction (command : String) (words : List String) : Except Refusal Action :=
  match command with
  | "run" => readRun words
  | "disassemble" => do return .disassemble (← file (← itemsOf disassembleForm words))
  | "benchmark" => readBenchmark words
  | "version" => do
    let _ ← itemsOf versionForm words
    return .version
  | "help" => .error (readHelp words)
  | _ => .error .usage

/-- Interprets a command line. -/
def read (words : List String) : Except Refusal Invocation := do
  let (r, command, rest) ← readLeading programForm .start words
  let action ← readAction command rest
  let items := (← r.settle).items
  return ⟨countFlag "verbose" items, path? "log-file" items, action⟩

end Invocation

end MethodMachine
