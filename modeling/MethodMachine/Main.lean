/-
# The program

jemu's `main`.

Reads the file that the command line names, carries the command line out, and writes what it leaves.
Times are measured here: a benchmark is timed run by run before its report is made.

A file that cannot be written is known only when it is tried.  The command line is then carried out
again on a store that refuses it, so that the report tells of the failure.
-/

import MethodMachine.CommandLine.Session

namespace MethodMachine

/-- Paths that the system refuses, with its reasons. -/
abbrev Refused := List ((FileAccess × String) × FileError)

/-- What the system says of a path. -/
def fileErrorOf : IO.Error → FileError
  | .noFileOrDirectory _ code reason => .other (FileError.numbered reason code.toNat)
  | .invalidArgument _ 36 _ => .nameTooLong
  | .inappropriateType _ code reason => .other (FileError.numbered reason code.toNat)
  | .permissionDenied _ code reason => .other (FileError.numbered reason code.toNat)
  | .resourceExhausted _ code reason => .other (FileError.numbered reason code.toNat)
  | .otherError code reason => .other (FileError.numbered reason code.toNat)
  | e => .other (toString e)

/-- The store of the whole system, of which some files are known. -/
def systemStore (files : List (String × ByteArray)) (refused : Refused) : FileStore where
  files := files
  rule exists? access path :=
    match access, Device.paths.lookup path, refused.lookup (access, path) with
    | .creating, some d, _ => .ok (.device d)
    | .creating, none, some e => .error e
    | .reading, _, some e => if exists? path then .ok (.file path) else .error e
    | _, _, none => .ok (.file path)

/-- The file that a command line reads, or why it cannot be read. -/
def gatherFiles (words : List String) : IO (List (String × ByteArray) × Refused) := do
  match (Invocation.read words).toOption.bind fun i => i.action.file? with
  | none => return ([], [])
  | some path =>
    try
      let handle ← IO.FS.Handle.mk path .read
      return ([(path, ← handle.readBinToEnd)], [])
    catch e => return ([], [((.reading, path), fileErrorOf e)])

/-- The time that runs of a frame take, in microseconds. -/
def timeRuns (f : Frame) (limit : Option Nat) : Nat → IO (List Double)
  | 0 => return []
  | cycles + 1 => do
    let start ← IO.monoNanosNow
    match f.runLimited limit .never (Frame.fuelFor limit) with
    | some (.ok (.returned _) _) =>
      let nanoseconds := (← IO.monoNanosNow) - start
      let time := Statistics.real nanoseconds / Statistics.real 1000
      return time :: (← timeRuns f limit cycles)
    | _ => return []

/-- The measured times of a benchmark. -/
def measure (store : FileStore) (words : List String) : IO (Option Statistics.Summary) := do
  match Invocation.read words with
  | .ok ⟨_, _, .benchmark file locals arguments cycles _ limit⟩ =>
    match (store.readCode file).toOption.bind
        fun code => (Frame.ofArguments code locals arguments).toOption with
    | none => return none
    | some f =>
      let times ← timeRuns f limit cycles
      let sorted := times.mergeSort fun x y => x.key ≤ y.key
      return some (Statistics.summary sorted.toArray)
  | _ => return none

/-- Writes the files that a session made or changed; the first that cannot be written is
returned. -/
def writeFiles (old : List (String × ByteArray)) :
    List (String × ByteArray) → IO (Option (String × FileError))
  | [] => return none
  | (path, contents) :: rest => do
    if (old.lookup path).map (·.data) = some contents.data then writeFiles old rest
    else
      try
        IO.FS.writeBinFile path contents
        writeFiles old rest
      catch e => return some (path, fileErrorOf e)

/-- Carries out a command line and writes its files.  Each further attempt refuses one path more. -/
def carryOut (times : Option Statistics.Summary) (clock : String) (words : List String)
    (files : List (String × ByteArray)) : (attempts : Nat) → Refused → IO Report
  | 0, refused => return Report.ofWords times clock (systemStore files refused) words
  | attempts + 1, refused => do
    let report := Report.ofWords times clock (systemStore files refused) words
    match ← writeFiles files report.store.files with
    | none => return report
    | some (path, e) =>
      carryOut times clock words files attempts (((.creating, path), e) :: refused)

end MethodMachine

open MethodMachine in
/-- Carries out a command line. -/
def main (words : List String) : IO UInt32 := do
  let (files, refused) ← gatherFiles words
  let times ← measure (systemStore files refused) words
  let clock := toString (← IO.monoNanosNow)
  let report ← carryOut times clock words files 3 refused
  IO.print report.stdout
  IO.eprint report.stderr
  return report.exitCode.toUInt32
