/-
# Files

The files that jemu's `load_code`, `dump_locals_to` and `configure` open (specification, 9).

A file store holds the contents of files by name and tells where a path leads: to a file or to a
device.

The kind of a file is told by the extension of its path: what follows the last dot of the last name,
unless that dot is the first character.
-/

namespace MethodMachine

/-- Why a path cannot be read or written. -/
inductive FileError where
  | notFound
  | notDirectory
  | isDirectory
  | nameTooLong
  | noDevice
  | noSpace
  | outOfMemory
  | zeroInPath
  | notText
  /-- any other error, in words -/
  | other (reason : String)
deriving DecidableEq

namespace FileError

/-- A reason with the number of the system error. -/
def numbered (reason : String) (code : Nat) : String :=
  reason ++ " (os error " ++ code.repr ++ ")"

/-- The error in words. -/
def message : FileError → String
  | notFound => numbered "No such file or directory" 2
  | notDirectory => numbered "Not a directory" 20
  | isDirectory => numbered "Is a directory" 21
  | nameTooLong => numbered "File name too long" 36
  | noDevice => numbered "No such device or address" 6
  | noSpace => numbered "No space left on device" 28
  | outOfMemory => "out of memory"
  | zeroInPath => "file name contained an unexpected NUL byte"
  | notText => "stream did not contain valid UTF-8"
  | other reason => reason

end FileError

namespace Path

/-- The names between the slashes of a path, without empty ones and single dots. -/
def names (path : String) : List String :=
  (path.splitOn "/").filter fun s => s ≠ "" && s ≠ "."

/-- The last name of a path, unless it leads upwards. -/
def fileName? (path : String) : Option String :=
  (names path).getLast?.filter (· ≠ "..")

/-- What follows the last dot of a name that has something before it. -/
def extension? (name : String) : Option String :=
  let reversed := name.toList.reverse
  match reversed.dropWhile (· ≠ '.') with
  | [] => none
  | [_] => none
  | _ => some (String.ofList (reversed.takeWhile (· ≠ '.')).reverse)

/-- Whether a path has an extension, in any case. -/
def hasExtension (path extension : String) : Bool :=
  ((fileName? path).bind extension?).map String.toLower = some extension

end Path

/-- What a path is looked up for. -/
inductive FileAccess where
  | reading
  | creating
deriving DecidableEq

/-- Something that can be read and written and is no file. -/
inductive Device where
  /-- gives nothing and swallows everything -/
  | null
  /-- gives without end and swallows everything -/
  | endless
  /-- gives without end and takes nothing -/
  | full
  | standardInput
  | standardOutput
  | standardError
deriving DecidableEq

namespace Device

/-- What can be read from a device.  The standard input is taken to be empty. -/
def contents : Device → Except FileError ByteArray
  | endless | full => .error .outOfMemory
  | _ => .ok .empty

/-- The devices and their paths. -/
def paths : List (String × Device) :=
  [("/dev/null", null), ("/dev/zero", endless), ("/dev/random", endless), ("/dev/urandom", endless),
    ("/dev/full", full), ("/dev/stdin", standardInput), ("/dev/stdout", standardOutput),
    ("/dev/stderr", standardError), ("/dev/fd/0", standardInput), ("/dev/fd/1", standardOutput),
    ("/dev/fd/2", standardError), ("/proc/self/fd/0", standardInput),
    ("/proc/self/fd/1", standardOutput), ("/proc/self/fd/2", standardError)]

end Device

/-- Where a path leads. -/
inductive Target where
  | file (name : String)
  | device (d : Device)
deriving DecidableEq

namespace Target

/-- Whether anybody sees what is written to a target. -/
def isSeen : Target → Bool
  | file _ => true
  | device d => d = .standardOutput || d = .standardError

end Target

/-- Files by name, and the rule by which a path leads to a target, given which files exist. -/
structure FileStore where
  files : List (String × ByteArray)
  rule : (String → Bool) → FileAccess → String → Except FileError Target

namespace FileStore

/-- The contents of a file. -/
def contents? (store : FileStore) (name : String) : Option ByteArray := store.files.lookup name

/-- The target that a path leads to. -/
def locate (store : FileStore) (access : FileAccess) (path : String) : Except FileError Target :=
  store.rule (fun name => (store.contents? name).isSome) access path

/-- Puts contents under a name; a new name comes last. -/
def put (store : FileStore) (name : String) (contents : ByteArray) : FileStore :=
  if (store.contents? name).isSome then
    { store with files := store.files.map fun (n, old) => (n, if n = name then contents else old) }
  else { store with files := store.files ++ [(name, contents)] }

/-- Reads what a path leads to. -/
def read (store : FileStore) (path : String) : Except FileError ByteArray := do
  match ← store.locate .reading path with
  | .device d => d.contents
  | .file name =>
    match store.contents? name with
    | some contents => .ok contents
    | none => .error .notFound

/-- Reads what a path leads to, as text. -/
def readText (store : FileStore) (path : String) : Except FileError String := do
  match String.fromUTF8? (← store.read path) with
  | some text => .ok text
  | none => .error .notText

/-- Makes the file that a path leads to, empty; the target is returned. -/
def create (store : FileStore) (path : String) : Except FileError (Target × FileStore) := do
  match ← store.locate .creating path with
  | .device d => return (.device d, store)
  | .file name => return (.file name, store.put name .empty)

/-- Writes bytes into a file from a position on.  A gap before the position is filled with zeros;
writing nothing fills no gap. -/
def writeAt (store : FileStore) (name : String) (position : Nat) (bytes : ByteArray) : FileStore :=
  if bytes.isEmpty then store
  else
    let old := (store.contents? name).getD .empty
    let gap : ByteArray := ⟨Array.replicate (position - old.size) 0⟩
    store.put name
      (old.extract 0 position ++ gap ++ bytes ++ old.extract (position + bytes.size) old.size)

end FileStore

end MethodMachine
