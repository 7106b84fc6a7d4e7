/-
# The working directory

The system around jemu's `load_code`, `dump_locals_to` and `configure`.

The files of a flat directory, and the paths that lead to them.  A path is followed from left to
right: a dot stands for the directory reached so far and two dots for the one that holds it.  A path
through a file or through a name that does not exist leads nowhere, and a path that ends with a
slash leads to no file.  Names and paths have greatest lengths, counted in bytes.

The directory lies in a system with the usual directories and devices, where files can be made
though there are none at first.
-/

import MethodMachine.CommandLine.FileStore

namespace MethodMachine

/-- The directories that a path can pass through. -/
inductive Directory where
  /-- a directory of the system; the names lead to it from the root -/
  | system (names : List String)
  /-- where paths start, a directory for temporary files -/
  | working
deriving DecidableEq

namespace Directory

/-- The directory that everything else lies in. -/
def root : Directory := system []

/-- The directories of the system below its root. -/
def systemNames : List (List String) :=
  [["bin"], ["boot"], ["dev"], ["dev", "fd"], ["dev", "shm"], ["etc"], ["home"], ["lib"], ["media"],
    ["mnt"], ["opt"], ["proc"], ["proc", "self"], ["proc", "self", "fd"], ["root"], ["run"],
    ["sbin"], ["srv"], ["sys"], ["tmp"], ["usr"], ["usr", "bin"], ["usr", "lib"],
    ["usr", "local"], ["usr", "sbin"], ["usr", "share"], ["var"], ["var", "log"], ["var", "tmp"]]

/-- The directory that holds a directory; the root holds itself. -/
def parent : Directory → Directory
  | system names => system names.dropLast
  | working => system ["tmp"]

/-- The directory of a name inside a directory. -/
def child? : Directory → String → Option Directory
  | system names, name =>
    if names ++ [name] ∈ systemNames then some (system (names ++ [name])) else none
  | working, _ => none

/-- The full name of a file in a directory; in the working directory it is the name itself. -/
def fileName : Directory → String → String
  | system names, name => "/" ++ "/".intercalate (names ++ [name])
  | working, name => name

/-- Whether files can be made in a directory: not among the processes and their open files. -/
def takesFiles : Directory → Bool
  | system names => names.head? ≠ some "proc" && names ≠ ["dev", "fd"]
  | working => true

/-- The greatest length of a name. -/
def maxName : Nat := 255

/-- The greatest length of a path. -/
def maxPath : Nat := 4095

/-- The path of the terminal, which no session has. -/
def terminal : String := "/dev/tty"

/-- Where a name in a directory leads, given which files exist. -/
def target (exists? : String → Bool) (access : FileAccess) (directory : Directory) (name : String) :
    Except FileError Target :=
  let full := directory.fileName name
  match Device.paths.lookup full with
  | some d => .ok (.device d)
  | none =>
    if full = terminal then .error .noDevice
    else if exists? full || access = .creating && directory.takesFiles then .ok (.file full)
    else .error .notFound

/-- Whether a name in a directory is a file or a device. -/
def holds (exists? : String → Bool) (directory : Directory) (name : String) : Bool :=
  let full := directory.fileName name
  exists? full || full = terminal || (Device.paths.lookup full).isSome

/-- Follows the parts of a path from a directory on.  A path that ends with a slash never leads to a
file to be made, whatever stands before the slash. -/
def follow (exists? : String → Bool) (access : FileAccess) :
    Directory → List String → Except FileError Target
  | _, [] => .error .isDirectory
  | directory, part :: rest =>
    if part = "" || part = "." then follow exists? access directory rest
    else if part = ".." then follow exists? access directory.parent rest
    else if access = .creating && rest ≠ [] && rest.all (· = "") then .error .isDirectory
    else if maxName < part.utf8ByteSize then .error .nameTooLong
    else
      match directory.child? part with
      | some inner => follow exists? access inner rest
      | none =>
        if rest = [] then directory.target exists? access part
        else .error (if directory.holds exists? part then .notDirectory else .notFound)

end Directory

namespace FileStore

/-- The store of a working directory with given files. -/
def ofWorkingDirectory (files : List (String × ByteArray)) : FileStore where
  files := files
  rule exists? access path :=
    if path = "" then .error .notFound
    else if path.toList.contains (Char.ofNat 0) then .error .zeroInPath
    else if Directory.maxPath < path.utf8ByteSize then .error .nameTooLong
    else
      Directory.follow exists? access (if path.startsWith "/" then .root else .working)
        (path.splitOn "/")

/-- The files of the working directory that differ from those of an earlier store. -/
def changedSince (store earlier : FileStore) : List (String × ByteArray) :=
  store.files.filter fun (name, contents) =>
    !name.toList.contains '/' && (earlier.contents? name).map (·.data) ≠ some contents.data

end FileStore

end MethodMachine
